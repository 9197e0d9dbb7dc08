import ObjectQuery.Proofs.Compiler.Run
import ObjectQuery.Proofs.Emission.Parts
import ObjectQuery.Proofs.Reading.Predicates

/-!
# The where clause of a filter

A filter without aggregates, outer joins and empty connectives leaves one readable condition, which
says what the filter means.

* `Composite.split_ne_none`: a condition on a collection has a part.
* `Draft.states_emit`: what a proper filter emits.
* `Draft.visit_reads`: the where clause of a proper filter is a Boolean expression that is read as
  the meaning of the filter, and its having clause stays empty.
-/

namespace ObjectQuery

open Expression

/-! ## Proper filters -/

namespace Filter

theorem areProper_eq (fs : List Filter) : areProper fs = fs.all isProper := by
  induction fs with
  | nil => rfl
  | cons f rest ih => rw [areProper, ih, List.all_cons]

theorem isProper_leaf {t : Test} {condition : Option Composite} {subfilter : Option Filter}
    (h : (Filter.leaf ⟨t, condition, subfilter⟩).isProper = true) :
    t.isProper = true ∧
      ∀ c ∈ condition, c.children ≠ [] ∧ ∀ f ∈ c.children, f.isProper = true := by
  rw [isProper, Bool.and_eq_true] at h
  refine ⟨h.1, ?_⟩
  rintro ⟨operation, children⟩ ⟨⟩
  have hchildren : (!children.isEmpty && areProper children) = true := h.2
  rw [areProper_eq, Bool.and_eq_true, List.all_eq_true] at hchildren
  exact ⟨by simpa using hchildren.1, hchildren.2⟩

theorem isProper_composite {operation : BooleanOp} {children : List Filter}
    (h : (Filter.composite ⟨operation, children⟩).isProper = true) :
    children ≠ [] ∧ ∀ f ∈ children, f.isProper = true := by
  rw [isProper, areProper_eq, Bool.and_eq_true, List.all_eq_true] at h
  exact ⟨by simpa using h.1, h.2⟩

end Filter

/-- A proper filter compares no aggregates. -/
theorem Filter.isAggregateOnly_of_isProper {f : Filter} (h : f.isProper = true) :
    f.isAggregateOnly = false := by
  induction f using Filter.induction with
  | leaf t condition subfilter => exact Test.isAggregate_of_isProper (isProper_leaf h).1
  | composite operation children ih =>
    obtain ⟨hne, hchildren⟩ := isProper_composite h
    rw [isAggregateOnly_composite, areAggregateOnly_eq]
    match children with
    | first :: rest => simp [ih first (by simp) (hchildren first (by simp))]

theorem Filter.areAggregateOnly_of_isProper {fs : List Filter} (hne : fs ≠ [])
    (h : ∀ f ∈ fs, f.isProper = true) : areAggregateOnly fs = false := by
  match fs with
  | first :: rest => simp [areAggregateOnly_eq, isAggregateOnly_of_isProper (h first (by simp))]

/-! ## Parts of conditions -/

namespace Composite

/-- A condition on something has a plain part or a negated one. -/
theorem split_ne_none {c : Composite} (h : c.children ≠ []) : c.split ≠ (none, none) := by
  intro hsplit
  by_cases hnot : c.operation = .not
  · rw [split, if_pos hnot] at hsplit
    cases hsplit
  · rw [split, if_neg hnot] at hsplit
    obtain ⟨hplain, hnegated⟩ := Prod.mk.inj hsplit
    obtain ⟨f, hf⟩ := List.exists_mem_of_ne_nil _ h
    by_cases hneg : f.isNegated = true
    · have hmem : f ∈ c.negatedChildren := List.mem_filter.mpr ⟨hf, hneg⟩
      rw [if_neg (by simpa using List.ne_nil_of_mem hmem)] at hnegated
      cases hnegated
    · have hmem : f ∈ c.plainChildren := List.mem_filter.mpr ⟨hf, by simpa using hneg⟩
      rw [if_neg (by simpa using List.ne_nil_of_mem hmem)] at hplain
      cases hplain

theorem operation_ne_not {c part part' : Composite} (h : c.split = (some part, some part')) :
    c.operation ≠ .not := by
  intro hnot
  rw [split, if_pos hnot] at h
  cases h

end Composite

namespace Draft

variable {k : Compiler} {x : Emission} {M : Draft → Place → Meaning → Prop}

/-! ## Nested selects -/

/-- A nested select leaves one predicate, whose query stands under what the body emits. -/
theorem inSelect_states {reference : Reference} {negated : Bool} {className column : String}
    {d e : Draft} {c : Option Condition}
    (h : (inSelect k reference negated className column x).Yields d c e) :
    ∃ query, c = some (.atom (.inSelect reference negated query)) ∧ e.having = d.having ∧
      ∀ z, e.Underlies z → SelectsUnder k z className column x query := by
  obtain ⟨condition, u, query, v, hbody, hquery, rfl, rfl⟩ := inSelect_yields h
  refine ⟨query.statement, rfl, rfl, fun z hz => ?_⟩
  have hparameters : v.parameters ⊆ z.parameters := fun p hp =>
    hz.parameters.subset (List.mem_append_right _ hp)
  exact ⟨_, condition, u, query, v, hbody, hquery, rfl, hparameters⟩

/-- A test with a nested select relates a reference to it. -/
theorem states_nested {t : Test} (hop : t.operation = .subquery) (ht : t.isAggregate = false)
    (hM : ∀ z s className column r query, t.subqueryClass = some className →
      t.subqueryProperty = some column → RefersFrom k z s t.property r →
      SelectsUnder k z className column x query → M z s (.predicate (.inSelect r false query))) :
    States (subquery k t x) M := by
  intro d c e hd h
  obtain h' | ⟨className, column, hclass, hcolumn, h'⟩ := subquery_yields h
  · rw [test, hop] at h'
    exact (Step.yields_fail.mp h').elim
  · refine states_routed ht (M := M) (fun d c e _ h => ?_) d c e hd h'
    obtain ⟨r, u, hr, h₁⟩ := Step.yields_bind.mp h
    obtain ⟨query, rfl, hhaving, hselects⟩ := inSelect_states h₁
    have hsame : u.having = d.having := by
      obtain ⟨a, -, rfl⟩ := resolve_yields hr
      rfl
    refine ⟨hhaving.trans hsame, _, rfl, trivial, fun z hz => ?_⟩
    have hgathered : u.Underlies e :=
      ((underlies k).toTestRules.inSelect r false className column).yields h₁
    have hrefers := refersFrom_of_resolve hr (hgathered.trans hz)
    exact hM z _ className column r query hclass hcolumn hrefers (hselects z hz)

theorem states_subquery {t : Test} (hop : t.operation = .subquery) (ht : t.isAggregate = false)
    (condition : Option Composite) (subfilter : Option Filter) :
    States (emitSubquery k t subfilter) fun z s m =>
      Filter.Means k z s (.leaf ⟨t, condition, subfilter⟩) m := by
  cases subfilter with
  | none =>
    refine states_nested hop ht fun z s className column r query hclass hcolumn hrefers hquery => ?_
    exact .subquery hop ⟨className, column, r, query, hclass, hcolumn, rfl, hrefers, hquery⟩
  | some f =>
    refine states_nested hop ht fun z s className column r query hclass hcolumn hrefers hquery => ?_
    exact .subquery hop ⟨className, column, r, query, hclass, hcolumn, rfl, hrefers, hquery⟩

theorem states_excluding {property : String} (part : Composite) :
    States (excluding k property (emit k (.composite part))) fun z s m =>
      ∃ p, Excludes k z s property part p ∧ m = .predicate p := by
  intro d c e _ h
  obtain ⟨inverse, declared, element, aliasName, hinverse, hdeclared, htarget, halias, h'⟩ :=
    excluding_yields h
  obtain ⟨query, rfl, hhaving, hselects⟩ := inSelect_states h'
  rw [← d.aliases.currentClass_place] at hinverse hdeclared
  rw [← d.aliases.currentAlias_place] at halias
  refine ⟨hhaving, _, rfl, trivial, fun z hz => ⟨_, ?_, rfl⟩⟩
  exact ⟨inverse, declared, element, aliasName, query, hinverse, hdeclared, htarget, halias, rfl,
    hselects z hz⟩

/-! ## Conditions on collections -/

/-- In the scope of the elements, a part is meant at their place. -/
theorem states_inScope {property : String} {outer : Bool} (hx : States x M)
    (hgathered : Step.Leads Underlies Underlies x) :
    States (inScope k property outer x) fun z s m =>
      ∃ inner, LeadsInto k z s property inner ∧ M z inner m := by
  intro d c e _ h
  obtain ⟨a, u, henters, hu, rfl⟩ := inScope_yields h
  have hopen : a.scopes ≠ [] := by
    obtain ⟨v, scope, -, rfl⟩ := henters.opens
    exact List.cons_ne_nil _ _
  obtain ⟨hhaving, w, hw, hreadable, hmeaning⟩ := hx (d.withAliases a) c u hopen hu
  refine ⟨hhaving, w, hw, hreadable, fun z hz => ?_⟩
  have hlater : u.Underlies z := (Underlies.refl u).pop.trans hz
  have hjoins := (hgathered.yields hu).aliases
  exact ⟨a.place, ⟨d.aliases, a, rfl, henters, rfl, IsTrans.trans _ _ _ hjoins hlater.aliases⟩,
    hmeaning z hlater⟩

/-- Two parts stand under the connective of a condition. -/
theorem meaning_connective {operation : BooleanOp} (h : operation ≠ .not) (cs : List Condition) :
    (Condition.group (operation == .or) cs).meaning =
      .under operation (cs.map Condition.meaning) := by
  rw [Condition.meaning_group]
  cases operation with
  | and | or => rfl
  | not => exact absurd rfl h

/-- A plain part is stated at the place of the elements. The scope is closed behind it. -/
theorem keptPart_states {property : String} {outer : Bool} {part : Composite}
    (hx : States (emit k (.composite part)) fun z s m => Filter.Means k z s (.composite part) m)
    {d u : Draft} {kept : Option Condition} (hd : d.aliases.scopes ≠ [])
    (h : (inScope k property outer (emit k (.composite part))).Yields d kept u) :
    d.aliases.Resumes u.aliases ∧ u.having = d.having ∧ ∃ w, kept = some w ∧ w.IsReadable ∧
      ∀ z, u.Underlies z → ∃ inner, LeadsInto k z d.aliases.place property inner ∧
        Filter.Means k z inner (.composite part) w.meaning := by
  have hsteady : Steady (inScope k property outer (emit k (.composite part))) :=
    (continues k).inScope _ _ (steady_emit k _)
  exact ⟨(hsteady.yields h hd).aliases, states_inScope hx ((underlies k).emit _) d kept u hd h⟩

/-- A condition states its plain part at the place of the elements and the exclusion of its negated
part, under its connective. -/
theorem states_emitCondition {t : Test} {c : Composite} (hop : t.operation = .collectionCondition)
    (hne : c.children ≠ []) (subfilter : Option Filter)
    (hplain : ∀ part, c.split.1 = some part → States (emit k (.composite part)) fun z s m =>
      Filter.Means k z s (.composite part) m) :
    States (emitCondition k t (some c)) fun z s m =>
      Filter.Means k z s (.leaf ⟨t, some c, subfilter⟩) m := by
  intro d condition e hd h
  rw [emitCondition_eq] at h
  obtain ⟨v, hparts, rfl⟩ := Step.yields_restoring.mp h
  have hrestored : v.Underlies { v with inTheta := d.inTheta } := { Underlies.refl v with }
  have hopen : Aliases.scopes (aliases { d with inTheta := namesClass t.property }) ≠ [] := hd
  -- A condition on something has one of its parts, or both.
  obtain ⟨kept, u, excluded, rfl, ⟨hnone, rfl, rfl⟩ | ⟨part, hpart, hkept⟩,
    ⟨hnone', rfl, rfl⟩ | ⟨part', hpart', hexcluded⟩⟩ := emitParts_yields hparts
  · exact absurd (Prod.ext hnone hnone') (Composite.split_ne_none hne)
  · obtain ⟨hhaving, b, rfl, hb, hmeaning⟩ := states_excluding part' _ _ _ hopen hexcluded
    refine ⟨hhaving, b, rfl, hb, fun z hz => ?_⟩
    obtain ⟨p, hp, hbp⟩ := hmeaning z (hrestored.trans hz)
    rw [hbp]
    exact .negated hop (Prod.ext hnone hpart') hp
  · obtain ⟨-, hhaving, a, rfl, ha, hmeaning⟩ := keptPart_states (hplain part hpart) hopen hkept
    refine ⟨hhaving, a, rfl, ha, fun z hz => ?_⟩
    obtain ⟨inner, hinner, hmeans⟩ := hmeaning z (hrestored.trans hz)
    exact .plain hop (Prod.ext hpart hnone') hinner hmeans
  · have hsplit : c.split = (some part, some part') := Prod.ext hpart hpart'
    obtain ⟨hresumes, hhaving, a, rfl, ha, hmeaning⟩ :=
      keptPart_states (hplain part hpart) hopen hkept
    obtain ⟨hhaving', b, rfl, hb, hmeaning'⟩ :=
      states_excluding part' _ _ _ (hresumes.scopes_ne_nil hopen) hexcluded
    have hafter : u.Underlies v := (leads_excluding (underlies k).parameters).yields hexcluded
    refine ⟨hhaving'.trans hhaving, .group (c.operation == .or) [a, b], rfl,
      ⟨by simp, ha, hb, trivial⟩, fun z hz => ?_⟩
    obtain ⟨inner, hinner, hmeans⟩ := hmeaning z (hafter.trans (hrestored.trans hz))
    obtain ⟨p, hp, hbp⟩ := hmeaning' z (hrestored.trans hz)
    rw [hresumes.place] at hp
    rw [meaning_connective (Composite.operation_ne_not hsplit), List.map_cons, List.map_cons,
      List.map_nil, hbp]
    exact .divided hop hsplit hinner hmeans hp

/-! ## Filters -/

/-- What the children of a composite emit. -/
theorem statesEach_emitEach {fs : List Filter}
    (h : ∀ f ∈ fs, States (emit k f) fun z s m => f.Means k z s m) :
    StatesEach (emitEach k .all fs) fun z s ms => List.Forall₂ (Filter.Means k z s) fs ms := by
  induction fs with
  | nil => exact statesEach_nil
  | cons f rest ih =>
    obtain ⟨hf, hrest⟩ := List.forall_mem_cons.mp h
    rw [emitEach_cons, emitSelected]
    exact statesEach_together hf (ih hrest) (steady_emit k f) ((underlies k).emitEach .all rest)

theorem states_emitComposite {c : Composite} (hne : c.children ≠ [])
    (hproper : ∀ f ∈ c.children, f.isProper = true)
    (h : ∀ f ∈ c.children, States (emit k f) fun z s m => f.Means k z s m) :
    States (emit k (.composite c)) fun z s m => Filter.Means k z s (.composite c) m := by
  obtain ⟨operation, children⟩ := c
  have hplain := Filter.areAggregateOnly_of_isProper hne hproper
  refine (states_composite ⟨operation, children⟩ hplain (statesEach_emitEach h) ?_).mono ?_
  · rintro z s _ hms rfl
    exact hne (List.forall₂_nil_right_iff.mp hms)
  · rintro z s _ ⟨ms, hms, rfl⟩
    obtain ⟨hlength, hmeans⟩ := List.forall₂_iff_zip.mp hms
    exact .composite hlength fun f m => hmeans

/-- A proper filter leaves its meaning. -/
theorem states_emit {f : Filter} (hf : f.isProper = true) :
    States (emit k f) fun z s m => f.Means k z s m := by
  induction f using Filter.induction with
  | leaf t condition subfilter ihc ihs =>
    obtain ⟨ht, hcondition⟩ := Filter.isProper_leaf hf
    have htest : States (test k t) fun z s m =>
        Filter.Means k z s (.leaf ⟨t, condition, subfilter⟩) m :=
      (states_test ht).mono fun z s m hm => .test hm
    rw [emit, emitLeaf]
    split
    · rename_i hop
      cases condition with
      | none => exact htest
      | some c =>
        obtain ⟨hne, hchildren⟩ := hcondition c rfl
        refine states_emitCondition hop hne subfilter fun part hpart => ?_
        obtain ⟨hpartne, hmem⟩ := Composite.split_plain hpart
        exact states_emitComposite hpartne (fun f hf => hchildren f (hmem f hf)) fun f hf =>
          ihc c rfl f (hmem f hf) (hchildren f (hmem f hf))
    · rename_i hop
      exact states_subquery hop (Test.isAggregate_of_isProper ht) condition subfilter
    · exact htest
  | composite operation children ih =>
    obtain ⟨hne, hchildren⟩ := Filter.isProper_composite hf
    exact states_emitComposite hne hchildren fun f hf => ih f hf (hchildren f hf)

/-- The having clause of a proper filter stays empty, and its where clause is a Boolean expression
that is read as the meaning of the filter in the root scope, whatever holds of the predicates. -/
theorem visit_reads {f : Filter} (hf : f.isProper = true) {className : String} {first : Nat}
    {autoIgnoreCase : Bool} {d : Draft}
    (h : (visit k f).Yields { Draft.start className first with autoIgnoreCase } () d) :
    d.having = [] ∧ tokensText (conditionTokens d.conditions) = conditionsText d.conditions ∧
      ∃ m, f.Means k d (Aliases.start className).place m ∧
        ∀ truth, Expression.read truth (conditionTokens d.conditions) = some (m truth) := by
  obtain ⟨c, u, hemit, -, rfl⟩ := visit_yields h
  obtain ⟨hhaving, w, rfl, hreadable, hmeaning⟩ :=
    states_emit hf _ c u (List.cons_ne_nil _ _) hemit
  have hadded : u.Underlies { u with conditions := [w] } := { Underlies.refl u with }
  refine ⟨hhaving, tokensText_conditionTokens _, w.meaning, hmeaning _ hadded, ?_⟩
  intro truth
  show Expression.read truth (w.tokens ++ []) = some (w.holds truth)
  rw [List.append_nil]
  exact Condition.read_tokens hreadable truth

/-- A disjunction whose members are written as a predicate, a chain and a negation. -/
theorem visit_reads_disjunction :
    let k := Compiler.linkedAccounts
    let f := Filter.or [.compare .eq "name" (.text "alice"),
      .containsAll "groups" [.text "staff", .text "admin"], .not (.compare .isNull "name" .null)]
    f.isProper = true ∧ ∃ d, (visit k f).Yields (Draft.start "Identity" 0) () d ∧ d.having = [] ∧
      tokensText (conditionTokens d.conditions) = conditionsText d.conditions ∧
      ∃ m, f.Means k d (Aliases.start "Identity").place m ∧
        ∀ truth, Expression.read truth (conditionTokens d.conditions) = some (m truth) := by
  intro k f
  have hf : f.isProper = true := by decide
  have hok : ((visit k f).run (Draft.start "Identity" 0)).result = .ok () := by decide +kernel
  exact ⟨hf, _, ⟨hok, rfl⟩, visit_reads hf ⟨hok, rfl⟩⟩

end Draft

end ObjectQuery
