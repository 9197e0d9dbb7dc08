import ObjectQuery.Proofs.Compiler.Registry
import ObjectQuery.Proofs.Parameters.Assembly

/-!
# The numbering of parameters

Every value is bound to the next number, and every number that is bound is written once: in the
condition that an emission leaves, or in a group of conditions on aggregates.

* `Test.Plain`, `Catalog.Plain`: the names in a test and in a catalog have no colons.
* `Draft.Grows`: a draft has grown by the parameters that come next, each of which is written once.
* `Draft.Carries`: the result of a step holds the parameters by which its draft has grown, apart
  from those in the groups.
* `Draft.carries_emit`: so does what a filter emits.
-/

namespace ObjectQuery

open Text Step

/-- The names in a test have no colons. -/
structure Test.Plain (t : Test) : Prop where
  property : ColonFree t.property
  joinProperty : ColonFree? t.joinProperty
  subqueryClass : ColonFree? t.subqueryClass
  subqueryProperty : ColonFree? t.subqueryProperty
  cast : ColonFree? t.cast

instance (t : Test) : Decidable t.Plain :=
  decidable_of_iff (ColonFree t.property ∧ ColonFree? t.joinProperty ∧ ColonFree? t.subqueryClass ∧
      ColonFree? t.subqueryProperty ∧ ColonFree? t.cast)
    ⟨fun ⟨hproperty, hjoin, hclass, hcolumn, hcast⟩ => ⟨hproperty, hjoin, hclass, hcolumn, hcast⟩,
      fun h => ⟨h.property, h.joinProperty, h.subqueryClass, h.subqueryProperty, h.cast⟩⟩

theorem Test.Plain.withOperation {t : Test} (h : t.Plain) (operation : LogicalOp) (value : Value) :
    (t.withOperation operation value).Plain :=
  ⟨h.property, colonFree?_none, colonFree?_none, colonFree?_none, h.cast⟩

theorem Test.Plain.inherited : Filter.Inherited Test.Plain where
  inverse _ _ ht _ := ht.withOperation _ _
  collapsed _ t _ ht htests :=
    ⟨(htests t ht).1.property, colonFree?_none, colonFree?_none, colonFree?_none, colonFree?_none⟩

/-- The names in a kind of property have no colons. -/
def PropertyKind.Plain : PropertyKind → Prop
  | .scalar | .scalarCollection => True
  | .manyToOne target => ColonFree target
  | .oneToMany target inverse => ColonFree target ∧ ColonFree? inverse

instance : DecidablePred PropertyKind.Plain
  | .scalar | .scalarCollection => .isTrue trivial
  | .manyToOne target => inferInstanceAs (Decidable (ColonFree target))
  | .oneToMany target inverse =>
    inferInstanceAs (Decidable (ColonFree target ∧ ColonFree? inverse))

/-- The names that the properties of a catalog lead to have no colons. -/
def Catalog.Plain (c : Catalog) : Prop := ∀ e ∈ c.entities, ∀ p ∈ e.properties, p.kind.Plain

instance : DecidablePred Catalog.Plain := fun c =>
  inferInstanceAs (Decidable (∀ e ∈ c.entities, ∀ p ∈ e.properties, p.kind.Plain))

theorem PropertyKind.Plain.target {kind : PropertyKind} (h : kind.Plain) :
    ColonFree? kind.target := by
  cases kind with
  | scalar | scalarCollection => exact colonFree?_none
  | manyToOne target =>
    rintro _ ⟨⟩
    exact h
  | oneToMany target inverse =>
    rintro _ ⟨⟩
    exact h.1

theorem Catalog.Plain.property? {c : Catalog} (h : c.Plain) {className name : String} {p : Property}
    (hp : c.property? className name = some p) : p.kind.Plain := by
  obtain ⟨e, he, hown⟩ := List.exists_of_findSome?_eq_some hp
  exact h e (mem_entities_of_mem_lineage he) p (List.mem_of_find?_eq_some hown)

theorem Catalog.Plain.inverse? {c : Catalog} (h : c.Plain) (owner collection : String) :
    ColonFree? (c.inverse? owner collection) := by
  intro inverse hinverse
  unfold Catalog.inverse? at hinverse
  split at hinverse
  · rename_i hp
    exact (h.property? hp).2 inverse hinverse
  · cases hinverse

namespace Draft

variable {k : Compiler} {d e f : Draft} {ns ms : List Nat}

/-! ## Growth -/

/-- The draft `e` has grown out of `d`: values are bound to the numbers that come next, and these
are `ns` with those in the groups that are new. -/
structure Grows (d : Draft) (ns : List Nat) (e : Draft) : Prop where
  plain : e.aliases.Plain
  firstParameter : e.firstParameter = d.firstParameter
  conditions : e.conditions = d.conditions
  written : ∃ (bound : List Parameter) (groups : List (Option Condition)),
    e.parameters = d.parameters ++ bound ∧
    bound.map (·.number) = List.range' d.nextParameter bound.length ∧
    e.having = d.having ++ groups ∧ PlainGroups groups ∧
    (ns ++ groupNumbers groups).Perm (List.range' d.nextParameter bound.length)

namespace Grows

theorem trans (h : d.Grows ns e) (h' : e.Grows ms f) : d.Grows (ns ++ ms) f := by
  obtain ⟨bound, groups, hbound, hnumbers, hhaving, hgroups, hperm⟩ := h.written
  obtain ⟨bound', groups', hbound', hnumbers', hhaving', hgroups', hperm'⟩ := h'.written
  -- The second part goes on with the number behind those of the first.
  have hnext : e.nextParameter = d.nextParameter + bound.length := by
    simp only [nextParameter, h.firstParameter, hbound, List.length_append, Nat.add_assoc]
  rw [hnext] at hnumbers' hperm'
  refine ⟨h'.plain, h'.firstParameter.trans h.firstParameter, h'.conditions.trans h.conditions,
    bound ++ bound', groups ++ groups', ?_, ?_, ?_, plainGroups_append.mpr ⟨hgroups, hgroups'⟩, ?_⟩
  · rw [hbound', hbound, List.append_assoc]
  · rw [List.map_append, hnumbers, hnumbers', List.length_append, List.range'_append_1]
  · rw [hhaving', hhaving, List.append_assoc]
  · rw [groupNumbers_append, List.length_append, ← List.range'_append_1]
    refine .trans ?_ (hperm.append hperm')
    rw [List.append_assoc, List.append_assoc]
    refine .append_left ns ?_
    rw [← List.append_assoc, ← List.append_assoc]
    exact .append_right _ List.perm_append_comm

theorem refl (hd : d.aliases.Plain) : d.Grows [] d :=
  ⟨hd, rfl, rfl, [], [], by simp, rfl, by simp, trivial, .nil⟩

theorem withAliases (d : Draft) {a : Aliases} (ha : a.Plain) : d.Grows [] (d.withAliases a) :=
  ⟨ha, rfl, rfl, [], [], by simp [Draft.withAliases], rfl, by simp [Draft.withAliases], trivial, .nil⟩

theorem binding (d : Draft) {a : Aliases} (ha : a.Plain) (values : List Value) :
    d.Grows (List.range' d.nextParameter values.length) ((d.withAliases a).binding values) := by
  refine ⟨ha, rfl, rfl, numbered d.nextParameter values, [], rfl, ?_,
    by simp [Draft.binding, Draft.withAliases], trivial, ?_⟩
  · rw [number_numbered, length_numbered]
  · rw [length_numbered, groupNumbers, List.append_nil]

/-- Aliases may change before or after. -/
theorem realias (h : d.Grows ns e) {a : Aliases} (ha : a.Plain) : d.Grows ns (e.withAliases a) :=
  ⟨ha, h.firstParameter, h.conditions, h.written⟩

theorem of_withAliases {a : Aliases} (h : (d.withAliases a).Grows ns e) : d.Grows ns e :=
  ⟨h.plain, h.firstParameter, h.conditions, h.written⟩

/-- A group of conditions on aggregates takes the parameters over. -/
theorem addGroup {group : Option Condition} (hgroup : PlainGroup group)
    (h : Grows { d with inHaving := true } (groupNumber group) e) :
    d.Grows [] (Draft.addGroup { e with inHaving := d.inHaving } group) := by
  obtain ⟨bound, groups, hbound, hnumbers, hhaving, hgroups, hperm⟩ := h.written
  unfold Draft.addGroup
  split
  · rename_i hnothing
    rw [Bool.and_eq_true, Option.isNone_iff_eq_none] at hnothing
    obtain ⟨-, rfl⟩ := hnothing
    exact ⟨h.plain, h.firstParameter, h.conditions, bound, groups, hbound, hnumbers, hhaving, hgroups,
      hperm⟩
  · refine ⟨h.plain, h.firstParameter, h.conditions, bound, groups ++ [group], hbound, hnumbers, ?_,
      plainGroups_append.mpr ⟨hgroups, hgroup, trivial⟩, ?_⟩
    · show e.having ++ [group] = _
      rw [hhaving, List.append_assoc]
    · refine .trans ?_ hperm
      rw [List.nil_append, groupNumbers_append, groupNumbers, groupNumbers, List.append_nil]
      exact List.perm_append_comm

end Grows

/-! ## Steps that carry their parameters -/

/-- From aliases without colons, the result of the step meets `P` and holds the parameters by which
the draft has grown, apart from those in the groups. -/
def Carries {α : Type} (P : α → Prop) (numbers : α → List Nat) (x : Step Draft α) : Prop :=
  ∀ d a e, x.Yields d a e → d.aliases.Plain → P a ∧ d.Grows (numbers a) e

/-- The emission carries the parameters of its condition. -/
abbrev CarriesCondition (x : Emission) : Prop := Carries PlainGroup groupNumber x

/-- The step carries the parameters of its conditions. -/
abbrev CarriesConditions (xs : Step Draft (List Condition)) : Prop :=
  Carries PlainConditions conditionNumbers xs

theorem carries_pure {α : Type} {P : α → Prop} {numbers : α → List Nat} {a : α} (h : P a)
    (hnone : numbers a = []) : Carries P numbers (Pure.pure a : Step Draft α) := by
  intro d b e hx hd
  obtain ⟨rfl, rfl⟩ := Step.yields_pure.mp hx
  rw [hnone]
  exact ⟨h, .refl hd⟩

/-- A result made of another carries the same parameters. -/
theorem Carries.map {α β : Type} {P : α → Prop} {Q : β → Prop} {ms : α → List Nat}
    {ns : β → List Nat} {x : Step Draft α} {f : α → β} (hx : Carries P ms x)
    (hf : ∀ a, P a → Q (f a) ∧ ns (f a) = ms a) :
    Carries Q ns (x >>= fun a => Pure.pure (f a)) := by
  intro d b e h hd
  obtain ⟨a, u, hxa, h₁⟩ := Step.yields_bind.mp h
  obtain ⟨rfl, rfl⟩ := Step.yields_pure.mp h₁
  obtain ⟨ha, hgrows⟩ := hx d a _ hxa hd
  obtain ⟨hfa, hsame⟩ := hf a ha
  rw [hsame]
  exact ⟨hfa, hgrows⟩

/-- What a first step carries stands before what the next one carries. -/
theorem Carries.bind {α β γ : Type} {P : α → Prop} {Q : β → Prop} {R : γ → Prop}
    {ms : α → List Nat} {ns : β → List Nat} {ls : γ → List Nat} {x : Step Draft α}
    {y : α → Step Draft β} {f : α → β → γ} (hx : Carries P ms x)
    (hy : ∀ a, P a → Carries Q ns (y a))
    (hf : ∀ a b, P a → Q b → R (f a b) ∧ ls (f a b) = ms a ++ ns b) :
    Carries R ls (do let a ← x; let b ← y a; pure (f a b)) := by
  intro d c e h hd
  obtain ⟨a, u, hxa, h₁⟩ := Step.yields_bind.mp h
  obtain ⟨b, v, hyb, h₂⟩ := Step.yields_bind.mp h₁
  obtain ⟨rfl, rfl⟩ := Step.yields_pure.mp h₂
  obtain ⟨ha, hgrows⟩ := hx d a u hxa hd
  obtain ⟨hb, hgrows'⟩ := hy a ha _ b _ hyb hgrows.plain
  obtain ⟨hfab, hsame⟩ := hf a b ha hb
  rw [hsame]
  exact ⟨hfab, hgrows.trans hgrows'⟩

/-! ## Predicates -/

theorem carries_fail {α : Type} {P : α → Prop} {numbers : α → List Nat} (err : CompileError) :
    Carries P numbers (Step.fail err : Step Draft α) := by
  intro d a e h
  exact (Step.yields_fail.mp h).elim

/-- The reference of a path without colons has none, and no parameters. -/
theorem carries_resolve {path : String} (h : ColonFree path) (ownJoins : Bool) :
    Carries (fun r : Reference => ColonFree r.render) (fun _ => []) (resolve k path ownJoins) := by
  intro d r e hx hd
  obtain ⟨a, ha, rfl⟩ := resolve_yields hx
  obtain ⟨hplain, hr⟩ := Aliases.keeps_resolve h _ _ _ _ ha hd
  exact ⟨hr r rfl, .withAliases d hplain⟩

theorem carries_resolveCollection {path : String} (h : ColonFree path) :
    Carries (fun r : Reference => ColonFree r.render) (fun _ => []) (resolveCollection k path) := by
  intro d r e hx hd
  obtain ⟨a, ha, rfl⟩ := resolveCollection_yields hx
  obtain ⟨hplain, hr⟩ := Aliases.keeps_resolve h _ _ _ _ ha hd
  exact ⟨hr r rfl, .withAliases d hplain⟩

theorem colonFree_operand {r : Reference} (hr : ColonFree r.render) (upper : Bool)
    {cast : Option String} (hcast : ColonFree? cast) :
    ColonFree (Operand.render ⟨r, upper, cast⟩) := by
  have hcased := colonFree_cased hr upper
  cases cast with
  | none => exact hcased
  | some type =>
    exact colonFree_append.mpr ⟨colonFree_append.mpr ⟨colonFree_append.mpr
      ⟨colonFree_append.mpr ⟨by decide, hcased⟩, by decide⟩, hcast type rfl⟩, by decide⟩

/-- No escape character is a colon. -/
theorem boundValue_escape_ne_colon (t : Test) (v : Value) (upper : Bool) :
    (boundValue k t v upper).2 ≠ some ':' := by
  have hcandidates : ':' ∉ Pattern.escapeCandidates := by decide
  unfold boundValue
  dsimp only
  split
  · rename_i s _
    dsimp only
    unfold Pattern.escape
    split
    · simp
    · rename_i c hfind
      dsimp only
      split
      · simp
      · rintro ⟨⟩
        exact hcandidates (List.mem_of_find?_eq_some hfind)
  · simp

theorem carries_plainComparison {t : Test} (ht : t.Plain) (v : Value) {operator : String}
    (hoperator : ColonFree operator) (ownJoins : Bool) :
    Carries Atom.Plain Atom.numbers (plainComparison k t v operator ownJoins) := by
  intro d p e h hd
  obtain ⟨upper, r, a, ha, rfl, rfl⟩ := plainComparison_yields h
  obtain ⟨hplain, hr⟩ := Aliases.keeps_resolve ht.property _ _ _ _ ha hd
  have hleft := colonFree_operand (hr r rfl) upper ht.cast
  refine ⟨⟨hleft, hoperator, boundValue_escape_ne_colon t v upper⟩, ?_⟩
  exact .binding d hplain [(boundValue k t v upper).1]

theorem carries_plainMembership {t : Test} (ht : t.Plain) (values : List Value) :
    Carries Atom.Plain Atom.numbers (plainMembership k t values) := by
  intro d p e h hd
  obtain ⟨-, rfl, rfl⟩ | ⟨-, upper, ownJoins, r, a, ha, rfl, rfl⟩ := plainMembership_yields h
  · exact ⟨trivial, .refl hd⟩
  · obtain ⟨hplain, hr⟩ := Aliases.keeps_resolve ht.property _ _ _ _ ha hd
    refine ⟨colonFree_operand (hr r rfl) upper colonFree?_none, ?_⟩
    have hgrows := Grows.binding d hplain (values.map fun v => (boundValue k t v upper).1)
    rwa [List.length_map] at hgrows

/-- A correlation resolves two paths. -/
theorem carries_correlation {t : Test} (ht : t.Plain) {other : String} (hother : ColonFree other) :
    Carries (fun condition : Correlation => ColonFree condition.render) (fun _ => [])
      (correlation k t other) := by
  intro d condition e h hd
  obtain ⟨right, a, left, b, o, ha, hb, hcondition, rfl⟩ := correlation_yields h
  obtain ⟨hplain, hright⟩ := Aliases.keeps_resolve hother _ _ _ _ ha hd
  obtain ⟨hplain, hleft⟩ := Aliases.keeps_resolve ht.property _ _ _ _ hb hplain
  refine ⟨?_, .withAliases d hplain⟩
  have hright := hright right rfl
  have hleft := hleft left rfl
  rcases hcondition with rfl | rfl
  · exact colonFree_append.mpr ⟨colonFree_append.mpr
      ⟨colonFree_append.mpr ⟨hright, by decide⟩, hleft⟩, by decide⟩
  · exact colonFree_append.mpr ⟨colonFree_append.mpr ⟨hleft, by decide⟩, hright⟩

/-! ## Clauses -/

section

variable {x : Emission}

theorem carries_inHavingGroup (hx : CarriesCondition x) : CarriesCondition (inHavingGroup x) := by
  intro d c e h hd
  obtain ⟨rfl, group, u, hu, rfl⟩ := inHavingGroup_yields h
  obtain ⟨hgroup, hgrows⟩ := hx _ group u hu hd
  exact ⟨trivial, hgrows.addGroup hgroup⟩

theorem carries_routed (isAggregate : Bool) (hx : CarriesCondition x) :
    CarriesCondition (routed isAggregate x) := by
  intro d c e h hd
  obtain h' | ⟨-, -, h'⟩ := routed_yields h
  · exact hx d c e h' hd
  · exact carries_inHavingGroup hx d c e h' hd

theorem carries_combine (operation : BooleanOp) {members : List Condition}
    (h : PlainConditions members) :
    PlainGroup (combine operation members) ∧
      groupNumber (combine operation members) = conditionNumbers members := by
  cases members with
  | nil => cases operation <;> exact ⟨trivial, rfl⟩
  | cons c rest => cases operation <;> exact ⟨h, rfl⟩

theorem carries_combined (operation : BooleanOp) {xs : Step Draft (List Condition)}
    (hxs : CarriesConditions xs) : CarriesCondition (combined operation xs) := by
  intro d c e h hd
  obtain ⟨members, rfl, h' | ⟨u, h', rfl⟩⟩ := combined_yields h
  · obtain ⟨hmembers, hgrows⟩ := hxs d members e h' hd
    obtain ⟨hplain, hnumbers⟩ := carries_combine operation hmembers
    rw [hnumbers]
    exact ⟨hplain, hgrows⟩
  · obtain ⟨hmembers, hgrows⟩ := hxs _ members u h' (hd.withInsideOr true)
    obtain ⟨hplain, hnumbers⟩ := carries_combine operation hmembers
    rw [hnumbers]
    exact ⟨hplain, hgrows.of_withAliases.realias (hgrows.plain.withInsideOr _)⟩

theorem carries_composite (c : Composite) {xs : Step Draft (List Condition)}
    (hxs : CarriesConditions xs) : CarriesCondition (composite c xs) := by
  have hcombined := carries_combined c.operation hxs
  intro d condition e h hd
  obtain h' | ⟨-, -, h'⟩ := composite_yields h
  · exact hcombined d condition e h' hd
  · exact carries_inHavingGroup hcombined d condition e h' hd

theorem carries_together {xs : Step Draft (List Condition)} (hx : CarriesCondition x)
    (hxs : CarriesConditions xs) : CarriesConditions (together x xs) := by
  refine hx.bind (fun _ _ => hxs) fun condition conditions hcondition hconditions => ⟨?_, ?_⟩
  · exact plainConditions_append.mpr ⟨plainConditions_toList.mpr hcondition, hconditions⟩
  · rw [conditionNumbers_append, conditionNumbers_toList]

end

/-! ## Leaves -/

/-- An atom alone. -/
theorem carries_atom {x : Step Draft Atom} (hx : Carries Atom.Plain Atom.numbers x) :
    CarriesCondition (x >>= predicate) :=
  hx.map fun _ ha => ⟨ha, rfl⟩

theorem carries_comparison {t : Test} (ht : t.Plain) (v : Value) {operator : String}
    (hoperator : ColonFree operator) : CarriesCondition (comparison k t v operator) :=
  carries_routed _ (carries_atom (carries_plainComparison ht v hoperator false))

theorem carries_nullCheck {t : Test} (ht : t.Plain) (isNull : Bool) :
    CarriesCondition (nullCheck k t isNull) :=
  carries_routed _ ((carries_resolve ht.property false).map fun _ hr => ⟨hr, rfl⟩)

theorem carries_equality {t : Test} (ht : t.Plain) (v : Value) (equal : Bool) :
    CarriesCondition (equality k t v equal) := by
  unfold equality
  split
  · exact carries_nullCheck ht equal
  · refine carries_comparison ht v ?_
    cases equal <;> decide

theorem carries_emptyCheck {t : Test} (ht : t.Plain) : CarriesCondition (emptyCheck k t) :=
  carries_routed _ ((carries_resolveCollection ht.property).map fun _ hr => ⟨hr, rfl⟩)

theorem carries_equalities {t : Test} (ht : t.Plain) (values : List Value) :
    CarriesConditions (equalities k t values) := by
  induction values with
  | nil => exact carries_pure trivial rfl
  | cons v rest ih =>
    exact carries_together (carries_equality (ht.withOperation .eq v) v true) ih

theorem carries_membership {t : Test} (ht : t.Plain) : CarriesCondition (membership k t) := by
  unfold membership
  dsimp only
  split
  · split
    · exact carries_equality (ht.withOperation .eq _) _ true
    · exact carries_composite _ (carries_equalities ht _)
  · exact carries_routed _ (carries_atom (carries_plainMembership ht _))

theorem carries_separateComparisons {t : Test} (ht : t.Plain) (values : List Value) :
    CarriesConditions (separateComparisons k t values) := by
  induction values with
  | nil => exact carries_pure trivial rfl
  | cons v rest ih =>
    exact (carries_plainComparison ht v (by decide) true).bind (fun _ _ => ih)
      fun _ _ hp hrest => ⟨⟨hp, hrest⟩, rfl⟩

theorem carries_containsAll {t : Test} (ht : t.Plain) : CarriesCondition (containsAll k t) := by
  intro d c e h hd
  obtain ⟨v, -, h'⟩ | ⟨-, h'⟩ := containsAll_yields h
  · exact carries_equality ht v true d c e h' hd
  · refine carries_routed _ ((carries_separateComparisons ht _).map fun members hmembers => ?_)
      d c e h' hd
    cases members with
    | nil => exact ⟨trivial, rfl⟩
    | cons c rest => exact ⟨hmembers, rfl⟩

theorem carries_join {t : Test} (ht : t.Plain) : CarriesCondition (join k t) := by
  intro d c e h hd
  obtain ⟨other, condition, hproperty, -, rfl, hjoined⟩ := join_yields h
  have hother := ht.joinProperty other hproperty
  have hclass := (Path.colonFree_head hother).1
  obtain ⟨-, left, a, right, b, ha, hb, rfl, rfl⟩ | ⟨-, hcondition⟩ := hjoined
  · obtain ⟨hplain, hleft⟩ :=
      Aliases.keeps_resolveEnclosing ht.property _ _ _ ha (hd.addThetaSource hclass _)
    obtain ⟨hplain, hright⟩ := Aliases.keeps_resolve hother _ _ _ _ hb hplain
    have hgrows := Grows.withAliases d hplain
    exact ⟨colonFree_append.mpr ⟨colonFree_append.mpr ⟨hleft, by decide⟩, hright right rfl⟩,
      hgrows.plain, hgrows.firstParameter, hgrows.conditions, hgrows.written⟩
  · obtain ⟨hplain, hgrows⟩ :=
      carries_correlation ht hother _ _ _ hcondition (hd.addSource hclass).2
    exact ⟨hplain, hgrows.of_withAliases⟩

theorem carries_leftJoin {t : Test} (ht : t.Plain) : CarriesCondition (leftJoin k t) := by
  intro d c e h hd
  obtain ⟨rfl, other, condition, u, hproperty, -, hcondition, rfl⟩ := leftJoin_yields h
  have hother := ht.joinProperty other hproperty
  have hclass := (Path.colonFree_head hother).1
  obtain ⟨halias, hplain⟩ := hd.obtainClassAlias hclass
  obtain ⟨hcolon, hgrows⟩ := carries_correlation ht hother _ _ _ hcondition hplain
  exact ⟨trivial, hgrows.of_withAliases.realias (hgrows.plain.addOnJoin hclass halias hcolon _)⟩

theorem carries_test {t : Test} (ht : t.Plain) : CarriesCondition (test k t) := by
  unfold test
  cases t.operation with
  | eq | ne => exact carries_equality ht _ _
  | lt | gt | le | ge | like => exact carries_comparison ht _ (by decide)
  | inList => exact carries_membership ht
  | isNull | notNull => exact carries_nullCheck ht _
  | isEmpty => exact carries_emptyCheck ht
  | containsAll => exact carries_containsAll ht
  | join => exact carries_join ht
  | leftJoin => exact carries_leftJoin ht
  | collectionCondition | subquery => exact carries_fail _

/-! ## Nested filters -/

section

variable {x : Emission}

/-- A nested select numbers its parameters on from those of the query around it. It groups nothing,
so that its condition is all that holds them. -/
theorem carries_inSelect {reference : Reference} (hreference : ColonFree reference.render)
    (negated : Bool) {className column : String} (hclass : ColonFree className)
    (hcolumn : ColonFree column) (hx : CarriesCondition x) :
    CarriesCondition (inSelect k reference negated className column x) := by
  intro d c e h hd
  obtain ⟨condition, u, query, v, hbody, hquery, rfl, rfl⟩ := inSelect_yields h
  obtain ⟨hcondition, hgrows⟩ := hx _ condition u hbody (Aliases.Plain.start hclass)
  obtain ⟨bound, groups, hbound, hnumbers, hhaving, hgroups, hperm⟩ := hgrows.written
  have hconditions : (u.addCondition condition).conditions = condition.toList := by
    show u.conditions ++ condition.toList = _
    rw [hgrows.conditions]
    rfl
  have hgroupsOf : (u.addCondition condition).having = groups := hhaving
  have hspec : SelectSpec.Plain { columns := [column] } :=
    ⟨List.forall_mem_singleton.mpr hcolumn, by simp, by simp⟩
  obtain ⟨hparameters, hplain, hwritten⟩ := assembleSelect_plain hspec
    (d := u.addCondition condition) hgrows.plain (by rw [hconditions]; cases condition <;> simp)
    (by rw [hconditions]; exact plainConditions_toList.mpr hcondition)
    (by rw [hgroupsOf]; exact hgroups) hquery
  have hbound : v.parameters = bound := hparameters.trans hbound
  rw [hconditions, hgroupsOf, conditionNumbers_toList] at hwritten
  -- The nested draft is empty and starts with the number that is next outside.
  have hnext : (Draft.start className d.nextParameter).nextParameter = d.nextParameter := rfl
  rw [hnext] at hnumbers hperm
  refine ⟨⟨hreference, hplain⟩, hd, rfl, rfl, bound, [], ?_, hnumbers, by simp, trivial, ?_⟩
  · show d.parameters ++ v.parameters = _
    rw [hbound]
  · show (query.statement.numbers ++ []).Perm _
    rw [List.append_nil, hwritten]
    exact hperm

theorem carries_subquery {t : Test} (ht : t.Plain) (hx : CarriesCondition x) :
    CarriesCondition (subquery k t x) := by
  intro d c e h hd
  obtain h' | ⟨className, column, hclass, hcolumn, h'⟩ := subquery_yields h
  · exact carries_test ht d c e h' hd
  · refine carries_routed _ ?_ d c e h' hd
    intro d c e h hd
    obtain ⟨reference, u, hresolve, h₁⟩ := Step.yields_bind.mp h
    obtain ⟨hreference, hgrows⟩ := carries_resolve ht.property false d reference u hresolve hd
    obtain ⟨hc, hgrows'⟩ := carries_inSelect hreference false (ht.subqueryClass className hclass)
      (ht.subqueryProperty column hcolumn) hx u c e h₁ hgrows.plain
    exact ⟨hc, hgrows.trans hgrows'⟩

theorem carries_excluding (hcatalog : k.catalog.Plain) (property : String)
    (hx : CarriesCondition x) : CarriesCondition (excluding k property x) := by
  intro d c e h hd
  obtain ⟨inverse, declared, element, aliasName, hinverse, hdeclared, htarget, halias, h'⟩ :=
    excluding_yields h
  have hname : ColonFree (Reference.ofAlias aliasName).render := by
    have hcolon := hd.currentAlias aliasName halias
    exact colonFree_append.mpr ⟨colonFree_append.mpr ⟨by decide, hcolon⟩, by decide⟩
  exact carries_inSelect hname true ((hcatalog.property? hdeclared).target element htarget)
    (hcatalog.inverse? _ _ inverse hinverse) hx d c e h' hd

theorem carries_inScope {property : String} (hproperty : ColonFree property) (outer : Bool)
    (hx : CarriesCondition x) : CarriesCondition (inScope k property outer x) := by
  intro d c e h hd
  obtain ⟨a, u, hscope, hu, rfl⟩ := inScope_yields h
  have ha : a.Plain := by
    cases hscope with
    | theta => exact hd.pushTheta
    | collection _ hpush => exact (Aliases.keeps_pushCollection hproperty _ _ _ _ hpush hd).1
  obtain ⟨hc, hgrows⟩ := hx _ c u hu ha
  exact ⟨hc, hgrows.of_withAliases.realias hgrows.plain.pop⟩

theorem carries_elementCondition (hcatalog : k.catalog.Plain) {property : String}
    (hproperty : ColonFree property) (c : Composite) {plain negated : Step Draft (List Condition)}
    (hplain : CarriesConditions plain) (hnegated : CarriesConditions negated) :
    CarriesCondition (elementCondition k property c plain negated) := by
  intro d condition e h hd
  obtain ⟨kept, u, excluded, v, outer, hkept, hexcluded, rfl, rfl⟩ := elementCondition_yields h
  have hkeptPart : CarriesCondition (keptPart k property outer c.split.1 plain) := by
    unfold keptPart
    split
    · exact carries_inScope hproperty outer (carries_composite _ hplain)
    · exact carries_pure trivial rfl
  have hexcludedPart : CarriesCondition (excludedPart k property c.split.2 negated) := by
    unfold excludedPart
    split
    · exact carries_excluding hcatalog property (carries_composite _ hnegated)
    · exact carries_pure trivial rfl
  obtain ⟨ha, hgrows⟩ := hkeptPart _ kept u hkept hd
  obtain ⟨hb, hgrows'⟩ := hexcludedPart u excluded v hexcluded hgrows.plain
  have hboth := hgrows.trans hgrows'
  have hjoined : PlainGroup (joinParts (c.operation == .or) kept excluded) ∧
      groupNumber (joinParts (c.operation == .or) kept excluded) =
        groupNumber kept ++ groupNumber excluded := by
    cases kept with
    | none => exact ⟨hb, rfl⟩
    | some a =>
      cases excluded with
      | none => exact ⟨ha, (List.append_nil _).symm⟩
      | some b =>
        refine ⟨⟨ha, hb, trivial⟩, ?_⟩
        show a.numbers ++ (b.numbers ++ []) = _
        rw [List.append_nil]
        rfl
  rw [hjoined.2]
  exact ⟨hjoined.1, hboth.plain, hboth.firstParameter, hboth.conditions, hboth.written⟩

end

theorem carries_closure (hcatalog : k.catalog.Plain) :
    Closure k Test.Plain CarriesCondition CarriesConditions where
  nothing := carries_pure trivial rfl
  test _ ht := carries_test ht
  nil := carries_pure trivial rfl
  together := carries_together
  composite := carries_composite
  elementCondition _ c _ _ ht hxs hus := carries_elementCondition hcatalog ht.property c hxs hus
  subquery _ _ ht hx := carries_subquery ht hx

/-- What a filter emits carries the parameters that are bound for it. -/
theorem carries_emit (hcatalog : k.catalog.Plain) {f : Filter} (hf : ∀ u ∈ f.tests, u.Plain) :
    CarriesCondition (emit k f) :=
  (carries_closure hcatalog).emit Test.Plain.inherited hf

end Draft

end ObjectQuery
