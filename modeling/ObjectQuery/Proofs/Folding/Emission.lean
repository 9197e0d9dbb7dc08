import ObjectQuery.Proofs.Emission.Clauses
import ObjectQuery.Proofs.Folding.Conditions
import ObjectQuery.Proofs.Reading.Predicates

/-!
# Emissions that fold both sides

* `Draft.Faithful`: a step that binds operands of the restrictions only, and leaves conditions that
  fold both of their sides or none.
* `Draft.faithful_plainComparison`, `Draft.faithful_plainMembership`: the two places where operands
  are bound.
* `Draft.faithful_emit`: every filter whose operands are operands of the restrictions emits like
  this.
-/

namespace ObjectQuery

namespace Draft

variable {k : Compiler} {o : QueryOptions} {d e : Draft}

/-! ## Steps -/

/-- The draft grows by parameters for operands of the restrictions only, and the conditions in the
result fold both of their sides or none. -/
def Faithful {α : Type} (k : Compiler) (o : QueryOptions) (conditions : α → List Condition)
    (x : Step Draft α) : Prop :=
  ∀ d a e, x.Yields d a e → d.Gains k o e ∧ Folding k o e.parameters (conditions a)

/-- The condition of the emission folds both of its sides or none. -/
abbrev FaithfulCondition (k : Compiler) (o : QueryOptions) (x : Emission) : Prop :=
  Faithful k o Option.toList x

/-- The conditions of the step fold both of their sides or none. -/
abbrev FaithfulConditions (k : Compiler) (o : QueryOptions) (xs : Step Draft (List Condition)) :
    Prop :=
  Faithful k o id xs

theorem faithful_fail {α : Type} {conditions : α → List Condition} (err : CompileError) :
    Faithful k o conditions (Step.fail err : Step Draft α) := by
  intro d a e h
  exact (Step.yields_fail.mp h).elim

theorem faithful_pure {α : Type} {conditions : α → List Condition} {a : α}
    (h : conditions a = []) : Faithful k o conditions (Pure.pure a : Step Draft α) := by
  intro d b e hx
  obtain ⟨rfl, rfl⟩ := Step.yields_pure.mp hx
  rw [h]
  exact ⟨.refl _, .nil⟩

/-- A result made of another folds if the other does. -/
theorem Faithful.map {α β : Type} {cs : α → List Condition} {ds : β → List Condition}
    {x : Step Draft α} {f : α → β} (hx : Faithful k o cs x)
    (hf : ∀ a ps, Folding k o ps (cs a) → Folding k o ps (ds (f a))) :
    Faithful k o ds (x >>= fun a => Pure.pure (f a)) := by
  intro d b e h
  obtain ⟨a, u, hxa, h₁⟩ := Step.yields_bind.mp h
  obtain ⟨rfl, rfl⟩ := Step.yields_pure.mp h₁
  obtain ⟨hgains, ha⟩ := hx d a _ hxa
  exact ⟨hgains, hf a _ ha⟩

/-- The conditions of a first step stand before those of the next one. -/
theorem Faithful.bind {α β γ : Type} {cs : α → List Condition} {ds : β → List Condition}
    {es : γ → List Condition} {x : Step Draft α} {y : Step Draft β} {f : α → β → γ}
    (hx : Faithful k o cs x) (hy : Faithful k o ds y) (hf : ∀ a b, es (f a b) = cs a ++ ds b) :
    Faithful k o es (do let a ← x; let b ← y; pure (f a b)) := by
  intro d c e h
  obtain ⟨a, u, hxa, h₁⟩ := Step.yields_bind.mp h
  obtain ⟨b, v, hyb, h₂⟩ := Step.yields_bind.mp h₁
  obtain ⟨rfl, rfl⟩ := Step.yields_pure.mp h₂
  obtain ⟨hgains, ha⟩ := hx d a u hxa
  obtain ⟨hgains', hb⟩ := hy u b _ hyb
  rw [hf]
  exact ⟨hgains.trans hgains', (ha.mono hgains'.subset).append hb⟩

/-! ## Comparisons -/

/-- A store that ignores case by itself is not asked to in a comparison. -/
theorem isUpper_plainComparison {t : Test} {v : Value} {operator : String} {ownJoins : Bool}
    {p : Atom} (h : (plainComparison k t v operator ownJoins).Yields d p e)
    (hcase : k.capabilities.caseInsensitive = true) : p.isUpper = false := by
  obtain ⟨upper, u, hupper, h₁⟩ := Step.yields_bind.mp h
  obtain ⟨reference, w, -, h₂⟩ := Step.yields_bind.mp h₁
  obtain ⟨number, z, -, h₃⟩ := Step.yields_bind.mp h₂
  obtain ⟨rfl, -⟩ := Step.yields_pure.mp h₃
  exact not_ignoresCase hupper hcase

/-- Nor is it asked to for a list. -/
theorem isUpper_plainMembership {t : Test} {values : List Value} {p : Atom}
    (h : (plainMembership k t values).Yields d p e)
    (hcase : k.capabilities.caseInsensitive = true) : p.isUpper = false := by
  unfold plainMembership at h
  split at h
  · obtain ⟨rfl, -⟩ := Step.yields_pure.mp h
    rfl
  · obtain ⟨upper, u, hupper, h₁⟩ := Step.yields_bind.mp h
    obtain ⟨ownJoins, w, -, h₂⟩ := Step.yields_bind.mp h₁
    obtain ⟨reference, y, -, h₃⟩ := Step.yields_bind.mp h₂
    obtain ⟨numbers, z, -, h₄⟩ := Step.yields_bind.mp h₃
    obtain ⟨rfl, -⟩ := Step.yields_pure.mp h₄
    exact not_ignoresCase hupper hcase

/-- The property and the operand of a comparison are put into upper case together. -/
theorem faithful_plainComparison {t : Test} {v : Value} (hasks : o.Asks t.property t.pattern? v)
    {operator : String} (hoperator : operator = "like" ↔ t.operation = .like) (ownJoins : Bool) :
    Faithful k o (fun p => [.atom p]) (plainComparison k t v operator ownJoins) := by
  intro d p e h
  have hinsensitive := isUpper_plainComparison h
  obtain ⟨upper, r, a, ha, rfl, rfl⟩ := plainComparison_yields h
  have hoperand : IsOperand k o (boundValue k t v upper).1 :=
    ⟨_, _, v, upper, hasks, congrArg Prod.fst (boundValue_eq t v upper), hinsensitive⟩
  refine ⟨(Gains.withAliases d a).trans (.binding _ (List.forall_mem_singleton.mpr hoperand)),
    .atom ⟨?_, hinsensitive⟩ rfl⟩
  have hpattern : operator = "like" ↔ t.pattern?.isSome = true := by
    rw [hoperator, Test.pattern?]
    by_cases hlike : t.operation = .like <;> simp [hlike]
  exact ⟨t.property, t.pattern?, v, ⟨_, _, _, ha⟩, hasks, hpattern, _, boundValue_eq t v upper,
    List.mem_append_right _ List.mem_cons_self⟩

/-- The property and all the items of a list are put into upper case together. -/
theorem faithful_plainMembership {t : Test} (hlike : t.operation ≠ .like) {values : List Value}
    (hasks : ∀ v ∈ values, o.Asks t.property none v) :
    Faithful k o (fun p => [.atom p]) (plainMembership k t values) := by
  intro d p e h
  have hinsensitive := isUpper_plainMembership h
  obtain ⟨-, rfl, rfl⟩ | ⟨-, upper, ownJoins, r, a, ha, rfl, rfl⟩ := plainMembership_yields h
  · exact ⟨.refl _, .atom ⟨trivial, hinsensitive⟩ rfl⟩
  · -- Items of a list are no patterns: they are bound as they are, or folded.
    have hbound : ∀ v, (boundValue k t v upper).1 = v.foldIf upper := fun v =>
      boundValue_fst hlike v upper
    have hoperands : ∀ w ∈ values.map fun v => (boundValue k t v upper).1, IsOperand k o w := by
      intro w hw
      obtain ⟨v, hv, rfl⟩ := List.mem_map.mp hw
      exact ⟨_, none, v, upper, hasks v hv, hbound v, hinsensitive⟩
    refine ⟨(Gains.withAliases d a).trans (.binding _ hoperands), .atom ⟨?_, hinsensitive⟩ rfl⟩
    refine ⟨t.property, values, ⟨_, _, _, ha⟩, hasks, ?_⟩
    simp only [← hbound]
    exact forall₂_numbered (List.subset_append_right _ _)

/-! ## Clauses -/

section

variable {x : Emission}

theorem faithful_inHavingGroup (hx : FaithfulCondition k o x) :
    FaithfulCondition k o (inHavingGroup x) := by
  intro d c e h
  obtain ⟨rfl, group, u, hu, rfl⟩ := inHavingGroup_yields h
  obtain ⟨hgains, hgroup⟩ := hx _ group u hu
  exact ⟨hgains.addGroup hgroup, .nil⟩

theorem faithful_routed (isAggregate : Bool) (hx : FaithfulCondition k o x) :
    FaithfulCondition k o (routed isAggregate x) := by
  intro d c e h
  obtain h' | ⟨-, -, h'⟩ := routed_yields h
  · exact hx d c e h'
  · exact faithful_inHavingGroup hx d c e h'

theorem faithful_combined (operation : BooleanOp) {xs : Step Draft (List Condition)}
    (hxs : FaithfulConditions k o xs) : FaithfulCondition k o (combined operation xs) := by
  intro d c e h
  obtain ⟨members, rfl, h' | ⟨u, h', rfl⟩⟩ := combined_yields h
  · obtain ⟨hgains, hmembers⟩ := hxs d members e h'
    exact ⟨hgains, hmembers.combine operation⟩
  · obtain ⟨hgains, hmembers⟩ := hxs _ members u h'
    exact ⟨((Gains.withAliases d _).trans hgains).trans (.withAliases u _),
      hmembers.combine operation⟩

theorem faithful_composite (c : Composite) {xs : Step Draft (List Condition)}
    (hxs : FaithfulConditions k o xs) : FaithfulCondition k o (composite c xs) := by
  have hcombined := faithful_combined c.operation hxs
  intro d condition e h
  obtain h' | ⟨-, -, h'⟩ := composite_yields h
  · exact hcombined d condition e h'
  · exact faithful_inHavingGroup hcombined d condition e h'

theorem faithful_together {xs : Step Draft (List Condition)} (hx : FaithfulCondition k o x)
    (hxs : FaithfulConditions k o xs) : FaithfulConditions k o (together x xs) :=
  hx.bind hxs fun _ _ => rfl

end

/-! ## Leaves -/

/-- A predicate alone. -/
theorem faithful_atom {x : Step Draft Atom} (hx : Faithful k o (fun p => [.atom p]) x) :
    FaithfulCondition k o (x >>= predicate) :=
  hx.map fun _ _ hp => hp

/-- A predicate that compares with no operand. -/
theorem faithful_reference {x : Step Draft Reference} (hx : Realiasing x) {f : Reference → Atom}
    (hfolds : ∀ r bound, (f r).Folds k o bound) (hupper : ∀ r, (f r).isUpper = false)
    (hselects : ∀ r, (f r).selects = []) :
    FaithfulCondition k o (x >>= fun r => predicate (f r)) := by
  intro d c e h
  obtain ⟨r, u, hr, h₁⟩ := Step.yields_bind.mp h
  obtain ⟨rfl, rfl⟩ := predicate_yields.mp h₁
  obtain ⟨a, rfl⟩ := hx _ _ _ hr
  exact ⟨.withAliases d a, .atom ⟨hfolds r _, fun _ => hupper r⟩ (hselects r)⟩

theorem faithful_comparison {t : Test} {v : Value} (hasks : o.Asks t.property t.pattern? v)
    {operator : String} (hoperator : operator = "like" ↔ t.operation = .like) :
    FaithfulCondition k o (comparison k t v operator) :=
  faithful_routed _ (faithful_atom (faithful_plainComparison hasks hoperator false))

theorem faithful_nullCheck (t : Test) (isNull : Bool) :
    FaithfulCondition k o (nullCheck k t isNull) := by
  refine faithful_routed _ (faithful_reference (fun d r e h => ?_) (fun _ _ => trivial)
    (fun _ => rfl) fun _ => rfl)
  obtain ⟨a, -, rfl⟩ := resolve_yields h
  exact ⟨a, rfl⟩

theorem faithful_emptyCheck (t : Test) : FaithfulCondition k o (emptyCheck k t) := by
  refine faithful_routed _ (faithful_reference (fun d r e h => ?_) (fun _ _ => trivial)
    (fun _ => rfl) fun _ => rfl)
  obtain ⟨a, -, rfl⟩ := resolveCollection_yields h
  exact ⟨a, rfl⟩

theorem faithful_equality {t : Test} (hlike : t.operation ≠ .like) {v : Value}
    (hasks : o.Asks t.property none v) (equal : Bool) :
    FaithfulCondition k o (equality k t v equal) := by
  unfold equality
  split
  · exact faithful_nullCheck t equal
  · rw [← Test.pattern?_of_ne_like hlike] at hasks
    refine faithful_comparison hasks (iff_of_false ?_ hlike)
    cases equal <;> decide

/-- A value that a list holds is equated with the property on its own. -/
theorem faithful_equality_item {t : Test} {v : Value} (hasks : o.Asks t.property none v) :
    FaithfulCondition k o (equality k (t.withOperation .eq v) v true) := by
  have hlike : (t.withOperation .eq v).operation ≠ .like := by
    show LogicalOp.eq ≠ .like
    decide
  exact faithful_equality hlike hasks true

theorem faithful_equalities (t : Test) {values : List Value}
    (hasks : ∀ v ∈ values, o.Asks t.property none v) :
    FaithfulConditions k o (equalities k t values) := by
  induction values with
  | nil => exact faithful_pure rfl
  | cons v rest ih =>
    obtain ⟨hv, hrest⟩ := List.forall_mem_cons.mp hasks
    exact faithful_together (faithful_equality_item hv) (ih hrest)

theorem faithful_membership {t : Test} (hlike : t.operation ≠ .like)
    (hasks : ∀ v ∈ t.value.elements, o.Asks t.property none v) :
    FaithfulCondition k o (membership k t) := by
  unfold membership
  dsimp only
  split
  · split
    · rename_i v heq
      rw [heq] at hasks
      exact faithful_equality_item (List.forall_mem_singleton.mp hasks)
    · exact faithful_composite _ (faithful_equalities t hasks)
  · exact faithful_routed _ (faithful_atom (faithful_plainMembership hlike hasks))

theorem faithful_separateComparisons {t : Test} (hlike : t.operation ≠ .like) {values : List Value}
    (hasks : ∀ v ∈ values, o.Asks t.property none v) :
    FaithfulConditions k o (separateComparisons k t values) := by
  induction values with
  | nil => exact faithful_pure rfl
  | cons v rest ih =>
    obtain ⟨hv, hrest⟩ := List.forall_mem_cons.mp hasks
    rw [← Test.pattern?_of_ne_like hlike] at hv
    have hoperator : "=" = "like" ↔ t.operation = .like := iff_of_false (by decide) hlike
    exact (faithful_plainComparison hv hoperator true).bind (ih hrest) fun _ _ => rfl

theorem faithful_containsAll {t : Test} (hlike : t.operation ≠ .like)
    (hasks : ∀ v ∈ t.value.elements, o.Asks t.property none v) :
    FaithfulCondition k o (containsAll k t) := by
  intro d c e h
  obtain ⟨v, hv, h'⟩ | ⟨-, h'⟩ := containsAll_yields h
  · rw [hv] at hasks
    exact faithful_equality hlike (List.forall_mem_singleton.mp hasks) true d c e h'
  · have hmembers := faithful_separateComparisons (k := k) hlike hasks
    refine faithful_routed _ (hmembers.map fun members ps h => ?_) d c e h'
    cases members with
    | nil => exact .nil
    | cons c rest => exact h.chain

/-- A correlation has no operands. -/
theorem realiasing_correlation (t : Test) (other : String) :
    Realiasing (correlation k t other) := by
  intro d condition e h
  obtain ⟨_, _, _, b, _, -, -, -, rfl⟩ := correlation_yields h
  exact ⟨b, rfl⟩

theorem faithful_join (t : Test) : FaithfulCondition k o (join k t) := by
  intro d c e h
  obtain ⟨other, condition, -, -, rfl, hjoined⟩ := join_yields h
  refine ⟨?_, .atom ⟨trivial, fun _ => rfl⟩ rfl⟩
  obtain ⟨-, left, a, right, b, -, -, -, rfl⟩ | ⟨-, hcondition⟩ := hjoined
  · have hgains := Gains.withAliases (k := k) (o := o) d b
    exact ⟨hgains.firstParameter, hgains.conditions, hgains.parameters, hgains.having⟩
  · obtain ⟨b, rfl⟩ := realiasing_correlation t other _ _ _ hcondition
    exact (Gains.withAliases d _).trans (.withAliases _ b)

theorem faithful_leftJoin (t : Test) : FaithfulCondition k o (leftJoin k t) := by
  intro d c e h
  obtain ⟨rfl, other, condition, u, -, -, hcondition, rfl⟩ := leftJoin_yields h
  obtain ⟨b, rfl⟩ := realiasing_correlation t other _ _ _ hcondition
  exact ⟨((Gains.withAliases d _).trans (.withAliases _ b)).trans (.withAliases _ _), .nil⟩

theorem faithful_test {t : Test} (ht : t.StemsFrom o) : FaithfulCondition k o (test k t) := by
  unfold test
  cases hop : t.operation with
  | eq | ne =>
    have hlike : t.operation ≠ .like := by rw [hop]; decide
    refine faithful_equality hlike ?_ _
    rw [← Test.pattern?_of_ne_like hlike]
    exact ht.asks (by rw [hop]; decide) (by rw [hop]; decide)
  | lt | gt | le | ge | like =>
    exact faithful_comparison (ht.asks (by rw [hop]; decide) (by rw [hop]; decide))
      (by rw [hop]; decide)
  | inList =>
    exact faithful_membership (by rw [hop]; decide) fun _ => ht.asks_element (.inl hop)
  | containsAll =>
    exact faithful_containsAll (by rw [hop]; decide) fun _ => ht.asks_element (.inr hop)
  | isNull | notNull => exact faithful_nullCheck t _
  | isEmpty => exact faithful_emptyCheck t
  | join => exact faithful_join t
  | leftJoin => exact faithful_leftJoin t
  | collectionCondition | subquery => exact faithful_fail _

/-! ## Clauses of a select -/

/-- The order puts properties into upper case where it is asked to, but not in a store that ignores
case by itself. -/
theorem upper_orderTerms {orderings : List SortKey} {terms : List OrderTerm}
    (h : (orderTerms k orderings).Yields d terms e) :
    terms.map (·.upper) =
      orderings.map fun key => key.ignoreCase && !k.capabilities.caseInsensitive := by
  induction orderings generalizing d terms with
  | nil =>
    obtain ⟨rfl, -⟩ := Step.yields_pure.mp h
    rfl
  | cons key rest ih =>
    obtain ⟨reference, u, -, h₁⟩ := Step.yields_bind.mp h
    obtain ⟨others, v, hothers, h₂⟩ := Step.yields_bind.mp h₁
    obtain ⟨rfl, rfl⟩ := Step.yields_pure.mp h₂
    rw [List.map_cons, List.map_cons, ih hothers]

/-- Order, projection and grouping bind nothing. -/
theorem assembleSelect_folds {spec : SelectSpec} {assembled : Assembled Select}
    (h : (assembleSelect k spec).Yields d assembled e) :
    e.parameters = d.parameters ∧ assembled.statement.orderBy.map (·.upper) =
      spec.orderings.map fun key => key.ignoreCase && !k.capabilities.caseInsensitive := by
  have h₁ := Step.yields_get_bind.mp h
  split at h₁
  · exact (Step.yields_fail.mp h₁).elim
  · obtain ⟨orderBy, u, horder, h₂⟩ := Step.yields_bind.mp h₁
    obtain ⟨items, v, hselect, h₃⟩ := Step.yields_bind.mp h₂
    obtain ⟨groupBy, w, hgroup, h₄⟩ := Step.yields_bind.mp h₃
    have h₅ := Step.yields_get_bind.mp h₄
    obtain ⟨rfl, rfl⟩ := Step.yields_pure.mp h₅
    have hupper := upper_orderTerms horder
    obtain ⟨_, rfl⟩ := (Realiasing.clauseRules k).orderTerms _ _ _ _ horder
    obtain ⟨_, rfl⟩ := (Realiasing.clauseRules k).selectList _ _ _ _ _ hselect
    obtain ⟨_, rfl⟩ := (Realiasing.clauseRules k).groupTerms _ _ _ _ hgroup
    exact ⟨rfl, hupper⟩

/-! ## Nested filters -/

section

variable {x : Emission}

/-- The parameters of a nested select are handed over to the query around it. -/
theorem faithful_inSelect (reference : Reference) (negated : Bool) (className column : String)
    (hx : FaithfulCondition k o x) :
    FaithfulCondition k o (inSelect k reference negated className column x) := by
  intro d c e h
  obtain ⟨condition, u, query, v, hbody, hquery, rfl, rfl⟩ := inSelect_yields h
  obtain ⟨hgains, hcondition⟩ := hx _ condition u hbody
  obtain ⟨bound, hbound, hnumbers, hoperands⟩ := hgains.parameters
  obtain ⟨groups, hhaving, hgroups⟩ := hgains.having
  obtain ⟨hparameters, horder⟩ := assembleSelect_folds hquery
  obtain ⟨-, hconditions, hquery⟩ := assembleSelect_yields hquery
  -- The nested draft is empty and starts with the number that is next outside.
  have hconditions : query.statement.conditions = condition.toList := by
    refine hconditions.trans ?_
    show u.conditions ++ condition.toList = _
    rw [hgains.conditions]
    rfl
  have hgroupsOf : query.statement.having = groups := hquery.trans hhaving
  have hunordered : query.statement.orderBy = [] := List.map_eq_nil_iff.mp horder
  have hhanded : v.parameters = bound := hparameters.trans hbound
  have hsub : u.parameters ⊆ d.parameters ++ v.parameters := by
    rw [hparameters]
    exact List.subset_append_right _ _
  refine ⟨⟨rfl, rfl, ⟨bound, congrArg (d.parameters ++ ·) hhanded, hnumbers, hoperands⟩,
    ⟨[], (List.append_nil _).symm, .nil⟩⟩, .inSelect ?_ ?_ fun _ t ht => ?_⟩
  · rw [hconditions]
    exact hcondition.mono hsub
  · rw [hgroupsOf]
    exact hgroups.mono hsub
  · rw [hunordered] at ht
    cases ht

theorem faithful_subquery {t : Test} (ht : t.StemsFrom o) (hx : FaithfulCondition k o x) :
    FaithfulCondition k o (subquery k t x) := by
  intro d c e h
  obtain h' | ⟨className, column, -, -, h'⟩ := subquery_yields h
  · exact faithful_test ht d c e h'
  · refine faithful_routed _ ?_ d c e h'
    intro d c e h
    obtain ⟨reference, u, hresolve, h₁⟩ := Step.yields_bind.mp h
    obtain ⟨a, -, rfl⟩ := resolve_yields hresolve
    obtain ⟨hgains, hc⟩ := faithful_inSelect reference false className column hx _ c e h₁
    exact ⟨(Gains.withAliases d a).trans hgains, hc⟩

theorem faithful_excluding (property : String) (hx : FaithfulCondition k o x) :
    FaithfulCondition k o (excluding k property x) := by
  intro d c e h
  obtain ⟨inverse, _, element, aliasName, -, -, -, -, h'⟩ := excluding_yields h
  exact faithful_inSelect _ true element inverse hx d c e h'

theorem faithful_inScope (property : String) (outer : Bool) (hx : FaithfulCondition k o x) :
    FaithfulCondition k o (inScope k property outer x) := by
  intro d c e h
  obtain ⟨a, u, -, hu, rfl⟩ := inScope_yields h
  obtain ⟨hgains, hc⟩ := hx _ c u hu
  exact ⟨((Gains.withAliases d a).trans hgains).trans (.withAliases u _), hc⟩

theorem faithful_elementCondition (property : String) (c : Composite)
    {plain negated : Step Draft (List Condition)} (hplain : FaithfulConditions k o plain)
    (hnegated : FaithfulConditions k o negated) :
    FaithfulCondition k o (elementCondition k property c plain negated) := by
  intro d condition e h
  obtain ⟨kept, u, excluded, v, outer, hkept, hexcluded, rfl, rfl⟩ := elementCondition_yields h
  have hkeptPart : FaithfulCondition k o (keptPart k property outer c.split.1 plain) := by
    unfold keptPart
    split
    · exact faithful_inScope property outer (faithful_composite _ hplain)
    · exact faithful_pure rfl
  have hexcludedPart : FaithfulCondition k o (excludedPart k property c.split.2 negated) := by
    unfold excludedPart
    split
    · exact faithful_excluding property (faithful_composite _ hnegated)
    · exact faithful_pure rfl
  obtain ⟨hgains, ha⟩ := hkeptPart _ kept u hkept
  obtain ⟨hgains', hb⟩ := hexcludedPart u excluded v hexcluded
  have hboth := hgains.trans hgains'
  exact ⟨⟨hboth.firstParameter, hboth.conditions, hboth.parameters, hboth.having⟩,
    (ha.mono hgains'.subset).joinParts hb _⟩

end

theorem faithful_closure (k : Compiler) (o : QueryOptions) :
    Closure k (Test.StemsFrom o) (FaithfulCondition k o) (FaithfulConditions k o) where
  nothing := faithful_pure rfl
  test _ ht := faithful_test ht
  nil := faithful_pure rfl
  together := faithful_together
  composite := faithful_composite
  elementCondition t c _ _ _ hxs hus := faithful_elementCondition t.property c hxs hus
  subquery _ _ ht hx := faithful_subquery ht hx

/-- Every comparison that a filter emits folds both of its sides or none. -/
theorem faithful_emit {f : Filter} (hf : ∀ t ∈ f.tests, t.StemsFrom o) :
    FaithfulCondition k o (emit k f) :=
  (faithful_closure k o).emit (Test.StemsFrom.inherited o) hf

end Draft

end ObjectQuery
