import ObjectQuery.Proofs.Deletion.Silence
import ObjectQuery.Proofs.Emission.Extension
import ObjectQuery.Proofs.Emission.Parts

/-!
# Groups of the having clause

Which filters put a condition on aggregates into the having clause of a query, apart from the
condition that they emit.

* `Filter.leavesGroup`: read off the filter.
* `Draft.Places`: what a step writes within the having clause, and what it leaves there from
  outside.
* `Draft.places_emit`: a filter leaves groups of the having clause if and only if
  `Filter.leavesGroup` says so, and emits nothing in place if and only if it is silent.
-/

namespace ObjectQuery

namespace Filter

/-! ## Filters that leave groups -/

mutual

/-- Whether a filter outside of the having clause leaves a group there. Joins are written where they
stand, even on aggregates. A composite of aggregates is a group as a whole, and any other leaves the
groups of its children. A condition on a collection leaves those of its plain part, as the negated
part has a select of its own. -/
def leavesGroup : Filter → Bool
  | .leaf ⟨t, condition, _⟩ =>
    match t.operation with
    | .join | .leftJoin => false
    | .containsAll => t.isAggregate && !t.value.elements.isEmpty
    | .collectionCondition => conditionLeavesGroup condition
    | _ => t.isAggregate
  | .composite ⟨_, children⟩ =>
    if areAggregateOnly children then !areSilent children else anyLeavesGroup children

/-- Whether some filter leaves a group. -/
def anyLeavesGroup : List Filter → Bool
  | [] => false
  | f :: rest => leavesGroup f || anyLeavesGroup rest

/-- Whether a condition on a collection's elements leaves a group. -/
def conditionLeavesGroup : Option Composite → Bool
  | none => false
  | some ⟨operation, children⟩ =>
    let plain := children.filter (!·.isNegated)
    operation != .not &&
      if areAggregateOnly plain then !areSilent plain else anyPlainLeavesGroup children

/-- Whether some filter that is not negated leaves a group. -/
def anyPlainLeavesGroup : List Filter → Bool
  | [] => false
  | f :: rest => !f.isNegated && leavesGroup f || anyPlainLeavesGroup rest

end

theorem anyPlainLeavesGroup_eq (fs : List Filter) :
    anyPlainLeavesGroup fs = anyLeavesGroup (fs.filter (!·.isNegated)) := by
  induction fs with
  | nil => rfl
  | cons f rest ih =>
    rw [anyPlainLeavesGroup, ih]
    by_cases hf : f.isNegated = true
    · rw [List.filter_cons_of_neg (by simp [hf]), hf, Bool.not_true, Bool.false_and, Bool.false_or]
    · rw [List.filter_cons_of_pos (by simp [hf]), anyLeavesGroup, Bool.eq_false_iff.mpr hf,
        Bool.not_false, Bool.true_and]

/-- A condition leaves the groups of its plain part. -/
theorem conditionLeavesGroup_some (c : Composite) :
    conditionLeavesGroup (some c) =
      (c.operation != .not && leavesGroup (.composite ⟨c.operation, c.plainChildren⟩)) := by
  obtain ⟨operation, children⟩ := c
  rw [conditionLeavesGroup, anyPlainLeavesGroup_eq, leavesGroup]
  rfl

/-- A condition is silent if it has no negated part and its plain part is silent. -/
theorem isSilentCondition_eq (c : Composite) :
    isSilentCondition (some c) =
      (c.operation != .not && areSilent c.plainChildren && c.negatedChildren.isEmpty) := by
  rw [isSilentCondition_some, Bool.and_assoc, Bool.and_assoc]
  refine congrArg ((c.operation != .not) && ·) ?_
  rw [Composite.negatedChildren, Composite.plainChildren, Bool.and_comm]
  by_cases hplain : ∀ f ∈ c.children, f.isNegated = false
  · have hall : c.children.filter (!·.isNegated) = c.children :=
      List.filter_eq_self.mpr fun f hf => by rw [hplain f hf]; rfl
    have hnone : c.children.filter (·.isNegated) = [] :=
      List.filter_eq_nil_iff.mpr fun f hf => by simp [hplain f hf]
    rw [hall, hnone, List.all_eq_true.mpr fun f hf => by rw [hplain f hf]; rfl, List.isEmpty_nil,
      Bool.and_comm]
  · obtain ⟨f, hf, hnegated⟩ : ∃ f ∈ c.children, f.isNegated = true := by simpa using hplain
    have hmem : f ∈ c.children.filter (·.isNegated) := List.mem_filter.mpr ⟨hf, hnegated⟩
    have hall : c.children.all (!·.isNegated) = false :=
      List.all_eq_false.mpr ⟨f, hf, by simp [hnegated]⟩
    rw [hall, List.isEmpty_eq_false_iff_exists_mem.mpr ⟨f, hmem⟩, Bool.and_false, Bool.and_false]

end Filter

namespace Draft

/-- The groups of conditions on aggregates that hold something. -/
def groups (d : Draft) : List Condition := d.having.filterMap id

theorem groups_addGroup (d : Draft) (group : Option Condition) :
    (d.addGroup group).groups = d.groups ++ group.toList := by
  unfold addGroup groups
  split
  · rename_i hnone
    rw [Bool.and_eq_true, Option.isNone_iff_eq_none] at hnone
    rw [hnone.2, Option.toList_none, List.append_nil]
  · rw [List.filterMap_append]
    cases group <;> rfl

/-! ## Steps that place conditions -/

/-- Within the having clause the step writes in place and leaves the groups alone, and what it
writes is `blank` just if the step is `silent`. Outside it leaves groups behind the others just if
it is `grouping`. -/
structure Places {α : Type} (blank : α → Bool) (silent grouping : Bool) (x : Step Draft α) :
    Prop where
  inHaving : ∀ {d a e}, x.Yields d a e → e.inHaving = d.inHaving
  within : ∀ {d a e}, x.Yields d a e → d.inHaving = true →
    e.having = d.having ∧ blank a = silent
  outside : ∀ {d a e}, x.Yields d a e → d.inHaving = false →
    ∃ left, e.groups = d.groups ++ left ∧ left.isEmpty = !grouping

/-- The step writes in place wherever it stands. -/
def WritesInPlace (silent : Bool) (x : Emission) : Prop :=
  ∀ d c e, x.Yields d c e →
    e.inHaving = d.inHaving ∧ e.having = d.having ∧ c.isNone = silent

variable {k : Compiler} {x : Emission} {xs : Step Draft (List Condition)} {silent grouping : Bool}

theorem WritesInPlace.places (h : WritesInPlace silent x) :
    Places Option.isNone silent false x where
  inHaving hx := (h _ _ _ hx).1
  within hx _ := (h _ _ _ hx).2
  outside {d _ e} hx _ := by
    have hhaving : e.having = d.having := (h _ _ _ hx).2.1
    exact ⟨[], by rw [groups, groups, hhaving, List.append_nil], rfl⟩

namespace Places

theorem fail {α : Type} {blank : α → Bool} (err : CompileError) :
    Places blank silent grouping (Step.fail err : Step Draft α) where
  inHaving h := (Step.yields_fail.mp h).elim
  within h := (Step.yields_fail.mp h).elim
  outside h := (Step.yields_fail.mp h).elim

/-- The group that a step writes is left where it is not silent. -/
theorem inHavingGroup (hx : Places Option.isNone silent grouping x) {d e : Draft}
    {c : Option Condition} (h : (Draft.inHavingGroup x).Yields d c e) :
    ∃ left, e.groups = d.groups ++ left ∧ left.isEmpty = silent := by
  obtain ⟨-, group, u, hu, rfl⟩ := inHavingGroup_yields h
  obtain ⟨hhaving, hsilent⟩ := hx.within hu rfl
  refine ⟨group.toList, ?_, ?_⟩
  · rw [groups_addGroup, groups, groups, show u.having = d.having from hhaving]
  · rw [← hsilent]
    cases group <;> rfl

theorem routed {isAggregate : Bool} (hx : WritesInPlace silent x) :
    Places Option.isNone silent (isAggregate && !silent) (Draft.routed isAggregate x) where
  inHaving {d c e} h := by
    obtain h' | ⟨-, -, h'⟩ := routed_yields h
    · exact (hx _ _ _ h').1
    · obtain ⟨-, group, u, -, rfl⟩ := inHavingGroup_yields h'
      unfold addGroup
      split <;> rfl
  within {d c e} h hd := by
    obtain h' | ⟨-, hfalse, -⟩ := routed_yields h
    · exact (hx _ _ _ h').2
    · rw [hd] at hfalse
      cases hfalse
  outside {d c e} h hd := by
    have h₁ := Step.yields_get_bind.mp h
    rw [hd, Bool.not_false, Bool.and_true] at h₁
    cases isAggregate with
    | false => exact hx.places.outside h₁ hd
    | true =>
      obtain ⟨left, hgroups, hleft⟩ := hx.places.inHavingGroup h₁
      exact ⟨left, hgroups, by rw [hleft, Bool.true_and, Bool.not_not]⟩

theorem combined {operation : BooleanOp} (hxs : Places List.isEmpty silent grouping xs) :
    Places Option.isNone silent grouping (Draft.combined operation xs) := by
  have hblank : ∀ members : List Condition,
      (combine operation members).isNone = members.isEmpty := by
    intro members
    cases operation <;> cases members <;> rfl
  refine ⟨fun h => ?_, fun h hd => ?_, fun h hd => ?_⟩
  · obtain ⟨members, -, h' | ⟨u, h', rfl⟩⟩ := combined_yields h
    · exact hxs.inHaving h'
    · have hu := hxs.inHaving h'
      exact hu
  · obtain ⟨members, rfl, h' | ⟨u, h', rfl⟩⟩ := combined_yields h
    · rw [hblank]
      exact hxs.within h' hd
    · have hu := hxs.within h' hd
      rw [hblank]
      exact hu
  · obtain ⟨members, -, h' | ⟨u, h', rfl⟩⟩ := combined_yields h
    · exact hxs.outside h' hd
    · have hu := hxs.outside h' hd
      exact hu

/-- A composite of aggregates is a group, any other leaves the groups of its members. -/
theorem composite (c : Composite) (hxs : Places List.isEmpty silent grouping xs)
    (hnil : c.children = [] → grouping = !silent) :
    Places Option.isNone silent
      (if Filter.areAggregateOnly c.children then !silent else grouping) (Draft.composite c xs) := by
  have hcombined : Places Option.isNone silent grouping (Draft.combined c.operation xs) :=
    combined hxs
  refine ⟨fun {d a e} h => ?_, fun {d a e} h hd => ?_, fun {d a e} h hd => ?_⟩
  · obtain h' | ⟨-, -, h'⟩ := composite_yields h
    · exact hcombined.inHaving h'
    · obtain ⟨-, group, u, -, rfl⟩ := inHavingGroup_yields h'
      unfold addGroup
      split <;> rfl
  · have h₁ := Step.yields_get_bind.mp h
    rw [if_pos hd] at h₁
    exact hcombined.within h₁ hd
  · have h₁ := Step.yields_get_bind.mp h
    rw [if_neg (by simp [hd])] at h₁
    by_cases honly : Filter.areAggregateOnly c.children = true
    · rw [if_pos honly] at h₁ ⊢
      by_cases hempty : c.children = []
      · rw [← hnil hempty]
        rw [hempty, List.isEmpty_nil, if_pos rfl] at h₁
        exact hcombined.outside h₁ hd
      · rw [if_neg (by simpa using hempty)] at h₁
        obtain ⟨left, hgroups, hleft⟩ := hcombined.inHavingGroup h₁
        exact ⟨left, hgroups, by rw [hleft, Bool.not_not]⟩
    · rw [if_neg honly] at h₁ ⊢
      split at h₁
      · exact (Step.yields_fail.mp h₁).elim
      · exact hcombined.outside h₁ hd

theorem nil : Places List.isEmpty true false (pure [] : Step Draft (List Condition)) := by
  refine ⟨fun h => ?_, fun h _ => ?_, fun h _ => ?_⟩ <;> obtain ⟨rfl, rfl⟩ := Step.yields_pure.mp h
  · rfl
  · exact ⟨rfl, rfl⟩
  · exact ⟨[], (List.append_nil _).symm, rfl⟩

theorem together {silent' grouping' : Bool} (hx : Places Option.isNone silent grouping x)
    (hxs : Places List.isEmpty silent' grouping' xs) :
    Places List.isEmpty (silent && silent') (grouping || grouping') (Draft.together x xs) := by
  refine ⟨fun {d a e} h => ?_, fun {d a e} h hd => ?_, fun {d a e} h hd => ?_⟩ <;>
    obtain ⟨condition, u, rest, hy, hys, rfl⟩ := together_yields h <;>
    have hu := hx.inHaving hy
  · exact (hxs.inHaving hys).trans hu
  · obtain ⟨hhaving, rfl⟩ := hx.within hy hd
    obtain ⟨hhaving', rfl⟩ := hxs.within hys (hu.trans hd)
    refine ⟨hhaving'.trans hhaving, ?_⟩
    cases condition <;> rfl
  · obtain ⟨left, hgroups, hleft⟩ := hx.outside hy hd
    obtain ⟨left', hgroups', hleft'⟩ := hxs.outside hys (hu.trans hd)
    refine ⟨left ++ left', ?_, ?_⟩
    · rw [hgroups', hgroups, List.append_assoc]
    · have hboth : (left ++ left').isEmpty = (left.isEmpty && left'.isEmpty) := by
        cases left <;> rfl
      rw [hboth, hleft, hleft', Bool.not_or]

end Places

/-! ## Leaves -/

theorem writesInPlace_comparison (t : Test) (v : Value) (operator : String) :
    WritesInPlace false (do
      let a ← plainComparison k t v operator false
      predicate a) := by
  intro d c e h
  obtain ⟨p, u, hp, h₁⟩ := Step.yields_bind.mp h
  obtain ⟨_, _, a, -, -, rfl⟩ := plainComparison_yields hp
  obtain ⟨rfl, rfl⟩ := predicate_yields.mp h₁
  exact ⟨rfl, rfl, rfl⟩

theorem writesInPlace_resolve {path : String} {f : Reference → Emission}
    (hf : ∀ r, WritesInPlace silent (f r)) :
    WritesInPlace silent (do
      let reference ← resolve k path false
      f reference) := by
  intro d c e h
  obtain ⟨r, u, hr, h₁⟩ := Step.yields_bind.mp h
  obtain ⟨a, -, rfl⟩ := resolve_yields hr
  have hplace := hf r _ _ _ h₁
  exact hplace

theorem writesInPlace_predicate (p : Atom) : WritesInPlace false (predicate p) := by
  intro d c e h
  obtain ⟨rfl, rfl⟩ := predicate_yields.mp h
  exact ⟨rfl, rfl, rfl⟩

/-- What becomes a group if it is routed. -/
theorem Places.routed_speaking {isAggregate : Bool} (hx : WritesInPlace false x) :
    Places Option.isNone false isAggregate (Draft.routed isAggregate x) := by
  have h : Places Option.isNone false (isAggregate && !false) (Draft.routed isAggregate x) :=
    Places.routed hx
  rwa [Bool.not_false, Bool.and_true] at h

theorem places_comparison (t : Test) (v : Value) (operator : String) :
    Places Option.isNone false t.isAggregate (comparison k t v operator) :=
  .routed_speaking (writesInPlace_comparison t v operator)

theorem places_nullCheck (t : Test) (isNull : Bool) :
    Places Option.isNone false t.isAggregate (nullCheck k t isNull) :=
  .routed_speaking (writesInPlace_resolve fun _ => writesInPlace_predicate _)

theorem places_equality (t : Test) (v : Value) (equal : Bool) :
    Places Option.isNone false t.isAggregate (equality k t v equal) := by
  unfold equality
  split
  · exact places_nullCheck t equal
  · exact places_comparison t v _

theorem writesInPlace_emptyCheck (path : String) :
    WritesInPlace false (do
      let reference ← resolveCollection k path
      predicate (.emptyCheck reference)) := by
  intro d c e h
  obtain ⟨r, u, hr, h₁⟩ := Step.yields_bind.mp h
  obtain ⟨a, -, rfl⟩ := resolveCollection_yields hr
  obtain ⟨rfl, rfl⟩ := predicate_yields.mp h₁
  exact ⟨rfl, rfl, rfl⟩

theorem places_emptyCheck (t : Test) :
    Places Option.isNone false t.isAggregate (emptyCheck k t) :=
  .routed_speaking (writesInPlace_emptyCheck t.property)

theorem places_equalities (t : Test) (values : List Value) :
    Places List.isEmpty values.isEmpty (!values.isEmpty && t.isAggregate)
      (equalities k t values) := by
  induction values with
  | nil => exact .nil
  | cons v rest ih =>
    have habsorb : (t.isAggregate || !rest.isEmpty && t.isAggregate) = t.isAggregate := by
      cases t.isAggregate <;> simp
    have h : Places List.isEmpty (false && rest.isEmpty)
        (t.isAggregate || !rest.isEmpty && t.isAggregate) (equalities k t (v :: rest)) :=
      (places_equality (t.withOperation .eq v) v true).together ih
    rwa [habsorb] at h

/-- Equalities of aggregates are a group, and other equalities leave none. -/
theorem places_disjunction (t : Test) {values : List Value} (hne : values ≠ []) :
    Places Option.isNone false t.isAggregate
      (composite ⟨.or, values.map fun v => .test (t.withOperation .eq v)⟩
        (equalities k t values)) := by
  have honly : Filter.areAggregateOnly (values.map fun v => .test (t.withOperation .eq v)) =
      t.isAggregate := by
    obtain ⟨first, rest, rfl⟩ := List.exists_cons_of_ne_nil hne
    rw [Filter.areAggregateOnly_eq, List.all_map, Bool.eq_iff_iff, List.all_eq_true]
    exact ⟨fun h => h first List.mem_cons_self, fun h _ _ => h⟩
  have hmembers := places_equalities (k := k) t values
  rw [List.isEmpty_eq_false_iff.mpr hne, Bool.not_false, Bool.true_and] at hmembers
  have h := hmembers.composite ⟨.or, values.map fun v => .test (t.withOperation .eq v)⟩
    fun hnil => absurd (List.map_eq_nil_iff.mp hnil) hne
  have hboth : (if t.isAggregate then !false else t.isAggregate) = t.isAggregate := by
    cases t.isAggregate <;> rfl
  rwa [honly, hboth] at h

theorem writesInPlace_membership (t : Test) (values : List Value) :
    WritesInPlace false (do
      let a ← plainMembership k t values
      predicate a) := by
  intro d c e h
  obtain ⟨p, u, hp, h₁⟩ := Step.yields_bind.mp h
  obtain ⟨rfl, rfl⟩ := predicate_yields.mp h₁
  obtain ⟨-, -, rfl⟩ | ⟨-, _, _, _, _, -, -, rfl⟩ := plainMembership_yields hp
  · exact ⟨rfl, rfl, rfl⟩
  · exact ⟨rfl, rfl, rfl⟩

/-- A list with entities is compared like one value. -/
theorem places_membership (t : Test) :
    Places Option.isNone false t.isAggregate (membership k t) := by
  unfold membership
  dsimp only
  split
  · rename_i hentities
    split
    · rename_i v hv
      exact places_equality (t.withOperation .eq v) v true
    · exact places_disjunction t (elements_ne_nil_of_hasEntities hentities)
  · exact .routed_speaking (writesInPlace_membership t _)

theorem separateComparisons_places {t : Test} {values : List Value} {d e : Draft}
    {members : List Condition} (h : (separateComparisons k t values).Yields d members e) :
    e.inHaving = d.inHaving ∧ e.having = d.having ∧ members.isEmpty = values.isEmpty := by
  induction values generalizing d members with
  | nil =>
    obtain ⟨rfl, rfl⟩ := Step.yields_pure.mp h
    exact ⟨rfl, rfl, rfl⟩
  | cons v rest ih =>
    obtain ⟨p, u, hp, h₁⟩ := Step.yields_bind.mp h
    obtain ⟨_, _, a, -, -, rfl⟩ := plainComparison_yields hp
    obtain ⟨conditions, w, hrest, h₂⟩ := Step.yields_bind.mp h₁
    obtain ⟨rfl, rfl⟩ := Step.yields_pure.mp h₂
    obtain ⟨hinHaving, hhaving, -⟩ := ih hrest
    exact ⟨hinHaving, hhaving, rfl⟩

theorem writesInPlace_containsAll (t : Test) (values : List Value) :
    WritesInPlace values.isEmpty (do
      let conditions ← separateComparisons k t values
      pure (chained conditions)) := by
  intro d c e h
  obtain ⟨members, u, hmembers, h₁⟩ := Step.yields_bind.mp h
  obtain ⟨rfl, rfl⟩ := Step.yields_pure.mp h₁
  obtain ⟨hinHaving, hhaving, hempty⟩ := separateComparisons_places hmembers
  refine ⟨hinHaving, hhaving, ?_⟩
  rw [← hempty]
  cases members <;> rfl

theorem places_containsAll (t : Test) :
    Places Option.isNone t.value.elements.isEmpty (t.isAggregate && !t.value.elements.isEmpty)
      (containsAll k t) := by
  have hone (v : Value) (hv : t.value.elements = [v]) :
      Places Option.isNone t.value.elements.isEmpty (t.isAggregate && !t.value.elements.isEmpty)
        (equality k t v true) := by
    rw [hv, List.isEmpty_cons, Bool.not_false, Bool.and_true]
    exact places_equality t v true
  have hseveral : Places Option.isNone t.value.elements.isEmpty
      (t.isAggregate && !t.value.elements.isEmpty) (Draft.routed t.isAggregate do
        let conditions ← separateComparisons k t t.value.elements
        pure (chained conditions)) :=
    .routed (writesInPlace_containsAll t _)
  refine ⟨fun h => ?_, fun h hd => ?_, fun h hd => ?_⟩ <;>
    obtain ⟨v, hv, h'⟩ | ⟨-, h'⟩ := containsAll_yields h
  · exact (hone v hv).inHaving h'
  · exact hseveral.inHaving h'
  · exact (hone v hv).within h' hd
  · exact hseveral.within h' hd
  · exact (hone v hv).outside h' hd
  · exact hseveral.outside h' hd

theorem writesInPlace_join (t : Test) : WritesInPlace false (join k t) := by
  intro d c e h
  obtain ⟨other, condition, -, -, rfl, ⟨-, _, a, _, b, -, -, -, rfl⟩ | ⟨-, hcondition⟩⟩ :=
    join_yields h
  · exact ⟨rfl, rfl, rfl⟩
  · obtain ⟨_, _, _, _, _, -, -, -, rfl⟩ := correlation_yields hcondition
    exact ⟨rfl, rfl, rfl⟩

theorem writesInPlace_leftJoin (t : Test) : WritesInPlace true (leftJoin k t) := by
  intro d c e h
  obtain ⟨rfl, other, condition, u, -, -, hcondition, rfl⟩ := leftJoin_yields h
  obtain ⟨_, _, _, _, _, -, -, -, rfl⟩ := correlation_yields hcondition
  exact ⟨rfl, rfl, rfl⟩

/-- A leaf without a condition of its own. -/
theorem places_test (t : Test) (condition : Option Composite) (subfilter : Option Filter)
    (hop : t.operation ≠ .collectionCondition) :
    Places Option.isNone (Filter.leaf ⟨t, condition, subfilter⟩).isSilent
      (Filter.leaf ⟨t, condition, subfilter⟩).leavesGroup (test k t) := by
  rw [Filter.isSilent, Filter.leavesGroup, test]
  cases h : t.operation with
  | eq | ne => exact places_equality t _ _
  | lt | gt | le | ge | like => exact places_comparison t _ _
  | inList => exact places_membership t
  | isNull | notNull => exact places_nullCheck t _
  | isEmpty => exact places_emptyCheck t
  | containsAll => exact places_containsAll t
  | join => exact (writesInPlace_join t).places
  | leftJoin => exact (writesInPlace_leftJoin t).places
  | collectionCondition => exact absurd h hop
  | subquery => exact .fail _

/-! ## Nested filters -/

theorem writesInPlace_inSelect {reference : Reference} {negated : Bool} {className column : String} :
    WritesInPlace false (inSelect k reference negated className column x) := by
  intro d c e h
  obtain ⟨_, _, _, _, -, -, rfl, rfl⟩ := inSelect_yields h
  exact ⟨rfl, rfl, rfl⟩

theorem places_subquery (t : Test) (condition : Option Composite) (subfilter : Option Filter)
    (hop : t.operation = .subquery) :
    Places Option.isNone (Filter.leaf ⟨t, condition, subfilter⟩).isSilent
      (Filter.leaf ⟨t, condition, subfilter⟩).leavesGroup (subquery k t x) := by
  unfold subquery
  split
  · rw [Filter.isSilent, Filter.leavesGroup, hop]
    exact .routed_speaking (writesInPlace_resolve fun _ => writesInPlace_inSelect)
  · exact places_test t condition subfilter (by rw [hop]; decide)

theorem writesInPlace_excluding {property : String} :
    WritesInPlace false (excluding k property x) := by
  intro d c e h
  obtain ⟨_, _, _, _, -, -, -, -, h'⟩ := excluding_yields h
  exact writesInPlace_inSelect d c e h'

theorem Places.inScope {property : String} {outer : Bool}
    (hx : Places Option.isNone silent grouping x) :
    Places Option.isNone silent grouping (Draft.inScope k property outer x) := by
  refine ⟨fun h => ?_, fun h hd => ?_, fun h hd => ?_⟩ <;>
    obtain ⟨a, u, -, hu, rfl⟩ := inScope_yields h
  · have hplace := hx.inHaving hu
    exact hplace
  · have hplace := hx.within hu hd
    exact hplace
  · have hplace := hx.outside hu hd
    exact hplace

theorem Places.withTheta {theta : Bool} (hx : Places Option.isNone silent grouping x) :
    Places Option.isNone silent grouping (Draft.withTheta theta x) := by
  refine ⟨fun h => ?_, fun h hd => ?_, fun h hd => ?_⟩ <;>
    obtain ⟨u, hu, rfl⟩ := Step.yields_restoring.mp h
  · have hplace := hx.inHaving hu
    exact hplace
  · have hplace := hx.within hu hd
    exact hplace
  · have hplace := hx.outside hu hd
    exact hplace

/-- The owners that a negated part excludes are a condition in place behind what the plain part
places. -/
theorem Places.excludedBehind {y : Emission} {disjunctive silent' : Bool}
    (hx : Places Option.isNone silent grouping x) (hy : WritesInPlace silent' y) :
    Places Option.isNone (silent && silent') grouping (do
      let kept ← x
      let excluded ← y
      pure (joinParts disjunctive kept excluded)) := by
  refine ⟨fun h => ?_, fun h hd => ?_, fun h hd => ?_⟩ <;>
    obtain ⟨kept, u, hkept, h₁⟩ := Step.yields_bind.mp h <;>
    obtain ⟨excluded, v, hexcluded, h₂⟩ := Step.yields_bind.mp h₁ <;>
    obtain ⟨rfl, rfl⟩ := Step.yields_pure.mp h₂ <;>
    obtain ⟨hinHaving, hhaving, rfl⟩ := hy _ _ _ hexcluded
  · exact hinHaving.trans (hx.inHaving hkept)
  · obtain ⟨hkeeps, rfl⟩ := hx.within hkept hd
    refine ⟨hhaving.trans hkeeps, ?_⟩
    cases kept <;> cases excluded <;> rfl
  · obtain ⟨left, hgroups, hleft⟩ := hx.outside hkept hd
    exact ⟨left, by rw [groups, hhaving, ← groups, hgroups], hleft⟩

theorem places_none : Places Option.isNone true false (pure none : Emission) := by
  refine WritesInPlace.places fun d c e h => ?_
  obtain ⟨rfl, rfl⟩ := Step.yields_pure.mp h
  exact ⟨rfl, rfl, rfl⟩

/-- The negated part is excluded if there is one. -/
theorem writesInPlace_excludedPart {property : String} {part : Option Composite} :
    WritesInPlace part.isNone (excludedPart k property part xs) := by
  cases part with
  | none =>
    intro d c e h
    obtain ⟨rfl, rfl⟩ := Step.yields_pure.mp h
    exact ⟨rfl, rfl, rfl⟩
  | some part => exact writesInPlace_excluding

/-- A condition on a collection's elements places what its plain part places. -/
theorem places_condition (t : Test) (c : Composite)
    (hplain : Places Option.isNone (Filter.areSilent c.plainChildren)
      (Filter.leavesGroup (.composite ⟨c.operation, c.plainChildren⟩))
      (emit k (.composite ⟨c.operation, c.plainChildren⟩))) :
    Places Option.isNone (Filter.isSilentCondition (some c)) (Filter.conditionLeavesGroup (some c))
      (emitCondition k t (some c)) := by
  obtain ⟨operation, children⟩ := c
  rw [emitCondition, elementCondition_eq, emitEach_plain, Filter.isSilentCondition_eq,
    Filter.conditionLeavesGroup_some, Composite.split]
  refine Places.withTheta ?_
  dsimp only at hplain ⊢
  by_cases hnot : operation = .not
  · rw [if_pos hnot, hnot]
    exact places_none.excludedBehind writesInPlace_excludedPart
  · rw [if_neg hnot, bne_iff_ne.mpr hnot, Bool.true_and, Bool.true_and]
    dsimp only
    refine Places.excludedBehind ?kept ?excluded
    case kept =>
      by_cases hnone : Composite.plainChildren ⟨operation, children⟩ = []
      · rw [hnone, List.isEmpty_nil, if_pos rfl]
        exact places_none
      · rw [if_neg (by simpa using hnone)]
        exact hplain.inScope
    case excluded =>
      by_cases hnone : Composite.negatedChildren ⟨operation, children⟩ = []
      · rw [hnone, List.isEmpty_nil, if_pos rfl]
        exact writesInPlace_excludedPart
      · rw [if_neg (by simpa using hnone), List.isEmpty_eq_false_iff.mpr hnone]
        exact writesInPlace_excludedPart

theorem places_emitEach {fs : List Filter}
    (h : ∀ f ∈ fs, Places Option.isNone f.isSilent f.leavesGroup (emit k f)) :
    Places List.isEmpty (Filter.areSilent fs) (Filter.anyLeavesGroup fs) (emitEach k .all fs) := by
  induction fs with
  | nil => exact .nil
  | cons f rest ih =>
    obtain ⟨hf, hrest⟩ := List.forall_mem_cons.mp h
    rw [emitEach_cons]
    exact hf.together (ih hrest)

theorem places_emitComposite {c : Composite}
    (h : ∀ f ∈ c.children, Places Option.isNone f.isSilent f.leavesGroup (emit k f)) :
    Places Option.isNone (Filter.areSilent c.children) (Filter.leavesGroup (.composite c))
      (emit k (.composite c)) := by
  obtain ⟨operation, children⟩ := c
  refine (places_emitEach h).composite ⟨operation, children⟩ fun hnil => ?_
  rw [show children = [] from hnil]
  rfl

/-- A filter emits nothing in place if and only if it is silent, and leaves groups of the having
clause from outside if and only if `Filter.leavesGroup` says so. -/
theorem places_emit (k : Compiler) (f : Filter) :
    Places Option.isNone f.isSilent f.leavesGroup (emit k f) := by
  induction f using Filter.induction with
  | leaf t condition subfilter ihc ihs =>
    rw [emit, emitLeaf]
    split
    · rename_i hop
      rw [Filter.isSilent_condition hop, Filter.leavesGroup, hop]
      rcases condition with _ | c
      · rw [emitCondition, test, hop]
        exact .fail _
      · have hplain : ∀ f ∈ c.plainChildren,
            Places Option.isNone f.isSilent f.leavesGroup (emit k f) :=
          fun f hf => ihc c rfl f (List.mem_filter.mp hf).1
        exact places_condition t c (@places_emitComposite k ⟨c.operation, c.plainChildren⟩ hplain)
    · rename_i hop
      cases subfilter with
      | none => exact places_subquery t condition none hop
      | some f => exact places_subquery t condition (some f) hop
    · rename_i hcondition hsubquery
      exact places_test t condition subfilter hcondition
  | composite operation children ih =>
    rw [Filter.isSilent_composite]
    exact places_emitComposite ih

end Draft

end ObjectQuery
