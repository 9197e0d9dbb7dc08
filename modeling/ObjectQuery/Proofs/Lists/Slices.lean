import ObjectQuery.Proofs.Filter.Reordering

/-!
# Lists in slices

A long list of values is split into slices, each of which is tested for membership on its own.
Filters that are put together by the functions made for it test for no longer lists, but the
optimizer makes one list of a group of equalities, however many there are.

* `flatten_slices`, `length_of_mem_slices`: what becomes of a list.
* `Filter.exists_slices_inList`: membership in a list is membership in one of its slices.
* `Filter.Constructed`: filters that are put together by the functions made for it.
* `Filter.test_of_mem_optimizeWithin`: a test behind the optimizer stands in the filter, or for a
  group of it.
* `QueryOptions.limits_prepare`: the lists of the filter that is compiled.
-/

namespace ObjectQuery

section Slices

variable {α : Type} {size : Nat}

theorem flatten_slices (hsize : 0 < size) (fuel : Nat) (items : List α)
    (hfuel : items.length ≤ fuel) : (slices size fuel items).flatten = items := by
  induction fuel generalizing items with
  | zero => rw [List.length_eq_zero_iff.mp (Nat.le_zero.mp hfuel), slices, List.flatten_nil]
  | succ fuel ih =>
    rw [slices]
    split
    · rename_i hempty
      rw [List.isEmpty_iff.mp hempty, List.flatten_nil]
    · rename_i hitems
      have hpos : 0 < items.length := by
        rw [List.length_pos_iff]
        simpa using hitems
      have hrest : (items.drop size).length ≤ fuel := by
        rw [List.length_drop]
        omega
      rw [List.flatten_cons, ih _ hrest, List.take_append_drop]

theorem length_of_mem_slices {fuel : Nat} {items slice : List α}
    (h : slice ∈ slices size fuel items) : slice.length ≤ size := by
  induction fuel generalizing items with
  | zero => cases h
  | succ fuel ih =>
    rw [slices] at h
    split at h
    · cases h
    · rcases List.mem_cons.mp h with rfl | h
      · exact List.length_take_le size items
      · exact ih h

end Slices

namespace Filter

/-- The leaf that tests a property for membership in a list. -/
def memberOf (property : String) (values : List Value) : Leaf :=
  .ofTest { property, operation := .inList, value := .list values }

/-- Membership in a list is a leaf or a disjunction of leaves, for slices of the list that are no
longer than the limit and give the list in order. -/
theorem exists_slices_inList (property : String) (values : List Value) :
    ∃ parts : List (List Value), parts.flatten = values ∧
      (∀ part ∈ parts, part.length ≤ maxListSize) ∧
      ((parts = [values] ∧ inList property values = .leaf (memberOf property values)) ∨
        (maxListSize < values.length ∧ inList property values =
          .or (parts.map fun part => .leaf (memberOf property part)))) := by
  unfold inList
  dsimp only
  split
  · rename_i hshort
    exact ⟨[values], List.append_nil _, List.forall_mem_singleton.mpr hshort, .inl ⟨rfl, rfl⟩⟩
  · rename_i hlong
    exact ⟨_, flatten_slices (by decide) _ _ (Nat.le_refl _), fun _ => length_of_mem_slices,
      .inr ⟨Nat.lt_of_not_le hlong, rfl⟩⟩

/-! ## Filters that are put together -/

/-- The filter is put together by the functions made for it. Lists are given to `Filter.inList`. -/
inductive Constructed : Filter → Prop where
  | compare {operation : LogicalOp} (property : String) (value : Value) : operation ≠ .inList →
    Constructed (.compare operation property value)
  | like (property : String) (value : Value) (matchMode : MatchMode) :
    Constructed (.like property value matchMode)
  | inList (property : String) (values : List Value) : Constructed (.inList property values)
  | containsAll (property : String) (values : List Value) :
    Constructed (.containsAll property values)
  | join {operation : LogicalOp} (property joinProperty : String) : operation ≠ .inList →
    Constructed (.join operation property joinProperty)
  | collectionCondition (property : String) {condition : Filter} : Constructed condition →
    Constructed (.collectionCondition property condition)
  | subquery (property subqueryClass subqueryProperty : String) {filter : Option Filter} :
    (∀ f ∈ filter, Constructed f) →
    Constructed (.subquery property subqueryClass subqueryProperty filter)
  | and {children : List Filter} : (∀ f ∈ children, Constructed f) → Constructed (.and children)
  | or {children : List Filter} : (∀ f ∈ children, Constructed f) → Constructed (.or children)
  | not {child : Filter} : Constructed child → Constructed (.not child)
  | ignoringCase {f : Filter} : Constructed f → Constructed f.ignoringCase
  | casting {f : Filter} (type : String) : Constructed f → Constructed (f.casting type)

end Filter

/-- The list that the test is for, if it is for one, has a length that meets `S`. -/
def Test.Limits (S : Nat → Prop) (t : Test) : Prop :=
  t.operation = .inList → S t.value.elements.length

/-- No inverse comparison tests for membership. -/
theorem Test.invertible_limits (S : Nat → Prop) : Filter.Invertible (Test.Limits S) := by
  intro t operation _ hinverse hlist
  change operation = .inList at hlist
  rw [hlist] at hinverse
  cases hop : t.operation <;> rw [hop] at hinverse <;> cases hinverse

namespace Filter

variable {S : Nat → Prop}

theorem limits_test {t : Test} (h : t.Limits S) : ∀ u ∈ (Filter.test t).tests, u.Limits S :=
  tests_leaf.mpr ⟨h, by simp, by simp⟩

theorem limits_memberOf {property : String} {values : List Value} (h : S values.length) :
    ∀ u ∈ (Filter.leaf (memberOf property values)).tests, u.Limits S :=
  limits_test fun _ => h

/-- A change that keeps comparison and value of a test keeps its list. -/
theorem limits_mapTest {change : Test → Test}
    (hoperation : ∀ t, (change t).operation = t.operation)
    (hvalue : ∀ t, (change t).value = t.value) {f : Filter} (h : ∀ u ∈ f.tests, u.Limits S) :
    ∀ u ∈ (f.mapTest change).tests, u.Limits S := by
  match f with
  | .composite c => exact h
  | .leaf ⟨t, condition, subfilter⟩ =>
    obtain ⟨ht, hcondition, hsubfilter⟩ := tests_leaf.mp h
    refine tests_leaf.mpr ⟨fun hlist => ?_, hcondition, hsubfilter⟩
    rw [hoperation] at hlist
    rw [hvalue]
    exact ht hlist

/-- A filter that is put together tests for membership in lists up to the limit. -/
theorem Constructed.limits (hS : ∀ n, n ≤ maxListSize → S n) {f : Filter} (h : f.Constructed) :
    ∀ u ∈ f.tests, u.Limits S := by
  induction h with
  | compare property value hop | join property other hop =>
    exact limits_test fun hlist => absurd hlist hop
  | like | containsAll => exact limits_test fun hlist => nomatch hlist
  | inList property values =>
    obtain ⟨parts, hparts, hlimit, ⟨rfl, heq⟩ | ⟨-, heq⟩⟩ := exists_slices_inList property values
    · rw [heq]
      exact limits_memberOf (hS _ (hlimit values (List.mem_singleton_self _)))
    · rw [heq]
      refine tests_composite.mpr (List.forall_mem_map.mpr fun part hpart => ?_)
      exact limits_memberOf (hS _ (hlimit part hpart))
  | @collectionCondition property condition _ ih =>
    refine tests_leaf.mpr ⟨fun hlist => (nomatch hlist), fun c hc => ?_, fun _ hf => (nomatch hf)⟩
    cases hc
    match condition with
    | .composite c => exact tests_composite.mp ih
    | .leaf l => exact List.forall_mem_singleton.mpr ih
  | subquery property subqueryClass subqueryProperty _ ih =>
    exact tests_leaf.mpr ⟨fun hlist => (nomatch hlist), fun _ hc => (nomatch hc), ih⟩
  | and _ ih | or _ ih => exact tests_composite.mpr ih
  | not _ ih => exact tests_composite.mpr (List.forall_mem_singleton.mpr ih)
  | ignoringCase _ ih | casting type _ ih =>
    refine limits_mapTest (fun t => ?_) (fun t => ?_) ih <;> rfl

/-! ## Behind the arrangement -/

theorem mem_tests_composite {t : Test} {c : Composite} :
    t ∈ (Filter.composite c).tests ↔ ∃ f ∈ c.children, t ∈ f.tests := by
  obtain ⟨operation, children⟩ := c
  exact mem_testsOf

theorem mem_tests_leaf {t u : Test} {condition : Option Composite} {subfilter : Option Filter} :
    t ∈ (Filter.leaf ⟨u, condition, subfilter⟩).tests ↔
      t = u ∨ t ∈ conditionTests condition ∨ t ∈ subfilterTests subfilter := by
  rw [tests, List.mem_cons, List.mem_append]

theorem conditionTests_some (c : Composite) :
    conditionTests (some c) = (Filter.composite c).tests := by
  obtain ⟨operation, children⟩ := c
  rfl

theorem innerComposites_composite (c : Composite) :
    (Filter.composite c).innerComposites = c.children.flatMap innerComposites :=
  compositesWithin_composite c

/-- A test behind the optimizer stands in the filter, or it is the membership test of a group inside
a condition and lists as many values as the group has members. -/
theorem test_of_mem_optimizeWithin (inside : Bool) (f : Filter) :
    ∀ t ∈ (optimizeWithin inside f).tests, t ∈ f.tests ∨
      ∃ c ∈ f.compositesWithin Leaf.isCollectionCondition inside, c.IsEqualityGroup ∧
        c.children.length = t.value.elements.length := by
  induction inside, f using optimizerInduction with
  | plain inside t condition subfilter ht =>
    rw [optimizeWithin_plain ht]
    exact fun _ => .inl
  | condition inside t condition subfilter ht ih =>
    rw [optimizeWithin_condition ht, compositesWithin_condition ht]
    cases condition with
    | none => exact fun _ => .inl
    | some c =>
      rw [compositesOfCondition_some]
      intro u hu
      obtain hu | hu | hu := mem_tests_leaf.mp hu
      · exact .inl (mem_tests_leaf.mpr (.inl hu))
      · rw [Option.map_some, conditionTests_some] at hu
        obtain hu | hgroup := ih c rfl u hu
        · rw [← conditionTests_some] at hu
          exact .inl (mem_tests_leaf.mpr (.inr (.inl hu)))
        · exact .inr hgroup
      · exact .inl (mem_tests_leaf.mpr (.inr (.inr hu)))
  | group c hgroup =>
    obtain ⟨property, leaves, hchildren, -, -, heq⟩ := optimizeComposite_of_isEqualityGroup hgroup
    intro t ht
    rw [optimizeWithin, heq] at ht
    obtain rfl : t = membershipOf property (leaves.map (·.test)) := by
      simpa [tests, testsOf, test, conditionTests, subfilterTests, Leaf.ofTest] using ht
    refine .inr ⟨c, ?_, hgroup, ?_⟩
    · rw [compositesWithin_composite]
      exact List.mem_cons_self
    · rw [hchildren]
      simp [membershipOf, Value.elements]
  | composite inside c hgroup ih =>
    rw [optimizeWithin, optimizeComposite_of_not hgroup, compositesWithin_composite]
    intro t ht
    obtain ⟨_, hmem, ht⟩ := mem_tests_composite.mp ht
    obtain ⟨f, hf, rfl⟩ := List.mem_map.mp hmem
    rcases ih f hf t ht with ht | ⟨c', hc', hgroup'⟩
    · exact .inl (mem_tests_composite.mpr ⟨f, hf, ht⟩)
    · exact .inr ⟨c', List.mem_append_right _ (List.mem_flatMap.mpr ⟨f, hf, hc'⟩), hgroup'⟩

/-- The inverse of a negative comparison is no condition. -/
theorem innerComposites_invertLeaf {l : Leaf} (h : l.test.isNegated = true) :
    (Filter.leaf (invertLeaf l)).innerComposites = [] := by
  rw [Test.isNegated, Bool.or_eq_true, beq_iff_eq, beq_iff_eq] at h
  rcases h with h | h <;> rw [invertLeaf, h] <;> rfl

/-- Double negations are folded outside of conditions. -/
theorem innerComposites_foldDoubleNegation (f : Filter) :
    ∀ c ∈ f.foldDoubleNegation.innerComposites, c ∈ f.innerComposites := by
  have hchildren : ∀ (operation : BooleanOp) (fs : List Filter),
      (∀ f ∈ fs, ∀ c ∈ f.foldDoubleNegation.innerComposites, c ∈ f.innerComposites) →
      ∀ c ∈ (Filter.composite ⟨operation, foldDoubleNegations fs⟩).innerComposites,
        c ∈ fs.flatMap innerComposites := by
    intro operation fs ih c hc
    rw [innerComposites_composite, foldDoubleNegations_eq, List.flatMap_map] at hc
    obtain ⟨f, hf, hc⟩ := List.mem_flatMap.mp hc
    exact List.mem_flatMap.mpr ⟨f, hf, ih f hf c hc⟩
  induction f using Filter.foldingInduction with
  | leaf l => exact fun _ => id
  | double only ih =>
    rw [foldDoubleNegation, innerComposites_composite, List.flatMap_singleton,
      innerComposites_composite, List.flatMap_singleton]
    exact ih
  | doubled children hne ih =>
    rw [foldDoubleNegation.eq_3 children hne, innerComposites_composite ⟨.not, _⟩,
      List.flatMap_singleton, innerComposites_composite ⟨.not, children⟩]
    exact hchildren .and children ih
  | negated l =>
    rw [foldDoubleNegation]
    split
    · rename_i hnegated
      rw [innerComposites_invertLeaf hnegated]
      exact List.forall_mem_nil _
    · exact fun _ => id
  | other operation children hdouble hdoubled hnegated ih =>
    rw [foldDoubleNegation.eq_5 operation children hdouble hdoubled hnegated,
      innerComposites_composite ⟨operation, children⟩]
    exact hchildren operation children ih

end Filter

namespace QueryOptions

/-- The lengths that lists in a compiled query can have: those up to the limit, and the sizes of the
groups of equalities inside conditions, unless the optimizer is disabled. -/
def HasListSize (o : QueryOptions) (size : Nat) : Prop :=
  size ≤ maxListSize ∨ o.disableOptimizer = false ∧ ∃ f ∈ o.restrictions,
    ∃ c ∈ f.innerComposites, c.IsEqualityGroup ∧ c.children.length = size

theorem limits_prepare {o : QueryOptions} (ho : ∀ r ∈ o.restrictions, r.Constructed) {f : Filter}
    (hf : o.prepare = some f) : ∀ t ∈ f.tests, t.Limits o.HasListSize := by
  have hshort : ∀ size, size ≤ maxListSize → o.HasListSize size := fun _ => .inl
  obtain ⟨g, hg, rfl⟩ := Option.map_eq_some_iff.mp hf
  have hgiven : (∀ t ∈ g.tests, t.Limits o.HasListSize) ∧
      ∀ c ∈ g.innerComposites, ∃ f ∈ o.restrictions, c ∈ f.innerComposites := by
    split at hg
    · cases hg
    · rename_i only hr
      cases hg
      have honly : g ∈ o.restrictions := by simp [hr]
      exact ⟨(ho g honly).limits hshort, fun c hc => ⟨g, honly, hc⟩⟩
    · cases hg
      refine ⟨(Filter.Constructed.and ho).limits hshort, fun c hc => ?_⟩
      rw [Filter.and, Filter.innerComposites_composite] at hc
      exact List.mem_flatMap.mp hc
  have hfolded := Filter.tests_foldDoubleNegation (Test.invertible_limits _) g hgiven.1
  dsimp only
  split
  · exact Filter.tests_reorder _ hfolded
  · rename_i henabled
    show ∀ t ∈ (Filter.optimizeWithin false g.foldDoubleNegation.reorder).tests, _
    rw [Filter.optimizeWithin_reorder]
    refine Filter.tests_reorder _ fun t ht => ?_
    obtain ht | ⟨c, hc, hgroup, hsize⟩ := Filter.test_of_mem_optimizeWithin false _ t ht
    · exact hfolded t ht
    · obtain ⟨f, hf, hc⟩ := hgiven.2 c (Filter.innerComposites_foldDoubleNegation g c hc)
      exact fun _ => .inr ⟨by simpa using henabled, f, hf, c, hc, hgroup, hsize⟩

end QueryOptions

end ObjectQuery
