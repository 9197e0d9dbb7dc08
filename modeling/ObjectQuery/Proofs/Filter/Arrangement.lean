import ObjectQuery.Compiler
import ObjectQuery.Proofs.Filter.Tests

/-!
# Tests through the arrangement of a filter

The filter that is compiled is the restrictions after three rearrangements.

* `Filter.Inherited`: properties of tests that the tests made by the rearrangements inherit.
  `Filter.Invertible`: those that tests with the inverse comparison inherit.
* `QueryOptions.tests_prepare`: such a property holds of all tests of the filter that is compiled if
  it holds of the tests of the restrictions.
-/

namespace ObjectQuery

namespace Filter

/-! ## Inherited properties -/

/-- Tests with the inverse comparison inherit the property. -/
def Invertible (T : Test → Prop) : Prop :=
  ∀ t operation, T t → t.operation.inverse = some operation →
    T (t.withOperation operation t.value)

/-- Tests that arrangement makes of others inherit the property. -/
structure Inherited (T : Test → Prop) : Prop where
  inverse : Invertible T
  collapsed : ∀ (tests : List Test) (t : Test) (ignoreCase : Bool), t ∈ tests →
    (∀ u ∈ tests, T u ∧ u.operation = .eq ∧ u.property = t.property) →
    T { property := t.property
        operation := .inList
        value := .list (tests.map (·.value))
        ignoreCase }

variable {T : Test → Prop}

theorem Invertible.invertLeaf (hT : Invertible T) {l : Leaf} (h : ∀ u ∈ (Filter.leaf l).tests, T u) :
    ∀ u ∈ (Filter.leaf (invertLeaf l)).tests, T u := by
  unfold Filter.invertLeaf
  split
  · rename_i operation hop
    obtain ⟨t, condition, subfilter⟩ := l
    have ht := (tests_leaf.mp h).1
    exact tests_leaf.mpr ⟨hT t operation ht hop, by simp, by simp⟩
  · exact h

/-- A property of tests that passes through each of several filters passes through all. -/
theorem tests_map {g : Filter → Filter} {fs : List Filter}
    (hg : ∀ f ∈ fs, (∀ u ∈ f.tests, T u) → ∀ u ∈ (g f).tests, T u)
    (h : ∀ f ∈ fs, ∀ u ∈ f.tests, T u) : ∀ f ∈ fs.map g, ∀ u ∈ f.tests, T u :=
  List.forall_mem_map.mpr fun f hf => hg f hf (h f hf)

theorem tests_foldDoubleNegation (hT : Invertible T) (f : Filter) :
    (∀ u ∈ f.tests, T u) → ∀ u ∈ f.foldDoubleNegation.tests, T u := by
  have hchildren : ∀ fs : List Filter,
      (∀ f ∈ fs, (∀ u ∈ f.tests, T u) → ∀ u ∈ f.foldDoubleNegation.tests, T u) →
      (∀ f ∈ fs, ∀ u ∈ f.tests, T u) →
      ∀ f ∈ foldDoubleNegations fs, ∀ u ∈ f.tests, T u := by
    intro fs ih h
    rw [foldDoubleNegations_eq]
    exact tests_map ih h
  induction f using Filter.foldingInduction with
  | leaf l => exact id
  | double only ih =>
    intro h
    rw [foldDoubleNegation]
    have hinner := tests_composite.mp h _ (List.mem_singleton.mpr rfl)
    exact ih (tests_composite.mp hinner only (List.mem_singleton.mpr rfl))
  | doubled children hne ih =>
    intro h
    rw [foldDoubleNegation.eq_3 children hne]
    have hinner := tests_composite.mp h _ (List.mem_singleton.mpr rfl)
    exact tests_composite.mpr (hchildren children ih (tests_composite.mp hinner))
  | negated l =>
    intro h
    rw [foldDoubleNegation]
    split
    · exact hT.invertLeaf (tests_composite.mp h _ (List.mem_singleton.mpr rfl))
    · exact h
  | other operation children h₁ h₂ h₃ ih =>
    intro h
    rw [foldDoubleNegation.eq_5 operation children h₁ h₂ h₃]
    exact tests_composite.mpr (hchildren children ih (tests_composite.mp h))

theorem mem_collectionsLast {f : Filter} {fs : List Filter} : f ∈ collectionsLast fs ↔ f ∈ fs := by
  simp only [collectionsLast, List.mem_append, List.mem_filter]
  cases f.isCollectionCondition <;> simp

theorem tests_reorder (f : Filter) :
    (∀ u ∈ f.tests, T u) → ∀ u ∈ f.reorder.tests, T u := by
  -- Reordering maps over the children of a composite and then permutes them.
  have hchildren : ∀ fs : List Filter,
      (∀ f ∈ fs, (∀ u ∈ f.tests, T u) → ∀ u ∈ f.reorder.tests, T u) →
      (∀ f ∈ fs, ∀ u ∈ f.tests, T u) →
      ∀ f ∈ collectionsLast (reorderAll fs), ∀ u ∈ f.tests, T u := by
    intro fs ih h f hf
    rw [mem_collectionsLast, reorderAll_eq] at hf
    exact tests_map ih h f hf
  induction f using Filter.induction with
  | leaf t condition subfilter ihc ihs =>
    intro h
    obtain ⟨ht, hc, hs⟩ := tests_leaf.mp h
    rw [reorder, reorderCondition_eq]
    refine tests_leaf.mpr ⟨ht, ?_, hs⟩
    rintro c hmem
    obtain ⟨⟨operation, children⟩, hc', rfl⟩ := Option.map_eq_some_iff.mp hmem
    exact hchildren children (ihc _ hc') (hc _ hc')
  | composite operation children ih =>
    intro h
    rw [reorder, reorderComposite]
    exact tests_composite.mpr (hchildren children ih (tests_composite.mp h))

theorem tests_optimizeComposite (hT : Inherited T) (operation : BooleanOp) {fs : List Filter}
    (ih : ∀ f ∈ fs, ∀ inside, (∀ u ∈ f.tests, T u) → ∀ u ∈ (optimizeWithin inside f).tests, T u)
    (h : ∀ f ∈ fs, ∀ u ∈ f.tests, T u) (inside : Bool) :
    ∀ f ∈ (optimizeComposite inside ⟨operation, fs⟩).children, ∀ u ∈ f.tests, T u := by
  rw [optimizeComposite]
  split
  · rename_i collapsed hcollapse
    split at hcollapse
    · obtain ⟨leaves, rfl, -, first, hfirst, hall, rfl⟩ := collapse?_eq_some hcollapse
      intro f hf
      obtain rfl := List.mem_singleton.mp hf
      have htests : ∀ u ∈ leaves.map (·.test),
          T u ∧ u.operation = .eq ∧ u.property = first.test.property := by
        intro u hu
        obtain ⟨⟨t, condition, subfilter⟩, hl, rfl⟩ := List.mem_map.mp hu
        obtain ⟨heq, hproperty, -⟩ := isCollapsible_iff.mp (hall _ hl)
        exact ⟨(tests_leaf.mp (h _ (List.mem_map_of_mem hl))).1, heq, hproperty⟩
      have hcollapsed := hT.collapsed _ first.test (leaves.any (·.test.ignoreCase))
        (List.mem_map_of_mem hfirst) htests
      rw [List.map_map] at hcollapsed
      exact tests_leaf.mpr ⟨hcollapsed, by simp, by simp⟩
    · cases hcollapse
  · rw [optimizeAll_eq]
    exact tests_map (fun f hf => ih f hf inside) h

theorem tests_optimizeWithin (hT : Inherited T) (f : Filter) :
    ∀ inside, (∀ u ∈ f.tests, T u) → ∀ u ∈ (optimizeWithin inside f).tests, T u := by
  induction f using Filter.induction with
  | leaf t condition subfilter ihc ihs =>
    intro inside h
    obtain ⟨ht, hc, hs⟩ := tests_leaf.mp h
    rw [optimizeWithin]
    split
    · rw [optimizeCondition_eq]
      refine tests_leaf.mpr ⟨ht, ?_, hs⟩
      rintro c hmem
      obtain ⟨⟨operation, children⟩, hc', rfl⟩ := Option.map_eq_some_iff.mp hmem
      exact tests_optimizeComposite hT operation (ihc _ hc') (hc _ hc') true
    · exact h
  | composite operation children ih =>
    intro inside h
    rw [optimizeWithin]
    exact tests_composite.mpr
      (tests_optimizeComposite hT operation ih (tests_composite.mp h) inside)

end Filter

/-- What the restrictions' tests have in common, the tests of the filter that is compiled have in
common, if the tests that arrangement makes inherit it. -/
theorem QueryOptions.tests_prepare {T : Test → Prop} (hT : Filter.Inherited T) {o : QueryOptions}
    {f : Filter} (hf : o.prepare = some f) (h : ∀ r ∈ o.restrictions, ∀ u ∈ r.tests, T u) :
    ∀ u ∈ f.tests, T u := by
  unfold QueryOptions.prepare at hf
  obtain ⟨g, hg, rfl⟩ := Option.map_eq_some_iff.mp hf
  have hg : ∀ u ∈ g.tests, T u := by
    split at hg
    · cases hg
    · rename_i only hr
      cases hg
      exact h g (by simp [hr])
    · cases hg
      exact Filter.tests_composite.mpr h
  have harranged := Filter.tests_reorder _ (Filter.tests_foldDoubleNegation hT.inverse g hg)
  dsimp only
  split
  · exact harranged
  · exact Filter.tests_optimizeWithin hT _ false harranged

end ObjectQuery
