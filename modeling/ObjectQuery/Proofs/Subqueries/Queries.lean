import Mathlib.Data.List.Perm.Basic
import ObjectQuery.Proofs.Filter.Arrangement

/-!
# The nested queries of a filter

* `Subquery`: the class, the column and the filter of a nested query.
* `Filter.subqueries`: those of the leaves of a filter, at any depth.
* `Filter.subqueries_invert`, `Composite.perm_subqueries_split`: they are the same in the positive
  form of a filter, and in the two parts of a condition.
* `QueryOptions.perm_subqueries_prepare`: arrangement may change their order, but none of their
  filters.
-/

namespace ObjectQuery

/-- A nested query of a leaf: one column of the instances of a class that its filter accepts. -/
structure Subquery where
  className : String
  column : String
  filter : Option Filter

namespace Subquery

/-- The options of a query of its own that asks for the same. -/
def options (q : Subquery) (disableOptimizer : Bool) : QueryOptions :=
  { columns := [q.column], restrictions := q.filter.toList, disableOptimizer }

/-- Arrangement leaves the filter as it is. -/
def Arranged (q : Subquery) (disableOptimizer : Bool) : Prop :=
  (q.options disableOptimizer).prepare = q.filter

end Subquery

/-- The nested query of a leaf, which has to give its class and its column. -/
def Test.subquery? (t : Test) (subfilter : Option Filter) : Option Subquery :=
  match t.operation, t.subqueryClass, t.subqueryProperty with
  | .subquery, some className, some column => some ⟨className, column, subfilter⟩
  | _, _, _ => none

namespace Filter

mutual

/-- The nested queries of all leaves, also of those in conditions and in nested queries. -/
def subqueries : Filter → List Subquery
  | .leaf ⟨t, condition, subfilter⟩ =>
    if t.operation = .collectionCondition then conditionSubqueries condition
    else
      match t.subquery? subfilter with
      | some q => q :: subfilterSubqueries subfilter
      | none => []
  | .composite ⟨_, children⟩ => subqueriesOf children

/-- The nested queries of several filters. -/
def subqueriesOf : List Filter → List Subquery
  | [] => []
  | f :: rest => subqueries f ++ subqueriesOf rest

/-- The nested queries of a condition on a collection's elements. -/
def conditionSubqueries : Option Composite → List Subquery
  | none => []
  | some ⟨_, children⟩ => subqueriesOf children

/-- The nested queries of the filter of a subquery. -/
def subfilterSubqueries : Option Filter → List Subquery
  | none => []
  | some f => subqueries f

end

theorem subqueriesOf_eq (fs : List Filter) : subqueriesOf fs = fs.flatMap subqueries := by
  induction fs with
  | nil => rfl
  | cons f rest ih => rw [subqueriesOf, ih, List.flatMap_cons]

theorem subqueries_composite (c : Composite) :
    (Filter.composite c).subqueries = c.children.flatMap subqueries := by
  obtain ⟨operation, children⟩ := c
  rw [subqueries, subqueriesOf_eq]

theorem subqueries_condition {t : Test} {condition : Option Composite} {subfilter : Option Filter}
    (ht : t.operation = .collectionCondition) :
    (Filter.leaf ⟨t, condition, subfilter⟩).subqueries = conditionSubqueries condition := by
  rw [subqueries, if_pos ht]

theorem conditionSubqueries_some (c : Composite) :
    conditionSubqueries (some c) = c.children.flatMap subqueries := by
  obtain ⟨operation, children⟩ := c
  rw [conditionSubqueries, subqueriesOf_eq]

/-- A leaf that asks for no nested query and is no condition has none. -/
theorem subqueries_plain {t : Test} {condition : Option Composite} {subfilter : Option Filter}
    (hcondition : t.operation ≠ .collectionCondition) (hsubquery : t.operation ≠ .subquery) :
    (Filter.leaf ⟨t, condition, subfilter⟩).subqueries = [] := by
  have hnone : t.subquery? subfilter = none := by
    unfold Test.subquery?
    split
    · exact absurd ‹_› hsubquery
    · rfl
  rw [subqueries, if_neg hcondition, hnone]

/-! ## Positive forms -/

/-- Only simple comparisons have an inverse, which is a simple comparison again. -/
theorem subqueries_invertLeaf (l : Leaf) : (Filter.leaf (invertLeaf l)).subqueries =
    (Filter.leaf l).subqueries := by
  unfold invertLeaf
  split
  · rename_i operation hop
    obtain ⟨t, condition, subfilter⟩ := l
    have hsimple : t.operation ≠ .collectionCondition ∧ t.operation ≠ .subquery := by
      constructor <;> intro ht <;> rw [ht] at hop <;> cases hop
    have hinverse : operation ≠ .collectionCondition ∧ operation ≠ .subquery := by
      constructor <;> rintro rfl <;> cases ht : t.operation <;> rw [ht] at hop <;> cases hop
    exact (subqueries_plain hinverse.1 hinverse.2).trans (subqueries_plain hsimple.1 hsimple.2).symm
  · rfl

theorem subqueries_conjunction (fs : List Filter) :
    (conjunction fs).subqueries = fs.flatMap subqueries := by
  unfold conjunction
  split
  · rw [List.flatMap_singleton]
  · exact subqueries_composite _

theorem subqueries_invert (f : Filter) : f.invert.subqueries = f.subqueries := by
  match f with
  | .leaf l => exact subqueries_invertLeaf l
  | .composite c =>
    rw [subqueries_composite]
    exact subqueries_conjunction c.children

end Filter

/-- Every child of a condition stands in one of its two parts. -/
theorem Composite.perm_subqueries_split (c : Composite) :
    (Filter.conditionSubqueries c.split.1 ++ Filter.conditionSubqueries c.split.2).Perm
      (c.children.flatMap Filter.subqueries) := by
  have hpart (operation : BooleanOp) (fs : List Filter) :
      Filter.conditionSubqueries (if fs.isEmpty then none else some ⟨operation, fs⟩) =
        fs.flatMap Filter.subqueries := by
    cases fs with
    | nil => rfl
    | cons f rest => exact Filter.conditionSubqueries_some ⟨operation, f :: rest⟩
  have hinverted (fs : List Filter) :
      (fs.map Filter.invert).flatMap Filter.subqueries = fs.flatMap Filter.subqueries := by
    rw [List.flatMap_map]
    exact List.flatMap_congr fun f _ => Filter.subqueries_invert f
  unfold split
  split
  · exact .of_eq (Filter.conditionSubqueries_some ⟨.and, c.children⟩)
  · have hnegated := hpart c.operation.flip (c.negatedChildren.map Filter.invert)
    rw [List.isEmpty_map, hinverted] at hnegated
    rw [hpart, hnegated, ← List.flatMap_append]
    have hchildren := List.filter_append_perm (fun f : Filter => !f.isNegated) c.children
    simp only [Bool.not_not] at hchildren
    exact hchildren.flatMap_right _

namespace Filter

/-! ## Arrangement -/

theorem subqueries_foldDoubleNegation (f : Filter) :
    f.foldDoubleNegation.subqueries = f.subqueries := by
  have hchildren : ∀ fs : List Filter, (∀ f ∈ fs, f.foldDoubleNegation.subqueries = f.subqueries) →
      (foldDoubleNegations fs).flatMap subqueries = fs.flatMap subqueries := by
    intro fs ih
    rw [foldDoubleNegations_eq, List.flatMap_map]
    exact List.flatMap_congr ih
  induction f using Filter.foldingInduction with
  | leaf l => rfl
  | double only ih =>
    rw [foldDoubleNegation, ih]
    simp only [subqueries_composite, List.flatMap_singleton]
  | doubled children hne ih =>
    rw [foldDoubleNegation.eq_3 children hne]
    simp only [subqueries_composite, List.flatMap_singleton]
    exact hchildren children ih
  | negated l =>
    rw [foldDoubleNegation, subqueries_composite, List.flatMap_singleton]
    split
    · exact subqueries_invertLeaf l
    · rw [subqueries_composite, List.flatMap_singleton]
  | other operation children h₁ h₂ h₃ ih =>
    rw [foldDoubleNegation.eq_5 operation children h₁ h₂ h₃, subqueries_composite,
      subqueries_composite]
    exact hchildren children ih

/-- Conditions on collections move behind their siblings. -/
theorem perm_collectionsLast (fs : List Filter) : (collectionsLast fs).Perm fs := by
  have h := List.filter_append_perm (fun f : Filter => !f.isCollectionCondition) fs
  simp only [Bool.not_not] at h
  exact h

theorem perm_subqueries_reorder (f : Filter) : f.reorder.subqueries.Perm f.subqueries := by
  have hchildren : ∀ fs : List Filter, (∀ f ∈ fs, f.reorder.subqueries.Perm f.subqueries) →
      ((collectionsLast (reorderAll fs)).flatMap subqueries).Perm (fs.flatMap subqueries) := by
    intro fs ih
    have hlast := (perm_collectionsLast (reorderAll fs)).flatMap_right subqueries
    rw [reorderAll_eq, List.flatMap_map] at hlast
    rw [reorderAll_eq]
    exact hlast.trans (.flatMap_left fs ih)
  induction f using Filter.induction with
  | leaf t condition subfilter ihc ihs =>
    rw [reorder]
    by_cases ht : t.operation = .collectionCondition
    · rw [subqueries_condition ht, subqueries_condition ht]
      cases condition with
      | none => exact .refl _
      | some c =>
        obtain ⟨operation, children⟩ := c
        rw [reorderCondition, conditionSubqueries_some, conditionSubqueries_some]
        exact hchildren children (ihc _ rfl)
    · rw [subqueries, subqueries, if_neg ht, if_neg ht]
  | composite operation children ih =>
    rw [reorder, reorderComposite, subqueries_composite, subqueries_composite]
    exact hchildren children ih

/-- Equalities have no nested queries, and neither has the membership test that they become. -/
theorem subqueries_optimizeComposite (inside : Bool) (operation : BooleanOp) {fs : List Filter}
    (ih : ∀ f ∈ fs, ∀ inside, (optimizeWithin inside f).subqueries = f.subqueries) :
    (optimizeComposite inside ⟨operation, fs⟩).children.flatMap subqueries =
      fs.flatMap subqueries := by
  rw [optimizeComposite]
  split
  · rename_i collapsed hcollapse
    split at hcollapse
    · obtain ⟨leaves, rfl, -, first, -, hall, rfl⟩ := collapse?_eq_some hcollapse
      have hnone : (leaves.map Filter.leaf).flatMap subqueries = [] := by
        rw [List.flatMap_map]
        refine List.flatMap_eq_nil_iff.mpr fun l hl => ?_
        have heq := operation_of_isCollapsible (hall l hl)
        obtain ⟨t, condition, subfilter⟩ := l
        change t.operation = .eq at heq
        exact subqueries_plain (by rw [heq]; decide) (by rw [heq]; decide)
      rw [hnone]
      rfl
    · cases hcollapse
  · rw [optimizeAll_eq, List.flatMap_map]
    exact List.flatMap_congr fun f hf => ih f hf inside

theorem subqueries_optimizeWithin (f : Filter) :
    ∀ inside, (optimizeWithin inside f).subqueries = f.subqueries := by
  induction f using Filter.induction with
  | leaf t condition subfilter ihc ihs =>
    intro inside
    rw [optimizeWithin]
    split
    · rename_i ht
      rw [subqueries_condition ht, subqueries_condition ht]
      cases condition with
      | none => rfl
      | some c =>
        obtain ⟨operation, children⟩ := c
        rw [optimizeCondition, conditionSubqueries_some, conditionSubqueries_some]
        exact subqueries_optimizeComposite true operation (ihc _ rfl)
    · rfl
  | composite operation children ih =>
    intro inside
    rw [optimizeWithin, subqueries_composite, subqueries_composite]
    exact subqueries_optimizeComposite inside operation ih

end Filter

/-- The filter that is compiled has the nested queries of the restrictions, each with its filter as
it was given. -/
theorem QueryOptions.perm_subqueries_prepare (o : QueryOptions) :
    (Filter.subfilterSubqueries o.prepare).Perm (o.restrictions.flatMap Filter.subqueries) := by
  have harranged (f : Filter) :
      (if o.disableOptimizer then f.foldDoubleNegation.reorder
        else f.foldDoubleNegation.reorder.optimize).subqueries.Perm f.subqueries := by
    have hreordered := Filter.perm_subqueries_reorder f.foldDoubleNegation
    rw [Filter.subqueries_foldDoubleNegation] at hreordered
    split
    · exact hreordered
    · rw [Filter.optimize, Filter.subqueries_optimizeWithin]
      exact hreordered
  unfold prepare
  match h : o.restrictions with
  | [] => exact .refl _
  | [only] =>
    rw [List.flatMap_singleton]
    exact harranged only
  | first :: second :: rest =>
    refine (harranged _).trans (.of_eq ?_)
    exact Filter.subqueries_composite _

end ObjectQuery
