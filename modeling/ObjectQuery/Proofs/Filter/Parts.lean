import ObjectQuery.Proofs.Filter.Induction

/-!
# The leaves and composites of a filter

* `Filter.leaves`: the leaves under the connectives of a filter, which leaves out the filters nested
  in a leaf.
* `Filter.composites`: all composites, at any depth, outside of subqueries.
* `Filter.innerComposites`: those inside conditions on a collection's elements.
* `Filter.compositesWithin`: what both have in common.
-/

namespace ObjectQuery

namespace Filter

/-! ## Leaves -/

mutual

/-- The leaves under the connectives of a filter. -/
def leaves : Filter → List Leaf
  | .leaf l => [l]
  | .composite ⟨_, children⟩ => leavesOf children

/-- The leaves under the connectives of several filters. -/
def leavesOf : List Filter → List Leaf
  | [] => []
  | f :: rest => leaves f ++ leavesOf rest

end

theorem mem_leavesOf {l : Leaf} {fs : List Filter} : l ∈ leavesOf fs ↔ ∃ f ∈ fs, l ∈ f.leaves := by
  induction fs with
  | nil => simp [leavesOf]
  | cons f rest ih => simp [leavesOf, ih]

/-! ## Composites -/

mutual

/-- The composites of a filter, which are left out unless `inside`, and those inside the conditions
of the leaves that are `entered`. A composite stands before those in it. -/
def compositesWithin (entered : Leaf → Bool) (inside : Bool) : Filter → List Composite
  | .leaf ⟨t, condition, subfilter⟩ =>
    if entered ⟨t, condition, subfilter⟩ then compositesOfCondition entered condition else []
  | .composite ⟨operation, children⟩ =>
    (if inside then [⟨operation, children⟩] else []) ++ compositesOfAll entered inside children

/-- The composites of several filters. -/
def compositesOfAll (entered : Leaf → Bool) (inside : Bool) : List Filter → List Composite
  | [] => []
  | f :: rest => compositesWithin entered inside f ++ compositesOfAll entered inside rest

/-- The composites of the condition of a leaf, which is one itself. -/
def compositesOfCondition (entered : Leaf → Bool) : Option Composite → List Composite
  | none => []
  | some ⟨operation, children⟩ => ⟨operation, children⟩ :: compositesOfAll entered true children

end

/-- All composites of a filter outside of subqueries. -/
def composites (f : Filter) : List Composite := f.compositesWithin (fun _ => true) true

/-- The composites inside conditions on a collection's elements, also in conditions that are nested
there, outside of subqueries. -/
def innerComposites (f : Filter) : List Composite :=
  f.compositesWithin Leaf.isCollectionCondition false

variable {entered : Leaf → Bool} {inside : Bool}

theorem compositesOfAll_eq (fs : List Filter) :
    compositesOfAll entered inside fs = fs.flatMap (compositesWithin entered inside) := by
  induction fs with
  | nil => rfl
  | cons f rest ih => rw [compositesOfAll, ih, List.flatMap_cons]

theorem compositesWithin_composite (c : Composite) :
    (Filter.composite c).compositesWithin entered inside =
      (if inside then [c] else []) ++ c.children.flatMap (compositesWithin entered inside) := by
  obtain ⟨operation, children⟩ := c
  rw [compositesWithin, compositesOfAll_eq]

theorem compositesOfCondition_some (c : Composite) :
    compositesOfCondition entered (some c) =
      (Filter.composite c).compositesWithin entered true := by
  obtain ⟨operation, children⟩ := c
  rw [compositesOfCondition, compositesWithin]
  rfl

end Filter

end ObjectQuery
