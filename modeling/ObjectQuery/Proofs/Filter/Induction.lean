import ObjectQuery.Filter.Arrangement
import ObjectQuery.Filter.Negation

/-!
# Induction on filters

* `Filter.induction`: a property of all filters from the filters nested in a leaf and the children
  of a composite.
* `Filter.foldingInduction`: a property of all filters along the cases of `foldDoubleNegation`.
* The functions on lists of filters that stand beside a function on filters are `map`, `all` or
  `any` of it.
* `Filter.isNegated_reorder`, `Filter.isNegated_optimizeWithin`: rearrangements keep the sign of a
  filter.
-/

namespace ObjectQuery

namespace Filter

/-- A property holds of every filter if it passes from the filters nested in a leaf to the leaf and
from the children of a composite to the composite. -/
@[elab_as_elim]
theorem induction {P : Filter → Prop}
    (leaf : ∀ t condition subfilter, (∀ c ∈ condition, ∀ f ∈ c.children, P f) →
      (∀ f ∈ subfilter, P f) → P (.leaf ⟨t, condition, subfilter⟩))
    (composite : ∀ operation children, (∀ f ∈ children, P f) → P (.composite ⟨operation, children⟩))
    (f : Filter) : P f := by
  refine Filter.rec (motive_1 := P) (motive_2 := fun c => ∀ f ∈ c.children, P f)
    (motive_3 := fun l => P (.leaf l)) (motive_4 := fun fs => ∀ f ∈ fs, P f)
    (motive_5 := fun o => ∀ c ∈ o, ∀ f ∈ c.children, P f) (motive_6 := fun o => ∀ f ∈ o, P f)
    ?_ ?_ ?_ ?_ ?_ ?_ ?_ ?_ ?_ ?_ f
  case refine_1 =>
    rintro ⟨operation, children⟩ ih
    exact composite operation children ih
  case refine_2 => exact fun l ih => ih
  case refine_3 => exact fun operation children ih => ih
  case refine_4 => exact leaf
  case refine_5 => exact fun f hf => absurd hf List.not_mem_nil
  case refine_6 =>
    intro g rest ihg ihrest f hf
    rcases List.mem_cons.mp hf with rfl | h
    · exact ihg
    · exact ihrest f h
  case refine_7 => exact fun c hc => absurd hc (Option.not_mem_none _)
  case refine_8 =>
    intro c ih c' hc
    obtain rfl := Option.mem_some.mp hc
    exact ih
  case refine_9 => exact fun f hf => absurd hf (Option.not_mem_none _)
  case refine_10 =>
    intro g ih f hf
    obtain rfl := Option.mem_some.mp hf
    exact ih

/-- A property of all filters along the cases of `foldDoubleNegation`. -/
@[elab_as_elim]
theorem foldingInduction {P : Filter → Prop} (leaf : ∀ l, P (.leaf l))
    (double : ∀ only, P only → P (.composite ⟨.not, [.composite ⟨.not, [only]⟩]⟩))
    (doubled : ∀ children, (∀ only, children = [only] → False) → (∀ f ∈ children, P f) →
      P (.composite ⟨.not, [.composite ⟨.not, children⟩]⟩))
    (negated : ∀ l, P (.composite ⟨.not, [.leaf l]⟩))
    (other : ∀ operation children,
      (∀ only, operation = .not → children = [.composite ⟨.not, [only]⟩] → False) →
      (∀ members, operation = .not → children = [.composite ⟨.not, members⟩] → False) →
      (∀ l, operation = .not → children = [.leaf l] → False) →
      (∀ f ∈ children, P f) → P (.composite ⟨operation, children⟩))
    (f : Filter) : P f := by
  refine foldDoubleNegation.induct P (fun fs => ∀ f ∈ fs, P f) leaf double doubled
    (fun l _ => negated l) (fun l _ => negated l) other ?_ ?_ f
  case refine_1 => exact fun f hf => absurd hf List.not_mem_nil
  case refine_2 =>
    intro g rest ihg ihrest f hf
    rcases List.mem_cons.mp hf with rfl | h
    · exact ihg
    · exact ihrest f h

/-! ## Functions on lists of filters -/

theorem areAggregateOnly_eq (fs : List Filter) : areAggregateOnly fs = fs.all isAggregateOnly := by
  induction fs with
  | nil => rfl
  | cons f rest ih => rw [areAggregateOnly, ih, List.all_cons]

theorem anyHasAggregate_eq (fs : List Filter) : anyHasAggregate fs = fs.any hasAggregate := by
  induction fs with
  | nil => rfl
  | cons f rest ih => rw [anyHasAggregate, ih, List.any_cons]

theorem isAggregateOnly_composite (operation : BooleanOp) (children : List Filter) :
    isAggregateOnly (.composite ⟨operation, children⟩) =
      (!children.isEmpty && areAggregateOnly children) := by
  match children with
  | [] => rfl
  | first :: rest =>
    rw [isAggregateOnly, List.isEmpty_cons, Bool.not_false, Bool.true_and]
    simp

theorem foldDoubleNegations_eq (fs : List Filter) :
    foldDoubleNegations fs = fs.map foldDoubleNegation := by
  induction fs with
  | nil => rfl
  | cons f rest ih => rw [foldDoubleNegations, ih, List.map_cons]

theorem reorderAll_eq (fs : List Filter) : reorderAll fs = fs.map reorder := by
  induction fs with
  | nil => rfl
  | cons f rest ih => rw [reorderAll, ih, List.map_cons]

theorem optimizeAll_eq (inside : Bool) (fs : List Filter) :
    optimizeAll inside fs = fs.map (optimizeWithin inside) := by
  induction fs with
  | nil => rfl
  | cons f rest ih => rw [optimizeAll, ih, List.map_cons]

theorem reorderCondition_eq (o : Option Composite) : reorderCondition o = o.map reorderComposite := by
  cases o <;> rfl

theorem optimizeCondition_eq (o : Option Composite) :
    optimizeCondition o = o.map (optimizeComposite true) := by
  cases o <;> rfl

/-! ## Signs -/

theorem isNegated_reorder (f : Filter) : f.reorder.isNegated = f.isNegated := by
  match f with
  | .leaf ⟨_, _, _⟩ => rfl
  | .composite ⟨_, _⟩ => rfl

theorem isNegated_optimizeWithin (inside : Bool) (f : Filter) :
    (optimizeWithin inside f).isNegated = f.isNegated := by
  match f with
  | .leaf ⟨t, _, _⟩ =>
    rw [optimizeWithin]
    split <;> rfl
  | .composite ⟨operation, children⟩ =>
    rw [optimizeWithin, optimizeComposite]
    split
    · rename_i hcollapse
      split at hcollapse
      · rename_i hor
        simp only [Bool.and_eq_true, decide_eq_true_eq] at hor
        rw [isNegated, isNegated, hor.2]
      · cases hcollapse
    · rfl

end Filter

end ObjectQuery
