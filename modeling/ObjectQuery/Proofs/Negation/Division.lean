import Mathlib.Data.List.Perm.Basic
import ObjectQuery.Proofs.Filter.Evaluation

/-!
# The division of a condition

A condition on a collection's elements divides into its plain part and the positive form of its
negated part.

* `BooleanOp.connect_flip`: a connective of truth values, negated by the flipped connective.
* `Filter.Complementary.connect_invert`: negated filters are together the complement of their
  positive forms.
* `Composite.connect_children`: the children of a condition, those of either sign by themselves.
* `Composite.evaluate_split`: the condition says what its plain part and the complement of its
  negated part say together.
-/

namespace ObjectQuery

namespace BooleanOp

variable {operation : BooleanOp}

/-- Connectives other than negation are negated by flipping them. -/
theorem connect_flip (h : operation ≠ .not) (truths : List Bool) :
    operation.flip.connect (truths.map (!·)) = !operation.connect truths := by
  cases operation with
  | and => simp [flip, connect, List.not_all_eq_any_not]
  | or => simp [flip, connect, List.not_any_eq_all_not]
  | not => exact absurd rfl h

theorem connect_append (h : operation ≠ .not) (truths others : List Bool) :
    operation.connect (truths ++ others) =
      operation.connect [operation.connect truths, operation.connect others] := by
  cases operation with
  | and => simp [connect]
  | or => simp [connect]
  | not => exact absurd rfl h

theorem connect_perm {truths others : List Bool} (h : truths.Perm others) :
    operation.connect truths = operation.connect others := by
  cases operation with
  | and => exact h.all_eq
  | or => exact h.any_eq
  | not => exact congrArg (!·) h.all_eq

end BooleanOp

variable {v : Leaf → Bool}

/-- Negated filters under a connective are the complement of their positive forms under the flipped
connective. -/
theorem Filter.Complementary.connect_invert (hv : Filter.Complementary v) {operation : BooleanOp}
    (hop : operation ≠ .not) {fs : List Filter} (h : ∀ f ∈ fs, f.isNegated = true) :
    operation.connect (fs.map (Filter.evaluate v)) =
      !operation.flip.connect ((fs.map Filter.invert).map (Filter.evaluate v)) := by
  have hinverted : (fs.map Filter.invert).map (Filter.evaluate v) =
      (fs.map (Filter.evaluate v)).map (!·) := by
    rw [List.map_map, List.map_map]
    refine List.map_congr_left fun f hf => ?_
    rw [Function.comp_apply, Function.comp_apply, hv.evaluate_invert (h f hf), Bool.not_not]
  rw [hinverted, BooleanOp.connect_flip hop, Bool.not_not]

namespace Composite

theorem evaluate_eq (c : Composite) :
    c.evaluate v = c.operation.connect (c.children.map (Filter.evaluate v)) := by
  obtain ⟨operation, children⟩ := c
  exact Filter.evaluate_composite operation children

/-! ## The parts of a condition -/

/-- The truths of the children of either sign may be connected by themselves first. -/
theorem connect_children {c : Composite} (hop : c.operation ≠ .not) (g : Filter → Bool) :
    c.operation.connect (c.children.map g) =
      c.operation.connect
        [c.operation.connect (c.plainChildren.map g),
          c.operation.connect (c.negatedChildren.map g)] := by
  have hperm : (c.plainChildren ++ c.negatedChildren).Perm c.children :=
    List.perm_append_comm.trans (List.filter_append_perm Filter.isNegated c.children)
  rw [← BooleanOp.connect_append hop, ← List.map_append]
  exact BooleanOp.connect_perm (hperm.symm.map g)

theorem evaluate_divided (hv : Filter.Complementary v) {c : Composite} (hop : c.operation ≠ .not) :
    c.evaluate v = c.operation.connect
      [c.operation.connect (c.plainChildren.map (Filter.evaluate v)),
        !c.operation.flip.connect ((c.negatedChildren.map Filter.invert).map (Filter.evaluate v))] := by
  have hnegated : ∀ f ∈ c.negatedChildren, f.isNegated = true := fun _ hf =>
    (List.mem_filter.mp hf).2
  rw [evaluate_eq, connect_children hop, hv.connect_invert hop hnegated]

/-- A composite of filters, if there are any. -/
def ofChildren? (operation : BooleanOp) : List Filter → Option Composite
  | [] => none
  | f :: rest => some ⟨operation, f :: rest⟩

/-- The children of a part of a condition. A missing part has none. -/
def childrenOf (part : Option Composite) : List Filter := part.elim [] (·.children)

theorem childrenOf_ofChildren? (operation : BooleanOp) (fs : List Filter) :
    childrenOf (ofChildren? operation fs) = fs := by
  cases fs <;> rfl

theorem children_ne_nil_of_ofChildren? {operation : BooleanOp} {fs : List Filter} {part : Composite}
    (h : ofChildren? operation fs = some part) : part.children ≠ [] := by
  cases fs with
  | nil => cases h
  | cons f rest =>
    cases h
    exact List.cons_ne_nil f rest

/-- A conjunction has a part for the children of each sign, and so has a disjunction. -/
theorem split_of_ne_not {c : Composite} (hop : c.operation ≠ .not) :
    c.split =
      (ofChildren? c.operation c.plainChildren,
        ofChildren? c.operation.flip (c.negatedChildren.map Filter.invert)) := by
  unfold split
  rw [if_neg hop]
  cases c.plainChildren <;> cases c.negatedChildren <;> rfl

/-- A negation has a negated part only. -/
theorem split_of_eq_not {c : Composite} (hop : c.operation = .not) :
    c.split = (none, some ⟨.and, c.children⟩) :=
  if_pos hop

theorem all_evaluate_split (hv : Filter.Complementary v) {c : Composite} (hop : c.operation = .and) :
    c.evaluate v = (c.split.1.all (·.evaluate v) && c.split.2.all (!·.evaluate v)) := by
  have hne : c.operation ≠ .not := by rw [hop]; decide
  rw [evaluate_divided hv hne, split_of_ne_not hne, hop]
  cases c.plainChildren <;> cases c.negatedChildren <;>
    simp [ofChildren?, evaluate_eq, BooleanOp.connect, BooleanOp.flip]

theorem any_evaluate_split (hv : Filter.Complementary v) {c : Composite} (hop : c.operation = .or) :
    c.evaluate v = (c.split.1.any (·.evaluate v) || c.split.2.any (!·.evaluate v)) := by
  have hne : c.operation ≠ .not := by rw [hop]; decide
  rw [evaluate_divided hv hne, split_of_ne_not hne, hop]
  cases c.plainChildren <;> cases c.negatedChildren <;>
    simp [ofChildren?, evaluate_eq, BooleanOp.connect, BooleanOp.flip]

/-- A conjunction says what its plain part says and its negated part does not, a disjunction what its
plain part says or its negated part does not, and a negation, which has no plain part, what its
negated part does not say. The plain part has the children that are not negated and the negated part
the positive forms of the others, in their order, and each part is left out if it has none. -/
theorem evaluate_split (hv : Filter.Complementary v) (c : Composite) :
    (c.operation = .and →
      c.evaluate v = (c.split.1.all (·.evaluate v) && c.split.2.all (!·.evaluate v))) ∧
    (c.operation = .or →
      c.evaluate v = (c.split.1.any (·.evaluate v) || c.split.2.any (!·.evaluate v))) ∧
    (c.operation = .not →
      c.split.1 = none ∧ ∃ part, c.split.2 = some part ∧ part.children = c.children ∧
        c.evaluate v = !part.evaluate v) ∧
    (c.operation ≠ .not →
      childrenOf c.split.1 = c.children.filter (!·.isNegated) ∧
      childrenOf c.split.2 = (c.children.filter (·.isNegated)).map Filter.invert ∧
      ∀ part, c.split.1 = some part ∨ c.split.2 = some part → part.children ≠ []) := by
  refine ⟨all_evaluate_split hv, any_evaluate_split hv, fun hop => ?_, fun hop => ?_⟩
  · rw [split_of_eq_not hop]
    refine ⟨rfl, _, rfl, rfl, ?_⟩
    rw [evaluate_eq, evaluate_eq, hop]
    rfl
  · rw [split_of_ne_not hop]
    refine ⟨childrenOf_ofChildren? _ _, childrenOf_ofChildren? _ _, ?_⟩
    rintro part (h | h)
    · exact children_ne_nil_of_ofChildren? h
    · exact children_ne_nil_of_ofChildren? h

/-- The account named jdoe that is not on application X and has entitlements. -/
def jdoeOutsideX : Composite :=
  ⟨.and,
    [.compare .eq "nativeIdentity" (.text "jdoe"),
      (Filter.compare .ne "application.id" (.text "X")).ignoringCase,
      .compare .notNull "entitlements" .null]⟩

/-- An account of which only the native identity is as filters ask, and nothing is null. -/
def accountOfJdoe : Leaf → Bool := Filter.rowValuation (· == "nativeIdentity") fun _ => false

/-- The account has the native identity, and neither is it on application X nor are its entitlements
null. -/
theorem evaluate_split_jdoe :
    Filter.Complementary accountOfJdoe ∧ jdoeOutsideX.evaluate accountOfJdoe = true ∧
      jdoeOutsideX.split.1.all (·.evaluate accountOfJdoe) = true ∧
      jdoeOutsideX.split.2.all (!·.evaluate accountOfJdoe) = true ∧
      (childrenOf jdoeOutsideX.split.2).length = 2 := by
  have hcomplementary : Filter.Complementary accountOfJdoe := Filter.complementary_rowValuation _ _
  obtain ⟨hand, -, -, hparts⟩ := evaluate_split hcomplementary jdoeOutsideX
  have hholds : jdoeOutsideX.evaluate accountOfJdoe = true := by decide
  have hsaid := hand rfl
  rw [hholds] at hsaid
  obtain ⟨hplain, hnegated⟩ := Bool.and_eq_true_iff.mp hsaid.symm
  refine ⟨hcomplementary, hholds, hplain, hnegated, ?_⟩
  rw [(hparts (by decide)).2.1]
  rfl

end Composite

end ObjectQuery
