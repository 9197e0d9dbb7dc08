import ObjectQuery.Proofs.Emission.Parts
import ObjectQuery.Proofs.Optimizer.Equalities

/-!
# What a filter emits with its equalities collapsed

* `Filter.equalityGroups`: the groups of equalities that the optimizer collapses.
* `Draft.Tracks`: a filter that goes the same way as another in every place of a tree.
  `Draft.Follows`: likewise for its positive form, if it is negated.
* `Draft.follows_optimizeWithin`: a filter with its equalities collapsed follows the filter.
-/

namespace ObjectQuery

namespace Filter

mutual

/-- The tests of each group of equalities that the optimizer collapses, `inside` a condition on a
collection's elements or outside of one. -/
def equalityGroups (inside : Bool) : Filter → List (List Test)
  | .leaf ⟨t, condition, _⟩ =>
    if t.operation = .collectionCondition then groupsOfCondition condition else []
  | .composite c => groupsOfComposite inside c

/-- The groups in a composite. -/
def groupsOfComposite (inside : Bool) : Composite → List (List Test)
  | ⟨operation, children⟩ =>
    match if inside && operation = .or then collapse? children else none with
    | some _ => [leafTests children]
    | none => groupsOfAll inside children

/-- The groups in each of the filters. -/
def groupsOfAll (inside : Bool) : List Filter → List (List Test)
  | [] => []
  | f :: rest => equalityGroups inside f ++ groupsOfAll inside rest

/-- The groups in the condition of a leaf. -/
def groupsOfCondition : Option Composite → List (List Test)
  | none => []
  | some c => groupsOfComposite true c

end

theorem mem_groupsOfAll {inside : Bool} {fs : List Filter} {group : List Test} :
    group ∈ groupsOfAll inside fs ↔ ∃ f ∈ fs, group ∈ equalityGroups inside f := by
  induction fs with
  | nil => simp [groupsOfAll]
  | cons f rest ih => simp [groupsOfAll, ih]

/-- A composite is collapsed as a whole, or the optimizer goes on to its children. -/
theorem optimizeComposite_cases (inside : Bool) (operation : BooleanOp) (children : List Filter) :
    (∃ collapsed, operation = .or ∧ collapse? children = some collapsed ∧
        optimizeComposite inside ⟨operation, children⟩ = ⟨.or, [.leaf collapsed]⟩ ∧
        groupsOfComposite inside ⟨operation, children⟩ = [leafTests children]) ∨
      optimizeComposite inside ⟨operation, children⟩ =
          ⟨operation, children.map (optimizeWithin inside)⟩ ∧
        groupsOfComposite inside ⟨operation, children⟩ = groupsOfAll inside children := by
  rw [optimizeComposite, groupsOfComposite, ← optimizeAll_eq]
  cases hcollapse : if inside && operation = .or then collapse? children else none with
  | none => exact .inr ⟨rfl, rfl⟩
  | some collapsed =>
    split at hcollapse
    · rename_i hor
      rw [Bool.and_eq_true, decide_eq_true_eq] at hor
      exact .inl ⟨collapsed, hor.2, hcollapse, rfl, rfl⟩
    · cases hcollapse

/-- Equalities are not negated, and neither is their membership test. -/
theorem isNegated_of_collapse? {children : List Filter} {collapsed : Leaf}
    (h : collapse? children = some collapsed) :
    children ≠ [] ∧ (∀ f ∈ children, f.isNegated = false) ∧ (leaf collapsed).isNegated = false := by
  obtain ⟨leaves, rfl, -, first, hfirst, hall, rfl⟩ := collapse?_eq_some h
  refine ⟨List.map_eq_nil_iff.not.mpr (List.ne_nil_of_mem hfirst), ?_, rfl⟩
  rw [List.forall_mem_map]
  intro l hl
  rw [isNegated, Test.isNegated, operation_of_isCollapsible (hall l hl)]
  rfl

end Filter

/-- A condition without negated children has a plain part only. -/
theorem Composite.split_of_plain {c : Composite} (hop : c.operation ≠ .not) (hne : c.children ≠ [])
    (hplain : ∀ f ∈ c.children, f.isNegated = false) : c.split = (some c, none) := by
  obtain ⟨operation, children⟩ := c
  have hkept : Composite.plainChildren ⟨operation, children⟩ = children :=
    List.filter_eq_self.mpr fun f hf => by rw [hplain f hf, Bool.not_false]
  have hnone : Composite.negatedChildren ⟨operation, children⟩ = [] :=
    List.filter_eq_nil_iff.mpr fun f hf => by
      rw [hplain f hf]
      exact Bool.false_ne_true
  unfold split
  rw [if_neg hop, hkept, hnone, if_neg (by simpa using hne), List.isEmpty_nil, if_pos rfl]

namespace Draft

open ObjectQuery.Filter

variable {k : Compiler} {r : Likeness} {f g : Filter} {fs gs : List Filter}

/-! ## Filters in place of each other -/

/-- The filters emit alike and are routed alike, so that the one may stand for the other. -/
structure Tracks (r : Likeness) (k : Compiler) (f g : Filter) : Prop where
  emits : Abreast r (emit k f) (emit k g)
  isAggregateOnly : g.isAggregateOnly = f.isAggregateOnly
  hasAggregate : g.hasAggregate = f.hasAggregate

theorem Tracks.of_routedAlike {c c' : Composite} (hc : Matches.RoutedAlike c c')
    (h : AllAbreast r (emitEach k .all c.children) (emitEach k .all c'.children)) :
    Tracks r k (.composite c) (.composite c') := by
  obtain ⟨operation, children⟩ := c
  obtain ⟨_, children'⟩ := c'
  refine ⟨?_, ?_, hc.anyHasAggregate⟩
  · rw [emit, emitComposite, emit, emitComposite]
    exact Abreast.composite hc h
  · rw [isAggregateOnly_composite, isAggregateOnly_composite, hc.isEmpty, hc.areAggregateOnly]

/-- Composites of filters that track each other. -/
theorem Tracks.composite (operation : BooleanOp) (h : List.Forall₂ (Tracks r k) fs gs) :
    Tracks r k (.composite ⟨operation, fs⟩) (.composite ⟨operation, gs⟩) := by
  refine of_routedAlike ⟨rfl, ?_, ?_, ?_⟩ ?_
  · cases h <;> rfl
  · show areAggregateOnly gs = areAggregateOnly fs
    induction h with
    | nil => rfl
    | cons hf _ ih => rw [areAggregateOnly, areAggregateOnly, hf.isAggregateOnly, ih]
  · show anyHasAggregate gs = anyHasAggregate fs
    induction h with
    | nil => rfl
    | cons hf _ ih => rw [anyHasAggregate, anyHasAggregate, hf.hasAggregate, ih]
  · show AllAbreast r (emitEach k .all fs) (emitEach k .all gs)
    induction h with
    | nil => exact .pure rfl
    | cons hf _ ih =>
      rw [emitEach_cons, emitEach_cons]
      exact Abreast.together hf.emits ih

/-- The membership test of a disjunction stands for its equalities. -/
theorem Tracks.collapsed {children : List Filter} {collapsed : Leaf}
    (h : collapse? children = some collapsed) (hsuits : r.Suits (leafTests children)) :
    Tracks r k (.composite ⟨.or, [.leaf collapsed]⟩) (.composite ⟨.or, children⟩) := by
  have hemits := AllAbreast.collapsed (k := k) h hsuits
  obtain ⟨leaves, rfl, -, first, hfirst, hall, rfl⟩ := collapse?_eq_some h
  have haggregate : ∀ l ∈ leaves, l.test.isAggregate = first.test.isAggregate := by
    intro l hl
    obtain ⟨-, hproperty, -⟩ := isCollapsible_iff.mp (hall l hl)
    rw [Test.isAggregate, Test.isAggregate, hproperty]
  refine of_routedAlike ⟨rfl, ?_, ?_, ?_⟩ hemits
  · cases leaves with
    | nil => cases hfirst
    | cons _ _ => rfl
  · show areAggregateOnly (leaves.map .leaf) = (first.test.isAggregate && true)
    rw [areAggregateOnly_eq, List.all_map, Bool.and_true]
    cases hb : first.test.isAggregate with
    | true => exact List.all_eq_true.mpr fun l hl => (haggregate l hl).trans hb
    | false => exact List.all_eq_false.mpr ⟨first, hfirst, ne_true_of_eq_false hb⟩
  · show anyHasAggregate (leaves.map .leaf) = (first.test.isAggregate || false)
    rw [anyHasAggregate_eq, List.any_map, Bool.or_false]
    cases hb : first.test.isAggregate with
    | true => exact List.any_eq_true.mpr ⟨first, hfirst, hb⟩
    | false =>
      exact List.any_eq_false.mpr fun l hl => ne_true_of_eq_false ((haggregate l hl).trans hb)

/-- The filter tracks the other, and so do their positive forms if they are negated. -/
structure Follows (r : Likeness) (k : Compiler) (f g : Filter) : Prop where
  isNegated : f.isNegated = g.isNegated
  tracks : Tracks r k f g
  inverse : g.isNegated = true → Tracks r k f.invert g.invert

theorem Follows.composite (operation : BooleanOp) (h : List.Forall₂ (Follows r k) fs gs) :
    Follows r k (.composite ⟨operation, fs⟩) (.composite ⟨operation, gs⟩) := by
  refine ⟨rfl, .composite operation (h.imp fun _ _ hf => hf.tracks), fun _ => ?_⟩
  show Tracks r k (conjunction fs) (conjunction gs)
  cases h with
  | nil => exact .composite .and .nil
  | cons hf hrest =>
    cases hrest with
    | nil => exact hf.tracks
    | cons hg hrest =>
      exact .composite .and (.cons hf.tracks (.cons hg.tracks (hrest.imp fun _ _ h => h.tracks)))

/-! ## Conditions on collections -/

theorem tracks_plainChildren (operation : BooleanOp) (h : List.Forall₂ (Follows r k) fs gs) :
    List.Forall₂ (Tracks r k) (Composite.plainChildren ⟨operation, fs⟩)
      (Composite.plainChildren ⟨operation, gs⟩) := by
  unfold Composite.plainChildren
  dsimp only
  induction h with
  | nil => exact .nil
  | cons hf _ ih =>
    rw [List.filter_cons, List.filter_cons, hf.isNegated]
    split
    · exact .cons hf.tracks ih
    · exact ih

theorem tracks_negatedChildren (operation : BooleanOp) (h : List.Forall₂ (Follows r k) fs gs) :
    List.Forall₂ (Tracks r k) ((Composite.negatedChildren ⟨operation, fs⟩).map invert)
      ((Composite.negatedChildren ⟨operation, gs⟩).map invert) := by
  unfold Composite.negatedChildren
  dsimp only
  induction h with
  | nil => exact .nil
  | cons hf _ ih =>
    rw [List.filter_cons, List.filter_cons, hf.isNegated]
    split
    · rename_i hg
      exact .cons (hf.inverse hg) ih
    · exact ih

/-- The parts of conditions whose children follow each other. -/
theorem split_parts (operation : BooleanOp) (h : List.Forall₂ (Follows r k) fs gs) :
    Abreast.Parts r k (Composite.split ⟨operation, fs⟩).1 (Composite.split ⟨operation, gs⟩).1 ∧
      Abreast.Parts r k (Composite.split ⟨operation, fs⟩).2
        (Composite.split ⟨operation, gs⟩).2 := by
  have hpart (operation : BooleanOp) {fs gs : List Filter} (h : List.Forall₂ (Tracks r k) fs gs) :
      Abreast.Parts r k (if fs.isEmpty then none else some ⟨operation, fs⟩)
        (if gs.isEmpty then none else some ⟨operation, gs⟩) := by
    cases h with
    | nil => exact .none
    | cons hf hrest => exact .some (Tracks.composite operation (.cons hf hrest)).emits
  unfold Composite.split
  by_cases hnot : operation = .not
  · rw [if_pos hnot, if_pos hnot]
    exact ⟨.none, .some (Tracks.composite .and (h.imp fun _ _ hf => hf.tracks)).emits⟩
  · rw [if_neg hnot, if_neg hnot]
    have hnegated := hpart operation.flip (tracks_negatedChildren operation h)
    rw [List.isEmpty_map, List.isEmpty_map] at hnegated
    exact ⟨hpart operation (tracks_plainChildren operation h), hnegated⟩

/-- Conditions whose parts go the same way, also where the one asks for outer joins and the other
does not. -/
theorem Abreast.emitCondition (t : Test) {c c' : Composite} (hop : c.operation = c'.operation)
    (hplain : Parts r k c.split.1 c'.split.1) (hnegated : Parts r k c.split.2 c'.split.2) :
    Abreast r (Draft.emitCondition k t (some c)) (Draft.emitCondition k t (some c')) := by
  rw [emitCondition_eq, emitCondition_eq, hop]
  exact withTheta _ (emitParts _ _ _ _ hplain hnegated)

/-- The membership test of a condition goes the same way as its equalities. It may ask for inner
joins where they ask for outer ones. -/
theorem Abreast.collapsedCondition (t : Test) {children : List Filter} {collapsed : Leaf}
    (h : collapse? children = some collapsed) (hsuits : r.Suits (leafTests children)) :
    Abreast r (Draft.emitCondition k t (some ⟨.or, [.leaf collapsed]⟩))
      (Draft.emitCondition k t (some ⟨.or, children⟩)) := by
  obtain ⟨hne, hplain, hmember⟩ := isNegated_of_collapse? h
  have hor : BooleanOp.or ≠ .not := by decide
  have hsplit : Composite.split ⟨.or, children⟩ = (some ⟨.or, children⟩, none) :=
    Composite.split_of_plain hor hne hplain
  have hsplit' : Composite.split ⟨.or, [.leaf collapsed]⟩ = (some ⟨.or, [.leaf collapsed]⟩, none) :=
    Composite.split_of_plain hor (List.cons_ne_nil _ _) (List.forall_mem_singleton.mpr hmember)
  refine emitCondition t rfl ?_ ?_ <;> rw [hsplit, hsplit']
  · exact .some (Tracks.collapsed h hsuits).emits
  · exact .none

/-! ## The recursion -/

section

variable (hr : ∀ v, r.values v v)

include hr

theorem Abreast.emitSubquery (t : Test) {subfilter : Option Filter}
    (h : ∀ f ∈ subfilter, Abreast r (emit k f) (emit k f)) :
    Abreast r (Draft.emitSubquery k t subfilter) (Draft.emitSubquery k t subfilter) := by
  cases subfilter with
  | none => exact subquery hr t (.pure rfl)
  | some f => exact subquery hr t (h f rfl)

/-- A leaf whose condition goes the same way follows the leaf. -/
theorem follows_leaf (t : Test) {condition condition' : Option Composite}
    {subfilter : Option Filter}
    (hcondition : Abreast r (emitCondition k t condition) (emitCondition k t condition'))
    (hsubfilter : Abreast r (emitSubquery k t subfilter) (emitSubquery k t subfilter)) :
    Follows r k (.leaf ⟨t, condition, subfilter⟩) (.leaf ⟨t, condition', subfilter⟩) := by
  have hleaf : Abreast r (emitLeaf k ⟨t, condition, subfilter⟩)
      (emitLeaf k ⟨t, condition', subfilter⟩) := by
    rw [emitLeaf, emitLeaf]
    split
    · exact hcondition
    · exact hsubfilter
    · exact .test hr t
  refine ⟨rfl, ⟨hleaf, rfl, rfl⟩, fun _ => ⟨?_, ?_, ?_⟩⟩
  · rw [← emitInverse_eq, ← emitInverse_eq, emitInverse, emitInverse]
    cases t.operation.inverse with
    | none => exact hleaf
    | some operation => exact .test hr _
  · rw [invert, invert, invertLeaf, invertLeaf]
    cases t.operation.inverse <;> rfl
  · rw [invert, invert, invertLeaf, invertLeaf]
    cases t.operation.inverse <;> rfl

/-- Every filter follows itself. -/
theorem Follows.self (f : Filter) : Follows r k f f := by
  induction f using Filter.induction with
  | leaf t condition subfilter ihc ihs =>
    refine follows_leaf hr t ?_ (.emitSubquery hr t fun f hf => (ihs f hf).tracks.emits)
    cases condition with
    | none => exact .test hr t
    | some c =>
      obtain ⟨operation, children⟩ := c
      obtain ⟨hplain, hnegated⟩ := split_parts operation (List.forall₂_same.mpr (ihc _ rfl))
      exact .emitCondition t rfl hplain hnegated
  | composite operation children ih => exact .composite operation (List.forall₂_same.mpr ih)

omit hr in
/-- A composite is collapsed as a whole, or its children follow what they were. -/
theorem follows_cases {inside : Bool} {operation : BooleanOp} {children : List Filter}
    (ih : ∀ f ∈ children, ∀ inside, (∀ group ∈ f.equalityGroups inside, r.Suits group) →
      Follows r k (optimizeWithin inside f) f)
    (hgroups : ∀ group ∈ groupsOfComposite inside ⟨operation, children⟩, r.Suits group) :
    (∃ collapsed, operation = .or ∧ collapse? children = some collapsed ∧
        optimizeComposite inside ⟨operation, children⟩ = ⟨.or, [.leaf collapsed]⟩ ∧
        r.Suits (leafTests children)) ∨
      optimizeComposite inside ⟨operation, children⟩ =
          ⟨operation, children.map (optimizeWithin inside)⟩ ∧
        List.Forall₂ (Follows r k) (children.map (optimizeWithin inside)) children := by
  obtain ⟨collapsed, hor, hcollapse, heq, hgroup⟩ | ⟨heq, hall⟩ :=
    optimizeComposite_cases inside operation children
  · rw [hgroup] at hgroups
    exact .inl ⟨collapsed, hor, hcollapse, heq, hgroups _ (List.mem_singleton.mpr rfl)⟩
  · rw [hall] at hgroups
    refine .inr ⟨heq, ?_⟩
    rw [List.forall₂_map_left_iff, List.forall₂_same]
    exact fun f hf => ih f hf inside fun group hgroup =>
      hgroups group (mem_groupsOfAll.mpr ⟨f, hf, hgroup⟩)

/-- A filter with its equalities collapsed follows the filter. -/
theorem follows_optimizeWithin (f : Filter) : ∀ inside,
    (∀ group ∈ f.equalityGroups inside, r.Suits group) →
      Follows r k (optimizeWithin inside f) f := by
  induction f using Filter.induction with
  | leaf t condition subfilter ihc ihs =>
    intro inside hgroups
    have hself := Follows.self (k := k) hr (.leaf ⟨t, condition, subfilter⟩)
    rw [equalityGroups] at hgroups
    rw [optimizeWithin]
    by_cases hop : t.operation = .collectionCondition
    · rw [if_pos hop] at hgroups ⊢
      rcases condition with _ | ⟨operation, children⟩
      · exact hself
      · have hsubfilter : Abreast r (emitSubquery k t subfilter) (emitSubquery k t subfilter) :=
          .emitSubquery hr t fun f _ => (Follows.self hr f).tracks.emits
        refine follows_leaf hr t ?_ hsubfilter
        obtain ⟨collapsed, rfl, hcollapse, heq, hsuits⟩ | ⟨heq, hchildren⟩ :=
          follows_cases (ihc _ rfl) hgroups
        · rw [optimizeCondition, heq]
          exact .collapsedCondition t hcollapse hsuits
        · rw [optimizeCondition, heq]
          obtain ⟨hplain, hnegated⟩ := split_parts operation hchildren
          exact .emitCondition t rfl hplain hnegated
    · rw [if_neg hop]
      exact hself
  | composite operation children ih =>
    intro inside hgroups
    rw [equalityGroups] at hgroups
    rw [optimizeWithin]
    obtain ⟨collapsed, rfl, hcollapse, heq, hsuits⟩ | ⟨heq, hchildren⟩ := follows_cases ih hgroups
    · rw [heq]
      exact ⟨rfl, .collapsed hcollapse hsuits, fun h => by cases h⟩
    · rw [heq]
      exact .composite operation hchildren

end

end Draft

end ObjectQuery
