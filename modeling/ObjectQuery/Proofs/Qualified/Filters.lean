import ObjectQuery.Proofs.Matching.Drafts
import ObjectQuery.Proofs.Qualified.Paths

/-!
# Filters with the name of their class in front of properties

* `Test.Qualified`, `Filter.Qualified`: a test, and any of the leaves of a filter, with the name of
  the class in front of the property. Conditions and subqueries of leaves are as they were.
* `Filter.Qualified.foldDoubleNegation`, `Filter.Qualified.reorder`, `Filter.Qualified.optimize`: the
  arrangement of a filter keeps to this.
* `Filter.IsThetaFree`: filters without conditions on classes, which correlate no classes.
-/

namespace ObjectQuery

/-- The test `u` is `t` with the name of the class in front of its property. -/
structure Test.Qualified (c : Catalog) (C : String) (t u : Test) : Prop where
  own : Path.IsOwn c C t.property
  eq : u = { t with property := Path.qualify C t.property }

/-- The second filter is the first one with the name of the class in front of the properties of any
of its leaves. -/
inductive Filter.Qualified (c : Catalog) (C : String) : Filter → Filter → Prop
  | same (l : Leaf) : Filter.Qualified c C (.leaf l) (.leaf l)
  | leaf {t u : Test} (condition : Option Composite) (subfilter : Option Filter)
      (h : Test.Qualified c C t u) :
      Filter.Qualified c C (.leaf ⟨t, condition, subfilter⟩) (.leaf ⟨u, condition, subfilter⟩)
  | composite (operation : BooleanOp) {children children' : List Filter}
      (h : List.Forall₂ (Filter.Qualified c C) children children') :
      Filter.Qualified c C (.composite ⟨operation, children⟩) (.composite ⟨operation, children'⟩)

variable {c : Catalog} {C : String}

namespace Test.Qualified

variable {t u : Test}

theorem withOperation (h : Test.Qualified c C t u) (operation : LogicalOp) (v : Value) :
    Test.Qualified c C (t.withOperation operation v) (u.withOperation operation v) := by
  obtain ⟨hown, rfl⟩ := h
  exact ⟨hown, rfl⟩

/-- Neither way of writing the property makes it an aggregate. -/
theorem isAggregate (hclass : Path.IsQualifier C) (h : Test.Qualified c C t u) :
    t.isAggregate = false ∧ u.isAggregate = false := by
  obtain ⟨hown, rfl⟩ := h
  exact ⟨hown.noBracket, hclass.noBracket_qualify hown.noBracket⟩

end Test.Qualified

namespace Filter

/-! ## Arrangement -/

namespace Qualified

variable {f g : Filter} {fs gs : List Filter}

theorem invertLeaf {l l' : Leaf} (h : Qualified c C (.leaf l) (.leaf l')) :
    Qualified c C (.leaf (Filter.invertLeaf l)) (.leaf (Filter.invertLeaf l')) := by
  cases h with
  | same => exact .same _
  | leaf condition subfilter h =>
    have hqualified := h
    obtain ⟨-, rfl⟩ := h
    unfold Filter.invertLeaf
    dsimp only
    split
    · exact .leaf none none (hqualified.withOperation _ _)
    · exact .leaf _ _ hqualified

theorem isNegated (h : Qualified c C f g) : g.isNegated = f.isNegated := by
  cases h with
  | same | composite => rfl
  | leaf condition subfilter h =>
    obtain ⟨-, rfl⟩ := h
    rfl

theorem isCollectionCondition (h : Qualified c C f g) :
    g.isCollectionCondition = f.isCollectionCondition := by
  cases h with
  | same | composite => rfl
  | leaf condition subfilter h =>
    obtain ⟨-, rfl⟩ := h
    rfl

/-- A composite has a composite with the same connective beside it. -/
theorem composite_left {operation : BooleanOp} (h : Qualified c C (.composite ⟨operation, fs⟩) g) :
    ∃ gs, g = .composite ⟨operation, gs⟩ ∧ List.Forall₂ (Qualified c C) fs gs := by
  cases h with
  | composite _ h => exact ⟨_, rfl, h⟩

theorem composite_right {operation : BooleanOp} (h : Qualified c C f (.composite ⟨operation, gs⟩)) :
    ∃ fs, f = .composite ⟨operation, fs⟩ ∧ List.Forall₂ (Qualified c C) fs gs := by
  cases h with
  | composite _ h => exact ⟨_, rfl, h⟩

theorem leaf_right {l : Leaf} (h : Qualified c C f (.leaf l)) : ∃ l', f = .leaf l' := by
  cases h with
  | same | leaf => exact ⟨_, rfl⟩

theorem leaf_left {l : Leaf} (h : Qualified c C (.leaf l) g) : ∃ l', g = .leaf l' := by
  cases h with
  | same | leaf => exact ⟨_, rfl⟩

/-- The only filter of a list has the only filter of the other list beside it. -/
theorem singleton_right (h : List.Forall₂ (Qualified c C) fs [g]) :
    ∃ f, fs = [f] ∧ Qualified c C f g := by
  obtain ⟨f, rest, hf, hrest, rfl⟩ := List.forall₂_cons_right_iff.mp h
  rw [List.forall₂_nil_right_iff.mp hrest]
  exact ⟨f, rfl, hf⟩

theorem singleton_left (h : List.Forall₂ (Qualified c C) [f] gs) :
    ∃ g, gs = [g] ∧ Qualified c C f g := by
  obtain ⟨g, rest, hg, hrest, rfl⟩ := List.forall₂_cons_left_iff.mp h
  rw [List.forall₂_nil_left_iff.mp hrest]
  exact ⟨g, rfl, hg⟩

/-- What follows for filters side by side that are related follows for each of two lists of them. -/
theorem each {S : Filter → Filter → Prop} (ih : ∀ f ∈ fs, ∀ g, Qualified c C f g → S f g)
    (h : List.Forall₂ (Qualified c C) fs gs) : List.Forall₂ S fs gs := by
  induction h with
  | nil => exact .nil
  | cons hf _ ihrest =>
    obtain ⟨ihf, ih⟩ := List.forall_mem_cons.mp ih
    exact .cons (ihf _ hf) (ihrest ih)

theorem map {F : Filter → Filter}
    (ih : ∀ f ∈ fs, ∀ g, Qualified c C f g → Qualified c C (F f) (F g))
    (h : List.Forall₂ (Qualified c C) fs gs) :
    List.Forall₂ (Qualified c C) (fs.map F) (gs.map F) :=
  List.forall₂_map_left_iff.mpr (List.forall₂_map_right_iff.mpr (each ih h))

/-- Double negations are folded alike, as they are found by connectives and signs. -/
theorem foldDoubleNegation (h : Qualified c C f g) :
    Qualified c C f.foldDoubleNegation g.foldDoubleNegation := by
  induction f using Filter.foldingInduction generalizing g with
  | leaf l =>
    obtain ⟨l', rfl⟩ := h.leaf_left
    rwa [Filter.foldDoubleNegation, Filter.foldDoubleNegation]
  | double only ih =>
    obtain ⟨_, rfl, houter⟩ := h.composite_left
    obtain ⟨_, rfl, hinner⟩ := singleton_left houter
    obtain ⟨_, rfl, hchildren⟩ := hinner.composite_left
    obtain ⟨only', rfl, honly⟩ := singleton_left hchildren
    rw [Filter.foldDoubleNegation, Filter.foldDoubleNegation]
    exact ih honly
  | doubled children hne ih =>
    obtain ⟨_, rfl, houter⟩ := h.composite_left
    obtain ⟨_, rfl, hinner⟩ := singleton_left houter
    obtain ⟨children', rfl, hchildren⟩ := hinner.composite_left
    have hne' : ∀ only, children' = [only] → False := by
      rintro only rfl
      obtain ⟨f, hf, -⟩ := singleton_right hchildren
      exact hne f hf
    rw [foldDoubleNegation.eq_3 children hne, foldDoubleNegation.eq_3 children' hne',
      foldDoubleNegations_eq, foldDoubleNegations_eq]
    exact .composite _ (map (fun f hf g => ih f hf) hchildren)
  | negated l =>
    obtain ⟨_, rfl, hchildren⟩ := h.composite_left
    obtain ⟨_, rfl, honly⟩ := singleton_left hchildren
    obtain ⟨l', rfl⟩ := honly.leaf_left
    have hsign : l'.test.isNegated = l.test.isNegated := honly.isNegated
    rw [Filter.foldDoubleNegation, Filter.foldDoubleNegation, hsign]
    split
    · exact honly.invertLeaf
    · exact h
  | other operation children h₁ h₂ h₃ ih =>
    obtain ⟨children', rfl, hchildren⟩ := h.composite_left
    rw [foldDoubleNegation.eq_5 operation children h₁ h₂ h₃,
      foldDoubleNegation.eq_5 operation children', foldDoubleNegations_eq, foldDoubleNegations_eq]
    · exact .composite _ (map (fun f hf g => ih f hf) hchildren)
    · rintro only hnot rfl
      obtain ⟨_, rfl, hinner⟩ := singleton_right hchildren
      obtain ⟨_, rfl, hmembers⟩ := hinner.composite_right
      obtain ⟨only', rfl, -⟩ := singleton_right hmembers
      exact h₁ only' hnot rfl
    · rintro members hnot rfl
      obtain ⟨_, rfl, hinner⟩ := singleton_right hchildren
      obtain ⟨members', rfl, -⟩ := hinner.composite_right
      exact h₂ members' hnot rfl
    · rintro l hnot rfl
      obtain ⟨_, rfl, hinner⟩ := singleton_right hchildren
      obtain ⟨l', rfl⟩ := hinner.leaf_right
      exact h₃ l' hnot rfl

theorem collectionsLast (h : List.Forall₂ (Qualified c C) fs gs) :
    List.Forall₂ (Qualified c C) (Filter.collectionsLast fs) (Filter.collectionsLast gs) := by
  unfold Filter.collectionsLast
  refine List.rel_append (List.rel_filter (fun f g hfg => ?_) h)
    (List.rel_filter (fun f g hfg => ?_) h) <;>
  · show (_ = true) ↔ (_ = true)
    rw [hfg.isCollectionCondition]

theorem reorder (h : Qualified c C f g) : Qualified c C f.reorder g.reorder := by
  induction f using Filter.induction generalizing g with
  | leaf t condition subfilter =>
    cases h with
    | same => exact .same _
    | leaf _ _ h => exact .leaf _ _ h
  | composite operation children ih =>
    obtain ⟨children', rfl, hchildren⟩ := h.composite_left
    rw [Filter.reorder, Filter.reorder, reorderComposite, reorderComposite, reorderAll_eq,
      reorderAll_eq]
    exact .composite _ (collectionsLast (map (fun f hf g => ih f hf) hchildren))

/-- Only conditions on collections are optimized, and these are the same in both filters. -/
theorem optimize (h : Qualified c C f g) : Qualified c C f.optimize g.optimize := by
  unfold Filter.optimize
  induction f using Filter.induction generalizing g with
  | leaf t condition subfilter =>
    cases h with
    | same => rw [optimizeWithin]; split <;> exact .same _
    | leaf _ _ h =>
      have hoperation := congrArg Test.operation h.eq
      rw [optimizeWithin, optimizeWithin, hoperation]
      split <;> exact .leaf _ _ h
  | composite operation children ih =>
    obtain ⟨children', rfl, hchildren⟩ := h.composite_left
    rw [optimizeWithin, optimizeWithin, optimizeComposite, optimizeComposite, optimizeAll_eq,
      optimizeAll_eq]
    exact .composite _ (map (fun f hf g => ih f hf) hchildren)

end Qualified

/-! ## Aggregates -/

/-- Children that are aggregates alike are routed alike. -/
theorem routedAlike_of_each {fs gs : List Filter} (operation : BooleanOp)
    (h : List.Forall₂ (fun f g => f.isAggregateOnly = g.isAggregateOnly ∧
      f.hasAggregate = g.hasAggregate) fs gs) :
    Draft.Matches.RoutedAlike ⟨operation, gs⟩ ⟨operation, fs⟩ := by
  refine ⟨rfl, ?_, ?_, ?_⟩ <;> dsimp only
  · cases h <;> rfl
  · rw [areAggregateOnly_eq, areAggregateOnly_eq]
    induction h with
    | nil => rfl
    | cons hf _ ih => rw [List.all_cons, List.all_cons, hf.1, ih]
  · rw [anyHasAggregate_eq, anyHasAggregate_eq]
    induction h with
    | nil => rfl
    | cons hf _ ih => rw [List.any_cons, List.any_cons, hf.2, ih]

namespace Qualified

variable {f g : Filter} {fs gs : List Filter} (hclass : Path.IsQualifier C)

include hclass

/-- Leaves that are written differently compare no aggregates. -/
theorem aggregates (h : Qualified c C f g) :
    f.isAggregateOnly = g.isAggregateOnly ∧ f.hasAggregate = g.hasAggregate := by
  induction f using Filter.induction generalizing g with
  | leaf t condition subfilter =>
    cases h with
    | same => exact ⟨rfl, rfl⟩
    | leaf _ _ h =>
      obtain ⟨ht, hu⟩ := h.isAggregate hclass
      exact ⟨by rw [isAggregateOnly, isAggregateOnly, ht, hu],
        by rw [hasAggregate, hasAggregate, ht, hu]⟩
  | composite operation children ih =>
    obtain ⟨children', rfl, hchildren⟩ := h.composite_left
    have heach : List.Forall₂ (fun f g => f.isAggregateOnly = g.isAggregateOnly ∧
        f.hasAggregate = g.hasAggregate) children children' :=
      each (fun f hf g => ih f hf) hchildren
    have hrouted := routedAlike_of_each operation heach
    rw [isAggregateOnly_composite, isAggregateOnly_composite, hasAggregate, hasAggregate]
    exact ⟨congr (congrArg _ (congrArg _ hrouted.isEmpty)) hrouted.areAggregateOnly,
      hrouted.anyHasAggregate⟩

theorem routedAlike (operation : BooleanOp) (h : List.Forall₂ (Qualified c C) fs gs) :
    Draft.Matches.RoutedAlike ⟨operation, gs⟩ ⟨operation, fs⟩ :=
  routedAlike_of_each operation (h.imp fun _ _ hfg => hfg.aggregates hclass)

end Qualified

/-! ## Conditions on classes -/

/-- No condition on a collection names a class. -/
def IsThetaFree (f : Filter) : Prop :=
  ∀ t ∈ f.tests, t.operation = .collectionCondition → Draft.namesClass t.property = false

theorem mem_allNamings {n : Naming} {theta : Bool} {fs : List Filter} :
    n ∈ allNamings theta fs ↔ ∃ f ∈ fs, n ∈ f.namings theta := by
  induction fs with
  | nil => simp [allNamings]
  | cons f rest ih => simp [allNamings, ih]

/-- Joins outside of conditions on classes correlate no classes. -/
theorem IsThetaFree.not_mem_namings {f : Filter} (h : f.IsThetaFree) (className : String) :
    .correlated className ∉ f.namings false := by
  induction f using Filter.induction with
  | leaf t condition subfilter ihc =>
    obtain ⟨ht, hcondition, -⟩ := tests_leaf.mp h
    by_cases hop : t.operation = .collectionCondition
    · rw [namings_condition hop, ht hop]
      rcases condition with _ | ⟨operation, children⟩
      · exact List.not_mem_nil
      · rw [conditionNamings, plainNamings_eq]
        split
        · exact List.not_mem_nil
        · rw [mem_allNamings]
          rintro ⟨f, hf, hmem⟩
          have hchild := (List.mem_filter.mp hf).1
          exact ihc _ rfl f hchild (hcondition _ rfl f hchild) hmem
    · rw [namings_leaf hop]
      unfold Test.namings
      split <;> simp
  | composite operation children ih =>
    rw [namings, mem_allNamings]
    rintro ⟨f, hf, hmem⟩
    exact ih f hf (tests_composite.mp h f hf) hmem

/-- The plain part of a condition correlates no classes either. -/
theorem IsThetaFree.not_mem_namings_plain {cond : Composite}
    (h : ∀ f ∈ cond.children, f.IsThetaFree) {part : Composite} (hpart : cond.split.1 = some part)
    (className : String) : .correlated className ∉ (Filter.composite part).namings false := by
  refine IsThetaFree.not_mem_namings (tests_composite.mpr fun f hf => ?_) className
  exact h f ((Composite.split_plain hpart).2 f hf)

/-- Tests that arrangement makes are no conditions on collections. -/
theorem inherited_thetaFree :
    Inherited fun t => t.operation = .collectionCondition → Draft.namesClass t.property = false where
  inverse t operation _ hinverse hop := by
    cases ht : t.operation <;> rw [ht] at hinverse <;> cases hinverse <;> cases hop
  collapsed _ _ _ _ _ hop := by cases hop

end Filter

end ObjectQuery
