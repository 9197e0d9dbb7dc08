import ObjectQuery.Proofs.Filter.Change
import ObjectQuery.Proofs.Optimizer.EqualityGroups
import ObjectQuery.Proofs.Subqueries.Queries

/-!
# Filters with conditions on collections behind their siblings

* `Filter.perm_composites_reorder`: reordering goes through the composites of a filter one by one.
* `Filter.reorder_optimizeWithin`: reordering may come before or after optimizing.
* `Filter.Moved`: filters that differ by moves of conditions past their other siblings.
* `Filter.reorder_eq_iff_moved`: these are the filters that reordering makes equal. It picks one of
  them (`Filter.moved_reorder`).
-/

namespace ObjectQuery

namespace Filter

theorem isCollectionCondition_reorder (f : Filter) :
    f.reorder.isCollectionCondition = f.isCollectionCondition := by
  match f with
  | .leaf ⟨_, _, _⟩ | .composite _ => rfl

theorem isCollectionCondition_optimizeWithin (inside : Bool) (f : Filter) :
    (optimizeWithin inside f).isCollectionCondition = f.isCollectionCondition := by
  match f with
  | .leaf ⟨_, _, _⟩ =>
    rw [optimizeWithin]
    split <;> rfl
  | .composite _ => rfl

theorem reorderComposite_eq (c : Composite) :
    reorderComposite c = ⟨c.operation, collectionsLast (c.children.map reorder)⟩ := by
  obtain ⟨operation, children⟩ := c
  rw [reorderComposite, reorderAll_eq]

/-- The reordered children of a composite: first those that are no conditions, then the conditions. -/
theorem children_reorderComposite (c : Composite) :
    (reorderComposite c).children =
      (c.children.filter (!·.isCollectionCondition)).map reorder ++
        (c.children.filter (·.isCollectionCondition)).map reorder := by
  rw [reorderComposite_eq, collectionsLast_map isCollectionCondition_reorder, ← List.map_append]
  rfl

/-! ## Composites -/

theorem composites_leaf (t : Test) (condition : Option Composite) (subfilter : Option Filter) :
    (Filter.leaf ⟨t, condition, subfilter⟩).composites =
      condition.toList.flatMap fun c => (Filter.composite c).composites := by
  rw [composites, compositesWithin, if_pos rfl]
  cases condition with
  | none => rfl
  | some c =>
    rw [compositesOfCondition_some]
    exact (List.flatMap_singleton composites (Filter.composite c)).symm

theorem composites_composite (c : Composite) :
    (Filter.composite c).composites = c :: c.children.flatMap composites :=
  compositesWithin_composite c

theorem perm_composites_reorderComposite {c : Composite}
    (ih : ∀ f ∈ c.children, f.reorder.composites.Perm (f.composites.map reorderComposite)) :
    (Filter.composite (reorderComposite c)).composites.Perm
      ((Filter.composite c).composites.map reorderComposite) := by
  rw [composites_composite, composites_composite, List.map_cons, List.map_flatMap]
  refine .cons _ ?_
  rw [reorderComposite_eq]
  have hlast := (perm_collectionsLast (c.children.map reorder)).flatMap_right composites
  rw [List.flatMap_map] at hlast
  exact hlast.trans (.flatMap_left _ ih)

/-- The composites of a reordered filter are those of the filter, reordered one by one. -/
theorem perm_composites_reorder (f : Filter) :
    f.reorder.composites.Perm (f.composites.map reorderComposite) := by
  induction f using Filter.induction with
  | leaf t condition subfilter ihc ihs =>
    rw [reorder, reorderCondition_eq, composites_leaf, composites_leaf]
    cases condition with
    | none => exact .nil
    | some c =>
      simp only [Option.map_some, Option.toList_some, List.flatMap_singleton]
      exact perm_composites_reorderComposite (ihc c rfl)
  | composite operation children ih =>
    rw [reorder]
    exact perm_composites_reorderComposite ih

/-! ## Optimizing -/

/-- A group has no conditions on collections to move. -/
theorem collectionsLast_of_isEqualityGroup {c : Composite} (h : c.IsEqualityGroup) :
    collectionsLast c.children = c.children := by
  obtain ⟨-, -, property, hequalities⟩ := h
  have hplain : ∀ f ∈ c.children, f.isCollectionCondition = false := by
    intro f hf
    obtain ⟨l, rfl, hl⟩ := hequalities f hf
    rw [isCollectionCondition, Leaf.isCollectionCondition, hl.operation]
    rfl
  rw [collectionsLast, List.filter_eq_self.mpr, List.filter_eq_nil_iff.mpr, List.append_nil]
  · exact fun f hf => ne_true_of_eq_false (hplain f hf)
  · exact fun f hf => by rw [hplain f hf]; rfl

theorem optimizeComposite_collectionsLast (inside : Bool) (c : Composite) :
    optimizeComposite inside ⟨c.operation, collectionsLast c.children⟩ =
      ⟨(optimizeComposite inside c).operation,
        collectionsLast (optimizeComposite inside c).children⟩ := by
  obtain ⟨operation, children⟩ := c
  by_cases hgroup : inside = true ∧ Composite.IsEqualityGroup ⟨operation, children⟩
  · obtain ⟨rfl, hgroup⟩ := hgroup
    obtain ⟨property, leaves, -, -, -, heq⟩ := optimizeComposite_of_isEqualityGroup hgroup
    have hlast : collectionsLast children = children := collectionsLast_of_isEqualityGroup hgroup
    rw [hlast, heq]
    rfl
  · have hnone : inside = true → ¬Composite.IsEqualityGroup ⟨operation, children⟩ :=
      fun hinside hc => hgroup ⟨hinside, hc⟩
    have hnone' : inside = true →
        ¬Composite.IsEqualityGroup ⟨operation, collectionsLast children⟩ :=
      fun hinside hc => hnone hinside (hc.perm (perm_collectionsLast children))
    rw [optimizeComposite_of_not hnone, optimizeComposite_of_not hnone',
      collectionsLast_map (isCollectionCondition_optimizeWithin inside)]

/-- Reordering changes no test. -/
theorem changesTests_reorder : ChangesTests reorder id where
  tests f := by
    match f with
    | .leaf ⟨_, _, _⟩ | .composite _ => rfl
  bare _ := rfl

theorem optimizeComposite_reorderComposite {inside : Bool} {c : Composite}
    (ih : ∀ f ∈ c.children, optimizeWithin inside f.reorder = (optimizeWithin inside f).reorder) :
    optimizeComposite inside (reorderComposite c) = reorderComposite (optimizeComposite inside c) := by
  have hchildren := optimizeComposite_onChildren Neutral.id.toCollapses changesTests_reorder ih
  have hlast := optimizeComposite_collectionsLast inside (onChildren reorder c)
  rw [hchildren] at hlast
  rw [reorderComposite_eq, reorderComposite_eq]
  exact hlast

/-- Reordering may come before or after optimizing. -/
theorem optimizeWithin_reorder (f : Filter) :
    ∀ inside, optimizeWithin inside f.reorder = (optimizeWithin inside f).reorder := by
  induction f using Filter.induction with
  | leaf t condition subfilter ihc ihs =>
    intro inside
    rw [reorder]
    by_cases ht : t.operation = .collectionCondition
    · rw [optimizeWithin_condition ht, optimizeWithin_condition ht, reorder, reorderCondition_eq,
        reorderCondition_eq, Option.map_map, Option.map_map]
      exact congrArg (Filter.leaf ⟨t, ·, subfilter⟩) (Option.map_congr fun c hc =>
        optimizeComposite_reorderComposite fun f hf => ihc c hc f hf true)
    · rw [optimizeWithin_plain ht, optimizeWithin_plain ht, reorder]
  | composite operation children ih =>
    intro inside
    rw [reorder, optimizeWithin, optimizeWithin, reorder,
      optimizeComposite_reorderComposite fun f hf => ih f hf inside]

/-! ## Moves -/

/-- The filters differ by moves of conditions on a collection's elements past other siblings, also
inside conditions. -/
inductive Moved : Filter → Filter → Prop where
  | refl (f : Filter) : Moved f f
  | symm {f g : Filter} : Moved f g → Moved g f
  | trans {f g h : Filter} : Moved f g → Moved g h → Moved f h
  | past {condition other : Filter} (operation : BooleanOp) (before after : List Filter) :
    condition.isCollectionCondition = true → other.isCollectionCondition = false →
      Moved (.composite ⟨operation, before ++ condition :: other :: after⟩)
        (.composite ⟨operation, before ++ other :: condition :: after⟩)
  | child {f g : Filter} (operation : BooleanOp) (before after : List Filter) : Moved f g →
      Moved (.composite ⟨operation, before ++ f :: after⟩)
        (.composite ⟨operation, before ++ g :: after⟩)
  | inside {c d : Composite} (t : Test) (subfilter : Option Filter) :
    Moved (.composite c) (.composite d) →
      Moved (.leaf ⟨t, some c, subfilter⟩) (.leaf ⟨t, some d, subfilter⟩)

theorem Moved.reorder_eq {f g : Filter} (h : Moved f g) : f.reorder = g.reorder := by
  induction h with
  | refl => rfl
  | symm _ ih => exact ih.symm
  | trans _ _ ihf ihg => exact ihf.trans ihg
  | past operation before after hcondition hother =>
    rw [reorder, reorder, reorderComposite_eq, reorderComposite_eq]
    simp [collectionsLast, isCollectionCondition_reorder, hcondition, hother]
  | child operation before after _ ih =>
    rw [reorder, reorder, reorderComposite_eq, reorderComposite_eq]
    simp only [List.map_append, List.map_cons, ih]
  | inside t subfilter _ ih =>
    rw [reorder, reorder] at ih
    rw [reorder, reorder, reorderCondition, reorderCondition, Filter.composite.inj ih]

namespace Moved

variable {operation : BooleanOp}

theorem children {fs gs : List Filter} (h : List.Forall₂ Moved fs gs) (before : List Filter) :
    Moved (.composite ⟨operation, before ++ fs⟩) (.composite ⟨operation, before ++ gs⟩) := by
  induction h generalizing before with
  | nil => exact .refl _
  | @cons f g fs gs hfirst _ ih =>
    have hrest := ih (before ++ [g])
    rw [List.append_assoc, List.append_assoc] at hrest
    exact (child operation before fs hfirst).trans hrest

/-- A condition moves behind several siblings that are none. -/
theorem behind {condition : Filter} (hcondition : condition.isCollectionCondition = true)
    {others : List Filter} (hothers : ∀ f ∈ others, f.isCollectionCondition = false)
    (before after : List Filter) :
    Moved (.composite ⟨operation, before ++ condition :: (others ++ after)⟩)
      (.composite ⟨operation, before ++ (others ++ condition :: after)⟩) := by
  induction others generalizing before with
  | nil => exact .refl _
  | cons f rest ih =>
    obtain ⟨hf, hrest⟩ := List.forall_mem_cons.mp hothers
    have hbehind := ih hrest (before ++ [f])
    rw [List.append_assoc, List.append_assoc] at hbehind
    exact (past operation before (rest ++ after) hcondition hf).trans hbehind

/-- The conditions move behind the others, the last one first. -/
theorem last (before fs : List Filter) :
    Moved (.composite ⟨operation, before ++ fs⟩)
      (.composite ⟨operation, before ++ collectionsLast fs⟩) := by
  induction fs generalizing before with
  | nil => exact .refl _
  | cons f rest ih =>
    have hrest := ih (before ++ [f])
    rw [List.append_assoc, List.append_assoc] at hrest
    refine hrest.trans ?_
    cases hf : f.isCollectionCondition with
    | false =>
      rw [collectionsLast, collectionsLast, List.filter_cons_of_pos (by rw [hf]; rfl),
        List.filter_cons_of_neg (ne_true_of_eq_false hf)]
      exact .refl _
    | true =>
      have hothers : ∀ g ∈ rest.filter (!·.isCollectionCondition),
          g.isCollectionCondition = false := by
        intro g hg
        simpa using (List.mem_filter.mp hg).2
      rw [collectionsLast, collectionsLast, List.filter_cons_of_neg (by rw [hf]; decide),
        List.filter_cons_of_pos hf]
      exact behind hf hothers before _

end Moved

theorem moved_reorderComposite {c : Composite} (ih : ∀ f ∈ c.children, Moved f f.reorder) :
    Moved (.composite c) (.composite (reorderComposite c)) := by
  have hchildren : List.Forall₂ Moved c.children (c.children.map reorder) := by
    rw [List.forall₂_map_right_iff, List.forall₂_same]
    exact ih
  obtain ⟨operation, children⟩ := c
  rw [reorderComposite_eq]
  exact (Moved.children hchildren []).trans (Moved.last [] _)

theorem moved_reorder (f : Filter) : Moved f f.reorder := by
  induction f using Filter.induction with
  | leaf t condition subfilter ihc ihs =>
    match condition with
    | none => exact .refl _
    | some c => exact .inside t subfilter (moved_reorderComposite (ihc c rfl))
  | composite operation children ih => exact moved_reorderComposite ih

/-- Reordering makes those filters equal that differ by moves. -/
theorem reorder_eq_iff_moved {f g : Filter} : f.reorder = g.reorder ↔ Moved f g := by
  refine ⟨fun h => ?_, Moved.reorder_eq⟩
  have hg := (moved_reorder g).symm
  rw [← h] at hg
  exact (moved_reorder f).trans hg

/-- In each composite of a reordered filter, also inside conditions, stand the reordered children of
a composite of the filter, first those that are no conditions on a collection's elements and then
those that are, in their order. Nothing is left to reorder, reordering may come before or after
optimizing, and it makes those filters equal that differ by moves of conditions. The filters of
subqueries stay as they are. -/
theorem reorder_normalizes (f : Filter) :
    f.reorder.composites.Perm (f.composites.map reorderComposite) ∧
    (∀ c, (reorderComposite c).operation = c.operation ∧
      (reorderComposite c).children =
        (c.children.filter (!·.isCollectionCondition)).map reorder ++
          (c.children.filter (·.isCollectionCondition)).map reorder ∧
      (reorderComposite c).children.Perm (c.children.map reorder)) ∧
    f.reorder.reorder = f.reorder ∧
    f.optimize.reorder = f.reorder.optimize ∧
    (∀ g, f.reorder = g.reorder ↔ Moved f g) ∧
    f.reorder.subqueries.Perm f.subqueries := by
  refine ⟨perm_composites_reorder f, fun c => ⟨?_, children_reorderComposite c, ?_⟩,
    (moved_reorder f).reorder_eq.symm, (optimizeWithin_reorder f false).symm,
    fun g => reorder_eq_iff_moved, perm_subqueries_reorder f⟩
  · rw [reorderComposite_eq]
  · rw [reorderComposite_eq]
    exact perm_collectionsLast _

end Filter

end ObjectQuery
