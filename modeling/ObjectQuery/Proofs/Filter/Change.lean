import ObjectQuery.Compiler
import ObjectQuery.Proofs.Filter.Tests

/-!
# Changes of tests

* `Filter.Leafwise`: changes of filters that keep the composites and change the leaves.
* `Filter.Neutral`: changes of tests that the rearrangements of a filter do not see.
* `Filter.Neutral.split`, `Filter.Neutral.areAggregateOnly`, ...: such a change of all tests may be
  made before or after each function on filters.
* `QueryOptions.prepare_map`, `QueryOptions.prepare_mapTests`: the same for all rearrangements
  together.
-/

namespace ObjectQuery

namespace Filter

/-- The composite with its children changed. -/
def onChildren (h : Filter → Filter) (c : Composite) : Composite := ⟨c.operation, c.children.map h⟩

/-! ## Changes of leaves -/

/-- A change of filters that keeps the composites and changes each leaf by itself. -/
structure Leafwise (h : Filter → Filter) (change : Leaf → Leaf) : Prop where
  leaf : ∀ l, h (.leaf l) = .leaf (change l)
  composite : ∀ operation children,
    h (.composite ⟨operation, children⟩) = .composite ⟨operation, children.map h⟩

namespace Leafwise

variable {h : Filter → Filter} {change : Leaf → Leaf}

theorem eq_composite (hh : Leafwise h change) {f : Filter} {operation : BooleanOp}
    {children : List Filter} (heq : h f = .composite ⟨operation, children⟩) :
    ∃ members, f = .composite ⟨operation, members⟩ ∧ members.map h = children := by
  match f with
  | .leaf l =>
    rw [hh.leaf] at heq
    cases heq
  | .composite ⟨_, members⟩ =>
    rw [hh.composite] at heq
    cases heq
    exact ⟨members, rfl, rfl⟩

theorem eq_leaf (hh : Leafwise h change) {f : Filter} {l : Leaf} (heq : h f = .leaf l) :
    ∃ m, f = .leaf m := by
  match f with
  | .leaf m => exact ⟨m, rfl⟩
  | .composite ⟨_, _⟩ =>
    rw [hh.composite] at heq
    cases heq

/-- Folding looks at the signs of leaves and inverts them. -/
theorem foldDoubleNegation (hh : Leafwise h change)
    (hinvert : ∀ l, Filter.invertLeaf (change l) = change (Filter.invertLeaf l))
    (hnegated : ∀ l, (change l).test.isNegated = l.test.isNegated) (f : Filter) :
    (h f).foldDoubleNegation = h f.foldDoubleNegation := by
  have hchildren : ∀ fs : List Filter,
      (∀ f ∈ fs, (h f).foldDoubleNegation = h f.foldDoubleNegation) →
      foldDoubleNegations (fs.map h) = (foldDoubleNegations fs).map h := by
    intro fs ih
    simp only [foldDoubleNegations_eq, List.map_map]
    exact List.map_congr_left ih
  induction f using Filter.foldingInduction with
  | leaf l => rw [hh.leaf, Filter.foldDoubleNegation, Filter.foldDoubleNegation, hh.leaf]
  | double only ih =>
    rw [hh.composite, List.map_singleton, hh.composite, List.map_singleton,
      Filter.foldDoubleNegation, Filter.foldDoubleNegation, ih]
  | doubled children hne ih =>
    have hne' : ∀ only, children.map h = [only] → False := by
      intro only heq
      obtain ⟨f, rfl, -⟩ := List.map_eq_singleton_iff.mp heq
      exact hne f rfl
    rw [hh.composite, List.map_singleton, hh.composite, foldDoubleNegation.eq_3 _ hne',
      foldDoubleNegation.eq_3 _ hne, hchildren children ih, hh.composite]
  | negated l =>
    rw [hh.composite, List.map_singleton, hh.leaf, Filter.foldDoubleNegation,
      Filter.foldDoubleNegation, hinvert, hnegated]
    split
    · rw [hh.leaf]
    · rw [hh.composite, List.map_singleton, hh.leaf]
  | other operation children h₁ h₂ h₃ ih =>
    rw [hh.composite, foldDoubleNegation.eq_5 operation children h₁ h₂ h₃, foldDoubleNegation.eq_5,
      hchildren children ih, hh.composite]
    -- The other cases of folding stay excluded, as a changed filter keeps its shape.
    · intro only hop heq
      obtain ⟨f, rfl, hf⟩ := List.map_eq_singleton_iff.mp heq
      obtain ⟨members, rfl, -⟩ := hh.eq_composite hf
      exact h₂ members hop rfl
    · intro members hop heq
      obtain ⟨f, rfl, hf⟩ := List.map_eq_singleton_iff.mp heq
      obtain ⟨members, rfl, -⟩ := hh.eq_composite hf
      exact h₂ members hop rfl
    · intro l hop heq
      obtain ⟨f, rfl, hf⟩ := List.map_eq_singleton_iff.mp heq
      obtain ⟨m, rfl⟩ := hh.eq_leaf hf
      exact h₃ m hop rfl

/-- The clause of a filter depends on the properties of its leaves. -/
theorem isAggregateOnly (hh : Leafwise h change)
    (haggregate : ∀ l, (change l).test.isAggregate = l.test.isAggregate) (f : Filter) :
    (h f).isAggregateOnly = f.isAggregateOnly := by
  induction f using Filter.induction with
  | leaf t condition subfilter =>
    rw [hh.leaf]
    exact haggregate _
  | composite operation children ih =>
    rw [hh.composite, isAggregateOnly_composite, isAggregateOnly_composite, List.isEmpty_map,
      areAggregateOnly_eq, areAggregateOnly_eq, List.all_map]
    congr 1
    rw [Bool.eq_iff_iff, List.all_eq_true, List.all_eq_true]
    exact forall₂_congr fun f hf => by rw [Function.comp_apply, ih f hf]

theorem hasAggregate (hh : Leafwise h change)
    (haggregate : ∀ l, (change l).test.isAggregate = l.test.isAggregate) (f : Filter) :
    (h f).hasAggregate = f.hasAggregate := by
  induction f using Filter.induction with
  | leaf t condition subfilter =>
    rw [hh.leaf]
    exact haggregate _
  | composite operation children ih =>
    rw [hh.composite, Filter.hasAggregate, Filter.hasAggregate, anyHasAggregate_eq,
      anyHasAggregate_eq, List.any_map]
    rw [Bool.eq_iff_iff, List.any_eq_true, List.any_eq_true]
    exact exists_congr fun f => and_congr_right fun hf => by rw [Function.comp_apply, ih f hf]

end Leafwise

/-! ## Changes of children -/

theorem Leafwise.onChildren {h : Filter → Filter} {change : Leaf → Leaf} (hh : Leafwise h change)
    (c : Composite) : h (.composite c) = .composite (onChildren h c) := by
  obtain ⟨operation, children⟩ := c
  exact hh.composite operation children

theorem collectionsLast_map {h : Filter → Filter}
    (hh : ∀ f, (h f).isCollectionCondition = f.isCollectionCondition) (fs : List Filter) :
    collectionsLast (fs.map h) = (collectionsLast fs).map h := by
  simp only [Filter.collectionsLast, List.filter_map, List.map_append, Function.comp_def, hh]

theorem reorderComposite_onChildren {h : Filter → Filter}
    (hh : ∀ f, (h f).isCollectionCondition = f.isCollectionCondition) {c : Composite}
    (ih : ∀ f ∈ c.children, (h f).reorder = h f.reorder) :
    reorderComposite (onChildren h c) = onChildren h (reorderComposite c) := by
  obtain ⟨operation, children⟩ := c
  have hall : reorderAll (children.map h) = (reorderAll children).map h := by
    simp only [reorderAll_eq, List.map_map]
    exact List.map_congr_left ih
  rw [onChildren, reorderComposite, reorderComposite, onChildren, hall, collectionsLast_map hh]

/-- A change of tests after which the same equalities are collapsed, into the changed membership
test. -/
structure Collapses (g : Test → Test) : Prop where
  property : ∀ t, (g t).property = t.property
  collapsible : ∀ t property, (g t).isCollapsible property = t.isCollapsible property
  collapsed : ∀ property (tests : List Test), tests ≠ [] → (∀ t ∈ tests, t.operation = .eq) →
    g { property, operation := .inList, value := .list (tests.map (·.value))
        ignoreCase := tests.any (·.ignoreCase) } =
      { property, operation := .inList, value := .list ((tests.map g).map (·.value))
        ignoreCase := (tests.map g).any (·.ignoreCase) }

/-- A change of filters that changes the tests of leaves, and nothing else in leaves without nested
filters. -/
structure ChangesTests (h : Filter → Filter) (g : Test → Test) : Prop where
  tests : ∀ f, (h f).leaf?.map (·.test) = f.leaf?.map (g ·.test)
  bare : ∀ t, h (.leaf (.ofTest t)) = .leaf (.ofTest (g t))

variable {h : Filter → Filter} {g : Test → Test}

/-- Collapsing looks at the tests of leaves only. -/
theorem collapse?_map (hg : Collapses g) (hh : ChangesTests h g) (fs : List Filter) :
    collapse? (fs.map h) = (collapse? fs).map fun l => .ofTest (g l.test) := by
  have hleaves : ((fs.map h).mapM leaf?).map (·.map (·.test)) =
      (fs.mapM leaf?).map (·.map (g ·.test)) := by
    induction fs with
    | nil => rfl
    | cons f rest ih =>
      rw [List.map_cons, List.mapM_cons, List.mapM_cons]
      have hf := hh.tests f
      revert hf ih
      cases (h f).leaf? <;> cases f.leaf? <;> cases (rest.map h).mapM leaf? <;>
        cases rest.mapM leaf? <;> simp
      intro hrest hfirst
      exact ⟨hfirst, hrest⟩
  unfold collapse?
  revert hleaves
  match (fs.map h).mapM leaf?, fs.mapM leaf? with
  | none, none | some [], some [] | some [_], some [_] => exact fun _ => rfl
  | some (first :: second :: rest), some (first' :: second' :: rest') =>
    intro hleaves
    have htests : (first :: second :: rest).map (·.test) =
        ((first' :: second' :: rest').map (·.test)).map g := by
      rw [List.map_map]
      exact Option.some.inj hleaves
    have hfirst : first.test.property = first'.test.property :=
      (congrArg Test.property (List.cons.inj htests).1).trans (hg.property _)
    dsimp only
    rw [htests, hfirst, List.all_map]
    simp only [Function.comp_def, hg.collapsible]
    split
    · rename_i hall
      refine congrArg (some ∘ Leaf.ofTest) (hg.collapsed _ _ (by simp) fun t ht => ?_).symm
      exact operation_of_isCollapsible (List.all_eq_true.mp hall t ht)
    · rfl
  | none, some _ | some _, none | some [], some (_ :: _) | some (_ :: _), some [] |
    some [_], some (_ :: _ :: _) | some (_ :: _ :: _), some [_] =>
    intro hleaves
    simp at hleaves

theorem optimizeComposite_onChildren (hg : Collapses g) (hh : ChangesTests h g) {inside : Bool}
    {c : Composite} (ih : ∀ f ∈ c.children, optimizeWithin inside (h f) = h (optimizeWithin inside f)) :
    optimizeComposite inside (onChildren h c) = onChildren h (optimizeComposite inside c) := by
  obtain ⟨operation, children⟩ := c
  have hcollapse : (if inside && operation = .or then collapse? (children.map h) else none) =
      (if inside && operation = .or then collapse? children else none).map
        fun l => .ofTest (g l.test) := by
    rw [collapse?_map hg hh]
    split <;> rfl
  rw [onChildren, optimizeComposite, optimizeComposite, hcollapse]
  cases hcollapsed : if inside && operation = .or then collapse? children else none with
  | none =>
    simp only [Option.map_none, onChildren, optimizeAll_eq, List.map_map]
    exact congrArg (Composite.mk operation) (List.map_congr_left ih)
  | some collapsed =>
    have hbare : ∃ t, collapsed = .ofTest t := by
      split at hcollapsed
      · obtain ⟨_, _, _, _, _, _, rfl⟩ := collapse?_eq_some hcollapsed
        exact ⟨_, rfl⟩
      · cases hcollapsed
    obtain ⟨t, rfl⟩ := hbare
    rw [Option.map_some, onChildren, List.map_singleton, hh.bare]
    rfl

/-! ## Changes of tests -/

/-- A change of tests that arrangement does not see. -/
structure Neutral (g : Test → Test) : Prop extends Collapses g where
  operation : ∀ t, (g t).operation = t.operation
  inverse : ∀ t operation, t.operation.inverse = some operation →
    g (t.withOperation operation t.value) = (g t).withOperation operation (g t).value

theorem Neutral.id : Neutral id where
  property _ := rfl
  operation _ := rfl
  inverse _ _ _ := rfl
  collapsible _ _ := rfl
  collapsed property tests _ _ := by rw [List.map_id]; rfl

theorem leafwise_mapEverywhere (g : Test → Test) : Leafwise (mapEverywhere g) (mapLeaf g) where
  leaf := mapEverywhere_leaf g
  composite operation children := by rw [mapEverywhere_composite, mapComposite, mapAll_eq]

theorem Neutral.invertLeaf (hg : Neutral g) (l : Leaf) :
    Filter.invertLeaf (mapLeaf g l) = mapLeaf g (Filter.invertLeaf l) := by
  obtain ⟨t, condition, subfilter⟩ := l
  unfold Filter.invertLeaf mapLeaf
  dsimp only
  rw [hg.operation]
  split
  · rename_i operation h
    simp only [Leaf.withOperation, Leaf.ofTest, hg.inverse t operation h, mapCondition,
      mapSubfilter]
  · rfl

theorem Neutral.test_isNegated (hg : Neutral g) (t : Test) : (g t).isNegated = t.isNegated := by
  rw [Test.isNegated, Test.isNegated, hg.operation]

theorem Neutral.isNegated (hg : Neutral g) (f : Filter) :
    (f.mapEverywhere g).isNegated = f.isNegated := by
  match f with
  | .leaf ⟨t, _, _⟩ => exact hg.test_isNegated t
  | .composite ⟨_, _⟩ => rfl

theorem Neutral.foldDoubleNegation (hg : Neutral g) (f : Filter) :
    (f.mapEverywhere g).foldDoubleNegation = f.foldDoubleNegation.mapEverywhere g :=
  (leafwise_mapEverywhere g).foldDoubleNegation hg.invertLeaf (fun l => hg.test_isNegated l.test) f

theorem Neutral.isCollectionCondition (hg : Neutral g) (f : Filter) :
    (f.mapEverywhere g).isCollectionCondition = f.isCollectionCondition := by
  match f with
  | .leaf ⟨t, _, _⟩ =>
    show ((g t).operation == _) = (t.operation == _)
    rw [hg.operation]
  | .composite ⟨_, _⟩ => rfl

theorem mapComposite_eq (g : Test → Test) (c : Composite) :
    mapComposite g c = onChildren (mapEverywhere g) c := by
  rw [mapComposite, onChildren, mapAll_eq]

theorem Neutral.reorder (hg : Neutral g) (f : Filter) :
    (f.mapEverywhere g).reorder = f.reorder.mapEverywhere g := by
  have hcomposite : ∀ c : Composite,
      (∀ f ∈ c.children, (f.mapEverywhere g).reorder = f.reorder.mapEverywhere g) →
      reorderComposite (mapComposite g c) = mapComposite g (reorderComposite c) := by
    intro c ih
    rw [mapComposite_eq, mapComposite_eq, reorderComposite_onChildren hg.isCollectionCondition ih]
  induction f using Filter.induction with
  | leaf t condition subfilter ihc ihs =>
    rw [Filter.reorder, mapEverywhere, mapEverywhere, Filter.reorder]
    simp only [mapCondition_eq, reorderCondition_eq, Option.map_map]
    exact congrArg (Filter.leaf ⟨g t, ·, _⟩) (Option.map_congr fun c hc => hcomposite c (ihc c hc))
  | composite operation children ih =>
    rw [mapEverywhere_composite, Filter.reorder, Filter.reorder, mapEverywhere_composite,
      hcomposite _ ih]

theorem changesTests_mapEverywhere (g : Test → Test) : ChangesTests (mapEverywhere g) g where
  tests f := by
    match f with
    | .leaf ⟨_, _, _⟩ | .composite ⟨_, _⟩ => rfl
  bare _ := rfl

theorem Neutral.optimizeWithin (hg : Neutral g) (f : Filter) :
    ∀ inside, Filter.optimizeWithin inside (f.mapEverywhere g) =
      (Filter.optimizeWithin inside f).mapEverywhere g := by
  have hcomposite : ∀ (c : Composite) (inside : Bool),
      (∀ f ∈ c.children, ∀ inside, Filter.optimizeWithin inside (f.mapEverywhere g) =
        (Filter.optimizeWithin inside f).mapEverywhere g) →
      optimizeComposite inside (mapComposite g c) = mapComposite g (optimizeComposite inside c) := by
    intro c inside ih
    rw [mapComposite_eq, mapComposite_eq, optimizeComposite_onChildren hg.toCollapses
      (changesTests_mapEverywhere g) fun f hf => ih f hf inside]
  induction f using Filter.induction with
  | leaf t condition subfilter ihc ihs =>
    intro inside
    rw [Filter.optimizeWithin, mapEverywhere, Filter.optimizeWithin, hg.operation]
    split
    · rw [mapEverywhere]
      simp only [mapCondition_eq, optimizeCondition_eq, Option.map_map]
      exact congrArg (Filter.leaf ⟨g t, ·, _⟩)
        (Option.map_congr fun c hc => hcomposite c true (ihc c hc))
    · rw [mapEverywhere]
  | composite operation children ih =>
    intro inside
    rw [mapEverywhere_composite, Filter.optimizeWithin, Filter.optimizeWithin,
      mapEverywhere_composite, hcomposite _ _ ih]

theorem Neutral.isAggregate (hg : Neutral g) (t : Test) : (g t).isAggregate = t.isAggregate := by
  rw [Test.isAggregate, Test.isAggregate, hg.property]

theorem Neutral.areAggregateOnly (hg : Neutral g) (fs : List Filter) :
    Filter.areAggregateOnly (mapAll g fs) = Filter.areAggregateOnly fs := by
  rw [mapAll_eq, areAggregateOnly_eq, areAggregateOnly_eq, List.all_map]
  exact congrArg fs.all (funext ((leafwise_mapEverywhere g).isAggregateOnly
    fun l => hg.isAggregate l.test))

theorem Neutral.anyHasAggregate (hg : Neutral g) (fs : List Filter) :
    Filter.anyHasAggregate (mapAll g fs) = Filter.anyHasAggregate fs := by
  rw [mapAll_eq, anyHasAggregate_eq, anyHasAggregate_eq, List.any_map]
  exact congrArg fs.any (funext ((leafwise_mapEverywhere g).hasAggregate
    fun l => hg.isAggregate l.test))

/-! ## Conditions on collections -/

theorem Neutral.invert (hg : Neutral g) (f : Filter) :
    (f.mapEverywhere g).invert = f.invert.mapEverywhere g := by
  match f with
  | .leaf l =>
    rw [mapEverywhere_leaf, Filter.invert, Filter.invert, hg.invertLeaf, mapEverywhere_leaf]
  | .composite ⟨_, []⟩ | .composite ⟨_, [_]⟩ | .composite ⟨_, _ :: _ :: _⟩ => rfl

/-- The parts of a condition are changed like the condition. -/
theorem Neutral.split (hg : Neutral g) (c : Composite) :
    (mapComposite g c).split = (c.split.1.map (mapComposite g), c.split.2.map (mapComposite g)) := by
  obtain ⟨operation, children⟩ := c
  have hplain : (mapComposite g ⟨operation, children⟩).plainChildren =
      mapAll g (Composite.plainChildren ⟨operation, children⟩) := by
    simp [Composite.plainChildren, mapComposite, mapAll_eq, List.filter_map, Function.comp_def,
      hg.isNegated]
  have hnegated : (mapComposite g ⟨operation, children⟩).negatedChildren =
      mapAll g (Composite.negatedChildren ⟨operation, children⟩) := by
    simp [Composite.negatedChildren, mapComposite, mapAll_eq, List.filter_map, Function.comp_def,
      hg.isNegated]
  have hinvert : ∀ fs : List Filter,
      (mapAll g fs).map Filter.invert = mapAll g (fs.map Filter.invert) := by
    intro fs
    rw [mapAll_eq, mapAll_eq, List.map_map, List.map_map]
    exact List.map_congr_left fun f _ => hg.invert f
  unfold Composite.split
  rw [hplain, hnegated, hinvert]
  by_cases hop : operation = .not
  · rw [if_pos hop, if_pos (show (mapComposite g ⟨operation, children⟩).operation = .not from hop)]
    rfl
  · rw [if_neg hop, if_neg (show (mapComposite g ⟨operation, children⟩).operation ≠ .not from hop)]
    rw [mapAll_eq g (Composite.plainChildren _), mapAll_eq g (Composite.negatedChildren _),
      List.isEmpty_map, List.isEmpty_map]
    refine Prod.ext ?_ ?_
    · show (if _ then _ else _) = Option.map _ (if _ then _ else _)
      split
      · rfl
      · rw [← mapAll_eq]
        rfl
    · show (if _ then _ else _) = Option.map _ (if _ then _ else _)
      split <;> rfl

end Filter

/-! ## Options -/

/-- The options with the tests of all restrictions changed. -/
def QueryOptions.mapTests (g : Test → Test) (o : QueryOptions) : QueryOptions :=
  { o with restrictions := o.restrictions.map (Filter.mapEverywhere g) }

/-- A change of filters that each rearrangement commutes with. -/
theorem QueryOptions.prepare_map {h : Filter → Filter}
    (hfold : ∀ f, (h f).foldDoubleNegation = h f.foldDoubleNegation)
    (hreorder : ∀ f, (h f).reorder = h f.reorder) (hoptimize : ∀ f, (h f).optimize = h f.optimize)
    (hand : ∀ fs, h (Filter.and fs) = Filter.and (fs.map h)) (o : QueryOptions) :
    QueryOptions.prepare { o with restrictions := o.restrictions.map h } = o.prepare.map h := by
  have harranged : ∀ f : Filter,
      (if o.disableOptimizer then (h f).foldDoubleNegation.reorder
        else (h f).foldDoubleNegation.reorder.optimize) =
      h (if o.disableOptimizer then f.foldDoubleNegation.reorder
        else f.foldDoubleNegation.reorder.optimize) := by
    intro f
    rw [hfold, hreorder, hoptimize]
    split <;> rfl
  unfold QueryOptions.prepare
  dsimp only
  match o.restrictions with
  | [] => rfl
  | [only] => exact congrArg some (harranged only)
  | first :: second :: rest =>
    refine congrArg some (Eq.trans ?_ (harranged _))
    rw [hand]
    rfl

/-- A change of tests that arrangement does not see may be made before or after it. -/
theorem QueryOptions.prepare_mapTests {g : Test → Test} (hg : Filter.Neutral g) (o : QueryOptions) :
    (o.mapTests g).prepare = o.prepare.map (Filter.mapEverywhere g) :=
  QueryOptions.prepare_map hg.foldDoubleNegation hg.reorder (fun f => hg.optimizeWithin f false)
    (fun fs => (Filter.leafwise_mapEverywhere g).composite .and fs) o

end ObjectQuery
