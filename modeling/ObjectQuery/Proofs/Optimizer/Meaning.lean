import ObjectQuery.Proofs.Filter.Evaluation
import ObjectQuery.Proofs.Optimizer.EqualityGroups

/-!
# What the optimizer keeps

* `Interpretation`, `Filter.meaning`: what a filter says of objects, be these instances of a class or
  elements of a collection. Membership is equality with some value, and a condition on a collection's
  elements is any function of what the condition says of them.
* `Filter.meaning_optimizeWithin`: a filter says the same when it is optimized, if the equalities of
  each group agree on whether case matters.
* `Composite.CollapsesTo`: what becomes of the composites inside conditions.
* `Filter.mapConditions`: the filter with another condition in place of each.
* `Filter.optimize_collapses`: all together.
-/

namespace ObjectQuery

/-- What leaves say of objects. -/
structure Interpretation (Object : Type) where
  /-- The equality of a property, perhaps cast to a type, with a value, ignoring case or not. -/
  equality : String → Option String → Value → Bool → Object → Bool
  /-- A condition on the elements of a collection, by what the condition says of objects. -/
  collection : Test → Option Filter → Option (Object → Bool) → Object → Bool
  /-- Any other leaf. -/
  other : Leaf → Object → Bool

/-- The equalities among the children agree on whether case matters. -/
def Composite.AgreesOnCase (c : Composite) : Prop :=
  ∀ t ∈ Filter.leafTests c.children, ∀ u ∈ Filter.leafTests c.children, t.ignoreCase = u.ignoreCase

namespace Filter

variable {Object : Type} {i : Interpretation Object}

/-! ## Meaning -/

mutual

/-- What a filter says of objects. -/
def meaning (i : Interpretation Object) : Filter → Object → Bool
  | .leaf ⟨t, condition, subfilter⟩ =>
    match t.operation with
    | .eq => i.equality t.property t.cast t.value t.ignoreCase
    | .inList => fun o =>
      t.value.elements.any fun v => i.equality t.property t.cast v t.ignoreCase o
    | .collectionCondition => i.collection t subfilter (conditionMeaning i condition)
    | _ => i.other ⟨t, condition, subfilter⟩
  | .composite ⟨operation, children⟩ => fun o => operation.connect (meanings i o children)

/-- What several filters say of an object. -/
def meanings (i : Interpretation Object) (o : Object) : List Filter → List Bool
  | [] => []
  | f :: rest => meaning i f o :: meanings i o rest

/-- What the condition of a leaf says. -/
def conditionMeaning (i : Interpretation Object) : Option Composite → Option (Object → Bool)
  | none => none
  | some ⟨operation, children⟩ => some fun o => operation.connect (meanings i o children)

end

theorem meanings_eq (o : Object) (fs : List Filter) :
    meanings i o fs = fs.map (meaning i · o) := by
  induction fs with
  | nil => rfl
  | cons f rest ih => rw [meanings, ih, List.map_cons]

theorem meaning_composite (c : Composite) :
    meaning i (.composite c) = fun o => c.operation.connect (c.children.map (meaning i · o)) := by
  obtain ⟨operation, children⟩ := c
  funext o
  rw [meaning]
  exact congrArg operation.connect (meanings_eq o children)

theorem conditionMeaning_eq (condition : Option Composite) :
    conditionMeaning i condition = condition.map fun c => meaning i (.composite c) := by
  match condition with
  | none => rfl
  | some ⟨operation, children⟩ => rw [conditionMeaning, Option.map_some, meaning]

theorem meaning_condition {t : Test} (ht : t.operation = .collectionCondition)
    (condition : Option Composite) (subfilter : Option Filter) :
    meaning i (.leaf ⟨t, condition, subfilter⟩) =
      i.collection t subfilter (condition.map fun c => meaning i (.composite c)) := by
  rw [meaning, ht, conditionMeaning_eq]

theorem meaning_equality {property : String} {l : Leaf} (h : l.test.IsPlainEquality property) :
    meaning i (.leaf l) = i.equality property none l.test.value l.test.ignoreCase := by
  obtain ⟨t, condition, subfilter⟩ := l
  obtain ⟨hop, rfl, hcast, -⟩ := h
  change t.operation = .eq at hop
  change t.cast = none at hcast
  rw [meaning, hop, hcast]

theorem meaning_membershipOf (property : String) (tests : List Test) (o : Object) :
    meaning i (test (membershipOf property tests)) o =
      tests.any fun t => i.equality property none t.value (tests.any (·.ignoreCase)) o := by
  rw [test, Leaf.ofTest, meaning]
  exact List.any_map

/-- A group whose equalities agree on case says what its membership test says. -/
theorem meaning_optimizeComposite {c : Composite} (h : c.IsEqualityGroup) (hagree : c.AgreesOnCase) :
    meaning i (.composite (optimizeComposite true c)) = meaning i (.composite c) := by
  obtain ⟨property, leaves, hchildren, -, hplain, heq⟩ := optimizeComposite_of_isEqualityGroup h
  rw [Composite.AgreesOnCase, hchildren, leafTests_map_leaf, List.forall_mem_map] at hagree
  have hasks := Draft.ignoreCase_eq_any fun l hl l' hl' =>
    hagree l hl l'.test (List.mem_map_of_mem hl')
  rw [heq, meaning_composite, meaning_composite, h.operation, hchildren]
  funext o
  have hleaves : (leaves.map Filter.leaf).map (meaning i · o) = leaves.map fun l =>
      i.equality property none l.test.value (leaves.any (·.test.ignoreCase)) o := by
    rw [List.map_map]
    refine List.map_congr_left fun l hl => ?_
    rw [Function.comp_apply, meaning_equality (hplain l hl), hasks l hl]
  rw [hleaves, List.map_singleton, meaning_membershipOf, List.any_map, List.any_map]
  simp [BooleanOp.connect, Function.comp_def]

/-- A filter says the same when it is optimized, if the equalities of each group agree on case. -/
theorem meaning_optimizeWithin (inside : Bool) (f : Filter)
    (hagree : ∀ c ∈ f.compositesWithin Leaf.isCollectionCondition inside,
      c.IsEqualityGroup → c.AgreesOnCase) :
    meaning i (optimizeWithin inside f) = meaning i f := by
  induction inside, f using optimizerInduction with
  | plain inside t condition subfilter ht => rw [optimizeWithin_plain ht]
  | condition inside t condition subfilter ht ih =>
    rw [optimizeWithin_condition ht, meaning_condition ht, meaning_condition ht, Option.map_map]
    rw [compositesWithin_condition ht] at hagree
    refine congrArg (i.collection t subfilter) ?_
    match condition with
    | none => rfl
    | some c =>
      rw [compositesOfCondition_some] at hagree
      exact congrArg some (ih c rfl hagree)
  | group c hgroup =>
    refine meaning_optimizeComposite hgroup (hagree c ?_ hgroup)
    rw [compositesWithin_composite]
    exact List.mem_append_left _ (List.mem_singleton.mpr rfl)
  | composite inside c hgroup ih =>
    rw [compositesWithin_composite] at hagree
    rw [optimizeWithin, optimizeComposite_of_not hgroup, meaning_composite, meaning_composite]
    funext o
    rw [List.map_map]
    refine congrArg c.operation.connect (List.map_congr_left fun f hf => congrFun (ih f hf ?_) o)
    exact fun c' hc' => hagree c' (List.mem_append_right _ (List.mem_flatMap.mpr ⟨f, hf, hc'⟩))

/-! ## Optimizing again -/

/-- Nothing is left to optimize in an optimized filter. -/
theorem optimizeWithin_optimizeWithin (inside : Bool) (f : Filter) :
    optimizeWithin inside (optimizeWithin inside f) = optimizeWithin inside f := by
  induction inside, f using optimizerInduction with
  | plain inside t condition subfilter ht => rw [optimizeWithin_plain ht, optimizeWithin_plain ht]
  | condition inside t condition subfilter ht ih =>
    rw [optimizeWithin_condition ht, optimizeWithin_condition ht, Option.map_map]
    match condition with
    | none => rfl
    | some c =>
      have hc := Filter.composite.inj (ih c rfl)
      rw [Option.map_some, Option.map_some, Function.comp_apply, hc]
  | group c hgroup =>
    obtain ⟨property, leaves, -, -, -, heq⟩ := optimizeComposite_of_isEqualityGroup hgroup
    have hsingle : ¬Composite.IsEqualityGroup
        ⟨.or, [test (membershipOf property (leaves.map (·.test)))]⟩ :=
      fun h => absurd h.several (by simp)
    rw [optimizeWithin, heq, optimizeWithin, optimizeComposite_of_not fun _ => hsingle]
    rfl
  | composite inside c hgroup ih =>
    obtain ⟨operation, children⟩ := c
    have hleft : inside = true →
        ¬Composite.IsEqualityGroup ⟨operation, children.map (optimizeWithin inside)⟩ :=
      fun hinside h => hgroup hinside (isEqualityGroup_of_map h)
    rw [optimizeWithin, optimizeComposite_of_not hgroup, optimizeWithin,
      optimizeComposite_of_not hleft, List.map_map]
    exact congrArg (fun fs => composite ⟨operation, fs⟩) (List.map_congr_left ih)

end Filter

/-! ## Collapsed groups -/

/-- The test gathers the leaves: it has all their values in order, and ignores case if one of them
does. -/
structure Test.Gathers (t : Test) (leaves : List Leaf) : Prop where
  property : ∀ l ∈ leaves, t.property = l.test.property
  operation : t.operation = .inList
  values : t.value = .list (leaves.map (·.test.value))
  ignoreCase : t.ignoreCase = true ↔ ∃ l ∈ leaves, l.test.ignoreCase = true
  cast : t.cast = none

/-- What becomes of a composite inside a condition: a group becomes the test that gathers its leaves,
and the children of any other composite are optimized one by one. -/
inductive Composite.CollapsesTo : Composite → Composite → Prop where
  | group (leaves : List Leaf) (t : Test) :
    Composite.IsEqualityGroup ⟨.or, leaves.map .leaf⟩ → t.Gathers leaves →
      CollapsesTo ⟨.or, leaves.map .leaf⟩ ⟨.or, [.test t]⟩
  | other (c : Composite) :
    ¬c.IsEqualityGroup → CollapsesTo c ⟨c.operation, c.children.map (Filter.optimizeWithin true)⟩

namespace Filter

theorem collapsesTo_optimizeComposite (c : Composite) : c.CollapsesTo (optimizeComposite true c) := by
  by_cases hgroup : c.IsEqualityGroup
  · obtain ⟨property, leaves, hchildren, -, hplain, heq⟩ :=
      optimizeComposite_of_isEqualityGroup hgroup
    rw [heq]
    obtain ⟨operation, children⟩ := c
    obtain rfl : operation = .or := hgroup.operation
    obtain rfl : children = leaves.map .leaf := hchildren
    refine .group leaves _ hgroup ⟨fun l hl => (hplain l hl).sameProperty.symm, rfl, ?_, ?_, rfl⟩
    · exact congrArg Value.list List.map_map
    · rw [membershipOf, List.any_map, List.any_eq_true]
      rfl
  · rw [optimizeComposite_of_not fun _ => hgroup]
    exact .other c hgroup

/-! ## Outside of conditions -/

mutual

/-- The filter with `h c` in place of each condition `c` on a collection's elements. -/
def mapConditions (h : Composite → Composite) : Filter → Filter
  | .leaf ⟨t, condition, subfilter⟩ =>
    .leaf ⟨t, if t.operation = .collectionCondition then condition.map h else condition, subfilter⟩
  | .composite ⟨operation, children⟩ => .composite ⟨operation, mapConditionsAll h children⟩

/-- Each of the filters with other conditions. -/
def mapConditionsAll (h : Composite → Composite) : List Filter → List Filter
  | [] => []
  | f :: rest => mapConditions h f :: mapConditionsAll h rest

end

theorem mapConditionsAll_eq (h : Composite → Composite) (fs : List Filter) :
    mapConditionsAll h fs = fs.map (mapConditions h) := by
  induction fs with
  | nil => rfl
  | cons f rest ih => rw [mapConditionsAll, ih, List.map_cons]

theorem mapConditions_mapConditions (h g : Composite → Composite) (f : Filter) :
    mapConditions h (mapConditions g f) = mapConditions (h ∘ g) f := by
  induction f using Filter.induction with
  | leaf t condition subfilter =>
    rw [mapConditions, mapConditions, mapConditions]
    split
    · rw [Option.map_map]
    · rfl
  | composite operation children ih =>
    rw [mapConditions, mapConditions, mapConditions, mapConditionsAll_eq, mapConditionsAll_eq,
      mapConditionsAll_eq, List.map_map]
    exact congrArg (fun fs => composite ⟨operation, fs⟩) (List.map_congr_left ih)

/-- The optimizer changes conditions on a collection's elements and nothing else. -/
theorem optimize_eq_mapConditions (f : Filter) :
    f.optimize = f.mapConditions (optimizeComposite true) := by
  unfold optimize
  induction f using Filter.induction with
  | leaf t condition subfilter =>
    rw [mapConditions]
    split
    · rename_i ht
      rw [optimizeWithin_condition ht]
    · rename_i ht
      rw [optimizeWithin_plain ht]
  | composite operation children ih =>
    rw [optimizeWithin, optimizeComposite_of_not (by simp), mapConditions, mapConditionsAll_eq]
    exact congrArg (fun fs => composite ⟨operation, fs⟩) (List.map_congr_left ih)

/-- An optimized filter says the same if the equalities of each group agree on case. The groups inside
conditions have become membership tests that gather their leaves, and other composites there have
only had their children optimized. Nothing outside of conditions has changed, which is seen with one
and the same condition in place of each. No group is left, so that there is nothing to optimize any
more. -/
theorem optimize_collapses (f : Filter) :
    ((∀ c ∈ f.innerComposites, c.IsEqualityGroup → c.AgreesOnCase) →
      ∀ (Object : Type) (i : Interpretation Object), f.optimize.meaning i = f.meaning i) ∧
    List.Forall₂ Composite.CollapsesTo f.innerComposites f.optimize.innerComposites ∧
    (∀ c, f.optimize.mapConditions (fun _ => c) = f.mapConditions fun _ => c) ∧
    f.optimize.optimize = f.optimize ∧
    ∀ c ∈ f.optimize.innerComposites, ¬c.IsEqualityGroup := by
  refine ⟨fun hagree Object i => meaning_optimizeWithin false f hagree, ?_, fun c => ?_,
    optimizeWithin_optimizeWithin false f, ?_⟩
  · rw [innerComposites_optimize, List.forall₂_map_right_iff, List.forall₂_same]
    exact fun c _ => collapsesTo_optimizeComposite c
  · rw [optimize_eq_mapConditions, mapConditions_mapConditions]
    rfl
  · rw [innerComposites_optimize, List.forall_mem_map]
    exact fun c _ => not_isEqualityGroup_optimizeComposite c

/-- Accounts on application A or on application B. -/
def onAOrB : Composite :=
  ⟨.or, [compare .eq "application.name" (.text "A"), compare .eq "application.name" (.text "B")]⟩

/-- The people with such an account. -/
def peopleOnAOrB : Filter := collectionCondition "links" (.composite onAOrB)

/-- Objects stand for the name of their only application, as do the people who own them. -/
def byApplication : Interpretation String where
  equality _ _ v _ name := v.text? == some name
  collection _ _ condition name := condition.any (· name)
  other _ _ := false

/-- The people on B are found by the membership test as well, of which nothing is left to optimize. -/
theorem optimize_collapses_peopleOnAOrB :
    (∀ c ∈ peopleOnAOrB.innerComposites, c.IsEqualityGroup → c.AgreesOnCase) ∧
    peopleOnAOrB.optimize.meaning byApplication "B" = true ∧
    peopleOnAOrB.innerComposites = [onAOrB] ∧
    (∃ c, onAOrB.CollapsesTo c ∧ peopleOnAOrB.optimize.innerComposites = [c] ∧
      ¬c.IsEqualityGroup) ∧
    peopleOnAOrB.optimize.optimize = peopleOnAOrB.optimize := by
  obtain ⟨hmeaning, hcollapses, -, hagain, hnone⟩ := optimize_collapses peopleOnAOrB
  have hinner : peopleOnAOrB.innerComposites = [onAOrB] := rfl
  have hagree : ∀ c ∈ peopleOnAOrB.innerComposites, c.IsEqualityGroup → c.AgreesOnCase := by
    rw [hinner, List.forall_mem_singleton]
    intro _ t ht u hu
    have hplain : ∀ t ∈ leafTests onAOrB.children, t.ignoreCase = false := by decide
    rw [hplain t ht, hplain u hu]
  rw [hinner, List.forall₂_cons_left_iff] at hcollapses
  obtain ⟨c, rest, hc, hrest, heq⟩ := hcollapses
  obtain rfl := List.forall₂_nil_left_iff.mp hrest
  refine ⟨hagree, ?_, hinner, ⟨c, hc, heq, hnone c (heq ▸ List.mem_singleton.mpr rfl)⟩, hagain⟩
  rw [hmeaning hagree]
  decide

end Filter

end ObjectQuery
