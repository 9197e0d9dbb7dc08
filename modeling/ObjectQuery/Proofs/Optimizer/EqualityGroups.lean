import ObjectQuery.Proofs.Filter.Parts
import ObjectQuery.Proofs.Optimizer.Equalities

/-!
# Groups of equalities

* `Composite.IsEqualityGroup`: disjunctions of two or more equalities that one membership test can
  stand for.
* `Filter.optimizeComposite_of_isEqualityGroup`, `Filter.optimizeComposite_of_not`: what the
  optimizer makes of a group, and of all other composites.
* `Filter.innerComposites_optimize`: the composites inside conditions are optimized one by one.
-/

namespace ObjectQuery

/-- An equality on a property, without a cast, with a value that is neither null nor an entity nor a
list. -/
structure Test.IsPlainEquality (property : String) (t : Test) : Prop where
  operation : t.operation = .eq
  sameProperty : t.property = property
  cast : t.cast = none
  notNull : t.value.isNull = false
  notEntity : t.value.isEntity = false
  notList : t.value.isList = false

theorem Test.isPlainEquality_iff {property : String} {t : Test} :
    t.IsPlainEquality property ↔ t.isCollapsible property = true := by
  rw [Filter.isCollapsible_iff]
  exact ⟨fun ⟨h₁, h₂, h₃, h₄, h₅, h₆⟩ => ⟨h₁, h₂, h₃, h₄, h₅, h₆⟩,
    fun ⟨h₁, h₂, h₃, h₄, h₅, h₆⟩ => ⟨h₁, h₂, h₃, h₄, h₅, h₆⟩⟩

/-- A disjunction of two or more plain equalities on one property. -/
structure Composite.IsEqualityGroup (c : Composite) : Prop where
  operation : c.operation = .or
  several : 2 ≤ c.children.length
  equalities : ∃ property, ∀ f ∈ c.children, ∃ l : Leaf,
    f = .leaf l ∧ l.test.IsPlainEquality property

theorem Composite.IsEqualityGroup.perm {operation : BooleanOp} {fs gs : List Filter}
    (h : Composite.IsEqualityGroup ⟨operation, fs⟩) (hperm : fs.Perm gs) :
    Composite.IsEqualityGroup ⟨operation, gs⟩ := by
  obtain ⟨hop, hseveral, property, hequalities⟩ := h
  exact ⟨hop, hperm.length_eq ▸ hseveral, property,
    fun f hf => hequalities f (hperm.mem_iff.mpr hf)⟩

namespace Filter

theorem mapM_leaf? (leaves : List Leaf) : (leaves.map Filter.leaf).mapM leaf? = some leaves := by
  induction leaves with
  | nil => rfl
  | cons l rest ih =>
    rw [List.map_cons, List.mapM_cons, ih]
    rfl

/-- Filters that are leaves are the leaves of a list. -/
theorem exists_leaves {P : Leaf → Prop} {fs : List Filter}
    (h : ∀ f ∈ fs, ∃ l, f = .leaf l ∧ P l) :
    ∃ leaves : List Leaf, fs = leaves.map .leaf ∧ ∀ l ∈ leaves, P l := by
  induction fs with
  | nil => exact ⟨[], rfl, by simp⟩
  | cons f rest ih =>
    obtain ⟨⟨l, rfl, hl⟩, hrest⟩ := List.forall_mem_cons.mp h
    obtain ⟨leaves, rfl, hleaves⟩ := ih hrest
    exact ⟨l :: leaves, rfl, List.forall_mem_cons.mpr ⟨hl, hleaves⟩⟩

/-- The membership test that equalities amount to. -/
def membershipOf (property : String) (tests : List Test) : Test :=
  { property
    operation := .inList
    value := .list (tests.map (·.value))
    ignoreCase := tests.any (·.ignoreCase) }

/-- A group is collapsed into its membership test. -/
theorem collapse?_of_isEqualityGroup {c : Composite} (h : c.IsEqualityGroup) :
    ∃ (property : String) (leaves : List Leaf), c.children = leaves.map .leaf ∧ 2 ≤ leaves.length ∧
      (∀ l ∈ leaves, l.test.IsPlainEquality property) ∧
      collapse? c.children = some (.ofTest (membershipOf property (leaves.map (·.test)))) := by
  obtain ⟨-, hseveral, property, hequalities⟩ := h
  obtain ⟨leaves, hchildren, hplain⟩ := exists_leaves hequalities
  rw [hchildren, List.length_map] at hseveral
  refine ⟨property, leaves, hchildren, hseveral, hplain, ?_⟩
  match leaves, hseveral with
  | first :: second :: rest, _ =>
    have hfirst : first.test.property = property := (hplain first List.mem_cons_self).sameProperty
    have hall : ((first :: second :: rest).map (·.test)).all (·.isCollapsible property) = true := by
      rw [List.all_map, List.all_eq_true]
      exact fun l hl => Test.isPlainEquality_iff.mp (hplain l hl)
    unfold collapse?
    rw [hchildren, mapM_leaf?]
    dsimp only
    rw [hfirst, if_pos hall]
    rfl

/-- Only groups are collapsed. -/
theorem isEqualityGroup_of_collapse? {operation : BooleanOp} {children : List Filter}
    {collapsed : Leaf} (hop : operation = .or) (h : collapse? children = some collapsed) :
    Composite.IsEqualityGroup ⟨operation, children⟩ := by
  obtain ⟨leaves, rfl, hseveral, first, -, hall, -⟩ := collapse?_eq_some h
  refine ⟨hop, by rwa [List.length_map], first.test.property, ?_⟩
  rw [List.forall_mem_map]
  exact fun l hl => ⟨l, rfl, Test.isPlainEquality_iff.mpr (hall l hl)⟩

/-- Inside a condition a group becomes a disjunction of its membership test. -/
theorem optimizeComposite_of_isEqualityGroup {c : Composite} (h : c.IsEqualityGroup) :
    ∃ (property : String) (leaves : List Leaf), c.children = leaves.map .leaf ∧ 2 ≤ leaves.length ∧
      (∀ l ∈ leaves, l.test.IsPlainEquality property) ∧
      optimizeComposite true c =
        ⟨.or, [.test (membershipOf property (leaves.map (·.test)))]⟩ := by
  obtain ⟨property, leaves, hchildren, hseveral, hplain, hcollapse⟩ := collapse?_of_isEqualityGroup h
  refine ⟨property, leaves, hchildren, hseveral, hplain, ?_⟩
  have hop := h.operation
  obtain ⟨operation, children⟩ := c
  change operation = .or at hop
  change collapse? children = _ at hcollapse
  rw [optimizeComposite, hop, hcollapse]
  rfl

/-- The children of other composites are optimized, and so are all children outside of conditions. -/
theorem optimizeComposite_of_not {inside : Bool} {c : Composite}
    (h : inside = true → ¬c.IsEqualityGroup) :
    optimizeComposite inside c = ⟨c.operation, c.children.map (optimizeWithin inside)⟩ := by
  obtain ⟨operation, children⟩ := c
  rw [optimizeComposite, ← optimizeAll_eq]
  split
  · rename_i collapsed hcollapse
    split at hcollapse
    · rename_i hinside
      rw [Bool.and_eq_true, decide_eq_true_eq] at hinside
      exact absurd (isEqualityGroup_of_collapse? hinside.2 hcollapse) (h hinside.1)
    · cases hcollapse
  · rfl

section Leaves

variable {t : Test} {condition : Option Composite} {subfilter : Option Filter}

theorem optimizeWithin_plain (ht : t.operation ≠ .collectionCondition) (inside : Bool) :
    optimizeWithin inside (.leaf ⟨t, condition, subfilter⟩) = .leaf ⟨t, condition, subfilter⟩ := by
  rw [optimizeWithin, if_neg ht]

theorem optimizeWithin_condition (ht : t.operation = .collectionCondition) (inside : Bool) :
    optimizeWithin inside (.leaf ⟨t, condition, subfilter⟩) =
      .leaf ⟨t, condition.map (optimizeComposite true), subfilter⟩ := by
  rw [optimizeWithin, if_pos ht, optimizeCondition_eq]

end Leaves

/-- A property of all filters, inside of conditions and outside, along the cases of the optimizer. -/
@[elab_as_elim]
theorem optimizerInduction {P : Bool → Filter → Prop}
    (plain : ∀ inside t condition subfilter, t.operation ≠ .collectionCondition →
      P inside (.leaf ⟨t, condition, subfilter⟩))
    (condition : ∀ inside t condition subfilter, t.operation = .collectionCondition →
      (∀ c ∈ condition, P true (.composite c)) → P inside (.leaf ⟨t, condition, subfilter⟩))
    (group : ∀ c, c.IsEqualityGroup → P true (.composite c))
    (composite : ∀ inside c, (inside = true → ¬c.IsEqualityGroup) →
      (∀ f ∈ c.children, P inside f) → P inside (.composite c))
    (inside : Bool) (f : Filter) : P inside f := by
  have hcomposite (inside : Bool) (c : Composite) (h : ∀ f ∈ c.children, P inside f) :
      P inside (.composite c) := by
    by_cases hgroup : inside = true ∧ c.IsEqualityGroup
    · obtain ⟨rfl, hgroup⟩ := hgroup
      exact group c hgroup
    · exact composite inside c (fun hinside hc => hgroup ⟨hinside, hc⟩) h
  induction f using Filter.induction generalizing inside with
  | leaf t c subfilter ihc ihs =>
    by_cases ht : t.operation = .collectionCondition
    · exact condition inside t c subfilter ht fun c hc => hcomposite true c fun f hf =>
        ihc c hc f hf true
    · exact plain inside t c subfilter ht
  | composite operation children ih =>
    exact hcomposite inside ⟨operation, children⟩ fun f hf => ih f hf inside

/-! ## Groups that are left -/

theorem exists_leaf_of_optimizeWithin {inside : Bool} {f : Filter} {l : Leaf}
    (h : optimizeWithin inside f = .leaf l) : ∃ l', f = .leaf l' ∧ l'.test = l.test := by
  match f with
  | .leaf ⟨t, condition, subfilter⟩ =>
    rw [optimizeWithin] at h
    split at h <;> cases h <;> exact ⟨_, rfl, rfl⟩
  | .composite c =>
    rw [optimizeWithin] at h
    cases h

/-- Children that are equalities have been so before they were optimized. -/
theorem isEqualityGroup_of_map {inside : Bool} {operation : BooleanOp} {children : List Filter}
    (h : Composite.IsEqualityGroup ⟨operation, children.map (optimizeWithin inside)⟩) :
    Composite.IsEqualityGroup ⟨operation, children⟩ := by
  obtain ⟨hop, hseveral, property, hequalities⟩ := h
  refine ⟨hop, by simpa using hseveral, property, fun f hf => ?_⟩
  obtain ⟨l, hl, hplain⟩ := hequalities _ (List.mem_map_of_mem hf)
  obtain ⟨l', rfl, htest⟩ := exists_leaf_of_optimizeWithin hl
  exact ⟨l', rfl, by rwa [htest]⟩

/-- No group is left of a composite. -/
theorem not_isEqualityGroup_optimizeComposite (c : Composite) :
    ¬(optimizeComposite true c).IsEqualityGroup := by
  intro h
  obtain ⟨operation, children⟩ := c
  by_cases hgroup : Composite.IsEqualityGroup ⟨operation, children⟩
  · obtain ⟨property, leaves, -, -, -, heq⟩ := optimizeComposite_of_isEqualityGroup hgroup
    rw [heq] at h
    exact absurd h.several (by simp)
  · rw [optimizeComposite_of_not fun _ => hgroup] at h
    exact hgroup (isEqualityGroup_of_map h)

/-! ## Composites inside conditions -/

section Leaves

variable {t : Test} {condition : Option Composite} {subfilter : Option Filter}

theorem compositesWithin_plain (ht : t.operation ≠ .collectionCondition) (inside : Bool) :
    (Filter.leaf ⟨t, condition, subfilter⟩).compositesWithin Leaf.isCollectionCondition inside =
      [] := by
  rw [compositesWithin, Leaf.isCollectionCondition, if_neg (by rwa [beq_iff_eq])]

theorem compositesWithin_condition (ht : t.operation = .collectionCondition) (inside : Bool) :
    (Filter.leaf ⟨t, condition, subfilter⟩).compositesWithin Leaf.isCollectionCondition inside =
      compositesOfCondition Leaf.isCollectionCondition condition := by
  rw [compositesWithin, Leaf.isCollectionCondition, if_pos (beq_iff_eq.mpr ht)]

end Leaves

/-- The optimizer goes through the composites inside conditions one by one. Those within a group do
not get in the way, as there are none. -/
theorem compositesWithin_optimizeWithin (inside : Bool) (f : Filter) :
    (optimizeWithin inside f).compositesWithin Leaf.isCollectionCondition inside =
      (f.compositesWithin Leaf.isCollectionCondition inside).map (optimizeComposite true) := by
  induction inside, f using optimizerInduction with
  | plain inside t condition subfilter ht =>
    rw [optimizeWithin_plain ht, compositesWithin_plain ht]
    rfl
  | condition inside t condition subfilter ht ih =>
    rw [optimizeWithin_condition ht, compositesWithin_condition ht, compositesWithin_condition ht]
    match condition with
    | none => rfl
    | some c =>
      rw [Option.map_some, compositesOfCondition_some, compositesOfCondition_some]
      exact ih c rfl
  | group c hgroup =>
    obtain ⟨property, leaves, hchildren, -, hplain, heq⟩ :=
      optimizeComposite_of_isEqualityGroup hgroup
    have hnone : c.children.flatMap (compositesWithin Leaf.isCollectionCondition true) = [] := by
      rw [hchildren, List.flatMap_map, List.flatMap_eq_nil_iff]
      rintro ⟨t, condition, subfilter⟩ hl
      refine compositesWithin_plain ?_ _
      rw [(hplain _ hl).operation]
      decide
    have hmember : (test (membershipOf property (leaves.map (·.test)))).compositesWithin
        Leaf.isCollectionCondition true = [] :=
      compositesWithin_plain (show LogicalOp.inList ≠ .collectionCondition by decide) true
    rw [optimizeWithin, compositesWithin_composite, compositesWithin_composite, hnone, heq,
      List.flatMap_singleton, hmember]
    exact congrArg (fun c => [c]) heq.symm
  | composite inside c hgroup ih =>
    have heq := optimizeComposite_of_not hgroup
    have hchildren : (c.children.map (optimizeWithin inside)).flatMap
        (compositesWithin Leaf.isCollectionCondition inside) =
        (c.children.flatMap (compositesWithin Leaf.isCollectionCondition inside)).map
          (optimizeComposite true) := by
      rw [List.flatMap_map, List.map_flatMap]
      exact List.flatMap_congr ih
    rw [optimizeWithin, compositesWithin_composite, compositesWithin_composite, List.map_append,
      heq, hchildren, ← heq]
    cases inside <;> rfl

/-- The composites inside conditions are optimized one by one. -/
theorem innerComposites_optimize (f : Filter) :
    f.optimize.innerComposites = f.innerComposites.map (optimizeComposite true) :=
  compositesWithin_optimizeWithin false f

end Filter

end ObjectQuery
