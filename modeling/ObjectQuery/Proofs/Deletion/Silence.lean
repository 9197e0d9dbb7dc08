import ObjectQuery.Proofs.Filter.Arrangement

/-!
# Silent filters

* `Filter.isSilent`: filters that emit no condition, whatever they are compiled for.
* `Filter.holds`: the truth of a filter read as a Boolean tree.
* `Filter.holds_of_isSilent`: a silent filter holds for all rows or for none.
* `QueryOptions.isSilent_prepare`: the filter that is compiled is silent if and only if all
  restrictions are.
-/

namespace ObjectQuery

namespace Filter

/-! ## Silence -/

mutual

/-- Whether nothing is emitted: outer joins, the containment of no values, conditions and composites
all of whose members are silent. A negated member of a condition always excludes owners. -/
def isSilent : Filter → Bool
  | .leaf ⟨t, condition, _⟩ =>
    match t.operation with
    | .leftJoin => true
    | .containsAll => t.value.elements.isEmpty
    | .collectionCondition => isSilentCondition condition
    | _ => false
  | .composite ⟨_, children⟩ => areSilent children

/-- Whether this is so of all the filters. -/
def areSilent : List Filter → Bool
  | [] => true
  | f :: rest => isSilent f && areSilent rest

/-- Whether a condition on a collection's elements emits nothing. -/
def isSilentCondition : Option Composite → Bool
  | none => false
  | some ⟨operation, children⟩ =>
    operation != .not && children.all (!·.isNegated) && areSilent children

end

theorem isSilent_composite (c : Composite) :
    (Filter.composite c).isSilent = areSilent c.children := by
  cases c
  rfl

theorem isSilentCondition_some (c : Composite) :
    isSilentCondition (some c) =
      (c.operation != .not && c.children.all (!·.isNegated) && areSilent c.children) := by
  cases c
  rfl

theorem areSilent_eq (fs : List Filter) : areSilent fs = fs.all isSilent := by
  induction fs with
  | nil => rfl
  | cons f rest ih => rw [areSilent, ih, List.all_cons]

/-- A change of filters that leaves the silence of each alone leaves that of all alone. -/
theorem areSilent_map {g : Filter → Filter} {fs : List Filter}
    (h : ∀ f ∈ fs, (g f).isSilent = f.isSilent) : areSilent (fs.map g) = areSilent fs := by
  rw [areSilent_eq, areSilent_eq, List.all_map, Bool.eq_iff_iff, List.all_eq_true, List.all_eq_true]
  exact forall₂_congr fun f hf => by rw [Function.comp_apply, h f hf]

/-! ## Truth -/

mutual

/-- The truth of a filter read as a Boolean tree, for a row that decides the leaves. Outer joins and
the containment of no values hold always, and a condition on a collection's elements is read like
any other composite. -/
def holds (row : Leaf → Bool) : Filter → Bool
  | .leaf ⟨t, condition, subfilter⟩ =>
    match t.operation with
    | .leftJoin => true
    | .containsAll => t.value.elements.isEmpty || row ⟨t, condition, subfilter⟩
    | .collectionCondition => conditionHolds row (row ⟨t, condition, subfilter⟩) condition
    | _ => row ⟨t, condition, subfilter⟩
  | .composite c => compositeHolds row c

/-- The truth of a composite: a negation negates the conjunction of its children. -/
def compositeHolds (row : Leaf → Bool) : Composite → Bool
  | ⟨.and, children⟩ => allHold row children
  | ⟨.or, children⟩ => anyHolds row children
  | ⟨.not, children⟩ => !allHold row children

/-- The truth of a conjunction. -/
def allHold (row : Leaf → Bool) : List Filter → Bool
  | [] => true
  | f :: rest => holds row f && allHold row rest

/-- The truth of a disjunction. -/
def anyHolds (row : Leaf → Bool) : List Filter → Bool
  | [] => false
  | f :: rest => holds row f || anyHolds row rest

/-- The truth of a condition on a collection's elements, `otherwise` if there is none. -/
def conditionHolds (row : Leaf → Bool) (otherwise : Bool) : Option Composite → Bool
  | none => otherwise
  | some c => compositeHolds row c

end

/-- The truth of a filter whose leaves all hold. -/
def verdict (f : Filter) : Bool := f.holds fun _ => true

/-- Silent filters under a connective hold for all rows or for none if each of them does. -/
theorem compositeHolds_of_areSilent {row : Leaf → Bool} (operation : BooleanOp) {fs : List Filter}
    (ih : ∀ f ∈ fs, f.isSilent = true → f.holds row = f.verdict) (hfs : areSilent fs = true) :
    compositeHolds row ⟨operation, fs⟩ = compositeHolds (fun _ => true) ⟨operation, fs⟩ := by
  rw [areSilent_eq, List.all_eq_true] at hfs
  have hboth : allHold row fs = allHold (fun _ => true) fs ∧
      anyHolds row fs = anyHolds (fun _ => true) fs := by
    induction fs with
    | nil => exact ⟨rfl, rfl⟩
    | cons f rest ihrest =>
      obtain ⟨hf, hrest⟩ := List.forall_mem_cons.mp ih
      obtain ⟨hsilent, hsilents⟩ := List.forall_mem_cons.mp hfs
      obtain ⟨hall, hany⟩ := ihrest hrest hsilents
      have hhead : f.holds row = f.holds fun _ => true := hf hsilent
      simp only [allHold, anyHolds, hhead, hall, hany, and_self]
  cases operation with
  | and => exact hboth.1
  | or => exact hboth.2
  | not => exact congrArg (!·) hboth.1

/-- A silent filter holds for all rows or for none. -/
theorem holds_of_isSilent {f : Filter} (h : f.isSilent = true) (row : Leaf → Bool) :
    f.holds row = f.verdict := by
  induction f using Filter.induction with
  | leaf t condition subfilter ihc ihs =>
    unfold verdict
    rw [holds, holds]
    rw [isSilent] at h
    cases hop : t.operation <;> simp only [hop] at h ⊢ <;> try contradiction
    case containsAll => rw [h, Bool.true_or, Bool.true_or]
    case collectionCondition =>
      rcases condition with _ | ⟨operation, children⟩
      · cases h
      · rw [isSilentCondition, Bool.and_eq_true] at h
        exact compositeHolds_of_areSilent operation (ihc _ rfl) h.2
  | composite operation children ih => exact compositeHolds_of_areSilent operation ih h

/-! ## Silence through the arrangement of a filter -/

/-- Comparisons that always leave a condition. -/
theorem isSilent_leaf {t : Test} {condition : Option Composite} {subfilter : Option Filter}
    {operation : LogicalOp} (h : t.operation = operation)
    (hne : operation ≠ .leftJoin ∧ operation ≠ .containsAll ∧ operation ≠ .collectionCondition) :
    (Filter.leaf ⟨t, condition, subfilter⟩).isSilent = false := by
  obtain ⟨hjoin, hall, hcondition⟩ := hne
  rw [isSilent, h]
  split
  · contradiction
  · contradiction
  · contradiction
  · rfl

theorem isSilent_condition {t : Test} {condition : Option Composite} {subfilter : Option Filter}
    (h : t.operation = .collectionCondition) :
    (Filter.leaf ⟨t, condition, subfilter⟩).isSilent = isSilentCondition condition := by
  rw [isSilent, h]

theorem isSilent_invertLeaf {l : Leaf} (h : l.test.isNegated = true) :
    (Filter.leaf (invertLeaf l)).isSilent = false ∧ (Filter.leaf l).isSilent = false := by
  obtain ⟨t, condition, subfilter⟩ := l
  have hop : t.operation = .ne ∨ t.operation = .notNull := by
    simpa [Test.isNegated] using h
  unfold invertLeaf
  dsimp only
  rcases hop with hop | hop <;> rw [hop]
  · exact ⟨@isSilent_leaf _ _ _ .eq rfl (by decide), isSilent_leaf hop (by decide)⟩
  · exact ⟨@isSilent_leaf _ _ _ .isNull rfl (by decide), isSilent_leaf hop (by decide)⟩

theorem isSilent_foldDoubleNegation (f : Filter) : f.foldDoubleNegation.isSilent = f.isSilent := by
  have hchildren : ∀ fs : List Filter, (∀ f ∈ fs, f.foldDoubleNegation.isSilent = f.isSilent) →
      areSilent (foldDoubleNegations fs) = areSilent fs := by
    intro fs ih
    rw [foldDoubleNegations_eq]
    exact areSilent_map ih
  induction f using Filter.foldingInduction with
  | leaf l => rw [foldDoubleNegation]
  | double only ih =>
    rw [foldDoubleNegation, ih]
    simp [isSilent, areSilent]
  | doubled children hne ih =>
    rw [foldDoubleNegation.eq_3 children hne, isSilent, hchildren children ih]
    simp [isSilent, areSilent]
  | negated l =>
    rw [foldDoubleNegation]
    split
    · rename_i h
      obtain ⟨hinverse, hl⟩ := isSilent_invertLeaf h
      rw [hinverse, isSilent, areSilent, hl, Bool.false_and]
    · rfl
  | other operation children h₁ h₂ h₃ ih =>
    rw [foldDoubleNegation.eq_5 operation children h₁ h₂ h₃, isSilent, isSilent,
      hchildren children ih]

theorem all_collectionsLast (p : Filter → Bool) (fs : List Filter) :
    (collectionsLast fs).all p = fs.all p := by
  rw [Bool.eq_iff_iff, List.all_eq_true, List.all_eq_true]
  exact forall_congr' fun f => by rw [mem_collectionsLast]

theorem isSilent_reorder (f : Filter) : f.reorder.isSilent = f.isSilent := by
  have hchildren : ∀ fs : List Filter, (∀ f ∈ fs, f.reorder.isSilent = f.isSilent) →
      areSilent (collectionsLast (reorderAll fs)) = areSilent fs := by
    intro fs ih
    rw [areSilent_eq, all_collectionsLast, ← areSilent_eq, reorderAll_eq]
    exact areSilent_map ih
  induction f using Filter.induction with
  | leaf t condition subfilter ihc ihs =>
    match condition with
    | none => rfl
    | some ⟨operation, children⟩ =>
      have hplain : (collectionsLast (reorderAll children)).all (!·.isNegated) =
          children.all (!·.isNegated) := by
        rw [all_collectionsLast, reorderAll_eq, List.all_map]
        exact congrArg children.all (funext fun f => congrArg (!·) (isNegated_reorder f))
      rw [reorder, reorderCondition, reorderComposite, isSilent, isSilent, isSilentCondition,
        isSilentCondition, hplain, hchildren children (ihc _ rfl)]
  | composite operation children ih =>
    rw [reorder, reorderComposite, isSilent, isSilent, hchildren children ih]

/-- Equalities that collapse are plain and not silent, like the membership test that they become. -/
theorem silence_collapse {children : List Filter} {collapsed : Leaf}
    (h : collapse? children = some collapsed) :
    [Filter.leaf collapsed].all (!·.isNegated) = children.all (!·.isNegated) ∧
      areSilent [.leaf collapsed] = areSilent children := by
  obtain ⟨leaves, rfl, hlength, first, hfirst, hall, rfl⟩ := collapse?_eq_some h
  have heq : ∀ l ∈ leaves, l.test.operation = .eq := by
    intro l hl
    exact operation_of_isCollapsible (hall l hl)
  refine ⟨?_, ?_⟩
  · rw [List.all_map, Eq.comm, List.all_cons, List.all_nil, Bool.and_true]
    refine List.all_eq_true.mpr fun l hl => ?_
    rw [Function.comp_apply, isNegated, Test.isNegated, heq l hl]
    rfl
  · obtain ⟨t, condition, subfilter⟩ := first
    have hcollapsed : ∀ property value ignoreCase, (Filter.leaf (.ofTest
        { property, operation := .inList, value, ignoreCase })).isSilent = false :=
      fun _ _ _ => @isSilent_leaf _ _ _ .inList rfl (by decide)
    have hsilent := @isSilent_leaf t condition subfilter .eq (heq _ hfirst) (by decide)
    rw [areSilent, hcollapsed, Bool.false_and, areSilent_eq, Eq.comm, List.all_eq_false]
    exact ⟨_, List.mem_map.mpr ⟨_, hfirst, rfl⟩, by rw [hsilent]; decide⟩

theorem silence_optimizeComposite (operation : BooleanOp) {fs : List Filter}
    (ih : ∀ f ∈ fs, ∀ inside, (optimizeWithin inside f).isSilent = f.isSilent) (inside : Bool) :
    (optimizeComposite inside ⟨operation, fs⟩).operation = operation ∧
      (optimizeComposite inside ⟨operation, fs⟩).children.all (!·.isNegated) =
        fs.all (!·.isNegated) ∧
      areSilent (optimizeComposite inside ⟨operation, fs⟩).children = areSilent fs := by
  rw [optimizeComposite]
  split
  · rename_i hcollapse
    split at hcollapse
    · rename_i hor
      simp only [Bool.and_eq_true, decide_eq_true_eq] at hor
      obtain ⟨hplain, hsilent⟩ := silence_collapse hcollapse
      exact ⟨hor.2.symm, hplain, hsilent⟩
    · cases hcollapse
  · refine ⟨rfl, ?_, ?_⟩
    · rw [optimizeAll_eq, List.all_map]
      exact congrArg fs.all (funext fun f => congrArg (!·) (isNegated_optimizeWithin inside f))
    · rw [optimizeAll_eq]
      exact areSilent_map fun f hf => ih f hf inside

theorem isSilent_optimizeWithin (f : Filter) :
    ∀ inside, (optimizeWithin inside f).isSilent = f.isSilent := by
  induction f using Filter.induction with
  | leaf t condition subfilter ihc ihs =>
    intro inside
    rw [optimizeWithin]
    split
    · rename_i hop
      rcases condition with _ | ⟨operation, children⟩
      · rfl
      · obtain ⟨hoperation, hplain, hsilent⟩ :=
          silence_optimizeComposite operation (ihc _ rfl) true
        rw [optimizeCondition, isSilent_condition hop, isSilent_condition hop]
        rw [isSilentCondition_some, isSilentCondition_some, hoperation, hplain, hsilent]
    · rfl
  | composite operation children ih =>
    intro inside
    rw [optimizeWithin, isSilent_composite, isSilent_composite]
    exact (silence_optimizeComposite operation ih inside).2.2

end Filter

/-- The filter that is compiled is silent if and only if all restrictions are. -/
theorem QueryOptions.isSilent_prepare (o : QueryOptions) :
    (∀ f ∈ o.prepare, f.isSilent = true) ↔ ∀ f ∈ o.restrictions, f.isSilent = true := by
  have harranged : ∀ f : Filter, (if o.disableOptimizer then f.foldDoubleNegation.reorder
      else f.foldDoubleNegation.reorder.optimize).isSilent = f.isSilent := by
    intro f
    split
    · rw [Filter.isSilent_reorder, Filter.isSilent_foldDoubleNegation]
    · rw [Filter.optimize, Filter.isSilent_optimizeWithin, Filter.isSilent_reorder,
        Filter.isSilent_foldDoubleNegation]
  unfold QueryOptions.prepare
  dsimp only
  rcases o.restrictions with _ | ⟨only, _ | ⟨second, rest⟩⟩
  · simp
  · simp [harranged]
  · simp only [Option.map_some, Option.mem_some_iff, forall_eq', harranged]
    rw [Filter.and, Filter.isSilent, Filter.areSilent_eq, List.all_eq_true]

end ObjectQuery
