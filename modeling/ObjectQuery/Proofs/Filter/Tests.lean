import ObjectQuery.Proofs.Filter.Induction

/-!
# The tests of a filter

* `Filter.tests`: the tests of all leaves of a filter, at any depth.
* `Filter.mapEverywhere`: the filter with all of them changed.
* `Filter.iff_forall_tests`: properties that pass from the parts of a filter to the filter.
* `Filter.collapse?_eq_some`: the equalities behind a membership test.
-/

namespace ObjectQuery

namespace Filter

/-! ## Definitions -/

mutual

/-- The tests of all leaves, also of those in conditions and subqueries. -/
def tests : Filter → List Test
  | .leaf ⟨t, condition, subfilter⟩ => t :: (conditionTests condition ++ subfilterTests subfilter)
  | .composite ⟨_, children⟩ => testsOf children

/-- The tests of several filters. -/
def testsOf : List Filter → List Test
  | [] => []
  | f :: rest => tests f ++ testsOf rest

/-- The tests of a condition on a collection's elements. -/
def conditionTests : Option Composite → List Test
  | none => []
  | some ⟨_, children⟩ => testsOf children

/-- The tests of the filter of a subquery. -/
def subfilterTests : Option Filter → List Test
  | none => []
  | some f => tests f

end

mutual

/-- The filter with the tests of all its leaves changed, also of those in conditions and
subqueries. -/
def mapEverywhere (g : Test → Test) : Filter → Filter
  | .leaf ⟨t, condition, subfilter⟩ =>
    .leaf ⟨g t, mapCondition g condition, mapSubfilter g subfilter⟩
  | .composite ⟨operation, children⟩ => .composite ⟨operation, mapAll g children⟩

/-- Changes the tests of several filters. -/
def mapAll (g : Test → Test) : List Filter → List Filter
  | [] => []
  | f :: rest => mapEverywhere g f :: mapAll g rest

/-- Changes the tests of a condition on a collection's elements. -/
def mapCondition (g : Test → Test) : Option Composite → Option Composite
  | none => none
  | some ⟨operation, children⟩ => some ⟨operation, mapAll g children⟩

/-- Changes the tests of the filter of a subquery. -/
def mapSubfilter (g : Test → Test) : Option Filter → Option Filter
  | none => none
  | some f => some (mapEverywhere g f)

end

/-- The composite with the tests of its children changed. -/
def mapComposite (g : Test → Test) (c : Composite) : Composite :=
  ⟨c.operation, mapAll g c.children⟩

/-- The leaf with its tests changed. -/
def mapLeaf (g : Test → Test) (l : Leaf) : Leaf :=
  ⟨g l.test, mapCondition g l.condition, mapSubfilter g l.subfilter⟩

theorem mapEverywhere_leaf (g : Test → Test) (l : Leaf) :
    mapEverywhere g (.leaf l) = .leaf (mapLeaf g l) := by
  cases l
  rfl

theorem mapEverywhere_composite (g : Test → Test) (c : Composite) :
    mapEverywhere g (.composite c) = .composite (mapComposite g c) := by
  cases c
  rfl

theorem mapCondition_eq (g : Test → Test) (o : Option Composite) :
    mapCondition g o = o.map (mapComposite g) := by
  match o with
  | none => rfl
  | some ⟨_, _⟩ => rfl

theorem mapAll_eq (g : Test → Test) (fs : List Filter) : mapAll g fs = fs.map (mapEverywhere g) := by
  induction fs with
  | nil => rfl
  | cons f rest ih => rw [mapAll, ih, List.map_cons]

theorem mem_testsOf {t : Test} {fs : List Filter} : t ∈ testsOf fs ↔ ∃ f ∈ fs, t ∈ f.tests := by
  induction fs with
  | nil => simp [testsOf]
  | cons f rest ih => simp [testsOf, ih]

/-! ## Properties of all tests -/

variable {T : Test → Prop}

theorem tests_leaf {t : Test} {condition : Option Composite} {subfilter : Option Filter} :
    (∀ u ∈ (Filter.leaf ⟨t, condition, subfilter⟩).tests, T u) ↔
      T t ∧ (∀ c ∈ condition, ∀ f ∈ c.children, ∀ u ∈ f.tests, T u) ∧
        ∀ f ∈ subfilter, ∀ u ∈ f.tests, T u := by
  have hc : (∀ u ∈ conditionTests condition, T u) ↔
      ∀ c ∈ condition, ∀ f ∈ c.children, ∀ u ∈ f.tests, T u := by
    cases condition with
    | none => simp [conditionTests]
    | some c =>
      obtain ⟨_, children⟩ := c
      simp only [conditionTests, mem_testsOf, Option.mem_some_iff, forall_eq', forall_exists_index,
        and_imp]
      exact forall_comm.trans (forall_congr' fun f => forall_comm)
  have hs : (∀ u ∈ subfilterTests subfilter, T u) ↔ ∀ f ∈ subfilter, ∀ u ∈ f.tests, T u := by
    cases subfilter with
    | none => simp [subfilterTests]
    | some f => simp [subfilterTests]
  rw [tests, ← hc, ← hs]
  simp only [List.forall_mem_cons, List.forall_mem_append]

theorem tests_composite {c : Composite} :
    (∀ u ∈ (Filter.composite c).tests, T u) ↔ ∀ f ∈ c.children, ∀ u ∈ f.tests, T u := by
  obtain ⟨operation, children⟩ := c
  rw [tests]
  simp only [mem_testsOf, forall_exists_index, and_imp]
  exact forall_comm.trans (forall_congr' fun f => forall_comm)

/-- What a node has exactly if its own test and the nodes below have it, a filter has exactly if all
its tests have it. -/
theorem iff_forall_tests {P : Filter → Prop}
    (leaf : ∀ t condition subfilter, P (.leaf ⟨t, condition, subfilter⟩) ↔
      T t ∧ (∀ c ∈ condition, ∀ f ∈ c.children, P f) ∧ ∀ f ∈ subfilter, P f)
    (composite : ∀ c, P (.composite c) ↔ ∀ f ∈ c.children, P f) (f : Filter) :
    P f ↔ ∀ t ∈ f.tests, T t := by
  induction f using Filter.induction with
  | leaf t condition subfilter ihcondition ihsubfilter =>
    rw [leaf, tests_leaf]
    exact and_congr_right fun _ => and_congr
      (forall₂_congr fun c hc => forall₂_congr (ihcondition c hc)) (forall₂_congr ihsubfilter)
  | composite operation children ih =>
    rw [composite, tests_composite]
    exact forall₂_congr ih

/-! ## Membership tests -/

theorem isCollapsible_iff {t : Test} {property : String} :
    t.isCollapsible property = true ↔
      t.operation = .eq ∧ t.property = property ∧ t.cast = none ∧ t.value.isNull = false ∧
        t.value.isEntity = false ∧ t.value.isList = false := by
  simp [Test.isCollapsible, and_assoc]

theorem operation_of_isCollapsible {t : Test} {property : String}
    (h : t.isCollapsible property = true) : t.operation = .eq :=
  (isCollapsible_iff.mp h).1

theorem eq_map_leaf_of_mapM {fs : List Filter} {leaves : List Leaf}
    (h : fs.mapM leaf? = some leaves) : fs = leaves.map .leaf := by
  induction fs generalizing leaves with
  | nil =>
    cases h
    rfl
  | cons f rest ih =>
    rw [List.mapM_cons] at h
    cases f with
    | composite c => cases h
    | leaf l =>
      cases hr : rest.mapM leaf? with
      | none =>
        rw [hr] at h
        cases h
      | some others =>
        rw [hr] at h
        cases h
        rw [ih hr, List.map_cons]

/-- The equalities that a membership test stands for. -/
theorem collapse?_eq_some {children : List Filter} {collapsed : Leaf}
    (h : collapse? children = some collapsed) :
    ∃ leaves : List Leaf, children = leaves.map .leaf ∧ 2 ≤ leaves.length ∧
      ∃ first ∈ leaves, (∀ l ∈ leaves, l.test.isCollapsible first.test.property) ∧
        collapsed = .ofTest
          { property := first.test.property
            operation := .inList
            value := .list (leaves.map (·.test.value))
            ignoreCase := leaves.any (·.test.ignoreCase) } := by
  unfold collapse? at h
  split at h
  · rename_i first second rest hm
    dsimp only at h
    split at h
    · rename_i hall
      refine ⟨first :: second :: rest, eq_map_leaf_of_mapM hm, by simp, first, by simp, ?_, ?_⟩
      · intro l hl
        exact List.all_eq_true.mp hall l.test (List.mem_map.mpr ⟨l, hl, rfl⟩)
      · cases h
        simp [Function.comp_def, List.any_map]
    · cases h
  · cases h

end Filter

end ObjectQuery
