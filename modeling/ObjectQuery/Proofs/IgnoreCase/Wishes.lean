import ObjectQuery.Proofs.Filter.Change

/-!
# The wish to ignore case, leaf by leaf

* `Test.asking`: the comparison with the wish to ignore case.
* `Filter.askOutside`: the filter with the wish in all leaves but those that are compiled into
  nested selects: the filters of subqueries and the negated parts of conditions on collections.
* `Filter.nestedTests`: the tests of those leaves.
* `QueryOptions.prepare_askOutside`: the wish may be added before or after the rearrangements.
-/

namespace ObjectQuery

/-- The comparison with the wish to ignore case. -/
def Test.asking (t : Test) : Test := { t with ignoreCase := true }

namespace Filter

mutual

/-- The filter with the wish to ignore case in all leaves outside of nested selects. -/
def askOutside : Filter → Filter
  | .leaf ⟨t, condition, subfilter⟩ => .leaf ⟨t.asking, askCondition condition, subfilter⟩
  | .composite ⟨operation, children⟩ => .composite ⟨operation, askAll children⟩

/-- Adds the wish to several filters. -/
def askAll : List Filter → List Filter
  | [] => []
  | f :: rest => askOutside f :: askAll rest

/-- Adds the wish to a condition on a collection's elements. A negation becomes a nested select. -/
def askCondition : Option Composite → Option Composite
  | none => none
  | some ⟨operation, children⟩ =>
    some ⟨operation, if operation = .not then children else askPlain children⟩

/-- Adds the wish to the plain ones of several filters. The others become a nested select. -/
def askPlain : List Filter → List Filter
  | [] => []
  | f :: rest => (if f.isNegated then f else askOutside f) :: askPlain rest

end

mutual

/-- The tests of the leaves that are compiled into nested selects. -/
def nestedTests : Filter → List Test
  | .leaf ⟨_, condition, subfilter⟩ => conditionNestedTests condition ++ subfilterTests subfilter
  | .composite ⟨_, children⟩ => allNestedTests children

/-- Such tests of several filters. -/
def allNestedTests : List Filter → List Test
  | [] => []
  | f :: rest => nestedTests f ++ allNestedTests rest

/-- Such tests of a condition on a collection's elements. -/
def conditionNestedTests : Option Composite → List Test
  | none => []
  | some ⟨operation, children⟩ =>
    if operation = .not then testsOf children else plainNestedTests children

/-- All tests of the negated ones of several filters, and such tests of the others. -/
def plainNestedTests : List Filter → List Test
  | [] => []
  | f :: rest => (if f.isNegated then tests f else nestedTests f) ++ plainNestedTests rest

end

/-- A child of a condition with the wish to ignore case, if it is plain. -/
def askKept (f : Filter) : Filter := if f.isNegated then f else f.askOutside

/-- A condition with the wish to ignore case. -/
def askComposite (c : Composite) : Composite :=
  if c.operation = .not then c else onChildren askKept c

/-- A leaf with the wish to ignore case. -/
def askLeaf (l : Leaf) : Leaf := ⟨l.test.asking, l.condition.map askComposite, l.subfilter⟩

theorem askAll_eq (fs : List Filter) : askAll fs = fs.map askOutside := by
  induction fs with
  | nil => rfl
  | cons f rest ih => rw [askAll, ih, List.map_cons]

theorem askPlain_eq (fs : List Filter) : askPlain fs = fs.map askKept := by
  induction fs with
  | nil => rfl
  | cons f rest ih => rw [askPlain, ih, List.map_cons, askKept]

theorem askCondition_eq (o : Option Composite) : askCondition o = o.map askComposite := by
  match o with
  | none => rfl
  | some ⟨operation, children⟩ =>
    rw [askCondition, askPlain_eq, Option.map_some, askComposite, onChildren]
    dsimp only
    split <;> rfl

theorem leafwise_askOutside : Leafwise askOutside askLeaf where
  leaf := by
    rintro ⟨t, condition, subfilter⟩
    rw [askOutside, askCondition_eq, askLeaf]
  composite operation children := by rw [askOutside, askAll_eq]

/-! ## Shape -/

theorem isNegated_askOutside (f : Filter) : f.askOutside.isNegated = f.isNegated := by
  match f with
  | .leaf ⟨_, _, _⟩ | .composite ⟨_, _⟩ => rfl

theorem isCollectionCondition_askOutside (f : Filter) :
    f.askOutside.isCollectionCondition = f.isCollectionCondition := by
  match f with
  | .leaf ⟨_, _, _⟩ | .composite ⟨_, _⟩ => rfl

theorem askKept_of_isNegated {f : Filter} (h : f.isNegated = true) : f.askKept = f := if_pos h

theorem askKept_of_not_isNegated {f : Filter} (h : f.isNegated = false) :
    f.askKept = f.askOutside := by
  rw [askKept, h, if_neg Bool.false_ne_true]

theorem isNegated_askKept (f : Filter) : f.askKept.isNegated = f.isNegated := by
  cases h : f.isNegated with
  | true => rw [askKept_of_isNegated h, h]
  | false => rw [askKept_of_not_isNegated h, isNegated_askOutside, h]

theorem isCollectionCondition_askKept (f : Filter) :
    f.askKept.isCollectionCondition = f.isCollectionCondition := by
  unfold askKept
  split
  · rfl
  · exact isCollectionCondition_askOutside f

/-! ## Rearrangements -/

theorem collapses_asking : Collapses Test.asking where
  property _ := rfl
  collapsible _ _ := rfl
  collapsed property tests hne _ := by
    obtain ⟨first, rest, rfl⟩ := List.exists_cons_of_ne_nil hne
    simp [Test.asking, Function.comp_def]

theorem changesTests_askOutside : ChangesTests askOutside Test.asking where
  tests f := by
    match f with
    | .leaf ⟨_, _, _⟩ | .composite ⟨_, _⟩ => rfl
  bare _ := rfl

/-- The wish is added to the tests that are not negated. Equalities are not. -/
theorem collapses_askKept : Collapses fun t => if t.isNegated then t else t.asking where
  property t := by split <;> rfl
  collapsible t property := by split <;> rfl
  collapsed property tests hne heq := by
    have htests : tests.map (fun t => if t.isNegated then t else t.asking) =
        tests.map Test.asking := by
      refine List.map_congr_left fun t ht => if_neg ?_
      simp [Test.isNegated, heq t ht]
    rw [htests]
    exact collapses_asking.collapsed property tests hne heq

theorem changesTests_askKept :
    ChangesTests askKept fun t => if t.isNegated then t else t.asking where
  tests f := by
    match f with
    | .leaf ⟨t, condition, subfilter⟩ =>
      show Option.map (·.test) (leaf? (if t.isNegated then _ else _)) =
        some (if t.isNegated then t else t.asking)
      split <;> rfl
    | .composite ⟨operation, children⟩ =>
      unfold askKept
      split <;> rfl
  bare t := by
    show (if t.isNegated then _ else _) = Filter.leaf (.ofTest (if t.isNegated then _ else _))
    split <;> rfl

theorem foldDoubleNegation_askOutside (f : Filter) :
    f.askOutside.foldDoubleNegation = f.foldDoubleNegation.askOutside := by
  refine leafwise_askOutside.foldDoubleNegation ?_ (fun _ => rfl) f
  rintro ⟨t, condition, subfilter⟩
  unfold invertLeaf askLeaf
  have hsame : t.asking.operation.inverse = t.operation.inverse := rfl
  dsimp only
  rw [hsame]
  cases t.operation.inverse <;> rfl

/-- What commutes with the wish in a filter commutes with it in a child of a condition, if it keeps
the sign of the child. -/
theorem askKept_comm {arrange : Filter → Filter} (hsign : ∀ f, (arrange f).isNegated = f.isNegated)
    {f : Filter} (h : arrange f.askOutside = (arrange f).askOutside) :
    arrange f.askKept = (arrange f).askKept := by
  cases hf : f.isNegated with
  | true => rw [askKept_of_isNegated hf, askKept_of_isNegated ((hsign f).trans hf)]
  | false => rw [askKept_of_not_isNegated hf, askKept_of_not_isNegated ((hsign f).trans hf), h]

theorem reorder_askOutside (f : Filter) : f.askOutside.reorder = f.reorder.askOutside := by
  induction f using Filter.induction with
  | leaf t condition subfilter ihc ihs =>
    have hcondition : ∀ c ∈ condition,
        reorderComposite (askComposite c) = askComposite (reorderComposite c) := by
      intro c hc
      have hoperation : (reorderComposite c).operation = c.operation := by cases c; rfl
      unfold askComposite
      rw [hoperation]
      split
      · rfl
      · rw [reorderComposite_onChildren isCollectionCondition_askKept]
        exact fun f hf => askKept_comm isNegated_reorder (ihc c hc f hf)
    rw [leafwise_askOutside.leaf, reorder, askLeaf, reorder, leafwise_askOutside.leaf, askLeaf]
    simp only [reorderCondition_eq, Option.map_map]
    exact congrArg (Filter.leaf ⟨t.asking, ·, _⟩) (Option.map_congr hcondition)
  | composite operation children ih =>
    rw [leafwise_askOutside.composite, reorder, reorder]
    have hcomposite := reorderComposite_onChildren (c := ⟨operation, children⟩)
      isCollectionCondition_askOutside ih
    exact (congrArg Filter.composite hcomposite).trans (leafwise_askOutside.onChildren _).symm

/-- Collapsing keeps the connective of a negation. -/
theorem operation_optimizeComposite (inside : Bool) (c : Composite) :
    (optimizeComposite inside c).operation = c.operation := by
  obtain ⟨operation, children⟩ := c
  rw [optimizeComposite]
  split
  · rename_i hcollapse
    split at hcollapse
    · rename_i hor
      simp only [Bool.and_eq_true, decide_eq_true_eq] at hor
      exact hor.2.symm
    · cases hcollapse
  · rfl

theorem optimizeWithin_askOutside (f : Filter) :
    ∀ inside, optimizeWithin inside f.askOutside = (optimizeWithin inside f).askOutside := by
  induction f using Filter.induction with
  | leaf t condition subfilter ihc ihs =>
    intro inside
    have hcondition : ∀ c ∈ condition,
        optimizeComposite true (askComposite c) = askComposite (optimizeComposite true c) := by
      intro c hc
      unfold askComposite
      rw [operation_optimizeComposite]
      split
      · rfl
      · rw [optimizeComposite_onChildren collapses_askKept changesTests_askKept]
        exact fun f hf => askKept_comm (isNegated_optimizeWithin true) (ihc c hc f hf true)
    rw [leafwise_askOutside.leaf, askLeaf, optimizeWithin, optimizeWithin]
    show (if t.operation = .collectionCondition then _ else _) = _
    split
    · rw [leafwise_askOutside.leaf, askLeaf]
      simp only [optimizeCondition_eq, Option.map_map]
      exact congrArg (Filter.leaf ⟨t.asking, ·, _⟩) (Option.map_congr hcondition)
    · rw [leafwise_askOutside.leaf, askLeaf]
  | composite operation children ih =>
    intro inside
    rw [leafwise_askOutside.composite, optimizeWithin, optimizeWithin]
    have hcomposite := optimizeComposite_onChildren (c := ⟨operation, children⟩) collapses_asking
      changesTests_askOutside fun f hf => ih f hf inside
    exact (congrArg Filter.composite hcomposite).trans (leafwise_askOutside.onChildren _).symm

/-! ## The wish everywhere -/

theorem mem_allNestedTests {t : Test} {fs : List Filter} :
    t ∈ allNestedTests fs ↔ ∃ f ∈ fs, t ∈ f.nestedTests := by
  induction fs with
  | nil => simp [allNestedTests]
  | cons f rest ih => simp [allNestedTests, ih]

theorem mem_plainNestedTests {t : Test} {fs : List Filter} :
    t ∈ plainNestedTests fs ↔ ∃ f ∈ fs, t ∈ (if f.isNegated then f.tests else f.nestedTests) := by
  induction fs with
  | nil => simp [plainNestedTests]
  | cons f rest ih => simp [plainNestedTests, ih]

/-- Tests that ask already do not change. -/
theorem mapEverywhere_asking_eq_self {f : Filter} (h : ∀ t ∈ f.tests, t.ignoreCase = true) :
    f.mapEverywhere Test.asking = f := by
  have hchildren : ∀ fs : List Filter, (∀ f ∈ fs, (∀ t ∈ f.tests, t.ignoreCase = true) →
      f.mapEverywhere Test.asking = f) → (∀ f ∈ fs, ∀ t ∈ f.tests, t.ignoreCase = true) →
      mapAll Test.asking fs = fs := by
    intro fs ih h
    rw [mapAll_eq, List.map_congr_left (g := id) fun f hf => ih f hf (h f hf), List.map_id]
  induction f using Filter.induction with
  | leaf t condition subfilter ihc ihs =>
    obtain ⟨ht, hc, hs⟩ := tests_leaf.mp h
    have hasking : t.asking = t := by rw [Test.asking, ← ht]
    rw [mapEverywhere, hasking]
    congr 2
    · cases condition with
      | none => rfl
      | some c =>
        obtain ⟨operation, children⟩ := c
        rw [mapCondition, hchildren children (ihc _ rfl) (hc _ rfl)]
    · cases subfilter with
      | none => rfl
      | some f => rw [mapSubfilter, ihs f rfl (hs f rfl)]
  | composite operation children ih =>
    rw [mapEverywhere, hchildren children ih (tests_composite.mp h)]

/-- The wish is everywhere if the leaves in nested selects have it already. -/
theorem askOutside_eq_mapEverywhere {f : Filter} (h : ∀ t ∈ f.nestedTests, t.ignoreCase = true) :
    f.askOutside = f.mapEverywhere Test.asking := by
  induction f using Filter.induction with
  | leaf t condition subfilter ihc ihs =>
    rw [nestedTests, List.forall_mem_append] at h
    obtain ⟨hc, hs⟩ := h
    rw [askOutside, mapEverywhere]
    congr 2
    · cases condition with
      | none => rfl
      | some c =>
        obtain ⟨operation, children⟩ := c
        rw [askCondition, askPlain_eq, mapCondition, mapAll_eq]
        rw [conditionNestedTests] at hc
        split
        · rename_i hnot
          rw [if_pos hnot] at hc
          rw [List.map_congr_left (g := id), List.map_id]
          exact fun f hf =>
            mapEverywhere_asking_eq_self fun u hu => hc u (mem_testsOf.mpr ⟨f, hf, hu⟩)
        · rename_i hnot
          rw [if_neg hnot] at hc
          refine congrArg (fun fs => some (Composite.mk operation fs))
            (List.map_congr_left fun f hf => ?_)
          have htests := fun u hu => hc u (mem_plainNestedTests.mpr ⟨f, hf, hu⟩)
          cases hneg : f.isNegated with
          | true =>
            rw [hneg, if_pos rfl] at htests
            rw [askKept_of_isNegated hneg, mapEverywhere_asking_eq_self htests]
          | false =>
            rw [hneg, if_neg Bool.false_ne_true] at htests
            rw [askKept_of_not_isNegated hneg, ihc _ rfl f hf htests]
    · cases subfilter with
      | none => rfl
      | some f => rw [mapSubfilter, mapEverywhere_asking_eq_self hs]
  | composite operation children ih =>
    rw [nestedTests] at h
    rw [leafwise_askOutside.composite, mapEverywhere, mapAll_eq, List.map_congr_left]
    exact fun f hf => ih f hf fun t ht => h t (mem_allNestedTests.mpr ⟨f, hf, ht⟩)

end Filter

/-! ## Options -/

namespace QueryOptions

/-- The options with the wish in the leaves outside of nested selects instead of a wish of the
query. -/
def askOutside (o : QueryOptions) : QueryOptions :=
  { o with ignoreCase := false, restrictions := o.restrictions.map Filter.askOutside }

/-- The options with the wish in all leaves instead of a wish of the query. -/
def askEverywhere (o : QueryOptions) : QueryOptions :=
  { o with
    ignoreCase := false
    restrictions := o.restrictions.map (Filter.mapEverywhere Test.asking) }

/-- The wish may be added to leaves before or after the rearrangements. -/
theorem prepare_askOutside (o : QueryOptions) :
    o.askOutside.prepare = o.prepare.map Filter.askOutside :=
  prepare_map Filter.foldDoubleNegation_askOutside Filter.reorder_askOutside
    (fun f => Filter.optimizeWithin_askOutside f false)
    (fun fs => Filter.leafwise_askOutside.composite .and fs) o

theorem askOutside_eq_askEverywhere {o : QueryOptions}
    (h : ∀ f ∈ o.restrictions, ∀ t ∈ f.nestedTests, t.ignoreCase = true) :
    o.askOutside = o.askEverywhere := by
  rw [askOutside, askEverywhere, List.map_congr_left]
  exact fun f hf => Filter.askOutside_eq_mapEverywhere (h f hf)

end QueryOptions

end ObjectQuery
