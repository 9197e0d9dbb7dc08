import ObjectQuery.Proofs.Filter.Induction

/-!
# Filters under a valuation of their leaves

A filter is a Boolean combination of its leaves, whatever these mean. Conditions on a collection's
elements and subqueries are leaves like any other here.

* `BooleanOp.connect`, `Filter.evaluate`: the truth of a filter for a truth value of each leaf.
* `Filter.Complementary`: valuations under which `NE` and `NOTNULL` are the complements of `EQ` and
  `ISNULL`.
* `Filter.Complementary.evaluate_invert`: under these the positive form of a negated filter is its
  complement.
-/

namespace ObjectQuery

/-- The truth of a composite by those of its children. A negation negates their conjunction. -/
def BooleanOp.connect : BooleanOp → List Bool → Bool
  | and, truths => truths.all id
  | or, truths => truths.any id
  | not, truths => !truths.all id

/-- Tests of one property against one value, with the same flags and cast. What they compare by may
differ. -/
structure Test.Comparable (t u : Test) : Prop where
  property : t.property = u.property
  value : t.value = u.value
  matchMode : t.matchMode = u.matchMode
  ignoreCase : t.ignoreCase = u.ignoreCase
  cast : t.cast = u.cast

theorem Test.comparable_withOperation (t : Test) (operation : LogicalOp) :
    t.Comparable (t.withOperation operation t.value) :=
  ⟨rfl, rfl, rfl, rfl, rfl⟩

namespace Filter

/-! ## Evaluation -/

mutual

/-- The truth of a filter under a valuation of its leaves. -/
def evaluate (v : Leaf → Bool) : Filter → Bool
  | .leaf l => v l
  | .composite ⟨operation, children⟩ => operation.connect (evaluateAll v children)

/-- The truths of several filters. -/
def evaluateAll (v : Leaf → Bool) : List Filter → List Bool
  | [] => []
  | f :: rest => evaluate v f :: evaluateAll v rest

end

variable {v : Leaf → Bool}

theorem evaluateAll_eq (fs : List Filter) : evaluateAll v fs = fs.map (evaluate v) := by
  induction fs with
  | nil => rfl
  | cons f rest ih => rw [evaluateAll, ih, List.map_cons]

theorem evaluate_composite (operation : BooleanOp) (children : List Filter) :
    evaluate v (.composite ⟨operation, children⟩) =
      operation.connect (children.map (evaluate v)) := by
  rw [evaluate, evaluateAll_eq]

theorem evaluate_not (f : Filter) : evaluate v (not f) = !evaluate v f := by
  rw [not, evaluate_composite]
  simp [BooleanOp.connect]

/-- The filter that a negation negates holds if all its children do. -/
theorem evaluate_conjunction (children : List Filter) :
    evaluate v (conjunction children) = (children.map (evaluate v)).all id := by
  unfold conjunction
  split
  · simp
  · exact evaluate_composite .and _

/-! ## Complements -/

/-- A valuation under which `NE` is the complement of `EQ`, and `NOTNULL` that of `ISNULL`. -/
structure Complementary (v : Leaf → Bool) : Prop where
  unequal : ∀ l m : Leaf, l.test.Comparable m.test → l.test.operation = .ne →
    m.test.operation = .eq → v l = !v m
  notNull : ∀ l m : Leaf, l.test.Comparable m.test → l.test.operation = .notNull →
    m.test.operation = .isNull → v l = !v m

theorem Complementary.invertLeaf (hv : Complementary v) {l : Leaf} (h : l.test.isNegated = true) :
    v l = !v (Filter.invertLeaf l) := by
  have hcomparable := l.test.comparable_withOperation
  rw [Test.isNegated, Bool.or_eq_true, beq_iff_eq, beq_iff_eq] at h
  unfold Filter.invertLeaf
  obtain hop | hop := h
  · rw [hop]
    exact hv.unequal l _ (hcomparable .eq) hop rfl
  · rw [hop]
    exact hv.notNull l _ (hcomparable .isNull) hop rfl

/-- A negated filter is the complement of its positive form. -/
theorem Complementary.evaluate_invert (hv : Complementary v) {f : Filter}
    (h : f.isNegated = true) : f.evaluate v = !f.invert.evaluate v := by
  match f with
  | .leaf l => exact hv.invertLeaf h
  | .composite ⟨operation, children⟩ =>
    obtain rfl : operation = .not := eq_of_beq h
    rw [evaluate_composite, invert, evaluate_conjunction]
    rfl

/-- The valuation of a row in which the properties in `equal` are what they are compared with and
those in `missing` are null. -/
def rowValuation (equal missing : String → Bool) (l : Leaf) : Bool :=
  match l.test.operation with
  | .eq => equal l.test.property
  | .ne => !equal l.test.property
  | .isNull => missing l.test.property
  | .notNull => !missing l.test.property
  | _ => false

theorem complementary_rowValuation (equal missing : String → Bool) :
    Complementary (rowValuation equal missing) := by
  constructor
  · intro l m h hl hm
    simp only [rowValuation, hl, hm, h.property]
  · intro l m h hl hm
    simp only [rowValuation, hl, hm, h.property]

end Filter

/-- The truth of a composite under a valuation of its leaves. -/
def Composite.evaluate (v : Leaf → Bool) (c : Composite) : Bool := (Filter.composite c).evaluate v

end ObjectQuery
