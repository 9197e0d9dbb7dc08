import ObjectQuery.Filter

/-!
# Negation

A negative condition that is compared row by row against a joined collection accepts an owner as
soon as one element differs. Negated parts of a condition on a collection's elements are therefore
turned into the positive condition, whose owners are then excluded.

* `Filter.isNegated`: negations, and leaves for `NE` and `NOTNULL`.
* `Filter.invert`: the positive form of a negated filter.
* `Composite.split`: the plain part of a condition and the positive form of its negated part.
* `Filter.foldDoubleNegation`: the same filter without double negations.
-/

namespace ObjectQuery

/-- Whether a leaf compares negatively. -/
def Test.isNegated (t : Test) : Bool := t.operation == .ne || t.operation == .notNull

namespace Filter

/-- Negations, and the leaves that compare negatively. -/
def isNegated : Filter → Bool
  | .composite c => c.operation == .not
  | .leaf l => l.test.isNegated

/-- A leaf with the inverse comparison, if there is one. -/
def invertLeaf (l : Leaf) : Leaf :=
  match l.test.operation.inverse with
  | some operation => l.withOperation operation l.test.value
  | none => l

/-- What a negation over several filters negates: the only one, or their conjunction. -/
def conjunction : List Filter → Filter
  | [only] => only
  | children => .and children

/-- The positive form of a negated filter. -/
def invert : Filter → Filter
  | .leaf l => .leaf (invertLeaf l)
  | .composite c => conjunction c.children

end Filter

namespace Composite

/-- The children that are not negated. -/
def plainChildren (c : Composite) : List Filter := c.children.filter (!·.isNegated)

/-- The negated children. -/
def negatedChildren (c : Composite) : List Filter := c.children.filter (·.isNegated)

/-- The plain part of a condition and the positive form of its negated part. Inverting the negated
children flips the connective: `a != x and b != y` excludes the owners of an element with
`a = x or b = y`. -/
def split (c : Composite) : Option Composite × Option Composite :=
  if c.operation = .not then (none, some ⟨.and, c.children⟩)
  else
    (if c.plainChildren.isEmpty then none else some ⟨c.operation, c.plainChildren⟩,
      if c.negatedChildren.isEmpty then none
      else some ⟨c.operation.flip, c.negatedChildren.map Filter.invert⟩)

end Composite

namespace Filter

mutual

/-- Removes double negations everywhere but in the conditions and subqueries of leaves: a negated
negation becomes what it negates, and a negated `NE` or `NOTNULL` leaf the inverse leaf. -/
def foldDoubleNegation : Filter → Filter
  | .leaf l => .leaf l
  | .composite ⟨.not, [.composite ⟨.not, [only]⟩]⟩ => foldDoubleNegation only
  | .composite ⟨.not, [.composite ⟨.not, children⟩]⟩ =>
    .composite ⟨.and, foldDoubleNegations children⟩
  | .composite ⟨.not, [.leaf l]⟩ =>
    if l.test.isNegated then .leaf (invertLeaf l) else .composite ⟨.not, [.leaf l]⟩
  | .composite ⟨operation, children⟩ => .composite ⟨operation, foldDoubleNegations children⟩

/-- Removes double negations in each of the filters. -/
def foldDoubleNegations : List Filter → List Filter
  | [] => []
  | f :: rest => foldDoubleNegation f :: foldDoubleNegations rest

end

end Filter

end ObjectQuery
