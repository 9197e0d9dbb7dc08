import ObjectQuery.Filter

/-!
# Arrangement of conditions

Two rearrangements of a filter before it is compiled.

* `Filter.optimize`: inside conditions on a collection's elements, a disjunction of equalities on
  one property becomes one membership test, which needs one join instead of one per branch.
* `Filter.reorder`: conditions on a collection's elements move behind their siblings, so that plain
  comparisons resolve their joins first.
-/

namespace ObjectQuery

namespace Test

/-- Whether the equality can take part in a membership test on a property. -/
def isCollapsible (property : String) (t : Test) : Bool :=
  t.operation == .eq && t.property == property && t.cast.isNone &&
    !(t.value.isNull || t.value.isEntity || t.value.isList)

end Test

namespace Filter

/-- The membership test that a disjunction of two or more equalities on one property amounts to.
It ignores case if one of them does. -/
def collapse? (children : List Filter) : Option Leaf :=
  match children.mapM leaf? with
  | some (first :: second :: rest) =>
    let tests := (first :: second :: rest).map (·.test)
    if tests.all (·.isCollapsible first.test.property) then
      some (.ofTest
        { property := first.test.property
          operation := .inList
          value := .list (tests.map (·.value))
          ignoreCase := tests.any (·.ignoreCase) })
    else none
  | _ => none

mutual

/-- Collapses disjunctions of equalities, everywhere if `inside` a condition on a collection's
elements, and otherwise in such conditions only. -/
def optimizeWithin (inside : Bool) : Filter → Filter
  | .leaf ⟨t, condition, subfilter⟩ =>
    if t.operation = .collectionCondition then
      .leaf ⟨t, optimizeCondition condition, subfilter⟩
    else .leaf ⟨t, condition, subfilter⟩
  | .composite c => .composite (optimizeComposite inside c)

/-- Collapses the disjunctions of equalities in a composite. -/
def optimizeComposite (inside : Bool) : Composite → Composite
  | ⟨operation, children⟩ =>
    match if inside && operation = .or then collapse? children else none with
    | some collapsed => ⟨.or, [.leaf collapsed]⟩
    | none => ⟨operation, optimizeAll inside children⟩

/-- Collapses the disjunctions of equalities in each of the filters. -/
def optimizeAll (inside : Bool) : List Filter → List Filter
  | [] => []
  | f :: rest => optimizeWithin inside f :: optimizeAll inside rest

/-- Collapses the disjunctions of equalities in the condition of a leaf. -/
def optimizeCondition : Option Composite → Option Composite
  | none => none
  | some c => some (optimizeComposite true c)

end

/-- Collapses disjunctions of equalities inside conditions on a collection's elements. -/
def optimize (f : Filter) : Filter := optimizeWithin false f

/-- The filters with conditions on a collection's elements behind the others. -/
def collectionsLast (filters : List Filter) : List Filter :=
  filters.filter (!·.isCollectionCondition) ++ filters.filter (·.isCollectionCondition)

mutual

/-- Moves conditions on a collection's elements behind their siblings in every composite, also in
those conditions. -/
def reorder : Filter → Filter
  | .leaf ⟨t, condition, subfilter⟩ => .leaf ⟨t, reorderCondition condition, subfilter⟩
  | .composite c => .composite (reorderComposite c)

/-- Moves them in a composite. -/
def reorderComposite : Composite → Composite
  | ⟨operation, children⟩ => ⟨operation, collectionsLast (reorderAll children)⟩

/-- Moves them in each of the filters. -/
def reorderAll : List Filter → List Filter
  | [] => []
  | f :: rest => reorder f :: reorderAll rest

/-- Moves them in the condition of a leaf. -/
def reorderCondition : Option Composite → Option Composite
  | none => none
  | some c => some (reorderComposite c)

end

end Filter

end ObjectQuery
