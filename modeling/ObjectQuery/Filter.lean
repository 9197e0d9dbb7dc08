import ObjectQuery.Value

/-!
# Filters

Boolean predicate trees over the properties of a class.

* `LogicalOp`, `BooleanOp`, `MatchMode`: what a leaf compares, what a composite combines by, and
  where a pattern may match.
* `Test`: the comparison of a leaf, apart from the filters nested in it.
* `Filter`, `Composite`, `Leaf`: the tree.
* `Filter.inList`: membership in a list, split so that no part is longer than `maxListSize`.
-/

namespace ObjectQuery

/-- The comparison that a leaf makes. -/
inductive LogicalOp where
  | eq | ne | lt | gt | le | ge
  | inList
  | like
  | isNull
  | notNull
  | isEmpty
  | containsAll
  | join
  | leftJoin
  | collectionCondition
  | subquery
  deriving DecidableEq, Repr, Inhabited

namespace LogicalOp

/-- All comparisons. -/
def all : List LogicalOp :=
  [eq, ne, lt, gt, le, ge, inList, like, isNull, notNull, isEmpty, containsAll, join, leftJoin,
    collectionCondition, subquery]

/-- The name of a comparison in documents. -/
def name : LogicalOp → String
  | eq => "EQ"
  | ne => "NE"
  | lt => "LT"
  | gt => "GT"
  | le => "LE"
  | ge => "GE"
  | inList => "IN"
  | like => "LIKE"
  | isNull => "ISNULL"
  | notNull => "NOTNULL"
  | isEmpty => "ISEMPTY"
  | containsAll => "CONTAINS_ALL"
  | join => "JOIN"
  | leftJoin => "LEFT_JOIN"
  | collectionCondition => "COLLECTION_CONDITION"
  | subquery => "SUBQUERY"

/-- The comparison with a name. -/
def ofName (s : String) : Option LogicalOp := all.find? (·.name == s)

/-- The comparison that accepts exactly what this one rejects. -/
def inverse : LogicalOp → Option LogicalOp
  | eq => some ne
  | ne => some eq
  | lt => some ge
  | ge => some lt
  | gt => some le
  | le => some gt
  | isNull => some notNull
  | notNull => some isNull
  | _ => none

/-- The operator between a property and a parameter, for simple comparisons. -/
def operator : LogicalOp → Option String
  | eq => some "="
  | ne => some "!="
  | lt => some "<"
  | gt => some ">"
  | le => some "<="
  | ge => some ">="
  | like => some "like"
  | _ => none

end LogicalOp

/-- The connective of a composite. -/
inductive BooleanOp where
  | and | or | not
  deriving DecidableEq, Repr, Inhabited

namespace BooleanOp

/-- All connectives. -/
def all : List BooleanOp := [and, or, not]

/-- The name of a connective in documents. -/
def name : BooleanOp → String
  | and => "AND"
  | or => "OR"
  | not => "NOT"

/-- The connective with a name. -/
def ofName (s : String) : Option BooleanOp := all.find? (·.name == s)

/-- The word between the members of a group. A negated group is a conjunction. -/
def conjunct : BooleanOp → String
  | or => "or"
  | and | not => "and"

/-- The connective between the negations of the members. -/
def flip : BooleanOp → BooleanOp
  | and => or
  | or => and
  | not => not

end BooleanOp

/-- Where a pattern may match within a text. -/
inductive MatchMode where
  | anywhere | start | ending | exact
  deriving DecidableEq, Repr, Inhabited

namespace MatchMode

/-- All match modes. -/
def all : List MatchMode := [anywhere, start, ending, exact]

/-- The name of a match mode in documents. -/
def name : MatchMode → String
  | anywhere => "ANYWHERE"
  | start => "START"
  | ending => "END"
  | exact => "EXACT"

/-- The match mode with a name. -/
def ofName (s : String) : Option MatchMode := all.find? (·.name == s)

end MatchMode

/-- The comparison of a leaf, apart from the filters nested in it. -/
structure Test where
  property : String
  operation : LogicalOp
  value : Value := .null
  matchMode : MatchMode := .anywhere
  ignoreCase : Bool := false
  /-- The other side of a join, such as `Link.identity`. -/
  joinProperty : Option String := none
  subqueryClass : Option String := none
  subqueryProperty : Option String := none
  /-- The database type that the property is cast to before it is compared. -/
  cast : Option String := none
  deriving Repr, Inhabited

mutual

/-- A predicate over the instances of a class. -/
inductive Filter where
  | composite (group : Composite)
  | leaf (leaf : Leaf)

/-- Predicates combined by a connective. A negation negates the conjunction of its children. -/
structure Composite where
  operation : BooleanOp
  children : List Filter

/-- One comparison, with the condition on the elements of a collection and the filter of a
subquery that some comparisons take. -/
structure Leaf where
  test : Test
  condition : Option Composite
  subfilter : Option Filter

end

namespace Test

/-- The same property and flags with another comparison and value. -/
def withOperation (t : Test) (operation : LogicalOp) (value : Value) : Test :=
  { property := t.property
    operation
    value
    matchMode := t.matchMode
    ignoreCase := t.ignoreCase
    cast := t.cast }

/-- Whether the property is an aggregate such as `count(links)`. -/
def isAggregate (t : Test) : Bool := Text.hasChar '(' t.property

end Test

namespace Leaf

/-- A leaf without nested filters. -/
def ofTest (t : Test) : Leaf := ⟨t, none, none⟩

/-- Another comparison and value, without nested filters. -/
def withOperation (l : Leaf) (operation : LogicalOp) (value : Value) : Leaf :=
  .ofTest (l.test.withOperation operation value)

/-- Whether the leaf is a condition on the elements of a collection. -/
def isCollectionCondition (l : Leaf) : Bool := l.test.operation == .collectionCondition

end Leaf

/-- The longest list of values in one membership leaf. -/
def maxListSize : Nat := 100

/-- A list in slices of `size` items, the last of which may be shorter. `fuel` bounds their
number. -/
def slices {α : Type} (size : Nat) : Nat → List α → List (List α)
  | 0, _ => []
  | fuel + 1, items =>
    if items.isEmpty then [] else items.take size :: slices size fuel (items.drop size)

namespace Filter

instance : Inhabited Filter := ⟨.composite ⟨.and, []⟩⟩

/-- A leaf without nested filters. -/
def test (t : Test) : Filter := .leaf (.ofTest t)

/-- A simple comparison of a property with a value. -/
def compare (operation : LogicalOp) (property : String) (value : Value) : Filter :=
  test { property, operation, value }

/-- A pattern match. -/
def like (property : String) (value : Value) (matchMode : MatchMode) : Filter :=
  test { property, operation := .like, value, matchMode }

/-- All children hold. -/
def and (children : List Filter) : Filter := .composite ⟨.and, children⟩

/-- Some child holds. -/
def or (children : List Filter) : Filter := .composite ⟨.or, children⟩

/-- The child does not hold. -/
def not (child : Filter) : Filter := .composite ⟨.not, [child]⟩

/-- Membership in a list. A list longer than `maxListSize` becomes a disjunction of slices. -/
def inList (property : String) (values : List Value) : Filter :=
  let member (slice : List Value) := compare .inList property (.list slice)
  if values.length ≤ maxListSize then member values
  else or ((slices maxListSize values.length values).map member)

/-- A collection that contains all the values. -/
def containsAll (property : String) (values : List Value) : Filter :=
  compare .containsAll property (.list values)

/-- A join of a property with a property of another class, such as `Link.identity`. -/
def join (operation : LogicalOp) (property joinProperty : String) : Filter :=
  test { property, operation, joinProperty := some joinProperty }

/-- A condition that must hold for an element of a collection. A leaf becomes a conjunction. -/
def collectionCondition (property : String) (condition : Filter) : Filter :=
  let group :=
    match condition with
    | .composite c => c
    | .leaf l => ⟨.and, [.leaf l]⟩
  .leaf ⟨{ property, operation := .collectionCondition }, some group, none⟩

/-- A property among those that a nested query selects. -/
def subquery (property subqueryClass subqueryProperty : String) (filter : Option Filter) :
    Filter :=
  .leaf ⟨{ property, operation := .subquery, subqueryClass := some subqueryClass,
           subqueryProperty := some subqueryProperty }, none, filter⟩

/-- A leaf with its test changed; composites stay as they are. -/
def mapTest (f : Filter) (change : Test → Test) : Filter :=
  match f with
  | .leaf l => .leaf { l with test := change l.test }
  | .composite c => .composite c

/-- Asks for a comparison that ignores case. No effect on composites. -/
def ignoringCase (f : Filter) : Filter := f.mapTest fun t => { t with ignoreCase := true }

/-- Casts the compared property. No effect on composites. -/
def casting (f : Filter) (type : String) : Filter := f.mapTest fun t => { t with cast := some type }

/-- The leaf that a filter is. -/
def leaf? : Filter → Option Leaf
  | .leaf l => some l
  | .composite _ => none

/-- Whether the filter is a leaf on a collection's elements. -/
def isCollectionCondition : Filter → Bool
  | .leaf l => l.isCollectionCondition
  | .composite _ => false

mutual

/-- Whether a condition on a collection's elements occurs in the tree. -/
def hasCollectionCondition : Filter → Bool
  | .leaf l => l.isCollectionCondition
  | .composite ⟨_, children⟩ => anyCollectionCondition children

/-- Whether one occurs in one of the trees. -/
def anyCollectionCondition : List Filter → Bool
  | [] => false
  | f :: rest => hasCollectionCondition f || anyCollectionCondition rest

end

mutual

/-- Whether every leaf compares an aggregate and there is one. -/
def isAggregateOnly : Filter → Bool
  | .leaf l => l.test.isAggregate
  | .composite ⟨_, []⟩ => false
  | .composite ⟨_, children⟩ => areAggregateOnly children

/-- Whether this is so of all the filters. -/
def areAggregateOnly : List Filter → Bool
  | [] => true
  | f :: rest => isAggregateOnly f && areAggregateOnly rest

end

mutual

/-- Whether some leaf compares an aggregate. -/
def hasAggregate : Filter → Bool
  | .leaf l => l.test.isAggregate
  | .composite ⟨_, children⟩ => anyHasAggregate children

/-- Whether some leaf of some filter does. -/
def anyHasAggregate : List Filter → Bool
  | [] => false
  | f :: rest => hasAggregate f || anyHasAggregate rest

end

end Filter

end ObjectQuery
