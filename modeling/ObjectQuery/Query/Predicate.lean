import ObjectQuery.CaseFolding
import ObjectQuery.Pattern
import ObjectQuery.Query.Draft

/-!
# Predicates of leaves

What each comparison of a leaf emits, as far as no other filter is nested in it.

* `Draft.equality`, `Draft.comparison`, `Draft.nullCheck`, `Draft.emptyCheck`
* `Draft.membership`: a list of values. Entities are compared one by one.
* `Draft.containsAll`: one comparison per value, each through joins of its own.
* `Draft.join`, `Draft.leftJoin`: correlation with another class.
* `Draft.test`: the predicate of any such leaf.
-/

namespace ObjectQuery

namespace Draft

/-- The reference of a path in a condition. -/
def resolve (k : Compiler) (path : String) (ownJoins : Bool) : Step Draft Reference := do
  match ← aliased (Aliases.resolve k.catalog path { ownJoins }) with
  | some reference => pure reference
  | none => do
    let d ← Step.get
    .fail (.unresolvableJoin d.aliases.currentClass path path)

/-- The reference of a collection that is left unjoined. -/
def resolveCollection (k : Compiler) (path : String) : Step Draft Reference := do
  match ← aliased (Aliases.resolve k.catalog path { keepCollection := true }) with
  | some reference => pure reference
  | none => do
    let d ← Step.get
    .fail (.unresolvableJoin d.aliases.currentClass path path)

/-- Whether a path leads to a collection of plain values. -/
def isScalarCollection (k : Compiler) (path : String) : Step Draft Bool := do
  let d ← Step.get
  .ofReported (Aliases.isScalarCollection k.catalog d.aliases path)

/-! ## Case -/

/-- The class of a property and what is known about it: a property of the current class, or one
given as `Class.property`. Nothing is known about longer paths. -/
def propertyFacts (k : Compiler) (d : Draft) (property : String) :
    String × Option PropertyFacts :=
  let factsOf (className name : String) := (k.registry.find? className).bind (·.property? name)
  let current := d.aliases.currentClass
  if Text.hasChar '.' property then
    let (className, rest) := Path.head property
    if !Text.hasChar '.' rest && Text.startsUpper className && k.catalog.isKnown className then
      (className, factsOf className rest)
    else (current, none)
  else (current, factsOf current property)

/-- Whether a comparison ignores case. -/
def ignoresCase (k : Compiler) (t : Test) (value : Value) : Step Draft Bool := do
  let d ← Step.get
  let (className, facts) := propertyFacts k d t.property
  .ofReported (CaseFolding.applies k.capabilities className t.property facts value
    (t.ignoreCase || d.autoIgnoreCase))

/-- The value that is bound for an operand, and the escape character of a pattern: the operand is
put into upper case first, then escaped, then given wildcards. -/
def boundValue (k : Compiler) (t : Test) (value : Value) (ignoreCase : Bool) :
    Value × Option Char :=
  let value := if ignoreCase then value.fold else value
  match t.operation, value with
  | .like, .text s =>
    let (escaped, escape) := Pattern.escape s k.capabilities.reserved
    (.text (Pattern.wrap escaped t.matchMode), escape)
  | _, value => (value, none)

/-! ## Simple comparisons -/

/-- A property compared with a value, in the clause that is being written. -/
def plainComparison (k : Compiler) (t : Test) (value : Value) (operator : String)
    (ownJoins : Bool) : Step Draft Atom := do
  let upper ← ignoresCase k t value
  let reference ← resolve k t.property ownJoins
  let (bound, escape) := boundValue k t value upper
  let number ← bind bound
  pure (.comparison { reference, upper, cast := t.cast } operator number escape)

/-- A property compared with a value. -/
def comparison (k : Compiler) (t : Test) (value : Value) (operator : String) : Emission :=
  routed t.isAggregate do
    let a ← plainComparison k t value operator false
    predicate a

/-- A property that is null, or that is not. -/
def nullCheck (k : Compiler) (t : Test) (isNull : Bool) : Emission :=
  routed t.isAggregate do
    let reference ← resolve k t.property false
    predicate (.nullCheck reference isNull)

/-- A property equal to a value, or different from it. Null is checked for. -/
def equality (k : Compiler) (t : Test) (value : Value) (equal : Bool) : Emission :=
  if value.isNull then nullCheck k t equal
  else comparison k t value (if equal then "=" else "!=")

/-- A collection without elements. -/
def emptyCheck (k : Compiler) (t : Test) : Emission :=
  routed t.isAggregate do
    let reference ← resolveCollection k t.property
    predicate (.emptyCheck reference)

/-! ## Lists of values -/

/-- A property equal to each of the values in turn. -/
def equalities (k : Compiler) (t : Test) : List Value → Step Draft (List Condition)
  | [] => pure []
  | v :: rest => do
    let condition ← equality k (t.withOperation .eq v) v true
    let conditions ← equalities k t rest
    pure (condition.toList ++ conditions)

/-- A property among values that are bound in one list. A collection of plain values gets joins of
its own, as one element must not stand for several values. -/
def plainMembership (k : Compiler) (t : Test) (values : List Value) : Step Draft Atom := do
  if values.isEmpty then pure .never
  else do
    let upper ← ignoresCase k t t.value
    let ownJoins ← isScalarCollection k t.property
    let reference ← resolve k t.property ownJoins
    let numbers ← bindAll (values.map fun v => (boundValue k t v upper).1)
    pure (.membership { reference, upper } numbers)

/-- A property among values. A list with entities is a disjunction of equalities. -/
def membership (k : Compiler) (t : Test) : Emission :=
  let values := t.value.elements
  if t.value.hasEntities then
    match values with
    | [v] => equality k (t.withOperation .eq v) v true
    | _ =>
      composite ⟨.or, values.map fun v => .test (t.withOperation .eq v)⟩ (equalities k t values)
  else
    routed t.isAggregate do
      let a ← plainMembership k t values
      predicate a

/-- One comparison per value, each through joins of its own. -/
def separateComparisons (k : Compiler) (t : Test) : List Value → Step Draft (List Condition)
  | [] => pure []
  | v :: rest => do
    let a ← plainComparison k t v "=" true
    let conditions ← separateComparisons k t rest
    pure (.atom a :: conditions)

/-- A chain of conditions, nothing if there are none. -/
def chained (members : List Condition) : Option Condition :=
  if members.isEmpty then none else some (.chain members)

/-- A collection that contains all the values. Inside a condition on a collection's elements, one
element cannot have several values of a property that crosses no other collection. -/
def containsAll (k : Compiler) (t : Test) : Emission := do
  let values := t.value.elements
  let d ← Step.get
  let impossible ←
    if 1 < values.length && d.aliases.inCollection then do
      let shape ← Step.ofReported (d.aliases.describe k.catalog t.property)
      pure (!shape.crossesCollection)
    else pure false
  if impossible then .fail (.unsupportedContainsAll t.property values.length)
  else
    match values with
    | [v] => equality k t v true
    | _ =>
      routed t.isAggregate do
        let conditions ← separateComparisons k t values
        pure (chained conditions)

/-! ## Joins -/

/-- The other side of a join. -/
def joinProperty (t : Test) : Step Draft String :=
  .orFail (.malformed ("Join on " ++ t.property ++ " has no join property")) t.joinProperty

/-- The class that the other side of a join starts with. -/
def joinClass (k : Compiler) (joinProperty : String) : Step Draft String := do
  let className := (Path.head joinProperty).1
  if k.catalog.isKnown className then pure className
  else do
    let d ← Step.get
    .fail (.unresolvableJoin d.aliases.queryClass className joinProperty)

/-- Correlates a property with the other side of a join. -/
def correlation (k : Compiler) (t : Test) (joinProperty : String) : Step Draft Correlation := do
  let right ← resolve k joinProperty false
  if ← isScalarCollection k t.property then do
    let left ← resolveCollection k t.property
    pure (.element right left)
  else do
    let left ← resolve k t.property false
    pure (.equal left right)

/-- A join with another class, which is listed among the sources: once, or once per join inside a
condition on a class. There the left side belongs to the query that is correlated. -/
def join (k : Compiler) (t : Test) : Emission := do
  let other ← joinProperty t
  let className ← joinClass k other
  let d ← Step.get
  if d.inTheta then do
    let _ ← changeAliases (·.addThetaSource className d.thetaInstance)
    Step.modify fun d => { d with thetaInstance := d.thetaInstance + 1 }
    let left ← aliased (Aliases.resolveEnclosing k.catalog t.property)
    let right ← resolve k other false
    predicate (.correlated (.equal left right))
  else do
    let _ ← changeAliases (·.addSource className)
    let condition ← correlation k t other
    predicate (.correlated condition)

/-- An outer join with another class. It leaves no condition. -/
def leftJoin (k : Compiler) (t : Test) : Emission := do
  let other ← joinProperty t
  let className ← joinClass k other
  let aliasName ← changeAliases (·.obtainClassAlias className)
  let condition ← correlation k t other
  let _ ← changeAliases fun a => ((), a.addOnJoin className (Path.tail other) aliasName condition)
  pure none

/-! ## Leaves -/

/-- The predicate of a leaf that has no other filter nested in it. -/
def test (k : Compiler) (t : Test) : Emission :=
  match t.operation with
  | .eq => equality k t t.value true
  | .ne => equality k t t.value false
  | .lt => comparison k t t.value "<"
  | .gt => comparison k t t.value ">"
  | .le => comparison k t t.value "<="
  | .ge => comparison k t t.value ">="
  | .like => comparison k t t.value "like"
  | .inList => membership k t
  | .isNull => nullCheck k t true
  | .notNull => nullCheck k t false
  | .isEmpty => emptyCheck k t
  | .containsAll => containsAll k t
  | .join => join k t
  | .leftJoin => leftJoin k t
  | .collectionCondition =>
    .fail (.malformed ("Collection condition on " ++ t.property ++ " has no condition"))
  | .subquery =>
    .fail (.malformed ("Subquery on " ++ t.property ++ " needs a class and a property"))

end Draft

end ObjectQuery
