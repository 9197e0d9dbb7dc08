import ObjectQuery.Query.Emission

/-!
# Visiting filters

A filter is visited by adding the condition that it emits to a draft. Text is written on the way, so
that a filter that fails leaves what was written before the failure.

* `Remains`: what an emission that fails has written, in the clause and in the groups.
* `Draft.remains`: what is written of a filter that fails, along the recursion of `Draft.emit`.
* `Draft.visit`: adds the condition of a filter to a draft, or what was written of it.
-/

namespace ObjectQuery

/-- What an emission that fails has written. -/
structure Remains where
  /-- The beginning of a condition, in the clause that is being written. -/
  condition : Option Condition := none
  /-- The group of conditions on aggregates that was begun, with what stands in it. -/
  group : Option (Option Condition) := none

/-- An emission with what it has written where it fails, from the draft that it starts from. -/
structure Attempt where
  emission : Emission
  remains : Draft → Remains

namespace Remains

/-- What was written behind members that are complete. The separator in front of a member is written
once the member is. -/
def behind (separator : Separator) (members : List Condition) (r : Remains) : Remains :=
  if members.isEmpty then r
  else
    let complete := Condition.unfinished separator members
    { r with condition := some (.unfinished .nothing (complete :: r.condition.toList)) }

/-- Members that are complete, with a separator in front of one that is not written. -/
def dangling (separator : Separator) (members : List Condition) : Remains :=
  if members.isEmpty then {}
  else { condition := some (.unfinished separator (members ++ [.chain []])) }

/-- What was written of a condition as a group that was begun with it. -/
def asGroup (r : Remains) : Remains := { group := some r.condition }

end Remains

namespace Draft

/-! ## Clauses -/

/-- What is written in the clause that `routed` chooses. -/
def routedRemains (isAggregate : Bool) (remains : Draft → Remains) (d : Draft) : Remains :=
  if isAggregate && !d.inHaving then (remains { d with inHaving := true }).asGroup else remains d

/-- What is written of several members, those before the failing one being complete. -/
def remainsInTurn (separator : Separator) (complete : List Condition) :
    List Attempt → Draft → Remains
  | [], _ => {}
  | a :: rest, d =>
    let o := a.emission.run d
    match o.result with
    | .ok condition => remainsInTurn separator (complete ++ condition.toList) rest o.state
    | .error _ => (a.remains d).behind separator complete

/-- What is written of the members of a composite. Neither its brackets nor its negation are written
before they are complete. -/
def combinedRemains (operation : BooleanOp) (members : List Attempt) (d : Draft) : Remains :=
  match operation with
  | .and | .not => remainsInTurn .conjunction [] members d
  | .or =>
    remainsInTurn .disjunction [] members { d with aliases := { d.aliases with insideOr := true } }

/-- What is written of a composite, in the clause that `routedComposite` chooses. -/
def compositeRemains (c : Composite) (members : List Attempt) (d : Draft) : Remains :=
  if d.inHaving then combinedRemains c.operation members d
  else if Filter.areAggregateOnly c.children then
    routedRemains (!c.children.isEmpty) (combinedRemains c.operation members) d
  else if c.operation != .and && Filter.anyHasAggregate c.children then {}
  else combinedRemains c.operation members d

/-! ## Leaves -/

/-- What is written of the comparisons of `separateComparisons`. -/
def separateRemains (k : Compiler) (t : Test) (complete : List Condition) :
    List Value → Draft → Remains
  | [], _ => {}
  | v :: rest, d =>
    let o := (plainComparison k t v "=" true).run d
    match o.result with
    | .ok a => separateRemains k t (complete ++ [.atom a]) rest o.state
    | .error _ => .dangling .conjunction complete

/-- What is written of a list of values. -/
def membershipRemains (k : Compiler) (t : Test) : Draft → Remains :=
  let values := t.value.elements
  let nothing := routedRemains t.isAggregate fun _ => {}
  if t.value.hasEntities && values.length != 1 then
    compositeRemains ⟨.or, values.map fun v => .test (t.withOperation .eq v)⟩
      (values.map fun v => ⟨equality k (t.withOperation .eq v) v true, nothing⟩)
  else nothing

/-- What is written of the values that a collection has to contain, nothing if it cannot. -/
def containsAllRemains (k : Compiler) (t : Test) (d : Draft) : Remains :=
  let values := t.value.elements
  let impossible := 1 < values.length && d.aliases.inCollection &&
    !(d.aliases.describe k.catalog t.property).value.crossesCollection
  if impossible then {}
  else
    match values with
    | [_] => routedRemains t.isAggregate (fun _ => {}) d
    | _ => routedRemains t.isAggregate (separateRemains k t [] values) d

/-- What is written of a leaf without other filters. A group is begun before the property of its
leaf is resolved. -/
def testRemains (k : Compiler) (t : Test) : Draft → Remains :=
  match t.operation with
  | .inList => membershipRemains k t
  | .containsAll => containsAllRemains k t
  | .join | .leftJoin | .collectionCondition | .subquery => fun _ => {}
  | _ => routedRemains t.isAggregate fun _ => {}

/-- What is written of a leaf with a nested query, whose text is written at once. -/
def subqueryRemains (t : Test) : Draft → Remains :=
  if t.subqueryClass.isSome && t.subqueryProperty.isSome then
    routedRemains t.isAggregate fun _ => {}
  else fun _ => {}

/-! ## Conditions on collections -/

/-- Opens the scope of a collection's elements, or of a class that a theta join correlates. -/
def openScope (k : Compiler) (property : String) (outer : Bool) : Step Draft Unit := do
  let d ← Step.get
  if namesClass property then
    if k.catalog.isKnown property then changeAliases fun a => ((), a.pushTheta)
    else .fail (.unresolvableJoin d.aliases.queryClass property property)
  else do
    let _ ← aliased (Aliases.pushCollection k.catalog property (d.aliases.joinTypeFor outer))
    pure ()

/-- What is written in a scope, nothing if it cannot be opened. -/
def scopeRemains (k : Compiler) (property : String) (outer : Bool) (remains : Draft → Remains)
    (d : Draft) : Remains :=
  let o := (openScope k property outer).run d
  match o.result with
  | .ok _ => remains o.state
  | .error _ => {}

/-- What is written of a condition on a collection's elements: a part of its plain part, or all of
it with the connective in front of the owners that are excluded. -/
def elementRemains (k : Compiler) (property : String) (c : Composite)
    (plain : Step Draft (List Condition)) (members : List Attempt) (d : Draft) : Remains :=
  let d := { d with inTheta := namesClass property }
  let outer := c.operation == .or && 1 < c.children.length
  match c.split.1 with
  | none => {}
  | some part =>
    match ((inScope k property outer (composite part plain)).run d).result with
    | .ok kept =>
      .dangling (if c.operation = .or then .disjunction else .conjunction) kept.toList
    | .error _ => scopeRemains k property outer (compositeRemains part members) d

/-! ## The recursion -/

mutual

/-- What is written of a filter that fails. -/
def remains (k : Compiler) : Filter → Draft → Remains
  | .leaf l => leafRemains k l
  | .composite ⟨operation, children⟩ =>
    compositeRemains ⟨operation, children⟩ (attempts k false children)

/-- What is written of a leaf that fails. -/
def leafRemains (k : Compiler) : Leaf → Draft → Remains
  | ⟨t, condition, _⟩ =>
    match t.operation with
    | .collectionCondition => conditionRemains k t condition
    | .subquery => subqueryRemains t
    | _ => testRemains k t

/-- What is written of a leaf on a collection's elements that fails. -/
def conditionRemains (k : Compiler) (t : Test) : Option Composite → Draft → Remains
  | none => fun _ => {}
  | some ⟨operation, children⟩ =>
    elementRemains k t.property ⟨operation, children⟩ (emitEach k .plain children)
      (attempts k true children)

/-- The emissions of several filters, or of those that are not negated. -/
def attempts (k : Compiler) (plainOnly : Bool) : List Filter → List Attempt
  | [] => []
  | f :: rest =>
    if plainOnly && f.isNegated then attempts k plainOnly rest
    else ⟨emit k f, remains k f⟩ :: attempts k plainOnly rest

end

/-! ## Visits -/

/-- Adds what was written before a failure. -/
def leave (r : Remains) (d : Draft) : Draft :=
  let d := addCondition r.condition d
  match r.group with
  | none => d
  | some group => d.addGroup group

/-- Adds the condition of a filter to the draft. -/
def add (k : Compiler) (f : Filter) : Step Draft Unit := do
  let condition ← emit k f
  Step.modify (addCondition condition)

/-- Visits a filter: adds its condition to the draft, or what was written of it before it failed. -/
def visit (k : Compiler) (f : Filter) : Step Draft Unit :=
  .onFailure (fun before d => leave (remains k f before) d) (add k f)

end Draft

end ObjectQuery
