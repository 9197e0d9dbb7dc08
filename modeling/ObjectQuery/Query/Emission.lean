import ObjectQuery.Filter.Negation
import ObjectQuery.Query.Assemble
import ObjectQuery.Query.Predicate

/-!
# Emitting filters

The recursion over a filter tree.

* `Draft.emit`: the condition that a filter emits.
* `Draft.emitEach`: the conditions of the children of a composite, or of the plain or the negated
  ones among them. The latter are emitted in their positive form, as `Filter.invert` gives it.
* `Draft.elementCondition`: a condition on a collection's elements. Its plain part is emitted in a
  scope of its own, and the owners of its negated part are excluded by a nested select.
-/

namespace ObjectQuery

namespace Draft

/-! ## Nested selects -/

/-- Adds a condition to the clause of plain conditions. -/
def addCondition (condition : Option Condition) (d : Draft) : Draft :=
  { d with conditions := d.conditions ++ condition.toList }

/-- A reference among those that a nested select gives, or not among them. The nested select has
aliases of its own and continues the numbering of the parameters. -/
def inSelect (k : Compiler) (reference : Reference) (negated : Bool) (className column : String)
    (body : Emission) : Emission := do
  let d ← Step.get
  let _ ← Step.ofExcept (k.registry.get className)
  let (query, nested) ← Step.isolated (Draft.start className d.nextParameter) do
    let condition ← body
    Step.modify (addCondition condition)
    assembleSelect k { columns := [column] }
  Step.modify fun d => { d with parameters := d.parameters ++ nested.parameters }
  predicate (.inSelect reference negated query.statement)

/-- A property among those that a nested query selects. -/
def subquery (k : Compiler) (t : Test) (body : Emission) : Emission :=
  match t.subqueryClass, t.subqueryProperty with
  | some className, some column =>
    routed t.isAggregate do
      let reference ← resolve k t.property false
      inSelect k reference false className column body
  | _, _ => test k t

/-! ## Conditions on collections -/

/-- Whether a condition names a class instead of a collection. -/
def namesClass (property : String) : Bool :=
  !Text.hasChar '.' property && Text.startsUpper property

/-- Runs a step with the mark of theta joins set or cleared. -/
def withTheta (theta : Bool) (x : Emission) : Emission :=
  .restoring (fun d => { d with inTheta := theta })
    (fun before d => { d with inTheta := before.inTheta }) x

/-- Runs a step and closes the innermost scope, also after a failure. -/
def closingScope (x : Emission) : Emission :=
  .restoring id (fun _ d => { d with aliases := d.aliases.pop }) x

/-- Runs a step in the scope of a collection's elements, or of a class that a theta join
correlates. -/
def inScope (k : Compiler) (property : String) (outer : Bool) (x : Emission) : Emission := do
  let d ← Step.get
  if namesClass property then
    if k.catalog.isKnown property then do
      let _ ← changeAliases fun a => ((), a.pushTheta)
      closingScope x
    else .fail (.unresolvableJoin d.aliases.queryClass property property)
  else do
    let joinType := d.aliases.joinTypeFor outer
    let _ ← aliased (Aliases.pushCollection k.catalog property joinType)
    closingScope x

/-- Excludes the owners of elements that meet a positive condition: the current alias is not among
the owners that the elements refer back to. -/
def excluding (k : Compiler) (property : String) (body : Emission) : Emission := do
  let d ← Step.get
  let owner := d.aliases.currentClass
  let collection := (Text.dropStart? property (d.aliases.queryClass ++ ".")).getD property
  let missing := CompileError.missingBackReference owner collection
  let inverse ← Step.orFail missing (← Step.ofReported (k.catalog.lookUpInverse owner collection))
  let declared ← Step.ofReported (k.catalog.lookUp owner collection)
  let element ← Step.orFail missing (declared.bind (·.kind.target))
  let aliasName ← Step.orFail (.unresolvableJoin owner collection property) d.aliases.currentAlias
  inSelect k (.ofAlias aliasName) true element inverse body

/-- A condition on a collection's elements, whose plain and negated children are given as the steps
that emit them. A disjunction also accepts owners without elements, so its joins are outer. -/
def elementCondition (k : Compiler) (property : String) (c : Composite)
    (plain negated : Step Draft (List Condition)) : Emission :=
  let parts := c.split
  withTheta (namesClass property) do
    let outer := c.operation == .or && 1 < c.children.length
    let kept ←
      match parts.1 with
      | some part => inScope k property outer (composite part plain)
      | none => pure none
    match parts.2 with
    | none => pure kept
    | some part => do
      let excluded ← excluding k property (composite part negated)
      match kept, excluded with
      | some a, some b => pure (some (.group (c.operation == .or) [a, b]))
      | some a, none => pure (some a)
      | none, b => pure b

/-! ## The recursion -/

/-- Which children of a composite are emitted. -/
inductive Selection where
  | all
  /-- Those that are not negated. -/
  | plain
  /-- The negated ones, in their positive form. -/
  | negated
  deriving DecidableEq, Repr, Inhabited

/-- The children in the negated part of a condition: all of a negation, the negated ones else. -/
def negatedSelection (operation : BooleanOp) : Selection :=
  if operation = .not then .all else .negated

mutual

/-- The condition that a filter emits. -/
def emit (k : Compiler) : Filter → Emission
  | .leaf l => emitLeaf k l
  | .composite c => emitComposite k c

/-- The condition that a composite emits. -/
def emitComposite (k : Compiler) : Composite → Emission
  | ⟨operation, children⟩ => composite ⟨operation, children⟩ (emitEach k .all children)

/-- The condition that a leaf emits. -/
def emitLeaf (k : Compiler) : Leaf → Emission
  | ⟨t, condition, subfilter⟩ =>
    match t.operation with
    | .collectionCondition => emitCondition k t condition
    | .subquery => emitSubquery k t subfilter
    | _ => test k t

/-- The condition that a leaf on a collection's elements emits. -/
def emitCondition (k : Compiler) (t : Test) : Option Composite → Emission
  | none => test k t
  | some ⟨operation, children⟩ =>
    elementCondition k t.property ⟨operation, children⟩ (emitEach k .plain children)
      (emitEach k (negatedSelection operation) children)

/-- The condition that a leaf with a nested query emits. -/
def emitSubquery (k : Compiler) (t : Test) : Option Filter → Emission
  | none => subquery k t (pure none)
  | some f => subquery k t (emit k f)

/-- The condition that the positive form of a negated filter emits. -/
def emitInverse (k : Compiler) : Filter → Emission
  | .leaf l =>
    match l.test.operation.inverse with
    | some operation => test k (l.test.withOperation operation l.test.value)
    | none => emitLeaf k l
  | .composite ⟨_, [only]⟩ => emit k only
  | .composite ⟨_, children⟩ => composite ⟨.and, children⟩ (emitEach k .all children)

/-- The conditions that the selected ones of several filters emit. -/
def emitEach (k : Compiler) (selection : Selection) : List Filter → Step Draft (List Condition)
  | [] => pure []
  | f :: rest => do
    let condition ←
      match selection with
      | .all => emit k f
      | .plain => if f.isNegated then pure none else emit k f
      | .negated => if f.isNegated then emitInverse k f else pure none
    let conditions ← emitEach k selection rest
    pure (condition.toList ++ conditions)

end

end Draft

end ObjectQuery
