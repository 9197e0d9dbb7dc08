import ObjectQuery.Aliases.Resolve
import ObjectQuery.Capabilities
import ObjectQuery.Registry
import ObjectQuery.Statement

/-!
# Drafts

A query while it is being compiled.

* `Compiler`: what a compilation depends on besides the query.
* `Draft`: the sources, joins, conditions and parameters gathered so far.
* `Emission`: a step that may leave one condition for the clause that is being written. Conditions
  on aggregates go to the groups of the having clause instead, through `Draft.inHavingGroup`.
-/

namespace ObjectQuery

/-- What a compilation depends on besides the query: the mapped classes and the store. -/
structure Compiler where
  registry : Registry
  capabilities : DatabaseCapabilities
  deriving Inhabited

/-- The catalog that paths are resolved in. -/
def Compiler.catalog (k : Compiler) : Catalog := k.registry.catalog

/-- A query while it is being compiled. -/
structure Draft where
  /-- The number of the first parameter. -/
  firstParameter : Nat
  aliases : Aliases
  conditions : List Condition := []
  /-- The groups of conditions on aggregates. The first of them is never empty. -/
  having : List (Option Condition) := []
  /-- Whether a group of conditions on aggregates is being written. -/
  inHaving : Bool := false
  parameters : List Parameter := []
  /-- Every comparison asks to ignore case. -/
  autoIgnoreCase : Bool := false
  /-- The number of the next instance of a class in a theta join. -/
  thetaInstance : Nat := 0
  /-- Whether the innermost condition on a collection names a class instead of a collection. -/
  inTheta : Bool := false

namespace Draft

/-- The draft of a query over a class, whose parameters are numbered from `first` on. -/
def start (queryClass : String) (first : Nat) : Draft :=
  { firstParameter := first, aliases := .start queryClass }

/-- The number of the next parameter. -/
def nextParameter (d : Draft) : Nat := d.firstParameter + d.parameters.length

/-- Adds a group of conditions on aggregates. A group that holds nothing leaves no trace at the
beginning. -/
def addGroup (d : Draft) (group : Option Condition) : Draft :=
  if d.having.isEmpty && group.isNone then d else { d with having := d.having ++ [group] }

/-- A step on the aliases of the draft. -/
def aliased {α : Type} (x : Step Aliases α) : Step Draft α :=
  .zoom (·.aliases) (fun a d => { d with aliases := a }) x

/-- Changes the aliases and gives what the change gives. -/
def changeAliases {α : Type} (f : Aliases → α × Aliases) : Step Draft α := do
  let d ← Step.get
  let (result, aliases) := f d.aliases
  Step.modify fun d => { d with aliases }
  pure result

/-- Binds a value to the next parameter. -/
def bind (value : Value) : Step Draft Nat := do
  let d ← Step.get
  Step.modify fun d => { d with parameters := d.parameters ++ [⟨d.nextParameter, value⟩] }
  pure d.nextParameter

/-- Binds values to the next parameters in order. -/
def bindAll : List Value → Step Draft (List Nat)
  | [] => pure []
  | v :: rest => do
    let number ← bind v
    let numbers ← bindAll rest
    pure (number :: numbers)

end Draft

/-- A step that may leave one condition for the clause that is being written. -/
abbrev Emission := Step Draft (Option Condition)

namespace Draft

/-- An emission of one predicate. -/
def predicate (a : Atom) : Emission := pure (some (.atom a))

/-- Writes a group of conditions on aggregates. It leaves no condition for the clause outside. What
was written of a group that fails is left to the visit. -/
def inHavingGroup (x : Emission) : Emission := do
  let group ← Step.restoring (fun d => { d with inHaving := true })
    (fun before d => { d with inHaving := before.inHaving }) x
  Step.modify (·.addGroup group)
  pure none

/-- Writes a condition on an aggregate as a group, unless a group is being written already. -/
def routed (isAggregate : Bool) (x : Emission) : Emission := do
  let d ← Step.get
  if isAggregate && !d.inHaving then inHavingGroup x else x

/-- Joins made by the step stand under a disjunction. -/
def insideOr (x : Emission) : Emission :=
  .restoring (fun d => { d with aliases := { d.aliases with insideOr := true } })
    (fun before d => { d with aliases := { d.aliases with insideOr := before.aliases.insideOr } }) x

/-- The members under a connective, nothing if there are none. -/
def grouped (disjunctive : Bool) (members : List Condition) : Option Condition :=
  if members.isEmpty then none else some (.group disjunctive members)

/-- The members that a composite emits under its connective. -/
def combined (operation : BooleanOp) (members : Step Draft (List Condition)) : Emission :=
  match operation with
  | .and => do pure (grouped false (← members))
  | .or => insideOr do pure (grouped true (← members))
  | .not => do pure ((grouped false (← members)).map .negation)

/-- Chooses the clause of a composite. One that compares aggregates only becomes a group of the
having clause. Aggregates may otherwise stand with plain comparisons in conjunctions only, as no
other connective can be divided between two clauses. -/
def routedComposite (c : Composite) (x : Emission) : Emission := do
  let d ← Step.get
  if d.inHaving then x
  else if Filter.areAggregateOnly c.children then
    if c.children.isEmpty then x else inHavingGroup x
  else if c.operation != .and && Filter.anyHasAggregate c.children then .fail .mixedAggregate
  else x

/-- A composite whose members are given as the step that emits them. -/
def composite (c : Composite) (members : Step Draft (List Condition)) : Emission :=
  routedComposite c (combined c.operation members)

end Draft

end ObjectQuery
