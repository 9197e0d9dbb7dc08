import ObjectQuery.Filter.Arrangement
import ObjectQuery.Query.Visit
import ObjectQuery.Registry.Slot

/-!
# Compiling queries

* `QueryOptions.prepare`: the restrictions as one filter, arranged for compilation.
* `Compiler.compile`, `Compiler.compileFilter`, `Compiler.compileDelete`: the statements.
* `CompiledQuery`: a statement with its parameters.
-/

namespace ObjectQuery

/-- A statement with its parameters. -/
structure CompiledQuery where
  statement : Statement
  /-- The parameters in the order in which they were bound. -/
  parameters : List Parameter
  /-- Rows without duplicates are asked for, but the statement does not see to it. -/
  requiresDistinctFilter : Bool
  /-- The statement draws from more than one table. -/
  spansMultipleTables : Bool

namespace CompiledQuery

/-- The text of the statement. -/
def text (q : CompiledQuery) : String := q.statement.render

/-- The value of the parameter with a name. -/
def valueOf? (q : CompiledQuery) (name : String) : Option Value :=
  (q.parameters.find? (·.name == name)).map (·.value)

/-- The document of a compiled query, with the parameters in the order of binding. -/
def toJson (q : CompiledQuery) : Json :=
  .record [("text", .text q.text),
    ("parameters", .record (q.parameters.map fun p => (p.name, p.value.toJson))),
    ("requiresDistinctFilter", .bool q.requiresDistinctFilter),
    ("spansMultipleTables", .bool q.spansMultipleTables)]

end CompiledQuery

/-- The restrictions as one filter, if there are any: double negations are folded, conditions on
collections moved behind their siblings, and equalities collapsed unless that is disabled. -/
def QueryOptions.prepare (o : QueryOptions) : Option Filter :=
  let combined :=
    match o.restrictions with
    | [] => none
    | [only] => some only
    | restrictions => some (Filter.and restrictions)
  combined.map fun f =>
    let arranged := f.foldDoubleNegation.reorder
    if o.disableOptimizer then arranged else arranged.optimize

namespace Compiler

/-- The compiler over the installed registry, if there is one. -/
def ofSlot (s : Slot) (capabilities : DatabaseCapabilities) : Option Compiler :=
  s.installed.map fun registry => { registry, capabilities }

/-- Adds the restrictions of a query to its draft. -/
def restrict (k : Compiler) (o : QueryOptions) : Step Draft Unit := do
  Step.modify fun d => { d with autoIgnoreCase := o.ignoreCase }
  match o.prepare with
  | some f => Draft.visit k f
  | none => pure ()

/-- Compiles a query over a class, which must be mapped: restricts it and makes a statement. -/
def run {α : Type} (k : Compiler) (className : String) (o : QueryOptions)
    (assemble : Step Draft (Assembled α)) (statement : α → Statement) :
    Reported (Except CompileError CompiledQuery) :=
  match k.registry.get className with
  | .error e => pure (.error e)
  | .ok _ =>
    let outcome := (do k.restrict o; assemble : Step Draft _).run (Draft.start className 0)
    ⟨outcome.result.map fun assembled =>
      { statement := statement assembled.statement
        parameters := outcome.state.parameters
        requiresDistinctFilter := assembled.requiresDistinctFilter
        spansMultipleTables := assembled.spansMultipleTables },
      outcome.events⟩

/-- The shape of the select that options ask for. -/
def selectSpec (o : QueryOptions) : SelectSpec :=
  { columns := o.columns, distinct := o.distinct, orderings := o.orderings, groupBy := o.groupBy }

/-- Compiles a select over a class. -/
def compile (k : Compiler) (className : String) (o : QueryOptions) :
    Reported (Except CompileError CompiledQuery) :=
  k.run className o (Draft.assembleSelect k (selectSpec o)) .select

/-- Compiles a select of the entities that a filter accepts. -/
def compileFilter (k : Compiler) (className : String) (f : Filter) :
    Reported (Except CompileError CompiledQuery) :=
  k.compile className { restrictions := [f] }

/-- Compiles a deletion of the rows that the restrictions accept. Projection, order and grouping do
not matter. -/
def compileDelete (k : Compiler) (className : String) (o : QueryOptions) :
    Reported (Except CompileError CompiledQuery) :=
  k.run className o Draft.assembleDelete .delete

end Compiler

end ObjectQuery
