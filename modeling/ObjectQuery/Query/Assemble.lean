import ObjectQuery.Options
import ObjectQuery.Query.Draft

/-!
# Assembling statements

A draft becomes a statement once its projection, grouping and order are resolved, which may add
outer joins.

* `SelectSpec`: the shape of a select besides its conditions.
* `Draft.assembleSelect`, `Draft.assembleDelete`: the statements.
-/

namespace ObjectQuery

/-- The shape of a select besides its conditions. -/
structure SelectSpec where
  /-- The projection. An empty one selects entities. -/
  columns : List String := []
  distinct : Bool := false
  orderings : List SortKey := []
  groupBy : List String := []
  deriving Repr, Inhabited

/-- A statement with what a caller has to know about it. -/
structure Assembled (α : Type) where
  statement : α
  /-- Rows without duplicates are asked for, but the statement does not see to it. -/
  requiresDistinctFilter : Bool
  /-- The statement draws from more than one table. -/
  spansMultipleTables : Bool

namespace SelectSpec

/-- Whether a column counts distinct values. -/
def countsDistinct (column : String) : Bool :=
  match Text.dropStart? column "count(distinct" with
  | some rest => Text.endsWith rest ")"
  | none => false

/-- Adds to a projection the ordering properties that it lacks. -/
def addOrderColumns : List String → List SortKey → List String
  | columns, [] => columns
  | columns, o :: rest =>
    addOrderColumns (if columns.contains o.property then columns else columns ++ [o.property]) rest

/-- The projection. A select without duplicates has to select what it orders by, except for a
single count. -/
def projection (s : SelectSpec) : List String :=
  if !s.distinct || s.columns.isEmpty then s.columns
  else
    match s.columns with
    | [only] => if countsDistinct only then s.columns else addOrderColumns s.columns s.orderings
    | columns => addOrderColumns columns s.orderings

end SelectSpec

namespace Aliases

/-- The joins that follow a source. A class joined under a condition is followed by its own joins,
unless it is a source. Such a class always hangs off the query class, so one level is all. -/
def joinsBehind (a : Aliases) (rootAlias : String) : List Join :=
  (a.joinsOf rootAlias).flatMap fun j =>
    if !j.isNavigated && j.aliasName != rootAlias && !a.isSourceAlias j.aliasName then
      j :: a.joinsOf j.aliasName
    else [j]

/-- The sources with their joins, theta sources behind the others. -/
def sourceList (a : Aliases) : SourceList :=
  (a.sources.filter (!·.theta) ++ a.sources.filter (·.theta)).map fun s =>
    ⟨s, a.joinsBehind s.aliasName⟩

/-- Whether there is more than one source or join. -/
def spansMultipleTables (a : Aliases) : Bool := 1 < a.sources.length + a.joins.length

end Aliases

namespace Draft

/-- The reference of a path in a projection, grouping or order. -/
def resolveClause (k : Compiler) (path : String) (outer : Bool) : Step Draft Reference := do
  match ← aliased (Aliases.resolve k.catalog path { outer }) with
  | some reference => pure reference
  | none => do
    let d ← Step.get
    .fail (.unresolvableJoin d.aliases.queryClass path path)

/-- The terms of an order. Their joins are outer ones, as an order must not drop rows. -/
def orderTerms (k : Compiler) : List SortKey → Step Draft (List OrderTerm)
  | [] => pure []
  | o :: rest => do
    let reference ← resolveClause k o.property true
    let upper := o.ignoreCase && !k.capabilities.caseInsensitive
    let terms ← orderTerms k rest
    pure (⟨reference, upper, o.ascending⟩ :: terms)

/-- One item of a select list. Joins are outer ones, as a projection must not drop rows, except for
a count of distinct values. A count of rows counts entities once if joins multiply them. -/
def selectItem (k : Compiler) (distinct : Bool) (column : String) : Step Draft SelectItem := do
  if Text.occursIn "count(*)".toList column.toList then do
    let d ← Step.get
    pure (.count (distinct || d.aliases.hasOuterJoins) d.aliases.rootAlias)
  else do
    let reference ← resolveClause k column (!SelectSpec.countsDistinct column)
    pure (.reference reference)

/-- The items of a select list. -/
def selectItems (k : Compiler) (distinct : Bool) : List String → Step Draft (List SelectItem)
  | [] => pure []
  | column :: rest => do
    let item ← selectItem k distinct column
    let items ← selectItems k distinct rest
    pure (item :: items)

/-- The select list of a projection: the entity if it is empty. -/
def selectList (k : Compiler) (distinct : Bool) (columns : List String) :
    Step Draft (List SelectItem) := do
  if columns.isEmpty then do
    let d ← Step.get
    pure [.entity d.aliases.rootAlias]
  else selectItems k distinct columns

/-- The references of a grouping. -/
def groupTerms (k : Compiler) : List String → Step Draft (List Reference)
  | [] => pure []
  | property :: rest => do
    let reference ← resolveClause k property false
    let references ← groupTerms k rest
    pure (reference :: references)

/-- The select that a draft becomes. The order is resolved first, then the projection and the
grouping. -/
def assembleSelect (k : Compiler) (spec : SelectSpec) : Step Draft (Assembled Select) := do
  let d ← Step.get
  if !d.having.isEmpty && spec.groupBy.isEmpty then .fail .ungroupedAggregate
  else do
    let orderBy ← orderTerms k spec.orderings
    let columns := spec.projection
    let distinct := spec.distinct && k.capabilities.canUseDistinct columns
    let items ← selectList k distinct columns
    let groupBy ← groupTerms k spec.groupBy
    let d ← Step.get
    pure
      { statement :=
          { distinct
            items
            sources := d.aliases.sourceList
            conditions := d.conditions
            groupBy
            having := d.having
            orderBy }
        requiresDistinctFilter := spec.distinct && !distinct
        spansMultipleTables := d.aliases.spansMultipleTables }

/-- The deletion that a draft becomes. Nothing can be grouped in it. -/
def assembleDelete : Step Draft (Assembled Delete) := do
  let d ← Step.get
  if !d.having.isEmpty then .fail .ungroupedAggregate
  else
    pure
      { statement := { sources := d.aliases.sourceList, conditions := d.conditions }
        requiresDistinctFilter := false
        spansMultipleTables := d.aliases.spansMultipleTables }

end Draft

end ObjectQuery
