import ObjectQuery.Aliases
import ObjectQuery.Filter

/-!
# Statements

The statements that filters are compiled to, as trees, with the one place where their text is
written.

* `Atom`: one predicate. `Condition`: predicates under connectives.
* `Select`, `Delete`, `Statement`: whole statements. A predicate may hold a nested select.
* `Condition.render`, `Select.render`, `Statement.render`: the texts.
-/

namespace ObjectQuery

/-- The left side of a comparison: a reference, in upper case or cast where asked for. -/
structure Operand where
  reference : Reference
  upper : Bool := false
  cast : Option String := none
  deriving DecidableEq, Repr, Inhabited

/-- A reference, put into upper case where asked for. -/
def cased (upper : Bool) (reference : Reference) : String :=
  if upper then "upper(" ++ reference.render ++ ")" else reference.render

/-- The text of the left side of a comparison. -/
def Operand.render (o : Operand) : String :=
  match o.cast with
  | some type => "cast(" ++ cased o.upper o.reference ++ " as " ++ type ++ ")"
  | none => cased o.upper o.reference

/-- The name of a numbered parameter. -/
def parameterName (number : Nat) : String := "param" ++ String.ofList (Digits.ofNat number)

/-- The place of a parameter in a text. -/
def placeholder (number : Nat) : String := ":" ++ parameterName number

/-- A value bound to a numbered parameter. -/
structure Parameter where
  number : Nat
  value : Value
  deriving Repr, Inhabited

/-- The name of a parameter. -/
def Parameter.name (p : Parameter) : String := parameterName p.number

/-- A source with the joins that follow it. -/
structure SourceItem where
  source : Source
  joins : List Join
  deriving DecidableEq, Repr, Inhabited

/-- The text of a source with its joins. -/
def SourceItem.render (i : SourceItem) : String :=
  Text.joinWith " " ((i.source.className ++ " " ++ i.source.aliasName) :: i.joins.map Join.render)

/-- What a statement draws from. -/
abbrev SourceList := List SourceItem

/-- The text of the sources. -/
def SourceList.render (sources : SourceList) : String :=
  Text.joinWith ", " (sources.map SourceItem.render)

/-- One item of a select list. -/
inductive SelectItem where
  | entity (aliasName : String)
  | reference (r : Reference)
  /-- The number of rows, or of distinct entities. -/
  | count (distinct : Bool) (aliasName : String)
  deriving DecidableEq, Repr, Inhabited

/-- The text of an item of a select list. -/
def SelectItem.render : SelectItem → String
  | entity aliasName => aliasName
  | reference r => r.render
  | count distinct aliasName =>
    "count(" ++ (if distinct then "distinct " else "") ++ aliasName ++ ")"

/-- One term of an order. -/
structure OrderTerm where
  reference : Reference
  upper : Bool
  ascending : Bool
  deriving DecidableEq, Repr, Inhabited

/-- The expression that a term orders by. -/
def OrderTerm.expression (t : OrderTerm) : String := cased t.upper t.reference

/-- The text of a term of an order. -/
def OrderTerm.render (t : OrderTerm) : String :=
  if t.ascending then t.expression else t.expression ++ " desc"

/-- What stands between members that were written one after the other. -/
inductive Separator where
  | nothing | conjunction | disjunction
  deriving DecidableEq, Repr, Inhabited

/-- The text of a separator. -/
def Separator.render : Separator → String
  | nothing => ""
  | conjunction => " and "
  | disjunction => " or "

mutual

/-- One predicate. -/
inductive Atom where
  | comparison (left : Operand) (operator : String) (parameter : Nat) (escape : Option Char)
  | membership (left : Operand) (parameters : List Nat)
  | nullCheck (reference : Reference) (isNull : Bool)
  | emptyCheck (collection : Reference)
  /-- Holds for no row. -/
  | never
  | correlated (correlation : Correlation)
  | inSelect (reference : Reference) (negated : Bool) (query : Select)

/-- Predicates under connectives. -/
inductive Condition where
  | atom (predicate : Atom)
  /-- A conjunction without brackets around it. -/
  | chain (members : List Condition)
  /-- Members under a connective, in brackets. -/
  | group (disjunctive : Bool) (members : List Condition)
  | negation (condition : Condition)
  /-- What was written of a condition before it failed: its first members, with no brackets around
  them. Nothing that is compiled holds it. -/
  | unfinished (separator : Separator) (members : List Condition)

/-- A query. -/
structure Select where
  distinct : Bool
  items : List SelectItem
  sources : SourceList
  conditions : List Condition
  groupBy : List Reference
  /-- The groups of conditions on aggregates. A group may turn out to hold nothing. -/
  having : List (Option Condition)
  orderBy : List OrderTerm

end

instance : Inhabited Condition := ⟨.chain []⟩

/-- A deletion. -/
structure Delete where
  sources : SourceList
  conditions : List Condition

/-- A statement. -/
inductive Statement where
  | select (query : Select)
  | delete (deletion : Delete)

/-! ## Text -/

/-- A clause with its keyword, left out where it is empty. -/
def clause (keyword text : String) : String :=
  if text == "" then "" else " " ++ keyword ++ " " ++ text

mutual

/-- The text of a predicate. -/
def Atom.render : Atom → String
  | .comparison left operator parameter escape =>
    let compared := left.render ++ " " ++ operator ++ " " ++ placeholder parameter
    match escape with
    | some c => compared ++ " escape '" ++ String.singleton c ++ "'"
    | none => compared
  | .membership left parameters =>
    left.render ++ " in (" ++ Text.joinWith ", " (parameters.map placeholder) ++ ")"
  | .nullCheck reference isNull =>
    reference.render ++ if isNull then " is null" else " is not null"
  | .emptyCheck collection => "size(" ++ collection.render ++ ") = 0"
  | .never => "1 = 0"
  | .correlated correlation => correlation.render
  | .inSelect reference negated query =>
    reference.render ++ (if negated then " not in (" else " in (") ++ query.render ++ ")"

/-- The text of a condition. -/
def Condition.render : Condition → String
  | .atom predicate => predicate.render
  | .chain members => Text.joinWith " and " (renderConditions members)
  | .group disjunctive members =>
    "(" ++ Text.joinWith (if disjunctive then " or " else " and ") (renderConditions members) ++ ")"
  | .negation condition => "not " ++ condition.render
  | .unfinished separator members => Text.joinWith separator.render (renderConditions members)

/-- The text of a query. -/
def Select.render : Select → String
  | ⟨distinct, items, sources, conditions, groupBy, having, orderBy⟩ =>
    let grouping := Text.joinWith ", " (groupBy.map Reference.render)
    "select " ++ (if distinct then "distinct " else "") ++
      Text.joinWith ", " (items.map SelectItem.render) ++ " from " ++ sources.render ++
      clause "where" (Text.joinWith "" (renderConditions conditions)) ++
      (if groupBy.isEmpty then ""
        else " group by " ++ grouping ++
          clause "having" (Text.joinWith " and " (renderGroups having))) ++
      (if orderBy.isEmpty then ""
        else " order by " ++ Text.joinWith ", " (orderBy.map OrderTerm.render))

/-- The texts of conditions. -/
def renderConditions : List Condition → List String
  | [] => []
  | c :: rest => c.render :: renderConditions rest

/-- The text of a group that may hold nothing. -/
def renderGroup : Option Condition → String
  | none => ""
  | some c => c.render

/-- The texts of groups that may hold nothing. -/
def renderGroups : List (Option Condition) → List String
  | [] => []
  | g :: rest => renderGroup g :: renderGroups rest

end

/-- The text of a condition clause. -/
def conditionsText (conditions : List Condition) : String :=
  Text.joinWith "" (renderConditions conditions)

/-- The text of the groups of conditions on aggregates. -/
def havingText (groups : List (Option Condition)) : String :=
  Text.joinWith " and " (renderGroups groups)

/-- The text of a deletion. -/
def Delete.render (d : Delete) : String :=
  "delete from " ++ d.sources.render ++ clause "where" (conditionsText d.conditions)

/-- The text of a statement. -/
def Statement.render : Statement → String
  | select query => query.render
  | delete deletion => deletion.render

end ObjectQuery
