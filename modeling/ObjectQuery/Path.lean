import ObjectQuery.Text.Pieces

/-!
# Property paths

A property is named by a path such as `links.application.name`, which may stand inside a function
as in `count(distinct links.id)`.

* `Path.parse`: the path inside a function and what stands around it.
* `Path.segments`: the segments between points; empty ones do not count.
* `Path.head`: the first segment and the rest.
* `Reference`: an alias with the segments that follow it, as it stands in a statement.
-/

namespace ObjectQuery

/-- A path and the function call around it. -/
structure Path where
  /-- The function with its opening bracket and the word `distinct`, if there are any. -/
  before : String
  inner : String
  /-- The closing bracket, if there is one. -/
  after : String
  deriving DecidableEq, Repr, Inhabited

namespace Path

/-- The word that may stand in front of a path in a function. -/
def distinctWord : List Char := "distinct ".toList

/-- A path in brackets, from what stands before the first bracket and what stands in them. -/
def inBrackets (function body : List Char) : Path :=
  let gap := body.takeWhile Text.isBlank
  let rest := body.dropWhile Text.isBlank
  let word := if distinctWord.isPrefixOf rest then distinctWord else []
  { before := String.ofList (function ++ '(' :: gap ++ word)
    inner := String.ofList (Text.trim (rest.drop word.length))
    after := ")" }

/-- A path with the function around it. Only a closing bracket at the very end closes it. -/
def parse (s : String) : Path :=
  match Text.cut '(' s.toList with
  | some (function, rest) =>
    if rest.getLast? = some ')' then inBrackets function rest.dropLast
    else ⟨"", s, ""⟩
  | none => ⟨"", s, ""⟩

/-- The segments between points that are not empty. -/
def segments (s : String) : List String :=
  ((Text.split '.' s.toList).filter (!·.isEmpty)).map String.ofList

/-- What stands before the first point and what after it. -/
def head (s : String) : String × String :=
  match Text.cut '.' s.toList with
  | some (first, rest) => (String.ofList first, String.ofList rest)
  | none => (s, "")

/-- What stands after the first point, or the whole where there is none. -/
def tail (s : String) : String := if Text.hasChar '.' s then (head s).2 else s

/-- Whether a path resolved from an enclosing scope gets joins of its own. Plain properties and
`Class.property` never join. -/
def needsOwnJoins (s : String) : Bool :=
  match s.toList.count '.' with
  | 0 => false
  | 1 => !Text.startsUpper s
  | _ => true

end Path

/-- What a path stands for in a statement. -/
inductive Reference where
  /-- A function of whole rows such as `count(*)`, as it is written. -/
  | rows (text : String)
  /-- An alias with the segments after it, inside a function if there is one. -/
  | at (before aliasName : String) (steps : List String) (after : String)
  deriving DecidableEq, Repr, Inhabited

namespace Reference

/-- An alias alone. -/
def ofAlias (aliasName : String) : Reference := .at "" aliasName [] ""

/-- The alias that a reference goes through. -/
def alias? : Reference → Option String
  | rows _ => none
  | .at _ aliasName _ _ => some aliasName

/-- The text of a reference. -/
def render : Reference → String
  | rows text => text
  | .at before aliasName steps after => before ++ Text.joinWith "." (aliasName :: steps) ++ after

end Reference

/-- How two references are correlated. -/
inductive Correlation where
  | equal (left right : Reference)
  /-- The member is one of the elements of the collection. -/
  | element (member collection : Reference)
  /-- A condition given as text. -/
  | verbatim (text : String)
  deriving DecidableEq, Repr, Inhabited

/-- The text of a correlation. -/
def Correlation.render : Correlation → String
  | equal left right => left.render ++ " = " ++ right.render
  | element member collection => member.render ++ " in elements(" ++ collection.render ++ ")"
  | verbatim text => text

end ObjectQuery
