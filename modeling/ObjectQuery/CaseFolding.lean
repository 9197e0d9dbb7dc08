import ObjectQuery.Capabilities
import ObjectQuery.Filter
import ObjectQuery.Mapping

/-!
# Case folding

A comparison that ignores case puts the property into `upper(...)` and binds an upper-case value.
That pays only if an index that ignores case serves the property, or no index at all.

* `Value.fold`: a value with its texts in upper case.
* `CaseFolding.applies`: whether a comparison ignores case.
-/

namespace ObjectQuery

namespace Value

mutual

/-- A value with every text in it in upper case. -/
def fold : Value → Value
  | text s => text (Text.foldCase s)
  | list items => list (foldItems items)
  | v => v

/-- The items of a list, folded. -/
def foldItems : List Value → List Value
  | [] => []
  | v :: rest => fold v :: foldItems rest

end

/-- Whether a value is a text or a list that starts with one. -/
def startsWithText : Value → Bool
  | text _ => true
  | list (text _ :: _) => true
  | _ => false

end Value

namespace CaseFolding

/-- Identifiers are always compared as they are. -/
def isIdentifier (property : String) : Bool := property == "id" || Text.endsWith property ".id"

/-- Names whose case is ignored by convention where nothing is known about the property. -/
def isNameByConvention (property : String) : Bool :=
  Text.endsWith property ".name" || Text.endsWith property ".displayName"

/-- Whether a comparison of a property, about which the facts are known if it has any, ignores
case. `requested` is the wish of the caller. -/
def applies (capabilities : DatabaseCapabilities) (className property : String)
    (facts : Option PropertyFacts) (value : Value) (requested : Bool) : Reported Bool :=
  if capabilities.caseInsensitive || isIdentifier property || !value.startsWithText then pure false
  else
    match facts with
    | none => pure (isNameByConvention property || requested)
    | some facts =>
      if facts.isCaseInsensitive then do
        if !requested then Reported.report [.missingIgnoreCase className property]
        pure true
      else if !requested then pure false
      else if facts.hasIndex then do
        Reported.report [.ignoreCaseOnIndexedProperty className property]
        pure false
      else do
        if facts.isAnnotated then
          Reported.report [.ignoreCaseOnAnnotatedProperty className property]
        pure true

end CaseFolding

end ObjectQuery
