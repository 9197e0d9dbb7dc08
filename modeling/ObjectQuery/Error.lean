import ObjectQuery.Json

/-!
# Errors

Why a filter cannot be compiled, what is said about it, and what a client may see.

* `CompileError.message`: the wording of each error.
* `CompileError.isCaller`: whether another filter would help, or the catalog is at fault.
* `CompileError.response`: the status and body of the answer to a client. Errors of the catalog are
  reported and not shown.
-/

namespace ObjectQuery

/-- A failure of a compilation. -/
inductive CompileError where
  /-- The class has no mapping. -/
  | metadataNotFound (className : String)
  /-- A segment of a property path is no association of the class it is looked up on. -/
  | unresolvableJoin (className segment path : String)
  /-- Several required values for a property that has one value per joined element. -/
  | unsupportedContainsAll (property : String) (values : Nat)
  /-- A negated condition on a collection whose elements do not refer back to the owner. -/
  | missingBackReference (className collection : String)
  /-- A query that is structurally wrong. -/
  | malformed (problem : String)
  deriving DecidableEq, Repr, Inhabited

namespace CompileError

/-- What is said about an error. -/
def message : CompileError → String
  | metadataNotFound className => "Unable to find class mapping for " ++ className
  | unresolvableJoin className segment path =>
    "Could not resolve '" ++ segment ++ "' on " ++ className ++ " while joining path '" ++ path ++
      "'"
  | unsupportedContainsAll property values =>
    "containsAll on '" ++ property ++ "' with " ++ String.ofList (Digits.ofNat values) ++
      " values can never match a single joined element"
  | missingBackReference className collection =>
    "Cannot negate a condition on " ++ className ++ "." ++ collection ++
      ": the collection element has no bi-directional association with its owner"
  | malformed problem => "Invalid query: " ++ problem

/-- Aggregates where nothing is grouped. -/
def ungroupedAggregate : CompileError :=
  malformed "A 'group by' is required for conditions that use aggregates"

/-- Aggregates in a disjunction or negation with other conditions. -/
def mixedAggregate : CompileError :=
  malformed "Conditions that use aggregates can only be and'ed with other conditions"

/-- Whether the caller can mend the error by changing the filter. -/
def isCaller : CompileError → Bool
  | unresolvableJoin .. | unsupportedContainsAll .. | malformed _ => true
  | metadataNotFound _ | missingBackReference .. => false

/-- The message that a client may see. -/
def publicMessage (e : CompileError) : String :=
  if e.isCaller then e.message else "The query could not be compiled"

/-- The answer to a client. -/
structure Response where
  status : Nat
  body : String
  deriving DecidableEq, Repr, Inhabited

/-- The answer to a client: its own fault or the server's, with the message it may see. -/
def response (e : CompileError) : Response :=
  { status := if e.isCaller then 400 else 500
    body := (Json.record [("error", .text e.publicMessage)]).render }

end CompileError

end ObjectQuery
