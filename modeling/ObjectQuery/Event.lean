import ObjectQuery.Error
import ObjectQuery.Text.Quoted

/-!
# Reported events

What is reported besides the result of an operation.

* `Event`: the occasions for a report, with `Event.level`, `Event.message` and `Event.fields`.
* `CompileError.report`: what is reported of an error that goes to a client.
-/

namespace ObjectQuery

/-- How much an event matters. -/
inductive Level where
  | info | warn | error
  deriving DecidableEq, Repr, Inhabited

/-- Something worth a report. -/
inductive Event where
  | superclassChainTooDeep (className : String)
  | indexWithoutProperty (className index column : String)
  | uniqueAssumedInsensitive (className property : String)
  | redundantInsensitiveIndex (className property : String)
  | intermediateTableIndex (table column : Option String)
  | insensitiveIntermediateTableIndex (table column : Option String)
  | annotationWithoutProperty (className property : String)
  | mismatchedSensitivity (className property : String)
  | subclassIndexWithoutProperty (className property : String)
  | subclassColumnIndex (className : String) (column : Option String)
  | annotationWithoutClass (className : String)
  | missingIgnoreCase (className property : String)
  | ignoreCaseOnIndexedProperty (className property : String)
  | ignoreCaseOnAnnotatedProperty (className property : String)
  | misconfigured (cause : CompileError)
  deriving DecidableEq, Repr, Inhabited

namespace Event

/-- How much an event matters. -/
def level : Event → Level
  | uniqueAssumedInsensitive .. | redundantInsensitiveIndex .. | intermediateTableIndex ..
  | missingIgnoreCase .. => .info
  | misconfigured _ => .error
  | _ => .warn

/-- What an event says. -/
def message : Event → String
  | superclassChainTooDeep _ => "Superclass chain too deep, possible cycle"
  | indexWithoutProperty .. => "Index can't resolve column to a property"
  | uniqueAssumedInsensitive .. => "Property is unique and assumed to have an insensitive index"
  | redundantInsensitiveIndex .. =>
    "Property is unique and has a redundant insensitive index declaration"
  | intermediateTableIndex .. => "Ignoring annotation index on intermediate table"
  | insensitiveIntermediateTableIndex .. =>
    "Case insensitive annotation index defined on intermediate table, unable to adjust filters " ++
      "for case sensitivity"
  | annotationWithoutProperty .. => "Unable to find property mapping for annotation index"
  | mismatchedSensitivity .. => "Mismatched index case sensitivity options"
  | subclassIndexWithoutProperty .. => "Ignoring subclass index, missing property"
  | subclassColumnIndex .. => "Ignoring subclass column index"
  | annotationWithoutClass _ => "No class mapping for annotation index"
  | missingIgnoreCase .. => "Ignore case missing for case insensitive index"
  | ignoreCaseOnIndexedProperty .. =>
    "Ignore case used with a case sensitive index, comparing case sensitively"
  | ignoreCaseOnAnnotatedProperty .. =>
    "Ignore case used with a case sensitive annotation index"
  | misconfigured _ => "Query compiler is misconfigured"

/-- How an optional field is written. -/
def optional : Option String → String
  | none => "None"
  | some s => "Some(" ++ Text.quote s ++ ")"

/-- The fields of an event by name. -/
def fields : Event → List (String × String)
  | superclassChainTooDeep c | annotationWithoutClass c => [("class", c)]
  | indexWithoutProperty c index column => [("class", c), ("index", index), ("column", column)]
  | intermediateTableIndex table column | insensitiveIntermediateTableIndex table column =>
    [("table", optional table), ("column", optional column)]
  | subclassColumnIndex c column => [("class", c), ("column", optional column)]
  | uniqueAssumedInsensitive c p | redundantInsensitiveIndex c p | annotationWithoutProperty c p
  | mismatchedSensitivity c p | subclassIndexWithoutProperty c p | missingIgnoreCase c p
  | ignoreCaseOnIndexedProperty c p | ignoreCaseOnAnnotatedProperty c p =>
    [("class", c), ("property", p)]
  | misconfigured cause => [("error", cause.message)]

end Event

/-- The report that goes with an error that is shown to a client: errors of the catalog are
reported, errors of the caller are not. -/
def CompileError.report (e : CompileError) : List Event :=
  if e.isCaller then [] else [.misconfigured e]

end ObjectQuery
