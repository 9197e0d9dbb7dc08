import ObjectQuery.Filter

/-!
# Filters as JSON documents

* `Filter.document`: composites as records of connective and children, leaves as records of their
  fields, with those left out that are not set.
* `Filter.ofDocument`: a document is a composite if it reads as one, and otherwise a leaf.
* `Filter.write`, `Filter.read`: the texts. `Filter.toJson` and `Filter.ofJson` use the standard
  format.

Documents are read from the leaves up: the `Filter.Reading` of a document holds everything that it
could be a part of.
-/

namespace ObjectQuery

namespace Test

/-- The fields of a leaf that are written only when they are set. -/
def optionalText (name : String) (s : Option String) : List (String × Json) :=
  match s with
  | some s => [(name, .text s)]
  | none => []

end Test

namespace Filter

section

variable (F : Format)

mutual

/-- The document of a filter. -/
def document : Filter → Json
  | .composite c => compositeDocument c
  | .leaf l => leafDocument l

/-- The document of a composite. -/
def compositeDocument : Composite → Json
  | ⟨operation, children⟩ =>
    .record [("operation", .text operation.name), ("children", .list (childDocuments children))]

/-- The document of a leaf. -/
def leafDocument : Leaf → Json
  | ⟨t, condition, subfilter⟩ =>
    .record ([("property", .text t.property), ("operation", .text t.operation.name),
        ("value", t.value.document F), ("matchMode", .text t.matchMode.name),
        ("ignoreCase", .bool t.ignoreCase)] ++
      Test.optionalText "joinProperty" t.joinProperty ++
      conditionField condition ++
      Test.optionalText "subqueryClass" t.subqueryClass ++
      Test.optionalText "subqueryProperty" t.subqueryProperty ++
      subfilterField subfilter ++
      Test.optionalText "cast" t.cast)

/-- The documents of filters in order. -/
def childDocuments : List Filter → List Json
  | [] => []
  | f :: rest => document f :: childDocuments rest

/-- The field of the condition on a collection's elements. -/
def conditionField : Option Composite → List (String × Json)
  | none => []
  | some c => [("collectionCondition", compositeDocument c)]

/-- The field of a subquery's filter. -/
def subfilterField : Option Filter → List (String × Json)
  | none => []
  | some f => [("subqueryFilter", document f)]

end

end

/-! ## Reading -/

/-- A document with the parts of a filter that it reads as. -/
structure Reading where
  document : Json
  filter : Option Filter
  composite : Option Composite
  /-- The items of a list, all read as filters. -/
  filters : Option (List Filter)

/-- The declared fields of a composite. -/
def compositeFields : List Json.Field := [.required "operation", .required "children"]

/-- The declared fields of a leaf. -/
def leafFields : List Json.Field :=
  [.required "property", .required "operation", .optional "value", .optional "matchMode",
    .optional "ignoreCase", .optional "joinProperty", .optional "collectionCondition",
    .optional "subqueryClass", .optional "subqueryProperty", .optional "subqueryFilter",
    .optional "cast"]

namespace Reading

/-- A slot with a reader of documents. -/
def document? (slot : Option Reading) : Option Json := slot.map (·.document)

/-- A slot for an optional part: absence and null mean none. -/
def maybe {α : Type} (part : Reading → Option α) : Option Reading → Option (Option α)
  | none => some none
  | some r =>
    match r.document with
    | .null => some none
    | _ => (part r).map some

end Reading

section

variable (F : Format)

/-- The composite of its slots. -/
def compositeOfSlots : List (Option Reading) → Option Composite
  | [operation, children] => do
    let name ← Json.required F.name (Reading.document? operation)
    let operation ← BooleanOp.ofName name
    let children ← Json.required Reading.filters children
    some ⟨operation, children⟩
  | _ => none

/-- The leaf of its slots. -/
def leafOfSlots : List (Option Reading) → Option Leaf
  | [property, operation, value, matchMode, ignoreCase, joinProperty, condition, subqueryClass,
      subqueryProperty, subfilter, cast] => do
    let property ← Json.required Json.toText (Reading.document? property)
    let name ← Json.required F.name (Reading.document? operation)
    let operation ← LogicalOp.ofName name
    let value ← Json.orElse Value.null (Value.ofReadable F) (Reading.document? value)
    let matchMode ← Json.orElse MatchMode.anywhere
      (fun j => (F.name j).bind MatchMode.ofName) (Reading.document? matchMode)
    let ignoreCase ← Json.orElse false Json.toBool (Reading.document? ignoreCase)
    let joinProperty ← Json.maybe Json.toText (Reading.document? joinProperty)
    let condition ← Reading.maybe Reading.composite condition
    let subqueryClass ← Json.maybe Json.toText (Reading.document? subqueryClass)
    let subqueryProperty ← Json.maybe Json.toText (Reading.document? subqueryProperty)
    let subfilter ← Reading.maybe Reading.filter subfilter
    let cast ← Json.maybe Json.toText (Reading.document? cast)
    some ⟨{ property, operation, value, matchMode, ignoreCase, joinProperty, subqueryClass,
            subqueryProperty, cast }, condition, subfilter⟩
  | _ => none

/-- The reading of a structured document from its slots as a composite and as a leaf. -/
def readingOfSlots (document : Json) (asComposite asLeaf : Option (List (Option Reading)))
    (filters : Option (List Filter)) : Reading :=
  let composite := asComposite.bind (compositeOfSlots F)
  let filter := F.choose [composite.map .composite, (asLeaf.bind (leafOfSlots F)).map .leaf]
  { document, filter, composite, filters }

mutual

/-- Everything that a readable document could be. -/
def readingOf : Json → Reading
  | .record fields =>
    let readings := fieldReadings fields
    readingOfSlots F (.record fields) (F.fields compositeFields readings)
      (F.fields leafFields readings) none
  | .list items =>
    let readings := itemReadings items
    readingOfSlots F (.list items) (F.items compositeFields readings) (F.items leafFields readings)
      (readings.mapM (·.filter))
  | j => { document := j, filter := none, composite := none, filters := none }

/-- The readings of the items of a list. -/
def itemReadings : List Json → List Reading
  | [] => []
  | j :: rest => readingOf j :: itemReadings rest

/-- The readings of the fields of a record. -/
def fieldReadings : List (String × Json) → List (String × Reading)
  | [] => []
  | (name, j) :: rest => (name, readingOf j) :: fieldReadings rest

end

/-- The filter of a document. -/
def ofDocument (j : Json) : Option Filter :=
  if j.isReadable then (readingOf F j).filter else none

/-- The JSON text of a filter. -/
def write (f : Filter) : String := F.render (document F f)

/-- The filter that a JSON text writes. -/
def read (s : String) : Option Filter := (F.parse s).bind (ofDocument F)

end

/-- The document of a filter in the standard format. -/
def toJson : Filter → Json := document .standard

/-- The filter of a document in the standard format. -/
def ofJson : Json → Option Filter := ofDocument .standard

/-- The JSON text of a filter. -/
def render (f : Filter) : String := f.write .standard

end Filter

end ObjectQuery
