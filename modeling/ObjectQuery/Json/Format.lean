import ObjectQuery.Instant
import ObjectQuery.Json.Reader
import ObjectQuery.Json.Slots
import ObjectQuery.Uuid

/-!
# Document formats

How documents are written and read depends on operations that the types of this library are built
on: those of JSON texts, those that read structures and choices from their declarations, and those of
identifiers and instants.

* `Format`: such operations.
* `Format.slots`: the slots of a structure in either of its forms.
* `Format.standard`: the operations that the defaults of this library use.
-/

namespace ObjectQuery

namespace Json.Number

/-- The number as an integer of 64 bits with sign, if it is one. -/
def toInt64? : Number → Option Int64
  | integer i =>
    if Int64.minValue.toInt ≤ i && i ≤ Int64.maxValue.toInt then some (Int64.ofInt i) else none
  | real _ => none

/-- The number as a double. -/
def toBinary64 : Number → Binary64
  | integer i => Binary64.ofNat (i < 0) i.natAbs
  | real x => x

end Json.Number

/-- The operations that documents are written and read with. -/
structure Format : Type 1 where
  /-- The text of a document. -/
  render : Json → String
  /-- The document of a text. -/
  parse : String → Option Json
  /-- A number as an integer of 64 bits with sign. -/
  integer : Json.Number → Option Int64
  /-- A number as a double. -/
  double : Json.Number → Option Binary64
  writeUuid : Uuid → String
  readUuid : String → Option Uuid
  writeInstant : Instant → String
  readInstant : String → Option Instant
  /-- The name of a choice without fields. -/
  name : Json → Option String
  /-- The slots of declared fields in a record. -/
  fields : {α : Type} → List Json.Field → List (String × α) → Option (List (Option α))
  /-- The slots of declared fields in a list. -/
  items : {α : Type} → List Json.Field → List α → Option (List (Option α))
  /-- The name of a choice with fields, which stands under a tag, and the document of the fields. -/
  variant : String → Json → Option (String × Json)
  /-- The choice among several readings of one document, each of which may fail. -/
  choose : {α : Type} → List (Option α) → Option α

namespace Format

/-- The slots of a structure in either form. -/
def slots (F : Format) (declared : List Json.Field) : Json → Option (List (Option Json))
  | .record fields => F.fields declared fields
  | .list items => F.items declared items
  | _ => none

/-- Compact texts, structures in both of their forms, and the first reading that does not fail. -/
def standard : Format where
  render := Json.render
  parse := Json.parse
  integer := Json.Number.toInt64?
  double n := some n.toBinary64
  writeUuid := Uuid.write
  readUuid := Uuid.read
  writeInstant := Instant.write
  readInstant := Instant.read
  name := Json.toName
  fields := Json.slotsOfFields
  items := Json.slotsOfItems
  variant := Json.variantOf
  choose readings := readings.findSome? id

end Format

end ObjectQuery
