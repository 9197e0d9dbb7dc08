import ObjectQuery.Json.Format

/-!
# Operand values

The values that filters compare properties with.

* `Value.elements`: the items of a list, or the value itself as the only one.
* `Value.hasEntities`: whether one of them refers to an entity.
* `Value.bind`: the form in which a value is bound to a statement.
-/

namespace ObjectQuery

/-- A reference to a stored entity. -/
structure EntityRef where
  className : String
  id : String
  deriving DecidableEq, Repr, Inhabited

/-- The operand of a comparison. -/
inductive Value where
  | null
  | bool (b : Bool)
  | int (i : Int64)
  | float (x : Binary64)
  | uuid (u : Uuid)
  | instant (t : Instant)
  | text (s : String)
  | entity (e : EntityRef)
  | list (items : List Value)
  deriving Repr, Inhabited

namespace Value

/-- Whether the value is null. -/
def isNull : Value → Bool
  | null => true
  | _ => false

/-- Whether the value is a text. -/
def isText : Value → Bool
  | text _ => true
  | _ => false

/-- Whether the value refers to an entity. -/
def isEntity : Value → Bool
  | entity _ => true
  | _ => false

/-- Whether the value is a list. -/
def isList : Value → Bool
  | list _ => true
  | _ => false

/-- The text of a text value. -/
def text? : Value → Option String
  | text s => some s
  | _ => none

/-- The items of a list, or the value itself as the only item. -/
def elements : Value → List Value
  | list items => items
  | v => [v]

/-- Whether the value, or an item of it, refers to an entity. -/
def hasEntities (v : Value) : Bool := v.elements.any isEntity

/-! ## JSON -/

section

variable (F : Format)

mutual

/-- The document of a value: identifiers and instants as texts, entities as records. -/
def document : Value → Json
  | null => .null
  | bool b => .bool b
  | int i => .number (.integer i.toInt)
  | float x => .number (.real x)
  | uuid u => .text (F.writeUuid u)
  | instant t => .text (F.writeInstant t)
  | text s => .text s
  | entity e => .record [("class", .text e.className), ("id", .text e.id)]
  | list items => .list (documents items)

/-- The documents of the items of a list. -/
def documents : List Value → List Json
  | [] => []
  | v :: rest => document v :: documents rest

end

/-- A reference to an entity: a structure of two texts. -/
def entity? (j : Json) : Option EntityRef := do
  match ← F.slots [.required "class", .required "id"] j with
  | [className, id] =>
    some ⟨← Json.required Json.toText className, ← Json.required Json.toText id⟩
  | _ => none

/-- The choice among all kinds of values, in the order of their declaration. `items` are the values
of a list. -/
def choose (j : Json) (items : Option (List Value)) : Option Value :=
  F.choose
    [match j with
      | .null => some null
      | _ => none,
      j.toBool.map bool,
      (j.toNumber.bind F.integer).map int,
      (j.toNumber.bind F.double).map float,
      (j.toText.bind F.readUuid).map uuid,
      (j.toText.bind F.readInstant).map instant,
      j.toText.map text,
      (entity? F j).map entity,
      items.map list]

mutual

/-- The value of a readable document. -/
def ofReadable : Json → Option Value
  | .list items => choose F (.list items) (ofReadableItems items)
  | j => choose F j none

/-- The values of the items of a list. -/
def ofReadableItems : List Json → Option (List Value)
  | [] => some []
  | j :: rest =>
    match ofReadable j, ofReadableItems rest with
    | some v, some values => some (v :: values)
    | _, _ => none

end

/-- The value of a document. -/
def ofDocument (j : Json) : Option Value := if j.isReadable then ofReadable F j else none

/-- The JSON text of a value. -/
def write (v : Value) : String := F.render (document F v)

/-- The value that a JSON text writes. -/
def read (s : String) : Option Value := (F.parse s).bind (ofDocument F)

end

/-- The document of a value in the standard format. -/
def toJson : Value → Json := document .standard

/-- The value of a document in the standard format. -/
def ofJson : Json → Option Value := ofDocument .standard

/-- The value of a number: an integer if it is one of 64 bits with sign, and a double otherwise. -/
def ofNumber (n : Json.Number) : Value := (n.toInt64?.map int).getD (float n.toBinary64)

/-- The JSON text of a value. -/
def render (v : Value) : String := v.write .standard

/-! ## Binding -/

/-- A value as it is bound to a statement. -/
inductive Bound where
  | bool (b : Bool)
  | bigInt (i : Int64)
  | double (x : Binary64)
  | uuid (u : Uuid)
  | instant (t : Instant)
  | text (s : Option String)
  | json (document : String)
  deriving Repr, Inhabited

/-- Entities are bound as their identifiers, lists as JSON texts, and null as a missing text. -/
def bind : Value → Bound
  | null => .text none
  | bool b => .bool b
  | int i => .bigInt i
  | float x => .double x
  | uuid u => .uuid u
  | instant t => .instant t
  | text s => .text (some s)
  | entity e => .text (some e.id)
  | list items => .json (list items).render

end Value

end ObjectQuery
