import ObjectQuery.Number.Decimal
import ObjectQuery.Text.Pieces

/-!
# JSON documents

A document as a tree, and its compact text.

* `Json`: the tree. Records keep their fields in written order, a name as often as it is written.
* `Json.render`: the text without blanks, with as few escapes as possible.
* `Json.isReadable`: no part of the document is `unreadable`.
-/

namespace ObjectQuery

/-- A number: an integer of at most 64 bits, or a double. -/
inductive Json.Number where
  | integer (i : Int)
  | real (x : Binary64)
  deriving DecidableEq, Repr, Inhabited

/-- A JSON document. -/
inductive Json where
  | null
  | bool (b : Bool)
  | number (n : Json.Number)
  | text (s : String)
  | list (items : List Json)
  | record (fields : List (String × Json))
  /-- Well-formed, but naming no value: a number beyond the largest double, a text with half of a
  surrogate pair, or a list or record nested too deeply. It can only be passed over. -/
  | unreadable
  deriving Inhabited

namespace Json

/-- A list of texts. -/
def texts (items : List String) : Json := .list (items.map .text)

/-- An integer. -/
def int (i : Int) : Json := .number (.integer i)

/-- A natural number. -/
def nat (n : Nat) : Json := .number (.integer n)

/-- The text or null. -/
def optional (s : Option String) : Json :=
  match s with
  | none => .null
  | some s => .text s

mutual

/-- Whether every part of the document names a value. -/
def isReadable : Json → Bool
  | null | bool _ | number _ | text _ => true
  | list items => areReadable items
  | record fields => fieldsReadable fields
  | unreadable => false

/-- Whether every item names a value. -/
def areReadable : List Json → Bool
  | [] => true
  | item :: items => isReadable item && areReadable items

/-- Whether every field names a value. -/
def fieldsReadable : List (String × Json) → Bool
  | [] => true
  | (_, value) :: fields => isReadable value && fieldsReadable fields

end

/-! ## Text -/

/-- A hexadecimal digit in lower case. -/
def hexDigit (n : Nat) : Char :=
  if n % 16 < 10 then Char.ofNat (0x30 + n % 16) else Char.ofNat (0x57 + n % 16)

/-- One character of a text: only the quote, the backslash and control characters are escaped. -/
def escapeChar (c : Char) : List Char :=
  if c = '"' then ['\\', '"']
  else if c = '\\' then ['\\', '\\']
  else if 0x20 ≤ c.toNat then [c]
  else if c = '\n' then ['\\', 'n']
  else if c = '\t' then ['\\', 't']
  else if c = '\r' then ['\\', 'r']
  else if c.toNat = 0x08 then ['\\', 'b']
  else if c.toNat = 0x0c then ['\\', 'f']
  else ['\\', 'u', '0', '0', hexDigit (c.toNat / 16), hexDigit c.toNat]

/-- A text in quotes. -/
def quote (s : String) : String :=
  String.ofList ('"' :: s.toList.flatMap escapeChar ++ ['"'])

/-- A number. What is not finite has no JSON form and is written as null. -/
def Number.render : Number → String
  | .integer i => String.ofList (Digits.ofInt i)
  | .real x => if x.isFinite then Decimal.write Decimal.operandLayout x else "null"

mutual

/-- The compact text of a document. -/
def render : Json → String
  | null | unreadable => "null"
  | bool b => if b then "true" else "false"
  | number n => n.render
  | text s => quote s
  | list items => "[" ++ renderItems items ++ "]"
  | record fields => "\x7b" ++ renderFields fields ++ "\x7d"

/-- The items with commas between them. -/
def renderItems : List Json → String
  | [] => ""
  | [item] => render item
  | item :: items => render item ++ "," ++ renderItems items

/-- The fields with commas between them. -/
def renderFields : List (String × Json) → String
  | [] => ""
  | [(name, value)] => quote name ++ ":" ++ render value
  | (name, value) :: fields => quote name ++ ":" ++ render value ++ "," ++ renderFields fields

end

end Json

end ObjectQuery
