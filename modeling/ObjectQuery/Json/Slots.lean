import ObjectQuery.Json

/-!
# Slots of a structured document

A structure with declared fields may be written as a record, in any order and with other fields in
between, or as a list of its fields in declared order. Both give one slot per declared field, empty
where a field is missing that may be.

* `Field`: a declared field, which must be given or may be missing.
* `slotsOfFields`/`slotsOfItems`: the slots of either form.
* `variantOf`: the name that a document starts with and what it says besides.
* `required`, `orElse`, `maybe`: reading a slot that must be filled, that has a default, or whose
  absence and null both mean none.
-/

namespace ObjectQuery.Json

/-- A declared field of a structure. -/
inductive Field where
  | required (name : String)
  /-- The field has a default and may be missing. -/
  | optional (name : String)
  deriving DecidableEq, Repr, Inhabited

/-- The name of a field. -/
def Field.name : Field → String
  | required name | optional name => name

/-- Whether a field must be given. -/
def Field.isRequired : Field → Bool
  | required _ => true
  | optional _ => false

/-- The slot of a declared field. There is none if several fields have its name, or if none has the
name of a field that must be given. -/
def slotOf {α : Type} (fields : List (String × α)) (field : Field) : Option (Option α) :=
  match fields.filter (·.1 == field.name) with
  | [] => if field.isRequired then none else some none
  | [given] => some (some given.2)
  | _ => none

/-- The slots of the declared fields in a record. -/
def slotsOfFields {α : Type} (declared : List Field) (fields : List (String × α)) :
    Option (List (Option α)) :=
  declared.mapM (slotOf fields)

/-- The slots of the declared fields in a list, which may stop early, in front of fields that may be
missing, but not go on. -/
def slotsOfItems {α : Type} (declared : List Field) (items : List α) : Option (List (Option α)) :=
  if declared.length < items.length || (declared.drop items.length).any (·.isRequired) then none
  else some (items.map some ++ List.replicate (declared.length - items.length) none)

/-- The name that stands under a tag in a record, with the record of the other fields, or at the
start of a list, with the list of the other items. -/
def variantOf (tag : String) : Json → Option (String × Json)
  | record fields =>
    match fields.filter (·.1 == tag) with
    | [(_, text name)] => some (name, record (fields.filter (·.1 != tag)))
    | _ => none
  | list (text name :: items) => some (name, list items)
  | _ => none

/-! ## Reading a slot -/

/-- A slot that must be filled. -/
def required {α β : Type} (read : α → Option β) : Option α → Option β
  | some j => read j
  | none => none

/-- A slot whose absence means a default value. -/
def orElse {α β : Type} (default : β) (read : α → Option β) : Option α → Option β
  | some j => read j
  | none => some default

/-- A slot for an optional value: absence and null mean none. -/
def maybe {β : Type} (read : Json → Option β) : Option Json → Option (Option β)
  | none | some null => some none
  | some j => (read j).map some

/-! ## Simple values -/

/-- A truth value. -/
def toBool : Json → Option Bool
  | bool b => some b
  | _ => none

/-- A number. -/
def toNumber : Json → Option Number
  | number n => some n
  | _ => none

/-- A text. -/
def toText : Json → Option String
  | text s => some s
  | _ => none

/-- A list whose items are all read. -/
def toList {α : Type} (read : Json → Option α) : Json → Option (List α)
  | list items => items.mapM read
  | _ => none

/-- A choice among names: the name, or a record with the name as its only field and null in it. -/
def toName : Json → Option String
  | text s => some s
  | record [(name, null)] => some name
  | _ => none

end ObjectQuery.Json
