import Mathlib.Data.List.Basic
import Mathlib.Data.Nat.Basic
import Mathlib.Order.Lattice
import ObjectQuery.Json.Reader

/-!
# Documents as trees

What is changed in a document that is written and read again, whatever the reader makes of numbers.

* `Json.induction`: a property of all documents from the items of a list and the fields of a record.
* `Json.reread`: the document that is read for a document without regard to its nesting. Only
  numbers are changed, and what has no text of its own.
* `Json.clip`: the document with an unreadable part in place of each list and record that stands
  within more than a number of others, and `Json.depth`, the greatest such number.
* `Json.FitsWithin`: a document that is read back at some nesting, whatever becomes of numbers.
-/

namespace ObjectQuery.Json

/-! ## Parts of a document -/

/-- A property holds of every document if it passes from the items of a list to the list and from
the values of a record to the record. -/
@[elab_as_elim]
theorem induction {P : Json → Prop} (null : P null) (bool : ∀ b, P (bool b))
    (number : ∀ n, P (number n)) (text : ∀ s, P (text s))
    (list : ∀ items, (∀ j ∈ items, P j) → P (list items))
    (record : ∀ fields : List (String × Json), (∀ field ∈ fields, P field.2) → P (record fields))
    (unreadable : P unreadable) (j : Json) : P j := by
  refine Json.rec (motive_1 := P) (motive_2 := fun items => ∀ j ∈ items, P j)
    (motive_3 := fun fields => ∀ field ∈ fields, P field.2) (motive_4 := fun field => P field.2)
    null bool number text list record unreadable ?_ ?_ ?_ ?_ ?_ j
  case refine_1 => exact fun j hj => absurd hj List.not_mem_nil
  case refine_2 => exact fun j items ih ihitems => List.forall_mem_cons.mpr ⟨ih, ihitems⟩
  case refine_3 => exact fun field hfield => absurd hfield List.not_mem_nil
  case refine_4 => exact fun field fields ih ihfields => List.forall_mem_cons.mpr ⟨ih, ihfields⟩
  case refine_5 => exact fun name value ih => ih

section

variable (ofNumber : Number → Json)

mutual

/-- The document that is read for the text of a document without regard to its nesting, if
`ofNumber` is what is read for a number. -/
def reread : Json → Json
  | null | unreadable => null
  | bool b => bool b
  | number n => ofNumber n
  | text s => text s
  | list items => list (rereadItems items)
  | record fields => record (rereadFields fields)

/-- The documents that are read for the items of a list. -/
def rereadItems : List Json → List Json
  | [] => []
  | item :: items => reread item :: rereadItems items

/-- The fields that are read for the fields of a record. -/
def rereadFields : List (String × Json) → List (String × Json)
  | [] => []
  | (name, value) :: fields => (name, reread value) :: rereadFields fields

end

end

mutual

/-- Greatest number of lists and records around a part, itself included. -/
def depth : Json → Nat
  | list items => depthOfItems items + 1
  | record fields => depthOfFields fields + 1
  | null | bool _ | number _ | text _ | unreadable => 0

/-- Greatest depth of an item. -/
def depthOfItems : List Json → Nat
  | [] => 0
  | item :: items => max (depth item) (depthOfItems items)

/-- Greatest depth of a value of a record. -/
def depthOfFields : List (String × Json) → Nat
  | [] => 0
  | (_, value) :: fields => max (depth value) (depthOfFields fields)

end

mutual

/-- What is left of a document of which only `limit` lists and records may be nested. -/
def clip (limit : Nat) : Json → Json
  | list items => if limit = 0 then unreadable else list (clipItems (limit - 1) items)
  | record fields => if limit = 0 then unreadable else record (clipFields (limit - 1) fields)
  | null => null
  | bool b => bool b
  | number n => number n
  | text s => text s
  | unreadable => unreadable

/-- What is left of the items of a list. -/
def clipItems (limit : Nat) : List Json → List Json
  | [] => []
  | item :: items => clip limit item :: clipItems limit items

/-- What is left of the fields of a record. -/
def clipFields (limit : Nat) : List (String × Json) → List (String × Json)
  | [] => []
  | (name, value) :: fields => (name, clip limit value) :: clipFields limit fields

end

variable {ofNumber : Number → Json}

theorem rereadItems_eq (items : List Json) :
    rereadItems ofNumber items = items.map (reread ofNumber) := by
  induction items with
  | nil => rfl
  | cons item items ih => rw [rereadItems, ih, List.map_cons]

theorem rereadFields_eq (fields : List (String × Json)) :
    rereadFields ofNumber fields = fields.map fun field => (field.1, reread ofNumber field.2) := by
  induction fields with
  | nil => rfl
  | cons field fields ih => rw [rereadFields, ih, List.map_cons]

theorem rereadItems_eq_self_iff {items : List Json} :
    rereadItems ofNumber items = items ↔ ∀ j ∈ items, reread ofNumber j = j := by
  induction items with
  | nil => simp [rereadItems]
  | cons item items ih => simp [rereadItems, ih]

theorem rereadFields_eq_self_iff {fields : List (String × Json)} :
    rereadFields ofNumber fields = fields ↔
      ∀ field ∈ fields, reread ofNumber field.2 = field.2 := by
  induction fields with
  | nil => simp [rereadFields]
  | cons field fields ih =>
    obtain ⟨name, value⟩ := field
    rw [rereadFields, List.cons.injEq, Prod.mk.injEq, ih, List.forall_mem_cons, eq_self, true_and]

theorem depthOfItems_le {items : List Json} {n : Nat} :
    depthOfItems items ≤ n ↔ ∀ j ∈ items, depth j ≤ n := by
  induction items with
  | nil => simp [depthOfItems]
  | cons item items ih => simp [depthOfItems, ih]

theorem depthOfFields_le {fields : List (String × Json)} {n : Nat} :
    depthOfFields fields ≤ n ↔ ∀ field ∈ fields, depth field.2 ≤ n := by
  induction fields with
  | nil => simp [depthOfFields]
  | cons field fields ih => simp [depthOfFields, ih]

theorem clipItems_eq (limit : Nat) (items : List Json) :
    clipItems limit items = items.map (clip limit) := by
  induction items with
  | nil => rfl
  | cons item items ih => rw [clipItems, ih, List.map_cons]

theorem clipFields_eq (limit : Nat) (fields : List (String × Json)) :
    clipFields limit fields = fields.map fun field => (field.1, clip limit field.2) := by
  induction fields with
  | nil => rfl
  | cons field fields ih => rw [clipFields, ih, List.map_cons]

theorem areReadable_iff {items : List Json} :
    areReadable items = true ↔ ∀ j ∈ items, isReadable j = true := by
  induction items with
  | nil => simp [areReadable]
  | cons item items ih => simp [areReadable, ih]

theorem fieldsReadable_iff {fields : List (String × Json)} :
    fieldsReadable fields = true ↔ ∀ field ∈ fields, isReadable field.2 = true := by
  induction fields with
  | nil => simp [fieldsReadable]
  | cons field fields ih => simp [fieldsReadable, ih]

/-! ## Nesting -/

/-- Nothing is taken from a document that is nested less deeply than the limit. -/
theorem clip_of_depth_le {j : Json} {limit : Nat} (h : depth j ≤ limit) : clip limit j = j := by
  induction j using Json.induction generalizing limit with
  | null | bool _ | number _ | text _ | unreadable => rfl
  | list items ih =>
    rw [depth] at h
    have hitems : items.map (clip (limit - 1)) = items := by
      rw [List.map_congr_left (g := id), List.map_id]
      exact fun j hj => ih j hj (depthOfItems_le.mp (by omega) j hj)
    rw [clip, if_neg (by omega), clipItems_eq, hitems]
  | record fields ih =>
    rw [depth] at h
    have hfields : (fields.map fun field => (field.1, clip (limit - 1) field.2)) = fields := by
      rw [List.map_congr_left (g := id), List.map_id]
      intro field hfield
      rw [ih field hfield (depthOfFields_le.mp (by omega) field hfield)]
      rfl
    rw [clip, if_neg (by omega), clipFields_eq, hfields]

/-- A deeper nesting leaves an unreadable part. -/
theorem isReadable_clip {j : Json} {limit : Nat} :
    isReadable (clip limit j) = true ↔ isReadable j = true ∧ depth j ≤ limit := by
  induction j using Json.induction generalizing limit with
  | null | bool _ | number _ | text _ | unreadable => simp [clip, isReadable, depth]
  | list items ih =>
    rw [clip, depth, isReadable, areReadable_iff]
    split
    · simp [isReadable]
      omega
    · rename_i hlimit
      rw [isReadable, areReadable_iff, clipItems_eq, List.forall_mem_map,
        ← Nat.le_sub_iff_add_le (Nat.pos_of_ne_zero hlimit), depthOfItems_le, ← forall₂_and]
      exact forall₂_congr fun j hj => ih j hj
  | record fields ih =>
    rw [clip, depth, isReadable, fieldsReadable_iff]
    split
    · simp [isReadable]
      omega
    · rename_i hlimit
      rw [isReadable, fieldsReadable_iff, clipFields_eq, List.forall_mem_map,
        ← Nat.le_sub_iff_add_le (Nat.pos_of_ne_zero hlimit), depthOfFields_le, ← forall₂_and]
      exact forall₂_congr fun field hfield => ih field hfield

theorem isReadable_of_reread_eq_self {j : Json} (h : j.reread ofNumber = j) :
    j.isReadable = true := by
  induction j using Json.induction with
  | null | bool _ | number _ | text _ => rfl
  | unreadable => cases h
  | list items ih =>
    rw [reread, list.injEq, rereadItems_eq_self_iff] at h
    exact areReadable_iff.mpr fun j hj => ih j hj (h j hj)
  | record fields ih =>
    rw [reread, record.injEq, rereadFields_eq_self_iff] at h
    exact fieldsReadable_iff.mpr fun field hfield => ih field hfield (h field hfield)

theorem clip_reread_list (limit : Nat) (items : List Json) :
    clip (limit + 1) ((list items).reread ofNumber) =
      list (items.map fun j => clip limit (j.reread ofNumber)) := by
  rw [reread, clip, if_neg (Nat.succ_ne_zero limit), rereadItems_eq, clipItems_eq, List.map_map]
  rfl

theorem clip_reread_record (limit : Nat) (fields : List (String × Json)) :
    clip (limit + 1) ((record fields).reread ofNumber) =
      record (fields.map fun field => (field.1, clip limit (field.2.reread ofNumber))) := by
  rw [reread, clip, if_neg (Nat.succ_ne_zero limit), rereadFields_eq, clipFields_eq, List.map_map]
  rfl

section

variable (hnumber : ∀ n, depth (ofNumber n) = 0)

include hnumber

/-- What is read is nested like what is written if numbers have no parts. -/
theorem depth_reread (j : Json) : depth (reread ofNumber j) = depth j := by
  induction j using Json.induction with
  | null | bool _ | text _ | unreadable => rfl
  | number n => exact hnumber n
  | list items ih =>
    rw [reread, depth, depth, rereadItems_eq]
    refine congrArg (· + 1) (eq_of_forall_ge_iff fun n => ?_)
    rw [depthOfItems_le, depthOfItems_le, List.forall_mem_map]
    exact forall₂_congr fun j hj => by rw [ih j hj]
  | record fields ih =>
    rw [reread, depth, depth, rereadFields_eq]
    refine congrArg (· + 1) (eq_of_forall_ge_iff fun n => ?_)
    rw [depthOfFields_le, depthOfFields_le, List.forall_mem_map]
    exact forall₂_congr fun field hfield => by rw [ih field hfield]

/-- Documents that are looked at only if they are readable: what is nested too deeply is nothing. -/
theorem ite_isReadable_clip_eq_some_iff {α : Type} (read : Json → Option α) {j : Json}
    {limit : Nat} {a : α} :
    (if (clip limit (j.reread ofNumber)).isReadable then read (clip limit (j.reread ofNumber))
      else none) = some a ↔
      j.depth ≤ limit ∧ (j.reread ofNumber).isReadable = true ∧
        read (j.reread ofNumber) = some a := by
  rw [Option.ite_none_right_eq_some, isReadable_clip, depth_reread hnumber,
    and_comm (a := _ = true), and_assoc]
  refine and_congr_right fun hdepth => ?_
  rw [clip_of_depth_le (by rwa [depth_reread hnumber])]

end

/-! ## Being read back -/

/-- The document is read back whatever becomes of numbers, and at most `n` lists and records are
around its parts. -/
structure FitsWithin (j : Json) (n : Nat) : Prop where
  reread_eq : ∀ ofNumber, j.reread ofNumber = j
  depth_le : j.depth ≤ n

section

variable {α : Type}

theorem FitsWithin.mono {j : Json} {m n : Nat} (h : j.FitsWithin m) (hmn : m ≤ n) :
    j.FitsWithin n :=
  ⟨h.reread_eq, Nat.le_trans h.depth_le hmn⟩

theorem fitsWithin_text (s : String) (n : Nat) : (text s).FitsWithin n :=
  ⟨fun _ => rfl, Nat.zero_le n⟩

theorem fitsWithin_bool (b : Bool) (n : Nat) : (bool b).FitsWithin n :=
  ⟨fun _ => rfl, Nat.zero_le n⟩

theorem fitsWithin_optional (s : Option String) (n : Nat) : (optional s).FitsWithin n := by
  cases s <;> exact ⟨fun _ => rfl, Nat.zero_le n⟩

theorem fitsWithin_list_map {write : α → Json} {as : List α} {n : Nat}
    (h : ∀ a ∈ as, (write a).FitsWithin n) : (list (as.map write)).FitsWithin (n + 1) where
  reread_eq ofNumber := by
    rw [reread, list.injEq, rereadItems_eq_self_iff, List.forall_mem_map]
    exact fun a ha => (h a ha).reread_eq ofNumber
  depth_le := by
    rw [depth, Nat.add_le_add_iff_right, depthOfItems_le, List.forall_mem_map]
    exact fun a ha => (h a ha).depth_le

theorem fitsWithin_texts (items : List String) (n : Nat) : (texts items).FitsWithin (n + 1) :=
  fitsWithin_list_map fun s _ => fitsWithin_text s n

theorem fitsWithin_record {fields : List (String × Json)} {n : Nat}
    (h : ∀ field ∈ fields, field.2.FitsWithin n) : (record fields).FitsWithin (n + 1) where
  reread_eq ofNumber := by
    rw [reread, record.injEq, rereadFields_eq_self_iff]
    exact fun field hfield => (h field hfield).reread_eq ofNumber
  depth_le := Nat.succ_le_succ (depthOfFields_le.mpr fun field hfield => (h field hfield).depth_le)

theorem FitsWithin.clip_reread {j : Json} {n : Nat} (h : j.FitsWithin n)
    (ofNumber : Number → Json) : clip n (j.reread ofNumber) = j := by
  rw [h.reread_eq, clip_of_depth_le h.depth_le]

theorem FitsWithin.isReadable {j : Json} {n : Nat} (h : j.FitsWithin n) : j.isReadable = true :=
  isReadable_of_reread_eq_self (h.reread_eq Json.number)

end

end ObjectQuery.Json
