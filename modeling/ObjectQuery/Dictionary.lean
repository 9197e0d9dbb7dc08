/-!
# Dictionaries

A dictionary is a list of keys with values in the order in which the keys came.

* `Dictionary.find?`: the value of a key.
* `Dictionary.insert`: a new value for a key, in its old place if it had one.
* `Dictionary.modify`: a changed value for a key that is there.
-/

namespace ObjectQuery

/-- Keys with values, in the order in which the keys came. -/
abbrev Dictionary (κ α : Type) := List (κ × α)

namespace Dictionary

variable {κ α : Type} [DecidableEq κ]

/-- The value of a key. -/
def find? (key : κ) : Dictionary κ α → Option α
  | [] => none
  | (k, a) :: rest => if k = key then some a else find? key rest

/-- Gives a key a value, in place of the one it had. -/
def insert (key : κ) (value : α) : Dictionary κ α → Dictionary κ α
  | [] => [(key, value)]
  | (k, a) :: rest => if k = key then (k, value) :: rest else (k, a) :: insert key value rest

/-- Changes the value of a key. -/
def modify (key : κ) (change : α → α) (entries : Dictionary κ α) : Dictionary κ α :=
  entries.map fun (k, a) => if k = key then (k, change a) else (k, a)

/-- Whether a key has a value. -/
def hasKey (key : κ) (entries : Dictionary κ α) : Bool := (find? key entries).isSome

theorem find?_insert_self (key : κ) (value : α) (entries : Dictionary κ α) :
    find? key (insert key value entries) = some value := by
  induction entries with
  | nil => simp [insert, find?]
  | cons entry rest ih =>
    obtain ⟨k, a⟩ := entry
    by_cases h : k = key <;> simp [insert, find?, h, ih]

theorem find?_insert_of_ne {key other : κ} (h : other ≠ key) (value : α)
    (entries : Dictionary κ α) : find? other (insert key value entries) = find? other entries := by
  induction entries with
  | nil => simp [insert, find?, h.symm]
  | cons entry rest ih =>
    obtain ⟨k, a⟩ := entry
    by_cases hk : k = key
    · subst hk
      simp [insert, find?, h.symm]
    · simp [insert, find?, hk, ih]

theorem find?_insert (key other : κ) (value : α) (entries : Dictionary κ α) :
    find? other (insert key value entries) =
      if other = key then some value else find? other entries := by
  split
  · rename_i heq
    rw [heq, find?_insert_self]
  · rename_i hne
    exact find?_insert_of_ne hne value entries

theorem find?_modify (key other : κ) (change : α → α) (entries : Dictionary κ α) :
    find? key (modify other change entries) =
      (find? key entries).map fun a => if key = other then change a else a := by
  induction entries with
  | nil => rfl
  | cons entry rest ih =>
    obtain ⟨k, a⟩ := entry
    have hcons : modify other change ((k, a) :: rest) =
        (k, if k = other then change a else a) :: modify other change rest := by
      by_cases ho : k = other <;> simp [modify, ho]
    rw [hcons, find?, find?, ih]
    by_cases hk : k = key
    · rw [if_pos hk, if_pos hk, hk]
      rfl
    · rw [if_neg hk, if_neg hk]

end Dictionary

end ObjectQuery
