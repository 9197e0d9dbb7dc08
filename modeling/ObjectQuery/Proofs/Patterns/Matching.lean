import ObjectQuery.Pattern
import Mathlib.Data.List.Infix

/-!
# What a pattern matches

`Pattern.like` is the matching rule of `LIKE`: `%` stands for any text, `_` for one character, and
the character after the escape character for itself.

* `Pattern.accepts_chars_append`: characters that stand for themselves match one text only.
* `Pattern.accepts_many`: a wildcard passes over the start of a text.
* `MatchMode.accepts_tokens`: the tokens of a value with wildcards match the texts in which the
  value is found.
-/

namespace ObjectQuery

namespace Pattern

/-- What a character of a pattern asks for. -/
inductive Token where
  /-- The character itself. -/
  | char (c : Char)
  /-- Any one character. -/
  | one
  /-- Any text, also the empty one. -/
  | many
  deriving DecidableEq, Repr

/-- A character of a pattern that is not escaped. -/
def Token.ofChar (c : Char) : Token :=
  if c = '%' then .many else if c = '_' then .one else .char c

/-- A pattern read with an escape character. One that ends with it cannot be read. -/
def tokens (escape : Option Char) : List Char → Option (List Token)
  | [] => some []
  | [c] => if escape = some c then none else some [Token.ofChar c]
  | c :: next :: rest =>
    if escape = some c then (tokens escape rest).map (.char next :: ·)
    else (tokens escape (next :: rest)).map (Token.ofChar c :: ·)

/-- Whether a pattern that was read matches a whole text. -/
def accepts : List Token → List Char → Bool
  | [], s => s.isEmpty
  | .char _ :: _, [] => false
  | .char c :: p, x :: s => x == c && accepts p s
  | .one :: _, [] => false
  | .one :: p, _ :: s => accepts p s
  | .many :: p, s => s.tails.any fun rest => accepts p rest

/-- Whether `LIKE` with an escape character matches a text. -/
def like (escape : Option Char) (pattern subject : String) : Bool :=
  (tokens escape pattern.toList).any fun p => accepts p subject.toList

variable {escape : Option Char} {c : Char}

theorem Token.ofChar_of_plain (hmany : c ≠ '%') (hone : c ≠ '_') : ofChar c = .char c := by
  rw [ofChar, if_neg hmany, if_neg hone]

theorem tokens_cons (h : escape ≠ some c) (rest : List Char) :
    tokens escape (c :: rest) = (tokens escape rest).map (Token.ofChar c :: ·) := by
  cases rest <;> simp [tokens, h]

theorem tokens_escaped (e literal : Char) (rest : List Char) :
    tokens (some e) (e :: literal :: rest) =
      (tokens (some e) rest).map (.char literal :: ·) := by
  rw [tokens, if_pos rfl]

theorem tokens_wildcard (h : escape ≠ some '%') (rest : List Char) :
    tokens escape ('%' :: rest) = (tokens escape rest).map (.many :: ·) :=
  tokens_cons h rest

@[simp]
theorem accepts_nil {s : List Char} : accepts [] s = true ↔ s = [] := by
  rw [accepts, List.isEmpty_iff]

@[simp]
theorem accepts_many {p : List Token} {s : List Char} :
    accepts (.many :: p) s = true ↔ ∃ rest, rest <:+ s ∧ accepts p rest = true := by
  simp only [accepts, List.any_eq_true, List.mem_tails]

/-- Characters that stand for themselves match these characters, the tokens after them the rest. -/
theorem accepts_chars_append {p : List Token} (v s : List Char) :
    accepts (v.map .char ++ p) s = true ↔ ∃ rest, s = v ++ rest ∧ accepts p rest = true := by
  induction v generalizing s with
  | nil => simp
  | cons c v ih =>
    cases s with
    | nil => simp [accepts]
    | cons x s => simp [accepts, ih, and_assoc]

theorem accepts_chars (v s : List Char) : accepts (v.map .char) s = true ↔ s = v := by
  simpa using accepts_chars_append (p := []) v s

theorem accepts_many_nil (s : List Char) : accepts [.many] s = true :=
  accepts_many.mpr ⟨[], List.nil_suffix, rfl⟩

end Pattern

/-! ## Where a value is found -/

namespace MatchMode

open Pattern

/-- What a pattern made of a value asks for: the value's characters, with wildcards on the sides
where a match may have more text. -/
def tokens (value : List Char) : MatchMode → List Token
  | .exact => value.map .char
  | .start => value.map .char ++ [.many]
  | .ending => .many :: value.map .char
  | .anywhere => .many :: (value.map .char ++ [.many])

/-- A text is equal to a value, starts with it, ends with it or has it anywhere. -/
def Finds : MatchMode → List Char → List Char → Prop
  | .exact, value, subject => subject = value
  | .start, value, subject => value <+: subject
  | .ending, value, subject => value <:+ subject
  | .anywhere, value, subject => value <:+: subject

theorem accepts_start (value subject : List Char) :
    accepts (value.map .char ++ [.many]) subject = true ↔ value <+: subject := by
  rw [accepts_chars_append]
  constructor
  · rintro ⟨rest, rfl, -⟩
    exact List.prefix_append _ _
  · rintro ⟨rest, rfl⟩
    exact ⟨rest, rfl, accepts_many_nil rest⟩

theorem accepts_tokens (mode : MatchMode) (value subject : List Char) :
    accepts (mode.tokens value) subject = true ↔ mode.Finds value subject := by
  cases mode with
  | exact => exact accepts_chars value subject
  | start => exact accepts_start value subject
  | ending => simp [tokens, Finds, accepts_chars]
  | anywhere =>
    rw [tokens, accepts_many]
    simp only [accepts_start]
    constructor
    · rintro ⟨rest, hsuffix, hprefix⟩
      exact hprefix.isInfix.trans hsuffix.isInfix
    · intro h
      obtain ⟨rest, hprefix, hsuffix⟩ := List.infix_iff_prefix_suffix.mp h
      exact ⟨rest, hsuffix, hprefix⟩

end MatchMode

end ObjectQuery
