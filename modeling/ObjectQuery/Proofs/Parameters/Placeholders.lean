import ObjectQuery.Proofs.Parameters.ColonFree
import ObjectQuery.Statement

/-!
# Placeholders in a text

* `Text.placeholderNames`: the names of the placeholders of a text, as its reader finds them.
* `Text.Shows`: a text shows parameters, whatever follows it. Only a digit that follows could be
  taken for a part of the last placeholder.
* `Text.Shows.append`, `Text.shows_joinWith`, ...: texts put together from others.
-/

namespace ObjectQuery

namespace Text

/-- What every placeholder starts with. -/
def placeholderStart : List Char := [':', 'p', 'a', 'r', 'a', 'm']

/-- The names behind colons: `param` and the digits that follow. -/
def placeholderNames : List Char → List String
  | [] => []
  | c :: rest =>
    if placeholderStart.isPrefixOf (c :: rest) then
      ("param" ++ String.ofList ((rest.drop 5).takeWhile Digits.isDigit)) :: placeholderNames rest
    else placeholderNames rest

/-- The names of the placeholders in a text, in order. -/
def placeholders (s : String) : List String := placeholderNames s.toList

/-- The text does not start with a digit. -/
def NoDigitFirst (s : List Char) : Prop := ∀ c ∈ s.head?, Digits.isDigit c = false

/-- Whether a text starts with a character that is no digit. -/
def separates (s : String) : Bool := s.toList.head?.any (!Digits.isDigit ·)

/-- The text shows the parameters with the numbers, and no others, in front of any text that does
not start with a digit. -/
def Shows (s : String) (numbers : List Nat) : Prop :=
  ∀ t, NoDigitFirst t →
    placeholderNames (s.toList ++ t) = numbers.map parameterName ++ placeholderNames t

theorem NoDigitFirst.append {s t : List Char} (hs : NoDigitFirst s) (ht : NoDigitFirst t) :
    NoDigitFirst (s ++ t) := by
  cases s with
  | nil => exact ht
  | cons c rest => exact hs

theorem noDigitFirst_append {s : String} (h : separates s = true) (t : String) :
    NoDigitFirst (s ++ t).toList := by
  unfold separates at h
  rw [String.toList_append]
  cases hs : s.toList with
  | nil =>
    rw [hs] at h
    cases h
  | cons c rest =>
    rw [hs] at h
    rintro _ ⟨⟩
    simpa using h

theorem noDigitFirst_of_separates {s : String} (h : separates s = true) : NoDigitFirst s.toList := by
  have hs := noDigitFirst_append h ""
  rwa [String.append_empty] at hs

theorem placeholderNames_append_of_not_mem {s : List Char} (h : ':' ∉ s) (t : List Char) :
    placeholderNames (s ++ t) = placeholderNames t := by
  induction s with
  | nil => rfl
  | cons c rest ih =>
    obtain ⟨hc, hrest⟩ := not_or.mp (fun h' => h (List.mem_cons.mpr h'))
    rw [List.cons_append, placeholderNames, if_neg, ih hrest]
    intro hprefix
    simp only [List.isPrefixOf_iff_prefix] at hprefix
    obtain ⟨rest', hrest'⟩ := hprefix
    exact hc (List.cons.inj hrest').1

/-- The numbers that a whole text shows are those of its placeholders. -/
theorem Shows.placeholders_eq {s : String} {numbers : List Nat} (h : Shows s numbers) :
    placeholders s = numbers.map parameterName := by
  have hnil := h [] (fun c hc => by cases hc)
  rwa [List.append_nil, placeholderNames, List.append_nil] at hnil

theorem Shows.eq_nil {numbers : List Nat} (h : Shows "" numbers) : numbers = [] := by
  have heq : placeholders "" = numbers.map parameterName := h.placeholders_eq
  exact List.map_eq_nil_iff.mp heq.symm

theorem shows_of_colonFree {s : String} (h : ColonFree s) : Shows s [] :=
  fun t _ => placeholderNames_append_of_not_mem h t

theorem Shows.append {s u : String} {ms ns : List Nat} (hs : Shows s ms) (hu : Shows u ns)
    (hdigit : NoDigitFirst u.toList) : Shows (s ++ u) (ms ++ ns) := by
  intro t ht
  rw [String.toList_append, List.append_assoc, hs _ (hdigit.append ht), hu t ht, List.map_append,
    List.append_assoc]

/-- A text without colons in front may also end in front of a digit. -/
theorem Shows.prepend {s u : String} {ns : List Nat} (hu : Shows u ns) (hs : ColonFree s) :
    Shows (s ++ u) ns := by
  intro t ht
  rw [String.toList_append, List.append_assoc, placeholderNames_append_of_not_mem hs, hu t ht]

theorem shows_placeholder (n : Nat) : Shows (placeholder n) [n] := by
  intro t ht
  have hdigits : (Digits.ofNat n ++ t).takeWhile Digits.isDigit = Digits.ofNat n := by
    rw [List.takeWhile_append_of_pos (Digits.isDigit_ofNat n)]
    cases t with
    | nil => simp
    | cons c rest => rw [List.takeWhile_cons_of_neg (by simp [ht c rfl]), List.append_nil]
  have hcolon : ':' ∉ ['p', 'a', 'r', 'a', 'm'] ++ Digits.ofNat n := by
    rw [List.mem_append, not_or]
    exact ⟨by decide, Digits.colonFree_ofNat n⟩
  have hchars : (placeholder n).toList ++ t =
      ':' :: (['p', 'a', 'r', 'a', 'm'] ++ Digits.ofNat n ++ t) := by
    simp [placeholder, parameterName]
  have hprefix : placeholderStart.isPrefixOf
      (':' :: (['p', 'a', 'r', 'a', 'm'] ++ Digits.ofNat n ++ t)) = true := by
    simp [placeholderStart]
  rw [hchars, placeholderNames, placeholderNames_append_of_not_mem hcolon, if_pos hprefix]
  show ("param" ++ String.ofList ((Digits.ofNat n ++ t).takeWhile Digits.isDigit)) :: _ = _
  rw [hdigits]
  rfl

/-- A text without colons may follow if it does not continue the digits. -/
theorem Shows.follow {s u : String} {ns : List Nat} (hs : Shows s ns) (hu : ColonFree u)
    (hdigit : NoDigitFirst u.toList) : Shows (s ++ u) ns := by
  have h := hs.append (shows_of_colonFree hu) hdigit
  rwa [List.append_nil] at h

/-- Texts with a separator between them that starts with no digit. -/
theorem shows_joinWith {α : Type} {separator : String} (hcolon : ColonFree separator)
    (hseparates : separates separator = true) {f : α → String} {g : α → List Nat} {xs : List α}
    (h : ∀ x ∈ xs, Shows (f x) (g x)) : Shows (joinWith separator (xs.map f)) (xs.flatMap g) := by
  match xs with
  | [] => exact shows_of_colonFree colonFree_empty
  | [x] =>
    rw [List.flatMap_singleton]
    exact h x (List.mem_singleton.mpr rfl)
  | x :: y :: rest =>
    obtain ⟨hx, hrest⟩ := List.forall_mem_cons.mp h
    have htail := (shows_joinWith hcolon hseparates hrest).prepend hcolon
    rw [List.flatMap_cons, List.map_cons, List.map_cons, joinWith, String.append_assoc]
    · exact hx.append htail (noDigitFirst_append hseparates _)
    · intro hnil
      cases hnil

end Text

end ObjectQuery
