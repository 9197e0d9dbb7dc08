import ObjectQuery.Json.Reader
import ObjectQuery.Proofs.Number.Shortest

/-!
# Numbers read back

What the reader makes of a number that was written before.

* `Json.Literal`: a number literal in its parts. Every literal is read to its end
  (`Json.readNumber_text`).
* `Json.exists_literal`: every finite double is written as a literal, however it is laid out.
* `Json.Number.reread`: the document that is read for a number. It is the number again for integers
  of at most 64 bits (`Json.Number.reread_integer`).
-/

namespace ObjectQuery.Json

/-! ## Literals -/

/-- One or more digits. -/
structure DigitRow where
  digits : List Char
  ne_nil : digits ≠ []
  isDigit : ∀ c ∈ digits, Digits.isDigit c = true

/-- The digit zero. -/
def DigitRow.zero : DigitRow :=
  ⟨['0'], List.cons_ne_nil _ _, fun c hc => by rw [List.mem_singleton.mp hc]; rfl⟩

/-- A number literal: a sign, digits without a leading zero, and perhaps a fraction and an exponent
with its sign. -/
structure Literal where
  negative : Bool
  whole : DigitRow
  leading : whole.digits.head? = some '0' → whole.digits.length = 1
  fraction : Option DigitRow
  exponent : Option (Bool × DigitRow)

namespace Literal

/-- The text of a fraction. -/
def fractionText : Option DigitRow → List Char
  | none => []
  | some row => '.' :: row.digits

/-- The text of an exponent. -/
def exponentText : Option (Bool × DigitRow) → List Char
  | none => []
  | some (negative, row) => 'e' :: (if negative then '-' else '+') :: row.digits

/-- The text of a literal. -/
def text (l : Literal) : List Char :=
  (if l.negative then ['-'] else []) ++
    (l.whole.digits ++ (fractionText l.fraction ++ exponentText l.exponent))

/-- The number of an exponent. -/
def power : Bool × DigitRow → Int
  | (negative, row) =>
    let n : Int := Digits.toNat row.digits
    if negative then -n else n

/-- The document that is read for a literal. -/
def read (l : Literal) : Json :=
  ((Number.ofParts l.negative l.whole.digits (l.fraction.map DigitRow.digits)
    (l.exponent.map power)).map .number).getD .unreadable

end Literal

/-- What may stand behind a number: a text that does not continue it. -/
def Stops (rest : List Char) : Prop :=
  ∀ c ∈ rest.head?, Digits.isDigit c = false ∧ c ≠ '.' ∧ c ≠ 'e' ∧ c ≠ 'E'

theorem stops_nil : Stops [] := fun c hc => by cases hc

theorem stops_cons {c : Char} (hc : Digits.isDigit c = false ∧ c ≠ '.' ∧ c ≠ 'e' ∧ c ≠ 'E')
    (rest : List Char) : Stops (c :: rest) := by
  rintro _ ⟨⟩
  exact hc

variable {rest : List Char}

theorem DigitRow.span_append (row : DigitRow) (h : ∀ c ∈ rest.head?, Digits.isDigit c = false) :
    Digits.span (row.digits ++ rest) = (row.digits, rest) :=
  Digits.span_append row.isDigit h

theorem DigitRow.exists_cons (row : DigitRow) :
    ∃ c tail, row.digits = c :: tail ∧ Digits.isDigit c = true := by
  obtain ⟨c, tail, h⟩ := List.exists_cons_of_ne_nil row.ne_nil
  exact ⟨c, tail, h, row.isDigit c (h ▸ List.mem_cons_self)⟩

theorem readExponent_exponentText (exponent : Option (Bool × DigitRow)) (h : Stops rest) :
    readExponent (Literal.exponentText exponent ++ rest) =
      some (exponent.map Literal.power, rest) := by
  match exponent with
  | none =>
    cases rest with
    | nil => rfl
    | cons c tail =>
      obtain ⟨-, -, he, hE⟩ := h c rfl
      simp [Literal.exponentText, readExponent, he, hE]
  | some (negative, row) =>
    have hspan := row.span_append fun c hc => (h c hc).1
    cases negative <;> simp [Literal.exponentText, readExponent, hspan, row.ne_nil, Literal.power]

/-- Neither the exponent nor what stands behind the literal continues the digits in front. -/
theorem head?_exponentText (exponent : Option (Bool × DigitRow)) (h : Stops rest) :
    ∀ c ∈ (Literal.exponentText exponent ++ rest).head?, Digits.isDigit c = false ∧ c ≠ '.' := by
  match exponent with
  | none => exact fun c hc => ⟨(h c hc).1, (h c hc).2.1⟩
  | some _ =>
    rintro c ⟨⟩
    decide

theorem readUnsigned_text (l : Literal) (h : Stops rest) :
    readUnsigned l.negative (l.whole.digits ++
        (Literal.fractionText l.fraction ++ (Literal.exponentText l.exponent ++ rest))) =
      some (l.read, rest) := by
  obtain ⟨negative, whole, leading, fraction, exponent⟩ := l
  have hwhole : (whole.digits.isEmpty ||
      (whole.digits.head? == some '0' && decide (1 < whole.digits.length))) = false := by
    rw [Bool.or_eq_false_iff, List.isEmpty_eq_false_iff, Bool.and_eq_false_imp, beq_iff_eq,
      decide_eq_false_iff_not]
    exact ⟨whole.ne_nil, fun hzero => by rw [leading hzero]; exact Nat.lt_irrefl 1⟩
  have hhead := head?_exponentText exponent h
  have hexponent := readExponent_exponentText exponent h
  unfold readUnsigned Literal.read
  dsimp only
  generalize Literal.exponentText exponent ++ rest = tail at *
  match fraction with
  | none =>
    have hpoint : ∀ digits, tail ≠ '.' :: digits := by
      rintro digits rfl
      exact (hhead '.' rfl).2 rfl
    have hspan := whole.span_append fun c hc => (hhead c hc).1
    simp only [Literal.fractionText, List.nil_append, hspan, hwhole]
    rw [if_neg Bool.false_ne_true]
    cases hparts : Number.ofParts negative whole.digits none (exponent.map Literal.power) <;>
      simp [hexponent, hparts]
  | some row =>
    have hspan : Digits.span (whole.digits ++ '.' :: (row.digits ++ tail)) = (whole.digits, _) :=
      whole.span_append (by rintro c ⟨⟩; decide)
    have hrow := row.span_append fun c hc => (hhead c hc).1
    have hempty : row.digits.isEmpty = false := List.isEmpty_eq_false_iff.mpr row.ne_nil
    simp only [Literal.fractionText, List.cons_append, hspan, hwhole]
    rw [if_neg Bool.false_ne_true]
    cases hparts : Number.ofParts negative whole.digits (some row.digits)
      (exponent.map Literal.power) <;>
      simp [hrow, hempty, hexponent, hparts]

/-- A literal is read up to what stands behind it. -/
theorem readNumber_text (l : Literal) (h : Stops rest) :
    readNumber (l.text ++ rest) = some (l.read, rest) := by
  have hread := readUnsigned_text l h
  rw [Literal.text, List.append_assoc, List.append_assoc, List.append_assoc]
  cases hsign : l.negative with
  | true =>
    rw [hsign] at hread
    rw [if_pos rfl, List.singleton_append, readNumber, hread]
  | false =>
    rw [hsign] at hread
    rw [if_neg Bool.false_ne_true, List.nil_append, readNumber, hread]
    -- The sign is no digit.
    intro tail heq
    obtain ⟨c, digits, hcons, hc⟩ := l.whole.exists_cons
    rw [hcons, List.cons_append, List.cons.injEq] at heq
    rw [heq.1] at hc
    exact absurd hc (by decide)

/-- A literal starts with a digit or its sign. -/
theorem Literal.exists_cons (l : Literal) :
    ∃ c tail, l.text = c :: tail ∧ (Digits.isDigit c = true ∨ c = '-') := by
  obtain ⟨c, tail, hcons, hc⟩ := l.whole.exists_cons
  rw [text, hcons]
  cases l.negative with
  | true => exact ⟨'-', _, rfl, .inr rfl⟩
  | false => exact ⟨c, _, rfl, .inl hc⟩

/-! ## Integers -/

theorem length_ofNat_of_head? (n : Nat) (h : (Digits.ofNat n).head? = some '0') :
    (Digits.ofNat n).length = 1 := by
  by_cases hn : n = 0
  · subst hn
    decide
  · exact absurd h (Digits.head?_ofNat_ne_zero hn)

/-- The digits of a natural number with a sign. -/
def Literal.ofNat (negative : Bool) (n : Nat) : Literal where
  negative
  whole := ⟨Digits.ofNat n, Digits.ofNat_ne_nil n, Digits.isDigit_ofNat n⟩
  leading := length_ofNat_of_head? n
  fraction := none
  exponent := none

theorem Literal.text_ofInt (i : Int) :
    (ofNat (i < 0) i.natAbs).text = (Number.integer i).render.toList := by
  rw [Number.render, String.toList_ofList, Digits.ofInt]
  split <;> simp_all [ofNat, text, fractionText, exponentText]

theorem takeSignificand_of_le {digits : List Char} {n : Nat}
    (h : digits.foldl (fun n c => 10 * n + Digits.value c) n ≤ significandLimit) :
    takeSignificand n digits =
      (digits.foldl (fun n c => 10 * n + Digits.value c) n, 0) := by
  have hgrows : ∀ (digits : List Char) (n : Nat),
      n ≤ digits.foldl (fun n c => 10 * n + Digits.value c) n := by
    intro digits
    induction digits with
    | nil => exact fun n => Nat.le_refl n
    | cons c digits ih => exact fun n => Nat.le_trans (by omega) (ih (10 * n + Digits.value c))
  induction digits generalizing n with
  | nil => rfl
  | cons c digits ih =>
    rw [List.foldl_cons] at h ⊢
    have hnext := Nat.le_trans (hgrows digits (10 * n + Digits.value c)) h
    rw [takeSignificand, if_neg (Nat.not_lt.mpr hnext)]
    exact ih h

theorem takeSignificand_ofNat {n : Nat} (h : n ≤ significandLimit) :
    takeSignificand 0 (Digits.ofNat n) = (n, 0) := by
  have hfold := Digits.toNat_ofNat n
  unfold Digits.toNat at hfold
  rw [takeSignificand_of_le (by rwa [hfold]), hfold]

/-! ## Decimals -/

/-- The decimal point stands behind a zero, among the digits or behind zeros that fill them up. -/
theorem exists_positional (negative : Bool) {x : Decimal.Expansion} (hne : x.digits ≠ [])
    (hleading : x.digits.head? ≠ some '0') (hdigits : ∀ c ∈ x.digits, Digits.isDigit c = true) :
    ∃ l : Literal, l.text = (if negative then ['-'] else []) ++ Decimal.positional x := by
  have hzeros : ∀ n, ∀ c ∈ List.replicate n '0', Digits.isDigit c = true := by
    intro n c hc
    rw [(List.mem_replicate.mp hc).2]
    decide
  rw [Decimal.positional]
  by_cases hpoint : x.point ≤ 0
  · let fraction : DigitRow :=
      { digits := List.replicate (-x.point).toNat '0' ++ x.digits
        ne_nil := List.append_ne_nil_of_right_ne_nil _ hne
        isDigit := List.forall_mem_append.mpr ⟨hzeros _, hdigits⟩ }
    refine ⟨⟨negative, .zero, fun _ => rfl, fraction, none⟩, ?_⟩
    rw [if_pos hpoint]
    simp [Literal.text, Literal.fractionText, Literal.exponentText, DigitRow.zero, fraction]
  · have hpos : x.point.toNat ≠ 0 := by omega
    have htake : x.digits.take x.point.toNat ≠ [] := by simp [hpos, hne]
    let whole : DigitRow :=
      { digits := x.digits.take x.point.toNat ++
          List.replicate (x.point.toNat - x.digits.length) '0'
        ne_nil := List.append_ne_nil_of_left_ne_nil htake _
        isDigit := List.forall_mem_append.mpr
          ⟨fun c hc => hdigits c (List.mem_of_mem_take hc), hzeros _⟩ }
    have hwhole : whole.digits.head? ≠ some '0' := by
      rw [List.head?_append_of_ne_nil _ htake, List.head?_take, if_neg hpos]
      exact hleading
    let fraction : DigitRow :=
      { digits :=
          if (x.digits.drop x.point.toNat).isEmpty then ['0'] else x.digits.drop x.point.toNat
        ne_nil := by
          split
          · exact List.cons_ne_nil _ _
          · exact List.isEmpty_eq_false_iff.mp (Bool.eq_false_of_not_eq_true ‹_›)
        isDigit := by
          split
          · exact hzeros 1
          · exact fun c hc => hdigits c (List.mem_of_mem_drop hc) }
    refine ⟨⟨negative, whole, fun h => absurd h hwhole, fraction, none⟩, ?_⟩
    rw [if_neg hpoint]
    simp [Literal.text, Literal.fractionText, Literal.exponentText, whole, fraction]

/-- The first digit stands before the point, and the exponent always has a sign. -/
theorem exists_scientific (negative : Bool) {x : Decimal.Expansion} (hne : x.digits ≠ [])
    (hleading : x.digits.head? ≠ some '0') (hdigits : ∀ c ∈ x.digits, Digits.isDigit c = true) :
    ∃ l : Literal, l.text = (if negative then ['-'] else []) ++ Decimal.scientific x := by
  obtain ⟨c, digits, hcons⟩ := List.exists_cons_of_ne_nil hne
  rw [hcons] at hleading hdigits
  let whole : DigitRow := ⟨[c], List.cons_ne_nil _ _, fun d hd => hdigits d (by simp_all)⟩
  let exponent : DigitRow := (Literal.ofNat false (x.point - 1).natAbs).whole
  have hexponent : ∀ fraction : Option DigitRow, Literal.fractionText fraction =
      (if digits.isEmpty then [] else '.' :: digits) →
      ∃ l : Literal, l.text = (if negative then ['-'] else []) ++ Decimal.scientific x := by
    intro fraction hfraction
    refine ⟨⟨negative, whole, fun _ => rfl, fraction, some (x.point - 1 < 0, exponent)⟩, ?_⟩
    simp [Literal.text, hfraction, Literal.exponentText, Decimal.scientific, hcons, whole, exponent,
      Literal.ofNat]
  cases digits with
  | nil => exact hexponent none rfl
  | cons d digits =>
    exact hexponent (some ⟨d :: digits, List.cons_ne_nil _ _,
      fun e he => hdigits e (List.mem_cons_of_mem c he)⟩) rfl

/-- Every finite number is written as a literal. -/
theorem exists_literal {x : Binary64} (hfinite : x.isFinite = true) :
    ∃ l : Literal, l.text = (Decimal.write Decimal.operandLayout x).toList := by
  have hnan : x.isNaN = false := by
    simp only [Binary64.isFinite, bne_iff_ne] at hfinite
    simp [Binary64.isNaN, hfinite]
  have hsign : (if x.isNegative then "-" else "").toList = if x.isNegative then ['-'] else [] := by
    split <;> rfl
  simp only [Decimal.write, hnan, hfinite, Bool.not_true, Bool.false_eq_true, if_false]
  cases hzero : x.isZero with
  | true =>
    refine ⟨⟨x.isNegative, .zero, fun _ => rfl, some .zero, none⟩, ?_⟩
    rw [if_pos rfl, String.toList_append, hsign]
    rfl
  | false =>
    obtain ⟨hne, hleading, hdigits⟩ := Decimal.shortest_digits hfinite hzero
    rw [if_neg Bool.false_ne_true, String.toList_append, hsign, String.toList_ofList]
    have hlaid : ∀ inPlace : Bool, ∃ l : Literal, l.text = (if x.isNegative then ['-'] else []) ++
        if inPlace then Decimal.positional (Decimal.shortest x)
        else Decimal.scientific (Decimal.shortest x) := by
      intro inPlace
      cases inPlace with
      | true => exact exists_positional x.isNegative hne hleading hdigits
      | false => exact exists_scientific x.isNegative hne hleading hdigits
    exact hlaid _

/-! ## Numbers -/

namespace Number

/-- The document that is read for a number. Where there is no literal for it, this is null. -/
def reread (n : Number) : Json := ((readNumber n.render.toList).map (·.1)).getD .null

theorem reread_of_text {n : Number} {l : Literal} (h : l.text = n.render.toList) :
    n.reread = l.read := by
  have hread := readNumber_text l stops_nil
  rw [List.append_nil, h] at hread
  rw [reread, hread]
  rfl

theorem reread_of_null {n : Number} (h : n.render = "null") : n.reread = .null := by
  rw [reread, h]
  rfl

/-- Every number is written as a literal, unless it has no JSON form. -/
theorem exists_literal_or_null (n : Number) :
    (∃ l : Literal, l.text = n.render.toList) ∨ n.render = "null" := by
  cases n with
  | integer i => exact .inl ⟨_, Literal.text_ofInt i⟩
  | real x =>
    rw [render]
    split
    · exact .inl (exists_literal ‹_›)
    · exact .inr rfl

/-- An integer of at most 64 bits, with sign or without, is read back. -/
theorem reread_integer {i : Int} (hlow : -(Nat.pow 2 63 : Nat) ≤ i)
    (hhigh : i < (Nat.pow 2 64 : Nat)) : (integer i).reread = number (integer i) := by
  rw [show Nat.pow 2 63 = 9223372036854775808 from rfl] at hlow
  rw [show Nat.pow 2 64 = 18446744073709551616 from rfl] at hhigh
  have hlimit : i.natAbs ≤ significandLimit := by
    rw [show significandLimit = 18446744073709551615 from rfl]
    omega
  have hparts : ofParts (i < 0) (Digits.ofNat i.natAbs) none none = some (integer i) := by
    have htake := takeSignificand_ofNat hlimit
    by_cases hsign : i < 0
    · have hsmall : ¬ Nat.pow 2 63 < i.natAbs := by
        rw [show Nat.pow 2 63 = 9223372036854775808 from rfl]
        omega
      simp [ofParts, htake, hsign, hsmall, hsign.ne, abs_of_neg]
    · simp [ofParts, htake, hsign, abs_of_nonneg (Int.not_lt.mp hsign)]
  rw [reread_of_text (Literal.text_ofInt i), Literal.read]
  simp [Literal.ofNat, hparts]

end Number

end ObjectQuery.Json
