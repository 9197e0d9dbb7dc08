import ObjectQuery.Number.Digits

/-!
# Digits written and read back

* `Digits.isDigit_ofNat`, `Digits.toNat_ofNat`: the digits of a number are digits and write it.
* `Digits.head?_ofNat_ne_zero`: they have no leading zero.
* `Digits.span_append`: a row of digits ends where a text without a digit in front begins.
* `Digits.append_inj_of_isDigit`: nor can the digits at the end of a text be read in two ways.
-/

namespace ObjectQuery.Digits

theorem isDigit_ofValue (d : Nat) : isDigit (ofValue d) = true := by
  have hdigits : ∀ r < 10, isDigit (Char.ofNat ('0'.toNat + r)) = true := by decide
  exact hdigits (d % 10) (Nat.mod_lt _ (by decide))

theorem value_ofValue (d : Nat) : value (ofValue d) = d % 10 := by
  have hdigits : ∀ r < 10, value (Char.ofNat ('0'.toNat + r)) = r := by decide
  exact hdigits (d % 10) (Nat.mod_lt _ (by decide))

theorem ofValue_ne_zero {d : Nat} (h : d % 10 ≠ 0) : ofValue d ≠ '0' := by
  intro hzero
  have hvalue := value_ofValue d
  rw [hzero] at hvalue
  exact h hvalue.symm

theorem isDigit_ofNat (n : Nat) : ∀ c ∈ ofNat n, isDigit c = true := by
  have hprepend : ∀ fuel n acc, (∀ c ∈ acc, isDigit c = true) →
      ∀ c ∈ prepend fuel n acc, isDigit c = true := by
    intro fuel
    induction fuel with
    | zero => exact fun n acc h => h
    | succ fuel ih =>
      intro n acc h
      have hcons : ∀ c ∈ ofValue n :: acc, isDigit c = true :=
        List.forall_mem_cons.mpr ⟨isDigit_ofValue n, h⟩
      rw [prepend]
      split
      · exact hcons
      · exact ih _ _ hcons
  exact hprepend (n + 1) n [] fun c hc => absurd hc List.not_mem_nil

theorem toNat_ofNat (n : Nat) : toNat (ofNat n) = n := by
  have hprepend : ∀ fuel n acc, n < fuel →
      (prepend fuel n acc).foldl (fun m c => 10 * m + value c) 0 =
        acc.foldl (fun m c => 10 * m + value c) n := by
    intro fuel
    induction fuel with
    | zero => exact fun n acc h => absurd h (Nat.not_lt_zero n)
    | succ fuel ih =>
      intro n acc h
      rw [prepend]
      split
      · rw [List.foldl_cons, value_ofValue]
        congr 1
        omega
      · rw [ih _ _ (by omega), List.foldl_cons, value_ofValue]
        congr 1
        omega
  exact hprepend (n + 1) n [] (Nat.lt_succ_self n)

theorem ofNat_ne_nil (n : Nat) : ofNat n ≠ [] := by
  intro h
  have hzero := toNat_ofNat n
  rw [h] at hzero
  obtain rfl : 0 = n := hzero
  exact absurd h (by decide)

/-- The fuel covers the digits in front of the row, and the last of them to be written is not zero
because the number that is left is not. -/
theorem head?_prepend_ne_zero {fuel n : Nat} (hn : n ≠ 0) (hfuel : n < fuel) (acc : List Char) :
    (prepend fuel n acc).head? ≠ some '0' := by
  induction fuel generalizing n acc with
  | zero => exact absurd hfuel (Nat.not_lt_zero n)
  | succ fuel ih =>
    rw [prepend]
    split
    · rename_i hlt
      rw [List.head?_cons]
      exact fun h => ofValue_ne_zero (by omega) (Option.some.inj h)
    · exact ih (by omega) (by omega) _

theorem head?_ofNat_ne_zero {n : Nat} (hn : n ≠ 0) : (ofNat n).head? ≠ some '0' :=
  head?_prepend_ne_zero hn (Nat.lt_succ_self n) []

/-- A row of digits in front of a text that starts with no digit. -/
theorem span_append {digits rest : List Char} (hdigits : ∀ c ∈ digits, isDigit c = true)
    (hrest : ∀ c ∈ rest.head?, isDigit c = false) : span (digits ++ rest) = (digits, rest) := by
  have hstop : rest.takeWhile isDigit = [] ∧ rest.dropWhile isDigit = rest := by
    cases rest with
    | nil => exact ⟨rfl, rfl⟩
    | cons c tail => simp [hrest c rfl]
  rw [span, List.takeWhile_append_of_pos hdigits, List.dropWhile_append_of_pos hdigits, hstop.1,
    hstop.2, List.append_nil]

/-- The digits at the end of a text begin behind its last character that is none. -/
theorem append_inj_of_isDigit {u v d e : List Char} {c : Char} (hc : isDigit c = false)
    (hd : ∀ x ∈ d, isDigit x = true) (he : ∀ x ∈ e, isDigit x = true)
    (h : u ++ c :: d = v ++ c :: e) : u = v ∧ d = e := by
  have hspan : ∀ {w f : List Char}, (∀ x ∈ f, isDigit x = true) →
      span (w ++ c :: f).reverse = (f.reverse, c :: w.reverse) := by
    intro w f hf
    rw [List.reverse_append, List.reverse_cons, List.append_assoc]
    exact span_append (fun x hx => hf x (List.mem_reverse.mp hx)) (by rintro x ⟨⟩; exact hc)
  have hboth : span (u ++ c :: d).reverse = span (v ++ c :: e).reverse := by rw [h]
  rw [hspan hd, hspan he] at hboth
  obtain ⟨hdigits, hrest⟩ := Prod.mk.inj hboth
  exact ⟨List.reverse_inj.mp (List.cons.inj hrest).2, List.reverse_inj.mp hdigits⟩

end ObjectQuery.Digits
