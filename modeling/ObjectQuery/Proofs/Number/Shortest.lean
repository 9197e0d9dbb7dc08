import Mathlib.Data.List.DropRight
import Mathlib.Tactic.Linarith
import Mathlib.Tactic.Positivity
import Mathlib.Tactic.Ring
import ObjectQuery.Number.Decimal
import ObjectQuery.Proofs.Number.Digits

/-!
# The shortest digits of a number

The search for the digits of a finite number ends before its fuel does, and with more than zeros.

* `Decimal.Reaches`: a quotient is at least a power of ten.
* `Decimal.reaches_point`: the leading digit is never placed too high.
* `Decimal.isSome_nearestWith_seventeen`: some decimal of seventeen digits rounds to the number.
* `Decimal.shortest_digits`: the digits that are written start with one that is not zero.
-/

namespace ObjectQuery

namespace Binary64

/-! ## Magnitudes -/

theorem magnitude_lt (x : Binary64) : x.magnitude.1 < 2 ^ 53 := by
  have hfraction : x.fractionBits < 2 ^ 52 := Nat.mod_lt _ (by decide)
  rw [magnitude]
  split <;> simp only [Nat.pow_eq] <;> omega

theorem magnitude_ne_zero {x : Binary64} (h : x.isZero = false) : x.magnitude.1 ≠ 0 := by
  rw [magnitude]
  split
  · rename_i hexponent
    simpa [isZero, beq_iff_eq.mp hexponent] using h
  · simp only [Nat.pow_eq]
    omega

theorem le_magnitude_exponent (x : Binary64) : -1074 ≤ x.magnitude.2 := by
  rw [magnitude]
  split
  · exact Int.le_refl _
  · rename_i hexponent
    have hpos : x.exponentBits ≠ 0 := by simpa using hexponent
    dsimp only
    omega

theorem magnitude_exponent_le {x : Binary64} (h : x.isFinite = true) : x.magnitude.2 ≤ 971 := by
  have hlt : x.exponentBits < 2 ^ 11 := Nat.mod_lt _ (by decide)
  have hne : x.exponentBits ≠ 2047 := by simpa [isFinite] using h
  rw [magnitude]
  split <;> dsimp only <;> omega

end Binary64

namespace Decimal

/-! ## Powers of ten and of two -/

theorem pow_ten_le_pow_two {q k : Nat} (h : 10 * q ≤ 3 * k) : 10 ^ q ≤ 2 ^ k := by
  refine le_of_pow_le_pow_left₀ (n := 10) (by decide) (Nat.zero_le _) ?_
  calc (10 ^ q) ^ 10 = 10 ^ (10 * q) := by rw [← Nat.pow_mul, Nat.mul_comm]
    _ ≤ 10 ^ (3 * k) := Nat.pow_le_pow_right (by decide) h
    _ = (10 ^ 3) ^ k := Nat.pow_mul _ _ _
    _ ≤ (2 ^ 10) ^ k := Nat.pow_le_pow_left (by decide) k
    _ = (2 ^ k) ^ 10 := by rw [← Nat.pow_mul, Nat.mul_comm, Nat.pow_mul]

theorem pow_two_le_pow_ten {k q : Nat} (h : 28 * k ≤ 93 * q) : 2 ^ k ≤ 10 ^ q := by
  refine le_of_pow_le_pow_left₀ (n := 93) (by decide) (Nat.zero_le _) ?_
  calc (2 ^ k) ^ 93 = (2 ^ 93) ^ k := by rw [← Nat.pow_mul, Nat.mul_comm, Nat.pow_mul]
    _ ≤ (10 ^ 28) ^ k := Nat.pow_le_pow_left (by decide) k
    _ = 10 ^ (28 * k) := (Nat.pow_mul _ _ _).symm
    _ ≤ 10 ^ (93 * q) := Nat.pow_le_pow_right (by decide) h
    _ = (10 ^ q) ^ 93 := by rw [← Nat.pow_mul, Nat.mul_comm]

/-- `value / unit` is at least `10 ^ q`. -/
def Reaches (value unit : Nat) (q : Int) : Prop :=
  unit * 10 ^ q.toNat ≤ value * 10 ^ (-q).toNat

theorem Reaches.le_mul_pow {value unit : Nat} {q : Int} (h : Reaches value unit q) {a b : Nat}
    (hq : (a : Int) - b = q) : unit * 10 ^ a ≤ value * 10 ^ b := by
  unfold Reaches at h
  rcases Int.le_total 0 q with hsign | hsign
  · rw [show (-q).toNat = 0 by omega, Nat.pow_zero, Nat.mul_one] at h
    calc unit * 10 ^ a = unit * 10 ^ q.toNat * 10 ^ b := by
          rw [Nat.mul_assoc, ← Nat.pow_add, show a = q.toNat + b by omega]
      _ ≤ value * 10 ^ b := Nat.mul_le_mul_right _ h
  · rw [show q.toNat = 0 by omega, Nat.pow_zero, Nat.mul_one] at h
    calc unit * 10 ^ a ≤ value * 10 ^ (-q).toNat * 10 ^ a := Nat.mul_le_mul_right _ h
      _ = value * 10 ^ b := by rw [Nat.mul_assoc, ← Nat.pow_add, show b = (-q).toNat + a by omega]

/-! ## The place of the leading digit -/

/-- The search goes up only past powers of ten that the quotient reaches. -/
theorem reaches_pointFrom {value unit : Nat} (fuel : Nat) {p : Int}
    (h : Reaches value unit (p - 1)) : Reaches value unit (pointFrom value unit fuel p - 1) := by
  induction fuel generalizing p with
  | zero => exact h
  | succ fuel ih =>
    rw [pointFrom]
    split
    · exact h
    · rename_i hreaches
      refine ih ?_
      rw [Int.add_sub_cancel]
      exact Nat.not_lt.mp hreaches

/-- The binary logarithms place the leading digit at most one bit too high, which three decimal
places make up for. -/
theorem reaches_estimate {value unit : Nat} (hvalue : value ≠ 0)
    (hlow : -1100 ≤ (value.log2 : Int) - unit.log2)
    (hhigh : (value.log2 : Int) - unit.log2 ≤ 1100) :
    Reaches value unit (((value.log2 : Int) - unit.log2) * 30103 / 100000 - 3) := by
  have hfrom : 2 ^ value.log2 ≤ value := Nat.log2_self_le hvalue
  have hto : unit ≤ 2 ^ (unit.log2 + 1) := Nat.le_of_lt Nat.lt_log2_self
  generalize value.log2 = v at *
  generalize unit.log2 = u at *
  generalize hq : ((v : Int) - u) * 30103 / 100000 - 3 = q
  unfold Reaches
  rcases Int.le_total 0 q with hsign | hsign
  · have hten : 10 ^ q.toNat ≤ 2 ^ (v - (u + 1)) := pow_ten_le_pow_two (by omega)
    calc unit * 10 ^ q.toNat ≤ 2 ^ (u + 1) * 2 ^ (v - (u + 1)) := Nat.mul_le_mul hto hten
      _ = 2 ^ v := by rw [← Nat.pow_add, Nat.add_sub_cancel' (by omega)]
      _ ≤ value := hfrom
      _ ≤ value * 10 ^ (-q).toNat := Nat.le_mul_of_pos_right _ (by positivity)
  · have htwo : 2 ^ (u + 1 - v) ≤ 10 ^ (-q).toNat := pow_two_le_pow_ten (by omega)
    calc unit * 10 ^ q.toNat = unit := by rw [show q.toNat = 0 by omega, Nat.pow_zero, Nat.mul_one]
      _ ≤ 2 ^ (u + 1) := hto
      _ ≤ 2 ^ (v + (u + 1 - v)) := Nat.pow_le_pow_right (by decide) (by omega)
      _ = 2 ^ v * 2 ^ (u + 1 - v) := Nat.pow_add _ _ _
      _ ≤ value * 10 ^ (-q).toNat := Nat.mul_le_mul hfrom htwo

/-! ## Intervals -/

/-- Both ends of the interval are away from the number by a part in `2 ^ 54` of it, and zero is
below the interval. -/
structure Interval.IsWide (i : Interval) : Prop where
  low_pos : 0 < i.low
  unit_pos : 0 < i.unit
  low_le : i.value + 2 ^ 54 * i.low ≤ 2 ^ 54 * i.value
  le_high : i.value + 2 ^ 54 * i.value ≤ 2 ^ 54 * i.high

variable {x : Binary64}

theorem isWide_interval (h : x.isZero = false) : (interval x).IsWide := by
  have hpos := Binary64.magnitude_ne_zero h
  have hlt := x.magnitude_lt
  obtain ⟨m, e, hme⟩ : ∃ m e, x.magnitude = (m, e) := ⟨_, _, rfl⟩
  rw [hme] at hpos hlt
  rw [interval, hme]
  simp only [Nat.pow_eq]
  have hscale : 0 < 2 ^ (e - 2).toNat := by positivity
  generalize hbelow : (if m == 2 ^ 52 && decide (-1074 < e) then 1 else 2) = below
  have hlow : 4 * m + 2 ^ 54 * (4 * m - below) ≤ 2 ^ 54 * (4 * m) ∧ below < 4 * m := by
    split at hbelow
    · rename_i hm
      obtain ⟨hm, -⟩ := Bool.and_eq_true_iff.mp hm
      obtain rfl := beq_iff_eq.mp hm
      omega
    · omega
  exact
    { low_pos := Nat.mul_pos (by omega) hscale
      unit_pos := by positivity
      low_le := by
        calc 4 * m * 2 ^ (e - 2).toNat + 2 ^ 54 * ((4 * m - below) * 2 ^ (e - 2).toNat)
            = (4 * m + 2 ^ 54 * (4 * m - below)) * 2 ^ (e - 2).toNat := by ring
          _ ≤ 2 ^ 54 * (4 * m) * 2 ^ (e - 2).toNat := Nat.mul_le_mul_right _ hlow.1
          _ = 2 ^ 54 * (4 * m * 2 ^ (e - 2).toNat) := Nat.mul_assoc _ _ _
      le_high := by
        calc 4 * m * 2 ^ (e - 2).toNat + 2 ^ 54 * (4 * m * 2 ^ (e - 2).toNat)
            = (4 * m + 2 ^ 54 * (4 * m)) * 2 ^ (e - 2).toNat := by ring
          _ ≤ 2 ^ 54 * (4 * m + 2) * 2 ^ (e - 2).toNat := Nat.mul_le_mul_right _ (by omega)
          _ = 2 ^ 54 * ((4 * m + 2) * 2 ^ (e - 2).toNat) := Nat.mul_assoc _ _ _ }

theorem reaches_point (hfinite : x.isFinite = true) (hzero : x.isZero = false) :
    Reaches (interval x).value (interval x).unit
      (point (interval x).value (interval x).unit - 1) := by
  have hpos := Binary64.magnitude_ne_zero hzero
  have hlt := x.magnitude_lt
  have hleast := x.le_magnitude_exponent
  have hgreatest := Binary64.magnitude_exponent_le hfinite
  obtain ⟨m, e, hme⟩ : ∃ m e, x.magnitude = (m, e) := ⟨_, _, rfl⟩
  rw [hme] at hpos hlt hleast hgreatest
  rw [interval, hme]
  simp only [Nat.pow_eq]
  have hvalue : 4 * m * 2 ^ (e - 2).toNat ≠ 0 :=
    Nat.mul_ne_zero (by omega) (Nat.ne_of_gt (by positivity))
  have hlog : (4 * m * 2 ^ (e - 2).toNat).log2 < 55 + (e - 2).toNat := by
    rw [Nat.log2_lt hvalue, Nat.pow_add]
    exact Nat.mul_lt_mul_of_pos_right (by omega) (by positivity)
  have hunit : (2 ^ (2 - e).toNat).log2 = (2 - e).toNat := Nat.log2_two_pow
  refine reaches_pointFrom 8 ?_
  rw [Int.sub_sub]
  exact reaches_estimate hvalue (by omega) (by omega)

/-! ## Search -/

theorem Interval.holds_of_lt {i : Interval} {n d : Nat} (hlow : i.low * d < n * i.unit)
    (hhigh : n * i.unit < i.high * d) : i.holds n d = true := by
  rw [holds]
  split <;> simp <;> omega

theorem Interval.holds_zero {i : Interval} (hlow : 0 < i.low) {d : Nat} (hd : 0 < d) :
    i.holds 0 d = false := by
  have hpos := Nat.mul_pos hlow hd
  rw [holds, Nat.zero_mul]
  split
  · simp [Nat.not_le.mpr hpos]
  · simp

theorem holds_of_nearestWith {i : Interval} {p : Int} {count n : Nat}
    (h : nearestWith i p count = some n) :
    i.holds (n * 10 ^ (p - count).toNat) (10 ^ (-(p - count)).toNat) = true := by
  simp only [nearestWith, Nat.pow_eq] at h
  split at h
  · rename_i hbelow
    cases h
    exact (Bool.and_eq_true_iff.mp hbelow).1
  · split at h
    · rename_i habove
      cases h
      exact habove
    · cases h

theorem isSome_nearestWith {i : Interval} {p : Int} {count : Nat}
    (h : let below := i.value * 10 ^ (-(p - count)).toNat / (i.unit * 10 ^ (p - count).toNat)
      i.holds (below * 10 ^ (p - count).toNat) (10 ^ (-(p - count)).toNat) = true ∨
        i.holds ((below + 1) * 10 ^ (p - count).toNat) (10 ^ (-(p - count)).toNat) = true) :
    (nearestWith i p count).isSome = true := by
  simp only [nearestWith, Nat.pow_eq]
  split
  · rfl
  · rename_i hbelow
    split
    · rfl
    · rename_i habove
      refine absurd (h.resolve_right habove) fun hholds => hbelow ?_
      rw [hholds, Bool.eq_false_of_not_eq_true habove]
      rfl

/-- Of the two decimals around the number with seventeen digits, one rounds to it: they are less
than a part in `10 ^ 16` of it apart, and `10 ^ 16` is more than `2 ^ 53`. -/
theorem isSome_nearestWith_seventeen {i : Interval} (h : i.IsWide) {p : Int}
    (hp : Reaches i.value i.unit (p - 1)) : (nearestWith i p 17).isSome = true := by
  have hreaches := hp.le_mul_pow (a := (p - 17).toNat + 16) (b := (-(p - 17)).toNat) (by omega)
  refine isSome_nearestWith ?_
  push_cast
  generalize (p - 17).toNat = a at *
  generalize (-(p - 17)).toNat = b at *
  have hden : 0 < i.unit * 10 ^ a := Nat.mul_pos h.unit_pos (by positivity)
  have hfar : 10 ^ 16 * (i.unit * 10 ^ a) ≤ i.value * 10 ^ b := by
    calc 10 ^ 16 * (i.unit * 10 ^ a) = i.unit * 10 ^ (a + 16) := by ring
      _ ≤ i.value * 10 ^ b := hreaches
  have hlow : i.value * 10 ^ b + 2 ^ 54 * (i.low * 10 ^ b) ≤ 2 ^ 54 * (i.value * 10 ^ b) := by
    linarith [Nat.mul_le_mul_right (10 ^ b) h.low_le]
  have hhigh : i.value * 10 ^ b + 2 ^ 54 * (i.value * 10 ^ b) ≤ 2 ^ 54 * (i.high * 10 ^ b) := by
    linarith [Nat.mul_le_mul_right (10 ^ b) h.le_high]
  have hsplit := Nat.div_add_mod (i.value * 10 ^ b) (i.unit * 10 ^ a)
  have hrest := Nat.mod_lt (i.value * 10 ^ b) hden
  generalize i.value * 10 ^ b / (i.unit * 10 ^ a) = below at *
  generalize i.value * 10 ^ b % (i.unit * 10 ^ a) = rest at *
  have hbelow : below * 10 ^ a * i.unit = i.unit * 10 ^ a * below := by ring
  have habove : (below + 1) * 10 ^ a * i.unit = i.unit * 10 ^ a * below + i.unit * 10 ^ a := by ring
  rcases Nat.le_total (2 * rest) (i.unit * 10 ^ a) with hnear | hnear
  · exact .inl (Interval.holds_of_lt (by omega) (by omega))
  · exact .inr (Interval.holds_of_lt (by omega) (by omega))

theorem nearestWith_shortestFrom {i : Interval} {p : Int} {fuel count enough : Nat}
    (hfrom : count ≤ enough) (hto : enough < count + fuel)
    (h : (nearestWith i p enough).isSome = true) :
    nearestWith i p (shortestFrom i p fuel count).1 = some (shortestFrom i p fuel count).2 := by
  induction fuel generalizing count with
  | zero => omega
  | succ fuel ih =>
    rw [shortestFrom]
    split
    · assumption
    · rename_i hnone
      have hne : count ≠ enough := by
        rintro rfl
        rw [hnone] at h
        cases h
      exact ih (by omega) (by omega)

/-- The digits of a finite number start with one that is not zero. -/
theorem shortest_digits (hfinite : x.isFinite = true) (hzero : x.isZero = false) :
    (shortest x).digits ≠ [] ∧ (shortest x).digits.head? ≠ some '0' ∧
      ∀ c ∈ (shortest x).digits, Digits.isDigit c = true := by
  have hwide := isWide_interval hzero
  have hfound := nearestWith_shortestFrom (show 1 ≤ 17 by decide) (show 17 < 1 + 17 by decide)
    (isSome_nearestWith_seventeen hwide (reaches_point hfinite hzero))
  have hholds := holds_of_nearestWith hfound
  generalize hn :
    (shortestFrom (interval x) (point (interval x).value (interval x).unit) 17 1).2 = n at hholds
  have hne : n ≠ 0 := by
    rintro rfl
    rw [Nat.zero_mul, Interval.holds_zero hwide.low_pos (Nat.pow_pos (by decide))] at hholds
    cases hholds
  have hdigits : (shortest x).digits = (Digits.ofNat n).rdropWhile (· == '0') := by
    rw [← hn]
    rfl
  have hprefix := List.rdropWhile_prefix (· == '0') (l := Digits.ofNat n)
  rw [hdigits]
  cases hdropped : (Digits.ofNat n).rdropWhile (· == '0') with
  | nil =>
    -- The first digit is not zero, so not all of them are dropped.
    exfalso
    obtain ⟨c, rest, hcons⟩ := List.exists_cons_of_ne_nil (Digits.ofNat_ne_nil n)
    have hzeros := List.rdropWhile_eq_nil_iff.mp hdropped
    have hhead := Digits.head?_ofNat_ne_zero hne
    rw [hcons] at hzeros hhead
    rw [List.head?_cons, beq_iff_eq.mp (hzeros c List.mem_cons_self)] at hhead
    exact hhead rfl
  | cons c rest =>
    rw [hdropped] at hprefix
    obtain ⟨zeros, hzeros⟩ := hprefix
    have hhead := Digits.head?_ofNat_ne_zero hne
    rw [← hzeros] at hhead
    refine ⟨List.cons_ne_nil c rest, hhead, fun d hd => ?_⟩
    exact Digits.isDigit_ofNat n d (hzeros ▸ List.mem_append_left zeros hd)

end Decimal

end ObjectQuery
