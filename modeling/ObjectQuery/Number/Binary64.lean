/-!
# Double-precision numbers

A binary64 number is its 64-bit pattern. Arithmetic goes through exact natural numbers and rounds
once, to the nearest number and to the even one of two that are equally near.

* `Binary64.ofRatio`: the number nearest to a quotient.
* `Binary64.magnitude`: the exact value of a finite number, as `m · 2 ^ e`.
* `Binary64.mul`/`Binary64.div`: one rounding of the exact product or quotient of magnitudes.
-/

namespace ObjectQuery

/-- A double-precision number, given by its bit pattern. -/
structure Binary64 where
  bits : UInt64
  deriving DecidableEq, Repr, Inhabited

namespace Binary64

/-- The sign bit. -/
def isNegative (x : Binary64) : Bool := Nat.pow 2 63 ≤ x.bits.toNat

/-- The eleven exponent bits. -/
def exponentBits (x : Binary64) : Nat := x.bits.toNat / Nat.pow 2 52 % Nat.pow 2 11

/-- The fifty-two fraction bits. -/
def fractionBits (x : Binary64) : Nat := x.bits.toNat % Nat.pow 2 52

/-- Neither infinite nor a NaN. -/
def isFinite (x : Binary64) : Bool := x.exponentBits != 2047

/-- Not a number. -/
def isNaN (x : Binary64) : Bool := x.exponentBits == 2047 && x.fractionBits != 0

/-- Either of the two zeros. -/
def isZero (x : Binary64) : Bool := x.exponentBits == 0 && x.fractionBits == 0

/-- The bits of a magnitude with a sign in front. -/
def ofBits (negative : Bool) (bits : Nat) : Binary64 :=
  ⟨UInt64.ofNat (if negative then Nat.pow 2 63 + bits else bits)⟩

/-- Zero with a sign. -/
def zero (negative : Bool) : Binary64 := ofBits negative 0

/-- Infinity with a sign. -/
def infinity (negative : Bool) : Binary64 := ofBits negative (2047 * Nat.pow 2 52)

/-- The quiet NaN without a sign. -/
def nan : Binary64 := ofBits false (2047 * Nat.pow 2 52 + Nat.pow 2 51)

/-- The quotient rounded to the nearest integer, a half to the even neighbour. -/
def roundDiv (num den : Nat) : Nat :=
  let quotient := num / den
  let rest := num % den
  if den < 2 * rest || (2 * rest == den && quotient % 2 == 1) then quotient + 1 else quotient

/-- The exponent of the unit in the last place of a number near `num / den`, never below that of
the smallest positive number. -/
def unitExponent (num den : Nat) : Int :=
  let estimate : Int := (num.log2 : Int) - den.log2
  let tooHigh := num * Nat.pow 2 (-estimate).toNat < den * Nat.pow 2 estimate.toNat
  let log := if tooHigh then estimate - 1 else estimate
  max (log - 52) (-1074)

/-- The number nearest to `num / den`, infinite where that is beyond the largest finite one. -/
def ofRatio (negative : Bool) (num den : Nat) : Binary64 :=
  if num == 0 || den == 0 then zero negative
  else
    let unit := unitExponent num den
    let mantissa := roundDiv (num * Nat.pow 2 (-unit).toNat) (den * Nat.pow 2 unit.toNat)
    let bits := (unit + 1074).toNat * Nat.pow 2 52 + mantissa
    if bits < 2047 * Nat.pow 2 52 then ofBits negative bits else infinity negative

/-- The number nearest to a natural number. -/
def ofNat (negative : Bool) (n : Nat) : Binary64 := ofRatio negative n 1

/-- The exact magnitude of a finite number as `m · 2 ^ e`. -/
def magnitude (x : Binary64) : Nat × Int :=
  if x.exponentBits == 0 then (x.fractionBits, -1074)
  else (Nat.pow 2 52 + x.fractionBits, (x.exponentBits : Int) - 1075)

/-- The product of two finite magnitudes, rounded once, with the sign of the first. -/
def mul (x y : Binary64) : Binary64 :=
  let e := x.magnitude.2 + y.magnitude.2
  ofRatio x.isNegative (x.magnitude.1 * y.magnitude.1 * Nat.pow 2 e.toNat) (Nat.pow 2 (-e).toNat)

/-- The quotient of two finite magnitudes, rounded once, with the sign of the first. -/
def div (x y : Binary64) : Binary64 :=
  let e := x.magnitude.2 - y.magnitude.2
  ofRatio x.isNegative (x.magnitude.1 * Nat.pow 2 e.toNat) (y.magnitude.1 * Nat.pow 2 (-e).toNat)

end Binary64

end ObjectQuery
