import ObjectQuery.Number.Binary64

/-!
# Decimal digits

Digits as natural numbers, and the decimal writing of natural numbers and integers.
-/

namespace ObjectQuery.Digits

/-- An ASCII digit. -/
def isDigit (c : Char) : Bool := '0' ≤ c && c ≤ '9'

/-- The value of a digit. -/
def value (c : Char) : Nat := c.toNat - '0'.toNat

/-- The digit of a value below ten. -/
def ofValue (d : Nat) : Char := Char.ofNat ('0'.toNat + d % 10)

/-- The number that a row of digits writes. -/
def toNat (digits : List Char) : Nat := digits.foldl (fun n c => 10 * n + value c) 0

/-- The digits of a number before the row `acc`, for at most `fuel` digits. -/
def prepend : Nat → Nat → List Char → List Char
  | 0, _, acc => acc
  | fuel + 1, n, acc =>
    if n < 10 then ofValue n :: acc else prepend fuel (n / 10) (ofValue n :: acc)

/-- The decimal digits of a natural number, without leading zeros. -/
def ofNat (n : Nat) : List Char := prepend (n + 1) n []

/-- The decimal digits of a natural number, filled up with zeros to a width. -/
def padded (width n : Nat) : List Char :=
  let digits := ofNat n
  List.replicate (width - digits.length) '0' ++ digits

/-- The decimal writing of an integer. -/
def ofInt (i : Int) : List Char :=
  if i < 0 then '-' :: ofNat i.natAbs else ofNat i.natAbs

/-- The leading digits of a text and what follows them. -/
def span (s : List Char) : List Char × List Char := (s.takeWhile isDigit, s.dropWhile isDigit)

end ObjectQuery.Digits
