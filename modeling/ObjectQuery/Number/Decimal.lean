import ObjectQuery.Number.Digits

/-!
# Decimal writing of double-precision numbers

* `Decimal.shortest`: the fewest decimal digits that only this number is nearest to, and of those
  the digits nearest to it.
* `Decimal.write`: those digits in positional or exponent form, as a `Decimal.Layout` says.
* `Decimal.read`: the number nearest to a decimal text.
-/

namespace ObjectQuery.Decimal

/-- The decimal `0.d₁d₂… · 10 ^ point`. -/
structure Expansion where
  digits : List Char
  point : Int

/-- The real numbers that round to a positive number: `low / unit` to `high / unit`, ends included
if `closed`. The number itself is `value / unit`. -/
structure Interval where
  low : Nat
  value : Nat
  high : Nat
  unit : Nat
  closed : Bool

/-- The numbers that round to a positive finite number. Below a power of two the next number is
only half as far away. -/
def interval (x : Binary64) : Interval :=
  let (m, e) := x.magnitude
  let below := if m == Nat.pow 2 52 && -1074 < e then 1 else 2
  let scale := Nat.pow 2 (e - 2).toNat
  { low := (4 * m - below) * scale
    value := 4 * m * scale
    high := (4 * m + 2) * scale
    unit := Nat.pow 2 (2 - e).toNat
    closed := m % 2 == 0 }

/-- Whether `n / d` lies in the interval. -/
def Interval.holds (i : Interval) (n d : Nat) : Bool :=
  if i.closed then i.low * d ≤ n * i.unit && n * i.unit ≤ i.high * d
  else i.low * d < n * i.unit && n * i.unit < i.high * d

/-- The least `p` with `value / unit < 10 ^ p`, searched upwards from an estimate. -/
def pointFrom (value unit : Nat) : Nat → Int → Int
  | 0, p => p
  | fuel + 1, p =>
    if value * Nat.pow 10 (-p).toNat < unit * Nat.pow 10 p.toNat then p
    else pointFrom value unit fuel (p + 1)

/-- The least `p` with `value / unit < 10 ^ p`. The estimate from the binary logarithms is never
above it and at most a few below. -/
def point (value unit : Nat) : Int :=
  let log : Int := (value.log2 : Int) - unit.log2
  pointFrom value unit 8 (log * 30103 / 100000 - 2)

/-- The decimal with `count` digits that is nearest to the number among those in its interval. -/
def nearestWith (i : Interval) (p : Int) (count : Nat) : Option Nat :=
  let shift := p - count
  let num := i.value * Nat.pow 10 (-shift).toNat
  let den := i.unit * Nat.pow 10 shift.toNat
  let below := num / den
  let holds (n : Nat) := i.holds (n * Nat.pow 10 shift.toNat) (Nat.pow 10 (-shift).toNat)
  let roundsUp := den < 2 * (num % den) || (2 * (num % den) == den && below % 2 == 1)
  if holds below && !(holds (below + 1) && roundsUp) then some below
  else if holds (below + 1) then some (below + 1)
  else none

/-- The first digit count from `count` on that has a decimal in the interval. -/
def shortestFrom (i : Interval) (p : Int) : Nat → Nat → Nat × Nat
  | 0, count => (count, 0)
  | fuel + 1, count =>
    match nearestWith i p count with
    | some n => (count, n)
    | none => shortestFrom i p fuel (count + 1)

/-- A row of digits without the zeros at its end. -/
def dropTrailingZeros (digits : List Char) : List Char :=
  (digits.reverse.dropWhile (· == '0')).reverse

/-- The shortest digits of a positive finite number. Seventeen always suffice. -/
def shortest (x : Binary64) : Expansion :=
  let i := interval x
  let p := point i.value i.unit
  let (count, n) := shortestFrom i p 17 1
  let digits := Digits.ofNat n
  { digits := dropTrailingZeros digits
    point := p + ((digits.length : Int) - count) }

/-- How a number is laid out once its digits are known. -/
structure Layout where
  /-- Least exponent of the leading digit that is written positionally. -/
  leastPositional : Int
  /-- Greatest exponent of the leading digit that is written positionally. -/
  greatestPositional : Int
  nan : String
  infinity : String

/-- Operands are written positionally from `0.00001` to below `10 ^ 16`. -/
def operandLayout : Layout := ⟨-5, 15, "NaN", "inf"⟩

/-- The digits with the decimal point in place and at least one digit on either side. -/
def positional (x : Expansion) : List Char :=
  if x.point ≤ 0 then
    ['0', '.'] ++ List.replicate (-x.point).toNat '0' ++ x.digits
  else
    let whole := x.digits.take x.point.toNat
    let zeros := List.replicate (x.point.toNat - x.digits.length) '0'
    let fraction := x.digits.drop x.point.toNat
    whole ++ zeros ++ '.' :: (if fraction.isEmpty then ['0'] else fraction)

/-- One digit before the point and the exponent with its sign. -/
def scientific (x : Expansion) : List Char :=
  let exponent := x.point - 1
  let fraction := x.digits.drop 1
  x.digits.take 1 ++ (if fraction.isEmpty then [] else '.' :: fraction) ++
    'e' :: (if exponent < 0 then '-' else '+') :: Digits.ofNat exponent.natAbs

/-- The decimal text of a number, with its sign. -/
def write (layout : Layout) (x : Binary64) : String :=
  if x.isNaN then layout.nan
  else
    let sign := if x.isNegative then "-" else ""
    if !x.isFinite then sign ++ layout.infinity
    else if x.isZero then sign ++ "0.0"
    else
      let digits := shortest x
      let exponent := digits.point - 1
      let laid :=
        if layout.leastPositional ≤ exponent && exponent ≤ layout.greatestPositional then
          positional digits
        else scientific digits
      sign ++ String.ofList laid

/-- The number nearest to `digits · 10 ^ exponent`. Far beyond either end of the range the answer
is known without the power. -/
def nearest (negative : Bool) (digits : List Char) (exponent : Int) : Binary64 :=
  let significant := digits.dropWhile (· == '0')
  let magnitude := (significant.length : Int) + exponent
  if significant.isEmpty || magnitude < -400 then Binary64.zero negative
  else if 400 < magnitude then Binary64.infinity negative
  else
    Binary64.ofRatio negative (Digits.toNat significant * Nat.pow 10 exponent.toNat)
      (Nat.pow 10 (-exponent).toNat)

/-- An exponent part `e`, optional sign and digits, up to the end of the text. -/
def readExponent : List Char → Option Int
  | [] => some 0
  | mark :: rest =>
    if mark = 'e' || mark = 'E' then
      let (negative, digits) :=
        match rest with
        | '-' :: digits => (true, digits)
        | '+' :: digits => (false, digits)
        | digits => (false, digits)
      if digits.isEmpty || !digits.all Digits.isDigit then none
      else
        let n : Int := Digits.toNat digits
        some (if negative then -n else n)
    else none

/-- Digits with an optional point among them and an optional exponent. -/
def readFinite (negative : Bool) (s : List Char) : Option Binary64 :=
  let (whole, rest) := Digits.span s
  let (fraction, rest) :=
    match rest with
    | '.' :: rest => Digits.span rest
    | rest => ([], rest)
  if whole.isEmpty && fraction.isEmpty then none
  else (readExponent rest).map fun exponent =>
    nearest negative (whole ++ fraction) (exponent - fraction.length)

/-- The number that a decimal text names: a sign, then digits or one of the words for infinity and
for a NaN in any case. -/
def read (s : String) : Option Binary64 :=
  let (negative, rest) :=
    match s.toList with
    | '-' :: rest => (true, rest)
    | '+' :: rest => (false, rest)
    | rest => (false, rest)
  let word := String.ofList (rest.map Char.toLower)
  if word == "inf" || word == "infinity" then some (Binary64.infinity negative)
  else if word == "nan" then some Binary64.nan
  else readFinite negative rest

end ObjectQuery.Decimal
