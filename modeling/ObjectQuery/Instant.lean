import ObjectQuery.Number.Digits
import ObjectQuery.Text.Pieces

/-!
# Instants

A point in time in UTC with nanoseconds.

* `Instant.read`: dates with a time and an offset in a lenient form of RFC 3339. Blanks may stand
  before numbers and separators, and numbers may be short.
* `Instant.write`: the strict form, with as many fraction digits as are needed in groups of three.

A leap second is kept as a nanosecond count of a thousand million or more in second 59.
-/

namespace ObjectQuery

/-- A point in time: the day counted from 1 March of year 0, the second of the day, and the
nanosecond of the second. -/
structure Instant where
  day : Int
  second : Nat
  nanosecond : Nat
  deriving DecidableEq, Repr, Inhabited

namespace Instant

/-! ## Calendar -/

/-- Leap years of the Gregorian calendar, extended to all years. -/
def isLeapYear (year : Int) : Bool := year % 4 == 0 && (year % 100 != 0 || year % 400 == 0)

/-- The number of days of a month. -/
def daysInMonth (year : Int) (month : Nat) : Nat :=
  if month = 2 then if isLeapYear year then 29 else 28
  else if month = 4 || month = 6 || month = 9 || month = 11 then 30
  else 31

/-- The day number of a date. Years are counted from March on, so that a leap day comes last. -/
def dayOfDate (year : Int) (month day : Nat) : Int :=
  let y := if month ≤ 2 then year - 1 else year
  let m := (month + 9) % 12
  365 * y + y / 4 - y / 100 + y / 400 + ((153 * m + 2) / 5 + day - 1 : Nat)

/-- The date of a day number: year, month and day. -/
def dateOfDay (n : Int) : Int × Nat × Nat :=
  let era := n / 146097
  let dayOfEra := (n % 146097).toNat
  let yearOfEra := (dayOfEra - dayOfEra / 1460 + dayOfEra / 36524 - dayOfEra / 146096) / 365
  let dayOfYear := dayOfEra - (365 * yearOfEra + yearOfEra / 4 - yearOfEra / 100)
  let m := (5 * dayOfYear + 2) / 153
  let day := dayOfYear - (153 * m + 2) / 5 + 1
  let month := if m < 10 then m + 3 else m - 9
  let year := (yearOfEra : Int) + era * 400
  (if month ≤ 2 then year + 1 else year, month, day)

/-- The years in which instants lie. -/
def leastYear : Int := -262143

/-- The years in which instants lie. -/
def greatestYear : Int := 262142

/-- The day number of a date that exists and lies in range. -/
def dayOfDate? (year : Int) (month day : Nat) : Option Int :=
  if leastYear ≤ year && year ≤ greatestYear && 1 ≤ month && month ≤ 12 && 1 ≤ day &&
      day ≤ daysInMonth year month then
    some (dayOfDate year month day)
  else none

/-! ## Reading -/

/-- A number of one up to `width` digits after blanks. -/
def readNumber (width : Nat) (s : List Char) : Option (Nat × List Char) :=
  let s := Text.trimStart s
  let digits := (s.take width).takeWhile Digits.isDigit
  if digits.isEmpty then none else some (Digits.toNat digits, s.drop digits.length)

/-- A year after blanks: up to four digits, or a sign and any number of digits. -/
def readYear (s : List Char) : Option (Int × List Char) :=
  match Text.trimStart s with
  | '-' :: rest =>
    let (digits, rest) := Digits.span rest
    if digits.isEmpty then none else some (-(Digits.toNat digits : Int), rest)
  | '+' :: rest =>
    let (digits, rest) := Digits.span rest
    if digits.isEmpty then none else some (Digits.toNat digits, rest)
  | s => (readNumber 4 s).map fun (year, rest) => (year, rest)

/-- What follows a separator after blanks. -/
def readSeparator (separator : Char) (s : List Char) : Option (List Char) :=
  match Text.trimStart s with
  | c :: rest => if c = separator then some rest else none
  | [] => none

/-- A fraction of a second in nanoseconds, if a point follows. Digits from the tenth on are
dropped. -/
def readFraction (s : List Char) : Option (Nat × List Char) :=
  match s with
  | '.' :: rest =>
    let (digits, rest) := Digits.span rest
    if digits.isEmpty then none
    else
      let kept := digits.take 9
      some (Digits.toNat kept * Nat.pow 10 (9 - kept.length), rest)
  | s => some (0, s)

/-- Two digits, the first of them at most `greatest`. -/
def readPair (greatest : Char) : List Char → Option (Nat × List Char)
  | a :: b :: rest =>
    if Digits.isDigit a && a ≤ greatest && Digits.isDigit b then
      some (10 * Digits.value a + Digits.value b, rest)
    else none
  | _ => none

/-- Hours and minutes of an offset, in seconds. Colons and blanks may stand between them. -/
def readOffsetTime (s : List Char) : Option (Nat × List Char) := do
  let (hours, rest) ← readPair '9' s
  let (minutes, rest) ← readPair '5' (rest.dropWhile fun c => c = ':' || Text.isBlank c)
  some (hours * 3600 + minutes * 60, rest)

/-- An offset from UTC in seconds: the letter Z, the word UTC, or a sign and a time. -/
def readOffset (s : List Char) : Option (Int × List Char) :=
  if (s.take 3).map Char.toUpper = ['U', 'T', 'C'] then some (0, s.drop 3)
  else
    match s with
    | 'Z' :: rest | 'z' :: rest => some (0, rest)
    | '+' :: rest => (readOffsetTime rest).map fun (n, rest) => ((n : Int), rest)
    | '-' :: rest | '−' :: rest => (readOffsetTime rest).map fun (n, rest) => (-(n : Int), rest)
    | _ => none

/-- The instant of a local time at an offset. Second 60 is a leap second. -/
def ofLocal (day : Int) (hour minute second nanosecond : Nat) (offset : Int) : Option Instant :=
  if hour ≤ 23 && minute ≤ 59 && second ≤ 60 && offset.natAbs < 86400 then
    let leap := second == 60
    let clock : Int := (hour * 3600 + minute * 60 + (if leap then 59 else second) : Nat)
    let utc := clock - offset
    let utcDay := day + utc / 86400
    if dayOfDate leastYear 1 1 ≤ utcDay && utcDay ≤ dayOfDate greatestYear 12 31 then
      some ⟨utcDay, (utc % 86400).toNat, nanosecond + if leap then Nat.pow 10 9 else 0⟩
    else none
  else none

/-- The instant that a text names. -/
def read (text : String) : Option Instant := do
  let (year, s) ← readYear text.toList
  let s ← readSeparator '-' s
  let (month, s) ← readNumber 2 s
  let s ← readSeparator '-' s
  let (date, s) ← readNumber 2 s
  let s ←
    match s with
    | 'T' :: s | 't' :: s | ' ' :: s => some s
    | _ => none
  let (hour, s) ← readNumber 2 s
  let s ← readSeparator ':' s
  let (minute, s) ← readNumber 2 s
  let s ← readSeparator ':' s
  let (second, s) ← readNumber 2 s
  let (nanosecond, s) ← readFraction s
  let (offset, s) ← readOffset (Text.trimStart s)
  if !(Text.trimStart s).isEmpty then none
  else
    let day ← dayOfDate? year month date
    ofLocal day hour minute second nanosecond offset

/-! ## Writing -/

/-- A year: four digits, or a sign and at least four digits outside the years 0 to 9999. -/
def writeYear (year : Int) : List Char :=
  let digits := Digits.padded 4 year.natAbs
  if year < 0 then '-' :: digits
  else if 9999 < year then '+' :: digits
  else digits

/-- A fraction of a second: nothing, or the fewest of three, six and nine digits that are exact. -/
def writeFraction (nanosecond : Nat) : List Char :=
  if nanosecond = 0 then []
  else if nanosecond % Nat.pow 10 6 = 0 then '.' :: Digits.padded 3 (nanosecond / Nat.pow 10 6)
  else if nanosecond % Nat.pow 10 3 = 0 then '.' :: Digits.padded 6 (nanosecond / Nat.pow 10 3)
  else '.' :: Digits.padded 9 nanosecond

/-- The text of an instant, a leap second as second 60. -/
def write (t : Instant) : String :=
  let (year, month, day) := dateOfDay t.day
  let leap := Nat.pow 10 9 ≤ t.nanosecond
  let second := t.second % 60 + if leap then 1 else 0
  String.ofList (writeYear year ++ '-' :: Digits.padded 2 month ++ '-' :: Digits.padded 2 day ++
    'T' :: Digits.padded 2 (t.second / 3600) ++ ':' :: Digits.padded 2 (t.second / 60 % 60) ++
    ':' :: Digits.padded 2 second ++ writeFraction (t.nanosecond % Nat.pow 10 9) ++ ['Z'])

end Instant

end ObjectQuery
