import ObjectQuery.Json

/-!
# Reading JSON text

* `Json.parse`: the document that a text writes, if it writes exactly one.
* `Json.readNumber`: number literals. Integers of up to 64 bits are exact. Every other literal is
  read from its leading digits, as many as fit in 64 bits, scaled by a power of ten with one
  rounding.
* `Json.readText`: the inside of a quoted text.

A literal that is out of range, half of a surrogate pair and nesting below `Json.depthLimit` make
the part that holds them `unreadable`; whatever breaks the grammar makes the reader fail.
-/

namespace ObjectQuery.Json

/-- Greatest number of lists and records around a value. -/
def depthLimit : Nat := 127

/-- A blank of the grammar. -/
def isGap (c : Char) : Bool := c = ' ' || c = '\n' || c = '\t' || c = '\r'

/-- The text after leading blanks. -/
def skipGap (s : List Char) : List Char := s.dropWhile isGap

/-! ## Numbers -/

/-- Greatest integer of the significand. -/
def significandLimit : Nat := Nat.pow 2 64 - 1

/-- The first digits that fit into the significand after `n`, and how many are left over. -/
def takeSignificand (n : Nat) : List Char → Nat × Nat
  | [] => (n, 0)
  | c :: rest =>
    let next := 10 * n + Digits.value c
    if significandLimit < next then (n, rest.length + 1) else takeSignificand next rest

/-- The number `10 ^ k`, rounded. -/
def powerOfTen (k : Nat) : Binary64 := Binary64.ofNat false (Nat.pow 10 k)

/-- Divides by `10 ^ 308` while the exponent is below `-308`. Three times reach zero. -/
def scaleDown : Nat → Binary64 → Int → Binary64 × Int
  | 0, x, e => (x, e)
  | fuel + 1, x, e =>
    if e < -308 && !x.isZero then scaleDown fuel (x.div (powerOfTen 308)) (e + 308) else (x, e)

/-- The significand times a power of ten, or none where that is beyond the largest double. -/
def scale (negative : Bool) (significand : Nat) (exponent : Int) : Option Binary64 :=
  let (x, e) := scaleDown 3 (Binary64.ofNat negative significand) exponent
  if x.isZero then some x
  else if 308 < e then none
  else
    let y := if 0 ≤ e then x.mul (powerOfTen e.toNat) else x.div (powerOfTen (-e).toNat)
    if y.isFinite then some y else none

/-- The number of a literal given by its parts, none if it is out of range. -/
def Number.ofParts (negative : Bool) (whole : List Char) (fraction : Option (List Char))
    (exponent : Option Int) : Option Number :=
  let (significand, dropped) := takeSignificand 0 whole
  if dropped == 0 && fraction.isNone && exponent.isNone then
    if !negative then some (.integer significand)
    else if significand == 0 || Nat.pow 2 63 < significand then
      some (.real (Binary64.ofNat true significand))
    else some (.integer (-significand))
  else
    let digits := fraction.getD []
    let (significand, unused) := takeSignificand significand digits
    let shift := (dropped : Int) - (digits.length - unused)
    (scale negative significand (shift + exponent.getD 0)).map .real

/-- The exponent part of a literal, if one follows: outer `none` if it is cut short. -/
def readExponent (s : List Char) : Option (Option Int × List Char) :=
  match s with
  | [] => some (none, [])
  | mark :: rest =>
    if mark = 'e' || mark = 'E' then
      let (negative, rest) :=
        match rest with
        | '+' :: rest => (false, rest)
        | '-' :: rest => (true, rest)
        | rest => (false, rest)
      let (digits, rest) := Digits.span rest
      if digits.isEmpty then none
      else
        let n : Int := Digits.toNat digits
        some (some (if negative then -n else n), rest)
    else some (none, mark :: rest)

/-- A number literal without its sign. -/
def readUnsigned (negative : Bool) (s : List Char) : Option (Json × List Char) := do
  let (whole, rest) := Digits.span s
  if whole.isEmpty || (whole.head? == some '0' && 1 < whole.length) then none
  else
    let (fraction, rest) ←
      match rest with
      | '.' :: rest =>
        let (digits, rest) := Digits.span rest
        if digits.isEmpty then none else some (some digits, rest)
      | rest => some (none, rest)
    let (exponent, rest) ← readExponent rest
    match Number.ofParts negative whole fraction exponent with
    | some n => some (.number n, rest)
    | none => some (.unreadable, rest)

/-- A number literal: no leading zeros, and digits on both sides of a point. -/
def readNumber : List Char → Option (Json × List Char)
  | '-' :: rest => readUnsigned true rest
  | s => readUnsigned false s

/-! ## Texts -/

/-- The value of a hexadecimal digit. -/
def hexValue (c : Char) : Option Nat :=
  if '0' ≤ c && c ≤ '9' then some (c.toNat - 0x30)
  else if 'a' ≤ c && c ≤ 'f' then some (c.toNat - 0x57)
  else if 'A' ≤ c && c ≤ 'F' then some (c.toNat - 0x37)
  else none

/-- The value of four hexadecimal digits. -/
def hex4 (a b c d : Char) : Option Nat := do
  let a ← hexValue a
  let b ← hexValue b
  let c ← hexValue c
  let d ← hexValue d
  some (((a * 16 + b) * 16 + c) * 16 + d)

/-- The character of a one-letter escape. -/
def unescape : Char → Option Char
  | '"' => some '"'
  | '\\' => some '\\'
  | '/' => some '/'
  | 'b' => some (Char.ofNat 0x08)
  | 'f' => some (Char.ofNat 0x0c)
  | 'n' => some '\n'
  | 'r' => some '\r'
  | 't' => some '\t'
  | _ => none

/-- The first half of a surrogate pair. -/
def isHighSurrogate (n : Nat) : Bool := 0xD800 ≤ n && n ≤ 0xDBFF

/-- The second half of a surrogate pair. -/
def isLowSurrogate (n : Nat) : Bool := 0xDC00 ≤ n && n ≤ 0xDFFF

/-- The character of a surrogate pair. -/
def pairChar (high low : Nat) : Char :=
  Char.ofNat (0x10000 + (high - 0xD800) * 0x400 + (low - 0xDC00))

/-- Puts a character in front of what was read. A first half of a pair that still waits for its
second half then stays alone and leaves no text. -/
def addChar (waiting : Option Nat) (c : Char) (read : Option (List Char) × List Char) :
    Option (List Char) × List Char :=
  (if waiting.isSome then none else read.1.map (c :: ·), read.2)

/-- What was read after half of a surrogate pair that stays alone: no text. -/
def alone (read : Option (List Char) × List Char) : Option (List Char) × List Char :=
  (none, read.2)

/-- A text up to its closing quote: its characters and what follows the quote. `waiting` is the
first half of a surrogate pair just before. Half of a pair leaves no text, but the rest of the text
is still checked. -/
def readText (waiting : Option Nat) : List Char → Option (Option (List Char) × List Char)
  | [] => none
  | '"' :: rest => some (if waiting.isSome then none else some [], rest)
  | '\\' :: 'u' :: a :: b :: c :: d :: rest =>
    match hex4 a b c d with
    | none => none
    | some code =>
      if isHighSurrogate code then
        if waiting.isSome then (readText none rest).map alone else readText (some code) rest
      else if isLowSurrogate code then
        match waiting with
        | some high => (readText none rest).map (addChar none (pairChar high code))
        | none => (readText none rest).map alone
      else (readText none rest).map (addChar waiting (Char.ofNat code))
  | '\\' :: c :: rest =>
    match unescape c with
    | some c => (readText none rest).map (addChar waiting c)
    | none => none
  | c :: rest =>
    if c.toNat < 0x20 then none else (readText none rest).map (addChar waiting c)

/-- A text without its opening quote, as a document. -/
def readQuoted (s : List Char) : Option (Json × List Char) :=
  (readText none s).map fun (chars, rest) =>
    match chars with
    | some chars => (.text (String.ofList chars), rest)
    | none => (.unreadable, rest)

/-! ## Documents -/

/-- What follows a word at the start of a text. -/
def expect (word : String) (s : List Char) : Option (List Char) :=
  if word.toList.isPrefixOf s then some (s.drop word.length) else none

/-- A record with the fields `fields`, unreadable if a name is. -/
def recordOf (fields : Option (List (String × Json))) : Json :=
  match fields with
  | some fields => .record fields
  | none => .unreadable

mutual

/-- One value, with `depth` lists and records still allowed around its parts. -/
def readValue : Nat → Nat → List Char → Option (Json × List Char)
  | 0, _, _ => none
  | fuel + 1, depth, s =>
    match skipGap s with
    | [] => none
    | '"' :: rest => readQuoted rest
    | '[' :: rest => do
      let (items, rest) ←
        match skipGap rest with
        | ']' :: rest => some ([], rest)
        | rest => readItems fuel (depth - 1) rest
      some (if depth == 0 then .unreadable else .list items, rest)
    | '\x7b' :: rest => do
      let (fields, rest) ←
        match skipGap rest with
        | '\x7d' :: rest => some (some [], rest)
        | rest => readFields fuel (depth - 1) rest
      some (if depth == 0 then .unreadable else recordOf fields, rest)
    | 'n' :: rest => (expect "ull" rest).map fun rest => (.null, rest)
    | 't' :: rest => (expect "rue" rest).map fun rest => (.bool true, rest)
    | 'f' :: rest => (expect "alse" rest).map fun rest => (.bool false, rest)
    | rest => readNumber rest

/-- One or more values up to the end of a list. -/
def readItems : Nat → Nat → List Char → Option (List Json × List Char)
  | 0, _, _ => none
  | fuel + 1, depth, s => do
    let (item, rest) ← readValue fuel depth s
    match skipGap rest with
    | ',' :: rest =>
      let (items, rest) ← readItems fuel depth rest
      some (item :: items, rest)
    | ']' :: rest => some ([item], rest)
    | _ => none

/-- One or more fields up to the end of a record. No fields if a name is unreadable. -/
def readFields : Nat → Nat → List Char → Option (Option (List (String × Json)) × List Char)
  | 0, _, _ => none
  | fuel + 1, depth, s => do
    let rest ← expect "\"" (skipGap s)
    let (name, rest) ← readText none rest
    let rest ← expect ":" (skipGap rest)
    let (value, rest) ← readValue fuel depth rest
    let field := name.map fun name => (String.ofList name, value)
    match skipGap rest with
    | ',' :: rest =>
      let (fields, rest) ← readFields fuel depth rest
      some (field.bind fun field => fields.map (field :: ·), rest)
    | '\x7d' :: rest => some (field.map ([·]), rest)
    | _ => none

end

/-- The document that a text writes. Blanks around it are allowed and nothing else is. Two calls of
the reader take at least one character, which bounds their number. -/
def parse (s : String) : Option Json := do
  let (document, rest) ← readValue (2 * s.length + 2) depthLimit s.toList
  if (skipGap rest).isEmpty then some document else none

end ObjectQuery.Json
