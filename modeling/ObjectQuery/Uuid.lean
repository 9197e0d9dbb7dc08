import ObjectQuery.Json.Reader

/-!
# Universally unique identifiers

* `Uuid.read`: the four accepted spellings, hexadecimal digits in either case.
* `Uuid.write`: the hyphenated spelling in lower case.
-/

namespace ObjectQuery

/-- A 128-bit identifier. -/
structure Uuid where
  value : BitVec 128
  deriving DecidableEq, Repr, Inhabited

namespace Uuid

/-- The identifier of thirty-two hexadecimal digits. -/
def ofHex (digits : List Char) : Option Uuid :=
  if digits.length = 32 then
    (digits.mapM Json.hexValue).map fun values =>
      ⟨BitVec.ofNat 128 (values.foldl (fun n d => 16 * n + d) 0)⟩
  else none

/-- Digits in groups of 8, 4, 4, 4 and 12 with hyphens between them. -/
def ofHyphenated (s : List Char) : Option Uuid :=
  match Text.split '-' s with
  | [a, b, c, d, e] =>
    if [a, b, c, d, e].map List.length = [8, 4, 4, 4, 12] then ofHex (a ++ b ++ c ++ d ++ e)
    else none
  | _ => none

/-- The start of a name in the `uuid` namespace of uniform resource names. -/
def urnStart : List Char := "urn:uuid:".toList

/-- The identifier that a text spells: bare digits, hyphenated, hyphenated in braces, or hyphenated
as a uniform resource name. -/
def read (s : String) : Option Uuid :=
  let chars := s.toList
  match chars.length with
  | 32 => ofHex chars
  | 36 => ofHyphenated chars
  | 38 =>
    if chars.head? = some '\x7b' && chars.getLast? = some '\x7d' then
      ofHyphenated (chars.drop 1).dropLast
    else none
  | 45 =>
    if (chars.take 9).map Char.toLower = urnStart then ofHyphenated (chars.drop 9) else none
  | _ => none

/-- The last `count` hexadecimal digits of a number. -/
def hexDigits : Nat → Nat → List Char
  | 0, _ => []
  | count + 1, n => hexDigits count (n / 16) ++ [Json.hexDigit n]

/-- The hyphenated spelling in lower case. -/
def write (u : Uuid) : String :=
  let digits := hexDigits 32 u.value.toNat
  let group (start count : Nat) := (digits.drop start).take count
  String.ofList (group 0 8 ++ '-' :: group 8 4 ++ '-' :: group 12 4 ++ '-' :: group 16 4 ++
    '-' :: group 20 12)

end Uuid

end ObjectQuery
