import ObjectQuery.Text.Visibility

/-!
# Quoted texts in reports

Texts in reports stand in double quotes. Characters that would not show, or that would join the
character before them, are written by their code points, so that every report is one visible line.

* `quote`: a text in quotes.
-/

namespace ObjectQuery.Text

/-- A number in hexadecimal digits before the row `acc`, for at most `fuel` digits. -/
def hexPrepend : Nat → Nat → List Char → List Char
  | 0, _, acc => acc
  | fuel + 1, n, acc =>
    let digit := Char.ofNat (if n % 16 < 10 then 0x30 + n % 16 else 0x57 + n % 16)
    if n < 16 then digit :: acc else hexPrepend fuel (n / 16) (digit :: acc)

/-- A character as it stands between quotes. -/
def quoteChar (c : Char) : List Char :=
  if c = '"' then ['\\', '"']
  else if c = '\\' then ['\\', '\\']
  else if c = '\n' then ['\\', 'n']
  else if c = '\t' then ['\\', 't']
  else if c = '\r' then ['\\', 'r']
  else if c.toNat = 0 then ['\\', '0']
  else if isHidden c || isJoining c then
    ['\\', 'u', '\x7b'] ++ hexPrepend 8 c.toNat ['\x7d']
  else [c]

/-- A text in quotes. -/
def quote (s : String) : String := String.ofList ('"' :: s.toList.flatMap quoteChar ++ ['"'])

end ObjectQuery.Text
