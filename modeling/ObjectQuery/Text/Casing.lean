import ObjectQuery.Text.CaseTable

/-!
# Upper and lower case

Full case mappings of characters and texts.

* `upperChar`/`lowerChar`: the form of one character, which may be several characters.
* `upperCase`: every character on its own.
* `lowerCase`: likewise, except that a capital sigma that ends a word becomes a final sigma.
* `foldCase`: upper case as a database computes it, which leaves the eszett alone.
-/

namespace ObjectQuery.Text

/-- The form of a character that a table of runs and a table of expansions give. -/
def mapChar (expansions : List (Nat × List Nat)) (runs : List CaseRun) (c : Char) : List Char :=
  match expansions.find? (·.1 == c.toNat) with
  | some (_, codes) => codes.map Char.ofNat
  | none =>
    match runs.find? (·.covers c.toNat) with
    | some run => [Char.ofNat (c.toNat + run.shift).toNat]
    | none => [c]

/-- The upper-case form of a character. -/
def upperChar (c : Char) : List Char :=
  if c.toNat < 0x80 then [c.toUpper] else mapChar upperExpansions upperRuns c

/-- The lower-case form of a character, wherever it stands. -/
def lowerChar (c : Char) : List Char :=
  if c.toNat < 0x80 then [c.toLower] else mapChar lowerExpansions lowerRuns c

/-- The upper-case form of a text: the forms of its characters in order. -/
def upperCase (s : String) : String := String.ofList (s.toList.flatMap upperChar)

/-- Whether a cased letter comes first once the characters to be skipped are skipped. -/
def casedFirst (s : List Char) : Bool :=
  match s.dropWhile isCaseIgnorable with
  | [] => false
  | c :: _ => isCased c

/-- The lower-case form of the characters after `before`, which is given nearest first. -/
def lowerAfter (before : List Char) : List Char → List Char
  | [] => []
  | c :: rest =>
    let form :=
      if c = 'Σ' then
        if casedFirst before && !casedFirst rest then ['ς'] else ['σ']
      else lowerChar c
    form ++ lowerAfter (c :: before) rest

/-- The lower-case form of a text. A capital sigma after a letter and before none is final. -/
def lowerCase (s : String) : String := String.ofList (lowerAfter [] s.toList)

/-- A text with its first character in lower case. -/
def lowerFirst (s : String) : String :=
  match s.toList with
  | [] => ""
  | c :: rest => String.ofList (lowerChar c ++ rest)

/-- Stands for the eszett while a text that contains one is put into upper case. -/
def eszettPlaceholder : Char := '\u9999'

/-- The upper-case form that a database's `UPPER` gives: the eszett stays as it is. -/
def foldCase (s : String) : String :=
  if s.toList.contains 'ß' then
    let held := s.toList.map fun c => if c = 'ß' then eszettPlaceholder else c
    String.ofList ((held.flatMap upperChar).map fun c => if c = eszettPlaceholder then 'ß' else c)
  else upperCase s

end ObjectQuery.Text
