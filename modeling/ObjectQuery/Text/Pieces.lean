import ObjectQuery.Text.LetterClass

/-!
# Pieces of a text

Cutting, trimming, searching and replacing, as functions on lists of characters.

* `split`: the pieces between the occurrences of one character.
* `cut`: the parts before and after its first occurrence.
* `occursIn`: whether one text is part of another.
* `replace`: every occurrence of a token, left to right and without overlap.
-/

namespace ObjectQuery.Text

/-- The pieces between the occurrences of `sep`, one more than there are occurrences. -/
def split (sep : Char) : List Char → List (List Char)
  | [] => [[]]
  | c :: rest =>
    if c = sep then [] :: split sep rest
    else
      match split sep rest with
      | [] => [[c]]
      | piece :: pieces => (c :: piece) :: pieces

/-- The parts before and after the first occurrence of `sep`. -/
def cut (sep : Char) : List Char → Option (List Char × List Char)
  | [] => none
  | c :: rest =>
    if c = sep then some ([], rest)
    else (cut sep rest).map fun parts => (c :: parts.1, parts.2)

/-- The text without leading white space. -/
def trimStart (s : List Char) : List Char := s.dropWhile isBlank

/-- The text without white space at either end. -/
def trim (s : List Char) : List Char := (trimStart (trimStart s).reverse).reverse

/-- Whether `part` is a contiguous part of the text. -/
def occursIn (part : List Char) : List Char → Bool
  | [] => part.isEmpty
  | c :: rest => part.isPrefixOf (c :: rest) || occursIn part rest

/-- Replaces occurrences of a token that is not empty, passing over `skip` characters first. -/
def replaceFrom (token replacement : List Char) : Nat → List Char → List Char
  | _, [] => []
  | skip + 1, _ :: rest => replaceFrom token replacement skip rest
  | 0, c :: rest =>
    if token.isPrefixOf (c :: rest) then
      replacement ++ replaceFrom token replacement (token.length - 1) rest
    else c :: replaceFrom token replacement 0 rest

/-- Replaces every occurrence of `token`, left to right and without overlap. An empty token occurs
before every character and at the end. -/
def replace (token replacement s : List Char) : List Char :=
  if token.isEmpty then replacement ++ s.flatMap fun c => c :: replacement
  else replaceFrom token replacement 0 s

/-- Whether a text contains a character. -/
def hasChar (c : Char) (s : String) : Bool := s.toList.contains c

/-- Whether a text starts with another. -/
def startsWith (s start : String) : Bool := start.toList.isPrefixOf s.toList

/-- Whether a text ends with another. -/
def endsWith (s ending : String) : Bool := ending.toList.isSuffixOf s.toList

/-- What follows `start` in a text that starts with it. -/
def dropStart? (s start : String) : Option String :=
  if startsWith s start then some (String.ofList (s.toList.drop start.toList.length)) else none

/-- Whether the first character of a text is an upper-case letter. -/
def startsUpper (s : String) : Bool := s.toList.head?.any isUpper

/-- The texts of a list with `separator` between neighbours. -/
def joinWith (separator : String) : List String → String
  | [] => ""
  | [s] => s
  | s :: rest => s ++ separator ++ joinWith separator rest

end ObjectQuery.Text
