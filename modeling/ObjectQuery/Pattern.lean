import ObjectQuery.Filter

/-!
# Patterns

The patterns of `LIKE` comparisons.

* `Pattern.escape`: puts an escape character in front of every reserved text.
* `Pattern.wrap`: adds wildcards where the pattern may match anything.
-/

namespace ObjectQuery.Pattern

/-- The characters that can serve as escape, in order of preference. -/
def escapeCandidates : List Char := ['@', '~', '#', '|', '!', '^']

/-- Puts the escape character in front of every reserved text, one reserved text after the other. -/
def escapeWith (escape : Char) (reserved : List String) (value : List Char) : List Char :=
  reserved.foldl (fun s token => Text.replace token.toList (escape :: token.toList) s) value

/-- A value with its reserved texts escaped, and the escape character if one is needed. Where every
candidate occurs in the value, it stays as it is. -/
def escape (value : String) (reserved : List String) : String × Option Char :=
  match escapeCandidates.find? fun c => !value.toList.contains c with
  | none => (value, none)
  | some c =>
    let escaped := escapeWith c reserved value.toList
    if escaped = value.toList then (value, none) else (String.ofList escaped, some c)

/-- A value with wildcards on the sides where a match may have more text. -/
def wrap (value : String) : MatchMode → String
  | .exact => value
  | .start => value ++ "%"
  | .ending => "%" ++ value
  | .anywhere => "%" ++ value ++ "%"

end ObjectQuery.Pattern
