import ObjectQuery.Json.Reader

/-!
# Texts read back

`Json.readQuoted_escaped`: every text in quotes is read back, whatever stands behind it. What is
escaped is read as the character that it stands for, and everything else as it is.
-/

namespace ObjectQuery.Json

theorem hexValue_hexDigit (n : Nat) : hexValue (hexDigit n) = some (n % 16) := by
  have hdigits : ∀ r < 16, hexValue (hexDigit r) = some r := by decide
  rw [← hdigits (n % 16) (Nat.mod_lt _ (by decide)), hexDigit, hexDigit, Nat.mod_mod]

/-- The escape of a control character names it. -/
theorem hex4_hexDigit {n : Nat} (h : n < 256) :
    hex4 '0' '0' (hexDigit (n / 16)) (hexDigit n) = some n := by
  have hzero : hexValue '0' = some 0 := by decide
  simp only [hex4, hzero, hexValue_hexDigit, Option.bind_eq_bind, Option.bind_some]
  congr 1
  omega

theorem readText_escapeChar (c : Char) (rest : List Char) :
    readText none (escapeChar c ++ rest) = (readText none rest).map (addChar none c) := by
  unfold escapeChar
  by_cases hquote : c = '"'
  · subst hquote
    simp [readText, unescape]
  by_cases hbackslash : c = '\\'
  · subst hbackslash
    simp [readText, unescape]
  rw [if_neg hquote, if_neg hbackslash]
  by_cases hplain : 0x20 ≤ c.toNat
  · rw [if_pos hplain, List.singleton_append, readText]
    · rw [if_neg (by omega)]
    · exact hquote
    · exact fun a b d e _ h _ => hbackslash h
    · exact fun a _ h _ => hbackslash h
  rw [if_neg hplain]
  by_cases hn : c = '\n'
  · subst hn
    simp [readText, unescape]
  by_cases ht : c = '\t'
  · subst ht
    simp [readText, unescape]
  by_cases hr : c = '\r'
  · subst hr
    simp [readText, unescape]
  rw [if_neg hn, if_neg ht, if_neg hr]
  by_cases hb : c.toNat = 0x08
  · obtain rfl : c = Char.ofNat 0x08 := by rw [← hb, Char.ofNat_toNat]
    simp [readText, unescape]
  by_cases hf : c.toNat = 0x0c
  · obtain rfl : c = Char.ofNat 0x0c := by rw [← hf, Char.ofNat_toNat]
    simp [readText, unescape]
  -- The other control characters are written as their code, which is no half of a pair.
  rw [if_neg hb, if_neg hf]
  have hhigh : isHighSurrogate c.toNat = false := by
    simp [isHighSurrogate]
    omega
  have hlow : isLowSurrogate c.toNat = false := by
    simp [isLowSurrogate]
    omega
  simp [readText, hex4_hexDigit (show c.toNat < 256 by omega), hhigh, hlow]

theorem readText_escaped (s rest : List Char) :
    readText none (s.flatMap escapeChar ++ '"' :: rest) = some (some s, rest) := by
  induction s with
  | nil => rfl
  | cons c s ih =>
    rw [List.flatMap_cons, List.append_assoc, readText_escapeChar, ih]
    rfl

theorem quote_toList (s : String) :
    (quote s).toList = '"' :: (s.toList.flatMap escapeChar ++ ['"']) := by
  rw [quote, String.toList_ofList, List.cons_append]

theorem readQuoted_escaped (s : String) (rest : List Char) :
    readQuoted (s.toList.flatMap escapeChar ++ '"' :: rest) = some (.text s, rest) := by
  rw [readQuoted, readText_escaped]
  simp

end ObjectQuery.Json
