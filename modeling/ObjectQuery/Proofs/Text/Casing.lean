import ObjectQuery.Text.Casing

/-!
# Marks and lower case

* `Text.IsMark.not_mem_lowerChar`: no other character becomes a punctuation mark in lower case.
* `Text.IsMark.mem_lowerFirst`: a text has a mark if and only if it has it with its first letter in
  lower case.
-/

namespace ObjectQuery.Text

/-- A mark that is no letter and comes before the lower-case letters. -/
structure IsMark (mark : Char) : Prop where
  pos : 0 < mark.toNat
  low : mark.toNat < 97
  lower : ∀ n < 0x80, (Char.ofNat n).toLower = mark ↔ n = mark.toNat

theorem isMark_colon : IsMark ':' := ⟨by decide, by decide, by decide +kernel⟩

theorem isMark_underscore : IsMark '_' := ⟨by decide, by decide, by decide +kernel⟩

variable {mark c : Char}

/-- Only its own code gives a character other than the null character. -/
theorem eq_toNat_of_ofNat_eq (hpos : 0 < c.toNat) {n : Nat} (h : Char.ofNat n = c) :
    n = c.toNat := by
  by_cases hn : n.isValidChar
  · rw [Char.ofNat, dif_pos hn] at h
    exact congrArg Char.toNat h
  · rw [Char.ofNat, dif_neg hn] at h
    rw [← h] at hpos
    exact absurd hpos (by decide)

/-- Where a character of a mapped form comes from: it is the character itself, or it is in one of
the tables. -/
theorem mem_mapChar {expansions : List (Nat × List Nat)} {runs : List CaseRun} {x : Char}
    (hpos : 0 < x.toNat) (h : x ∈ mapChar expansions runs c) :
    x = c ∨ (∃ e ∈ expansions, x.toNat ∈ e.2) ∨
      ∃ run ∈ runs, run.covers c.toNat ∧ (c.toNat + run.shift).toNat = x.toNat := by
  unfold mapChar at h
  split at h
  · rename_i codes hfind
    obtain ⟨n, hn, heq⟩ := List.mem_map.mp h
    obtain rfl := eq_toNat_of_ofNat_eq hpos heq
    exact .inr (.inl ⟨_, List.mem_of_find?_eq_some hfind, hn⟩)
  · split at h
    · rename_i run hfind
      have heq := eq_toNat_of_ofNat_eq hpos (List.mem_singleton.mp h).symm
      have hcovers := List.find?_some hfind
      exact .inr (.inr ⟨run, List.mem_of_find?_eq_some hfind, hcovers, heq⟩)
    · exact .inl (List.mem_singleton.mp h)

/-- No letter of the tables is mapped to a mark, as their forms are lower-case letters. -/
theorem IsMark.not_mem_lowerChar (hmark : IsMark mark) (hc : c ≠ mark) : mark ∉ lowerChar c := by
  have hruns : ∀ run ∈ lowerRuns, (97 : Int) ≤ run.first + run.shift := by decide +kernel
  have hexpansions : ∀ e ∈ lowerExpansions, ∀ n ∈ e.2, 97 ≤ n := by decide +kernel
  have hlow := hmark.low
  intro hmem
  unfold lowerChar at hmem
  split at hmem
  · rename_i hascii
    have hlower := hmark.lower c.toNat hascii
    rw [Char.ofNat_toNat] at hlower
    have hcode := hlower.mp (List.mem_singleton.mp hmem).symm
    exact hc (by rw [← Char.ofNat_toNat c, hcode, Char.ofNat_toNat])
  · obtain rfl | ⟨e, he, hn⟩ | ⟨run, hrun, hcovers, heq⟩ := mem_mapChar hmark.pos hmem
    · exact hc rfl
    · have := hexpansions e he _ hn
      omega
    · have hshift := hruns run hrun
      simp only [CodeRun.covers, Bool.and_eq_true, decide_eq_true_eq] at hcovers
      omega

theorem IsMark.mem_lowerChar_self (hmark : IsMark mark) : mark ∈ lowerChar mark := by
  have hascii : mark.toNat < 0x80 := Nat.lt_trans hmark.low (by decide)
  have hlower := (hmark.lower mark.toNat hascii).mpr rfl
  rw [Char.ofNat_toNat] at hlower
  rw [lowerChar, if_pos hascii, List.mem_singleton, hlower]

/-- A text has a mark if and only if it has it with its first letter in lower case. -/
theorem IsMark.mem_lowerFirst (hmark : IsMark mark) {s : String} :
    mark ∈ (lowerFirst s).toList ↔ mark ∈ s.toList := by
  unfold lowerFirst
  split
  · rename_i hs
    rw [hs]
    rfl
  · rename_i c rest hs
    rw [hs, String.toList_ofList, List.mem_append, List.mem_cons]
    refine or_congr ⟨fun h => ?_, ?_⟩ Iff.rfl
    · by_cases hc : mark = c
      · exact hc
      · exact absurd h (hmark.not_mem_lowerChar fun heq => hc heq.symm)
    · rintro rfl
      exact hmark.mem_lowerChar_self

end ObjectQuery.Text
