import ObjectQuery.Proofs.Text.Casing
import Mathlib.Data.List.Basic

/-!
# Upper case with the eszett left alone

While a text with an eszett is put into upper case, another character stands in for the eszett.

* `Text.toList_foldCase_of_mem`: in a text with an eszett the stand-in becomes an eszett as well.
* `Text.foldCase_charwise`: characters are folded one by one, and two texts apart from each other,
  exactly where no stand-in meets an eszett.
-/

namespace ObjectQuery.Text

variable {c : Char}

/-- No other character has the stand-in among its upper-case forms, which has no other form. -/
theorem eszettPlaceholder_mem_upperChar :
    eszettPlaceholder ∈ upperChar c ↔ c = eszettPlaceholder := by
  have hascii : ∀ n < 0x80, (Char.ofNat n).toUpper ≠ eszettPlaceholder := by decide +kernel
  have hexpansions : ∀ e ∈ upperExpansions, ∀ n ∈ e.2, n ≠ 0x9999 := by decide +kernel
  have hruns : ∀ run ∈ upperRuns,
      0x9999 < run.first + run.shift ∨ run.last + run.shift < 0x9999 := by
    decide +kernel
  have hcode : eszettPlaceholder.toNat = 0x9999 := rfl
  constructor
  · intro hmem
    unfold upperChar at hmem
    split at hmem
    · rename_i hlow
      have hne := hascii c.toNat hlow
      rw [Char.ofNat_toNat] at hne
      exact absurd (List.mem_singleton.mp hmem).symm hne
    · obtain rfl | ⟨e, he, hn⟩ | ⟨run, hrun, hcovers, heq⟩ := mem_mapChar (by decide) hmem
      · rfl
      · exact absurd hcode (hexpansions e he _ hn)
      · have hshift := hruns run hrun
        simp only [CodeRun.covers, Bool.and_eq_true, decide_eq_true_eq] at hcovers
        omega
  · rintro rfl
    decide +kernel

/-! ## Folding character by character -/

/-- A character in upper case, if it is not the eszett. -/
def foldChar (c : Char) : List Char :=
  if c = 'ß' then ['ß'] else upperChar c

/-- A character of a text with an eszett in it. -/
def foldBeside (c : Char) : List Char :=
  if c = eszettPlaceholder then ['ß'] else foldChar c

theorem toList_foldCase_of_mem {s : String} (h : 'ß' ∈ s.toList) :
    (foldCase s).toList = s.toList.flatMap foldBeside := by
  rw [foldCase, if_pos (List.contains_iff_mem.mpr h), String.toList_ofList, List.flatMap_map,
    List.map_flatMap]
  refine List.flatMap_congr fun c _ => ?_
  by_cases hheld : c = 'ß' ∨ c = eszettPlaceholder
  · rcases hheld with rfl | rfl <;> decide +kernel
  · have hletter : c ≠ 'ß' := fun h => hheld (.inl h)
    have hplaceholder : c ≠ eszettPlaceholder := fun h => hheld (.inr h)
    rw [if_neg hletter, foldBeside, if_neg hplaceholder, foldChar, if_neg hletter]
    -- The stand-in is put back nowhere, as no form of the character has it.
    calc (upperChar c).map (fun x => if x = eszettPlaceholder then 'ß' else x)
        = (upperChar c).map id := by
          refine List.map_congr_left fun x hx => if_neg ?_
          rintro rfl
          exact hplaceholder (eszettPlaceholder_mem_upperChar.mp hx)
      _ = upperChar c := List.map_id _

theorem toList_foldCase_of_not_mem {s : String} (h : 'ß' ∉ s.toList) :
    (foldCase s).toList = s.toList.flatMap foldChar := by
  rw [foldCase, if_neg (by simpa using h), upperCase, String.toList_ofList]
  refine List.flatMap_congr fun c hc => ?_
  rw [foldChar, if_neg]
  rintro rfl
  exact h hc

/-- The stand-in never stays in a text with an eszett. -/
theorem eszettPlaceholder_not_mem_foldBeside : eszettPlaceholder ∉ foldBeside c := by
  unfold foldBeside foldChar
  split
  · decide
  · split
    · decide
    · exact fun h => ‹c ≠ eszettPlaceholder› (eszettPlaceholder_mem_upperChar.mp h)

/-- Characters beside an eszett are folded as they are without it, except for the stand-in. -/
theorem flatMap_foldBeside_eq_iff (s : List Char) :
    s.flatMap foldBeside = s.flatMap foldChar ↔ eszettPlaceholder ∉ s := by
  constructor
  · intro heq hmem
    have hkept : eszettPlaceholder ∈ s.flatMap foldChar :=
      List.mem_flatMap.mpr ⟨eszettPlaceholder, hmem, by decide +kernel⟩
    rw [← heq] at hkept
    obtain ⟨c, -, hc⟩ := List.mem_flatMap.mp hkept
    exact eszettPlaceholder_not_mem_foldBeside hc
  · intro h
    refine List.flatMap_congr fun c hc => if_neg ?_
    rintro rfl
    exact h hc

theorem foldCase_singleton (c : Char) :
    foldCase (String.singleton c) = String.ofList (foldChar c) := by
  rw [← String.toList_inj, String.toList_ofList]
  by_cases hc : c = 'ß'
  · subst hc
    decide +kernel
  · rw [toList_foldCase_of_not_mem (by simpa using Ne.symm hc)]
    simp

/-- A text is folded character by character unless it has both an eszett and the stand-in. -/
theorem foldCase_eq_flatMap_iff (s : String) :
    foldCase s = String.ofList (s.toList.flatMap foldChar) ↔
      ('ß' ∈ s.toList → eszettPlaceholder ∉ s.toList) := by
  rw [← String.toList_inj, String.toList_ofList]
  by_cases h : 'ß' ∈ s.toList
  · rw [toList_foldCase_of_mem h, flatMap_foldBeside_eq_iff]
    simp [h]
  · simp [toList_foldCase_of_not_mem h, h]

/-- Two texts are folded apart from each other unless the eszett is in one of them only and the
stand-in in the other. -/
theorem foldCase_append_iff (a b : String) :
    foldCase (a ++ b) = foldCase a ++ foldCase b ↔
      ('ß' ∈ a.toList → 'ß' ∉ b.toList → eszettPlaceholder ∉ b.toList) ∧
        ('ß' ∈ b.toList → 'ß' ∉ a.toList → eszettPlaceholder ∉ a.toList) := by
  have hmem : 'ß' ∈ (a ++ b).toList ↔ 'ß' ∈ a.toList ∨ 'ß' ∈ b.toList := by
    rw [String.toList_append, List.mem_append]
  rw [← String.toList_inj, String.toList_append]
  by_cases ha : 'ß' ∈ a.toList <;> by_cases hb : 'ß' ∈ b.toList
  · rw [toList_foldCase_of_mem (hmem.mpr (.inl ha)), toList_foldCase_of_mem ha,
      toList_foldCase_of_mem hb, String.toList_append, List.flatMap_append]
    simp [ha, hb]
  · rw [toList_foldCase_of_mem (hmem.mpr (.inl ha)), toList_foldCase_of_mem ha,
      toList_foldCase_of_not_mem hb, String.toList_append, List.flatMap_append,
      List.append_cancel_left_eq, flatMap_foldBeside_eq_iff]
    simp [ha, hb]
  · rw [toList_foldCase_of_mem (hmem.mpr (.inr hb)), toList_foldCase_of_not_mem ha,
      toList_foldCase_of_mem hb, String.toList_append, List.flatMap_append,
      List.append_cancel_right_eq, flatMap_foldBeside_eq_iff]
    simp [ha, hb]
  · have hab : 'ß' ∉ (a ++ b).toList := fun h => (hmem.mp h).elim ha hb
    rw [toList_foldCase_of_not_mem hab, toList_foldCase_of_not_mem ha,
      toList_foldCase_of_not_mem hb, String.toList_append, List.flatMap_append]
    simp [ha, hb]

/-- The eszett is the only letter that is folded to itself instead of to its upper case, and texts
are folded letter by letter and part by part, exactly where no stand-in comes beside an eszett. -/
theorem foldCase_charwise (c : Char) (a b : String) :
    foldCase (String.singleton c) = String.ofList (if c = 'ß' then ['ß'] else upperChar c) ∧
    (foldCase a = String.ofList (a.toList.flatMap foldChar) ↔
      ('ß' ∈ a.toList → eszettPlaceholder ∉ a.toList)) ∧
    (foldCase (a ++ b) = foldCase a ++ foldCase b ↔
      ('ß' ∈ a.toList → 'ß' ∉ b.toList → eszettPlaceholder ∉ b.toList) ∧
        ('ß' ∈ b.toList → 'ß' ∉ a.toList → eszettPlaceholder ∉ a.toList)) :=
  ⟨foldCase_singleton c, foldCase_eq_flatMap_iff a, foldCase_append_iff a b⟩

/-- An ideograph becomes an eszett beside one. -/
example : foldCase "ß香" = "ßß" := by decide +kernel

end ObjectQuery.Text
