import ObjectQuery.Aliases.Resolve
import ObjectQuery.Proofs.Number.Digits
import ObjectQuery.Proofs.Text.Casing

/-!
# Names without colons

A placeholder is the only place of a statement where a colon stands, if no name in the query or the
catalog has one.

* `Text.ColonFree`: texts without a colon.
* The lemmas about the pieces of a text and of a path: none of them has a colon of its own.
* `Text.colonFree_lowerFirst`: nor has the lower-case form of a letter.
-/

namespace ObjectQuery

namespace Text

/-- A text without a colon. -/
def ColonFree (s : String) : Prop := ':' ∉ s.toList

instance (s : String) : Decidable (ColonFree s) := inferInstanceAs (Decidable (':' ∉ s.toList))

/-- A text without a colon, if there is one. -/
def ColonFree? (o : Option String) : Prop := ∀ s ∈ o, ColonFree s

instance (o : Option String) : Decidable (ColonFree? o) :=
  inferInstanceAs (Decidable (∀ s ∈ o, ColonFree s))

theorem colonFree_ofList {s : List Char} : ColonFree (String.ofList s) ↔ ':' ∉ s := by
  rw [ColonFree, String.toList_ofList]

theorem colonFree_append {s t : String} : ColonFree (s ++ t) ↔ ColonFree s ∧ ColonFree t := by
  simp [ColonFree, not_or]

theorem colonFree_empty : ColonFree "" := by decide

theorem colonFree?_none : ColonFree? none := by decide

theorem colonFree_joinWith {separator : String} (h : ColonFree separator) {texts : List String}
    (htexts : ∀ s ∈ texts, ColonFree s) : ColonFree (joinWith separator texts) := by
  match texts with
  | [] => exact colonFree_empty
  | [s] => exact htexts s (List.mem_singleton.mpr rfl)
  | s :: t :: rest =>
    rw [joinWith]
    · obtain ⟨hs, hrest⟩ := List.forall_mem_cons.mp htexts
      exact colonFree_append.mpr
        ⟨colonFree_append.mpr ⟨hs, h⟩, colonFree_joinWith h hrest⟩
    · intro h
      cases h

/-! ## Pieces of a text -/

theorem mem_of_mem_split {separator c : Char} {s piece : List Char}
    (hpiece : piece ∈ split separator s) (hc : c ∈ piece) : c ∈ s := by
  induction s generalizing piece with
  | nil =>
    obtain rfl := List.mem_singleton.mp hpiece
    exact hc
  | cons first rest ih =>
    rw [split] at hpiece
    split at hpiece
    · rcases List.mem_cons.mp hpiece with rfl | h
      · cases hc
      · exact List.mem_cons_of_mem _ (ih h hc)
    · split at hpiece
      · obtain rfl := List.mem_singleton.mp hpiece
        obtain rfl := List.mem_singleton.mp hc
        exact List.mem_cons_self
      · rename_i head pieces hsplit
        rw [hsplit] at ih
        rcases List.mem_cons.mp hpiece with rfl | h
        · rcases List.mem_cons.mp hc with rfl | h'
          · exact List.mem_cons_self
          · exact List.mem_cons_of_mem _ (ih List.mem_cons_self h')
        · exact List.mem_cons_of_mem _ (ih (List.mem_cons_of_mem _ h) hc)

theorem mem_of_mem_cut {separator c : Char} {s before after : List Char}
    (h : cut separator s = some (before, after)) (hc : c ∈ before ∨ c ∈ after) : c ∈ s := by
  induction s generalizing before with
  | nil => cases h
  | cons first rest ih =>
    rw [cut] at h
    split at h
    · cases h
      exact List.mem_cons_of_mem _ (hc.resolve_left List.not_mem_nil)
    · obtain ⟨⟨b, a⟩, hcut, heq⟩ := Option.map_eq_some_iff.mp h
      cases heq
      rcases hc with hc | hc
      · rcases List.mem_cons.mp hc with rfl | h'
        · exact List.mem_cons_self
        · exact List.mem_cons_of_mem _ (ih hcut (.inl h'))
      · exact List.mem_cons_of_mem _ (ih hcut (.inr hc))

theorem mem_of_mem_trim {c : Char} {s : List Char} (h : c ∈ trim s) : c ∈ s := by
  unfold trim at h
  have h₁ := (List.dropWhile_sublist _).subset (List.mem_reverse.mp h)
  exact (List.dropWhile_sublist _).subset (List.mem_reverse.mp h₁)

/-! ## Letters -/

theorem colonFree_lowerFirst {s : String} (h : ColonFree s) : ColonFree (lowerFirst s) :=
  fun hmem => h (isMark_colon.mem_lowerFirst.mp hmem)

end Text

namespace Digits

theorem colonFree_ofNat (n : Nat) : ':' ∉ ofNat n :=
  fun h => absurd (isDigit_ofNat n ':' h) (by decide)

end Digits

/-! ## Pieces of a path -/

namespace Path

open Text

variable {s : String}

theorem colonFree_segments (h : ColonFree s) : ∀ segment ∈ segments s, ColonFree segment := by
  intro segment hsegment
  obtain ⟨piece, hpiece, rfl⟩ := List.mem_map.mp hsegment
  rw [colonFree_ofList]
  exact fun hc => h (mem_of_mem_split (List.mem_filter.mp hpiece).1 hc)

theorem colonFree_head (h : ColonFree s) : ColonFree (head s).1 ∧ ColonFree (head s).2 := by
  unfold head
  split
  · rename_i first rest hcut
    dsimp only
    rw [colonFree_ofList, colonFree_ofList]
    exact ⟨fun hc => h (mem_of_mem_cut hcut (.inl hc)), fun hc => h (mem_of_mem_cut hcut (.inr hc))⟩
  · exact ⟨h, colonFree_empty⟩

theorem colonFree_parse (h : ColonFree s) :
    ColonFree (parse s).before ∧ ColonFree (parse s).inner ∧ ColonFree (parse s).after := by
  have hwhole : ColonFree "" ∧ ColonFree s ∧ ColonFree "" := ⟨colonFree_empty, h, colonFree_empty⟩
  unfold parse
  split
  · rename_i function rest hcut
    split
    · have hfunction : ':' ∉ function := fun hc => h (mem_of_mem_cut hcut (.inl hc))
      have hbody : ':' ∉ rest.dropLast := fun hc =>
        h (mem_of_mem_cut hcut (.inr ((List.dropLast_sublist _).subset hc)))
      unfold inBrackets
      dsimp only
      refine ⟨?_, ?_, by decide⟩
      · rw [colonFree_ofList, List.mem_append, List.mem_append, List.mem_cons, not_or, not_or, not_or]
        refine ⟨⟨hfunction, by decide, ?_⟩, ?_⟩
        · exact fun hc => hbody ((List.takeWhile_sublist _).subset hc)
        · split
          · decide
          · exact List.not_mem_nil
      · rw [colonFree_ofList]
        intro hc
        exact hbody ((List.dropWhile_sublist _).subset (List.mem_of_mem_drop (mem_of_mem_trim hc)))
    · exact hwhole
  · exact hwhole

end Path

end ObjectQuery
