import ObjectQuery.Aliases.Resolve
import ObjectQuery.Proofs.Number.Digits
import ObjectQuery.Proofs.Text.Casing

/-!
# The names of aliases

An alias is named after a class, or after a class and a path for a joined association, and may end
in a number.

* `Aliases.classAliasName_inj`: the class, up to its first letter, and the number can be read off.
* `Aliases.joinAliasName_inj`: likewise the base of a joined alias and its number.
* `Aliases.underscore_mem_joinAliasName`: a joined alias has an underscore, which aliases of classes
  without underscores have not.
* `Aliases.classAliasName_ne_joinAliasName`: only a numbered alias of a class with an underscore can
  be that of a joined association.
-/

namespace ObjectQuery.Aliases

open Text

/-- The digits behind the name of an alias. -/
def instanceDigits : Option Nat → List Char
  | some n => Digits.ofNat n
  | none => []

theorem isDigit_instanceDigits (o : Option Nat) :
    ∀ c ∈ instanceDigits o, Digits.isDigit c = true := by
  cases o with
  | none => exact fun c hc => absurd hc List.not_mem_nil
  | some n => exact Digits.isDigit_ofNat n

theorem instanceDigits_inj {m n : Option Nat} (h : instanceDigits m = instanceDigits n) :
    m = n := by
  cases m with
  | none =>
    cases n with
    | none => rfl
    | some n => exact absurd h.symm (Digits.ofNat_ne_nil n)
  | some m =>
    cases n with
    | none => exact absurd h (Digits.ofNat_ne_nil m)
    | some n =>
      have hvalue := congrArg Digits.toNat h
      rw [instanceDigits, instanceDigits, Digits.toNat_ofNat, Digits.toNat_ofNat] at hvalue
      rw [hvalue]

theorem toList_classAliasName (className : String) (instanceNumber : Option Nat) :
    (classAliasName className instanceNumber).toList =
      ((lowerFirst className).toList ++ "Alia".toList) ++ 's' :: instanceDigits instanceNumber := by
  unfold classAliasName
  cases instanceNumber <;> simp [instanceDigits]

/-- The class and the number of an alias can be read off, but for the case of the first letter. -/
theorem classAliasName_inj {c c' : String} {m n : Option Nat}
    (h : classAliasName c m = classAliasName c' n) : lowerFirst c = lowerFirst c' ∧ m = n := by
  have hchars := congrArg String.toList h
  rw [toList_classAliasName, toList_classAliasName] at hchars
  obtain ⟨hclass, hdigits⟩ := Digits.append_inj_of_isDigit (by decide) (isDigit_instanceDigits m)
    (isDigit_instanceDigits n) hchars
  exact ⟨String.toList_inj.mp (List.append_cancel_right hclass), instanceDigits_inj hdigits⟩

theorem underscore_not_mem_classAliasName {className : String} (h : '_' ∉ className.toList)
    (instanceNumber : Option Nat) : '_' ∉ (classAliasName className instanceNumber).toList := by
  rw [toList_classAliasName, List.mem_append, List.mem_append, List.mem_cons, not_or, not_or,
    not_or]
  refine ⟨⟨fun hmem => h (isMark_underscore.mem_lowerFirst.mp hmem), by decide⟩, by decide, ?_⟩
  exact fun hmem => absurd (isDigit_instanceDigits _ _ hmem) (by decide)

/-! ## Joined associations -/

/-- The alias of a joined association. -/
def joinAliasName (rootClass : String) (path : List String) (number : Nat) : String :=
  joinAliasBase rootClass path ++ String.ofList (Digits.ofNat number)

theorem toList_joinAliasName (rootClass : String) (path : List String) (number : Nat) :
    (joinAliasName rootClass path number).toList =
      ((lowerFirst (rootClass ++ "_" ++ joinWith "_" path)).toList ++ "Alia".toList) ++
        's' :: Digits.ofNat number := by
  simp [joinAliasName, joinAliasBase]

/-- The base and the number of a joined alias can be read off. -/
theorem joinAliasName_inj {c c' : String} {path path' : List String} {m n : Nat}
    (h : joinAliasName c path m = joinAliasName c' path' n) :
    joinAliasBase c path = joinAliasBase c' path' ∧ m = n := by
  have hchars := congrArg String.toList h
  rw [toList_joinAliasName, toList_joinAliasName] at hchars
  obtain ⟨hbase, hdigits⟩ := Digits.append_inj_of_isDigit (by decide) (Digits.isDigit_ofNat m)
    (Digits.isDigit_ofNat n) hchars
  have hpath := String.toList_inj.mp (List.append_cancel_right hbase)
  refine ⟨by rw [joinAliasBase, joinAliasBase, hpath], ?_⟩
  rw [← Digits.toNat_ofNat m, ← Digits.toNat_ofNat n, hdigits]

/-- A joined alias is counted under its base. -/
theorem isNumbered_joinAliasName (rootClass : String) (path : List String) (number : Nat) :
    isNumbered (joinAliasBase rootClass path) (joinAliasName rootClass path number) = true := by
  have hprefix : startsWith (joinAliasName rootClass path number) (joinAliasBase rootClass path) =
      true := by
    rw [startsWith, joinAliasName, String.toList_append, List.isPrefixOf_iff_prefix]
    exact List.prefix_append _ _
  have hdrop : dropStart? (joinAliasName rootClass path number) (joinAliasBase rootClass path) =
      some (String.ofList (Digits.ofNat number)) := by
    rw [dropStart?, if_pos hprefix, joinAliasName, String.toList_append, String.toList_ofList,
      List.drop_left]
  have hdigits : String.ofList (Digits.ofNat number) ≠ "" := by
    intro hempty
    have hchars := congrArg String.toList hempty
    rw [String.toList_ofList] at hchars
    exact Digits.ofNat_ne_nil number hchars
  rw [isNumbered, hdrop]
  dsimp only
  rw [String.toList_ofList, Bool.and_eq_true, bne_iff_ne, List.all_eq_true]
  exact ⟨hdigits, Digits.isDigit_ofNat number⟩

theorem underscore_mem_joinAliasName (rootClass : String) (path : List String) (number : Nat) :
    '_' ∈ (joinAliasName rootClass path number).toList := by
  rw [toList_joinAliasName, List.mem_append, List.mem_append]
  refine .inl (.inl (isMark_underscore.mem_lowerFirst.mpr ?_))
  simp

/-- An alias without a number, or of a class without an underscore, is none of a joined
association. -/
theorem classAliasName_ne_joinAliasName {className : String} {instanceNumber : Option Nat}
    (h : instanceNumber = none ∨ '_' ∉ className.toList) (rootClass : String) (path : List String)
    (number : Nat) : classAliasName className instanceNumber ≠ joinAliasName rootClass path number := by
  intro heq
  rcases h with rfl | hclass
  · have hchars := congrArg String.toList heq
    rw [toList_classAliasName, toList_joinAliasName] at hchars
    obtain ⟨-, hdigits⟩ := Digits.append_inj_of_isDigit (by decide) (isDigit_instanceDigits none)
      (Digits.isDigit_ofNat number) hchars
    exact Digits.ofNat_ne_nil number hdigits.symm
  · exact underscore_not_mem_classAliasName hclass instanceNumber
      (heq ▸ underscore_mem_joinAliasName rootClass path number)

end ObjectQuery.Aliases
