import ObjectQuery.CaseFolding
import ObjectQuery.Proofs.Step.Coincidence
import ObjectQuery.Proofs.Theta.Emission

/-!
# Paths behind the name of their class

A path from the query class may be written with the name of the class in front. Both ways of writing
it start from the same alias as long as no scope is open but the root one and the class has the alias
that it has from the start.

* `Path.qualify`: a path with the name of a class in front.
* `Path.IsQualifier`, `Path.IsOwn`: names and paths that can be put together.
* `CaseFolding.isIdentifier_qualify`, `CaseFolding.isNameByConvention_qualify`: what is read off the
  end of a path.
* `Aliases.AtHome`: aliases in which paths start from the query class.
* `Aliases.coincides_resolve`, `Aliases.coincides_pushCollection`, `Aliases.AtHome.describe`: both
  ways of writing a path lead to the same.
-/

namespace ObjectQuery

open Step

/-! ## Texts -/

namespace Text

variable {c : Char} {s before rest : List Char}

theorem cut_of_not_mem (h : c ∉ s) : cut c s = none := by
  induction s with
  | nil => rfl
  | cons first s ih =>
    obtain ⟨hne, hs⟩ : c ≠ first ∧ c ∉ s := by simpa using h
    rw [cut, if_neg hne.symm, ih hs, Option.map_none]

theorem cut_append (h : c ∉ before) : cut c (before ++ c :: rest) = some (before, rest) := by
  induction before with
  | nil => exact if_pos rfl
  | cons first s ih =>
    obtain ⟨hne, hs⟩ : c ≠ first ∧ c ∉ s := by simpa using h
    rw [List.cons_append, cut, if_neg hne.symm, ih hs, Option.map_some]

/-- Nothing before the first separator is one. -/
theorem not_mem_of_cut (h : cut c s = some (before, rest)) : c ∉ before := by
  induction s generalizing before with
  | nil => cases h
  | cons first s ih =>
    rw [cut] at h
    split at h
    · cases h
      exact List.not_mem_nil
    · rename_i hne
      obtain ⟨⟨before', rest'⟩, hcut, heq⟩ := Option.map_eq_some_iff.mp h
      cases heq
      intro hc
      rcases List.mem_cons.mp hc with rfl | hc
      · exact hne rfl
      · exact ih hcut hc

/-- The first piece of a text is what stands before the first separator. -/
theorem split_eq (c : Char) (s : List Char) :
    split c s = (cut c s).elim [s] fun parts => parts.1 :: split c parts.2 := by
  induction s with
  | nil => rfl
  | cons first s ih =>
    rw [split, cut]
    split
    · rfl
    · rw [ih]
      cases cut c s <;> rfl

theorem hasChar_append (c : Char) (s t : String) :
    hasChar c (s ++ t) = (hasChar c s || hasChar c t) := by
  rw [hasChar, String.toList_append, List.contains_append]
  rfl

theorem not_mem_of_hasChar {s : String} (h : hasChar c s = false) : c ∉ s.toList := by
  simpa [hasChar] using h

/-- A point and a word without one end a text that is put together at a point only where they end
the second part or the word is that part. -/
theorem isSuffixOf_append_point {word : List Char} (h : '.' ∉ word) (before s : List Char) :
    (('.' :: word).isSuffixOf (before ++ '.' :: s)) =
      (decide (s = word) || ('.' :: word).isSuffixOf s) := by
  rw [Bool.eq_iff_iff, Bool.or_eq_true, List.isSuffixOf_iff_suffix, List.isSuffixOf_iff_suffix,
    decide_eq_true_iff]
  have hpart : '.' :: s <:+ before ++ '.' :: s := List.suffix_append _ _
  constructor
  · intro hword
    rcases List.suffix_or_suffix_of_suffix hword hpart with hsuffix | hsuffix
    · rcases List.suffix_cons_iff.mp hsuffix with heq | hsuffix
      · exact .inl (List.cons.inj heq).2.symm
      · exact .inr hsuffix
    · rcases List.suffix_cons_iff.mp hsuffix with heq | hsuffix
      · exact .inl (List.cons.inj heq).2
      · exact absurd (hsuffix.mem List.mem_cons_self) h
  · rintro (rfl | hsuffix)
    · exact hpart
    · exact hsuffix.trans ((List.suffix_cons _ _).trans hpart)

end Text

namespace Path

/-- A path with the name of a class in front. -/
def qualify (className p : String) : String := className ++ "." ++ p

/-- A name that is read as the name of a class in front of a path. A bracket in it would open a
function. -/
structure IsQualifier (className : String) : Prop where
  startsUpper : Text.startsUpper className = true
  noPoint : Text.hasChar '.' className = false
  noBracket : Text.hasChar '(' className = false

/-- A path outside functions that starts with a property of the class. -/
structure IsOwn (c : Catalog) (className p : String) : Prop where
  noBracket : Text.hasChar '(' p = false
  notRows : p ≠ "*"
  first : ∃ first, (segments p).head? = some first ∧ Text.startsUpper first = false ∧
    (c.property? className first).isSome = true

theorem parse_eq {p : String} (h : Text.hasChar '(' p = false) : parse p = ⟨"", p, ""⟩ := by
  rw [parse, Text.cut_of_not_mem (Text.not_mem_of_hasChar h)]

theorem head_of_noPoint {p : String} (h : Text.hasChar '.' p = false) : head p = (p, "") := by
  rw [head, Text.cut_of_not_mem (Text.not_mem_of_hasChar h)]

/-- A path without points is a single segment. -/
theorem segments_of_noPoint {p : String} (h : Text.hasChar '.' p = false) (hne : p ≠ "") :
    segments p = [p] := by
  have hlist : p.toList ≠ [] := by simpa using hne
  rw [segments, Text.split_eq, Text.cut_of_not_mem (Text.not_mem_of_hasChar h)]
  simp [hlist]

theorem toList_qualify (className p : String) :
    (qualify className p).toList = className.toList ++ '.' :: p.toList := by
  rw [qualify, String.toList_append, String.toList_append, List.append_assoc]
  rfl

theorem hasChar_point_qualify (className p : String) :
    Text.hasChar '.' (qualify className p) = true := by
  rw [qualify, Text.hasChar_append, Text.hasChar_append]
  simp [Text.hasChar]

theorem dropStart?_qualify (className p : String) :
    Text.dropStart? (qualify className p) (className ++ ".") = some p := by
  have hlist : (qualify className p).toList = (className ++ ".").toList ++ p.toList :=
    String.toList_append
  have hstart : Text.startsWith (qualify className p) (className ++ ".") = true := by
    rw [Text.startsWith, hlist]
    exact List.isPrefixOf_iff_prefix.mpr (List.prefix_append _ _)
  rw [Text.dropStart?, if_pos hstart, hlist, List.drop_left, String.ofList_toList]

section

variable {c : Catalog} {className p : String}

namespace IsQualifier

variable (h : IsQualifier className)

include h

theorem head_qualify (p : String) : head (qualify className p) = (className, p) := by
  rw [head, toList_qualify, Text.cut_append (Text.not_mem_of_hasChar h.noPoint)]
  simp

theorem startsUpper_qualify (p : String) : Text.startsUpper (qualify className p) = true := by
  have hclass := h.startsUpper
  rw [Text.startsUpper] at hclass ⊢
  rw [toList_qualify]
  cases hlist : className.toList with
  | nil => rw [hlist] at hclass; cases hclass
  | cons first rest => rwa [hlist] at hclass

theorem qualify_ne_rows (p : String) : qualify className p ≠ "*" := by
  intro heq
  have hupper := h.startsUpper_qualify p
  rw [heq] at hupper
  revert hupper
  decide

theorem noBracket_qualify (hp : Text.hasChar '(' p = false) :
    Text.hasChar '(' (qualify className p) = false := by
  rw [qualify, Text.hasChar_append, Text.hasChar_append, h.noBracket, hp]
  decide

end IsQualifier

namespace IsOwn

variable (h : IsOwn c className p)

include h

theorem isKnown : c.isKnown className = true := by
  obtain ⟨first, -, -, hdeclared⟩ := h.first
  rw [Catalog.isKnown]
  cases hentity : c.entity? className with
  | some e => rfl
  | none =>
    rw [Catalog.property?, Catalog.lineage, hentity] at hdeclared
    cases hdeclared

/-- A single segment is a property of the class. -/
theorem of_single (hpoint : Text.hasChar '.' p = false) :
    Text.startsUpper p = false ∧ (c.property? className p).isSome = true := by
  obtain ⟨first, hfirst, hupper, hdeclared⟩ := h.first
  rw [segments, Text.split_eq, Text.cut_of_not_mem (Text.not_mem_of_hasChar hpoint)] at hfirst
  by_cases hempty : p.toList = []
  · simp [hempty] at hfirst
  · obtain rfl : p = first := by simpa [hempty] using hfirst
    exact ⟨hupper, hdeclared⟩

theorem startsUpper_head : Text.startsUpper (head p).1 = false := by
  obtain ⟨first, hfirst, hupper, -⟩ := h.first
  rw [segments, Text.split_eq] at hfirst
  rw [head]
  cases hcut : Text.cut '.' p.toList with
  | none =>
    rw [hcut] at hfirst
    by_cases hempty : p.toList = []
    · simp [hempty] at hfirst
    · obtain rfl : p = first := by simpa [hempty] using hfirst
      exact hupper
  | some parts =>
    rw [hcut] at hfirst
    -- Where nothing stands before the first point, the path does not start with a letter.
    by_cases hempty : parts.1 = []
    · simp [hempty, Text.startsUpper]
    · obtain rfl : String.ofList parts.1 = first := by simpa [hempty] using hfirst
      exact hupper

theorem dropStart? (hclass : IsQualifier className) :
    Text.dropStart? p (className ++ ".") = none := by
  rw [Text.dropStart?]
  refine if_neg fun hstart => ?_
  obtain ⟨rest, hrest⟩ := List.isPrefixOf_iff_prefix.mp hstart
  have hp : p = qualify className (String.ofList rest) := by
    apply String.toList_inj.mp
    rw [toList_qualify, String.toList_ofList, ← hrest, String.toList_append, List.append_assoc]
    rfl
  have hhead := h.startsUpper_head
  rw [hp, hclass.head_qualify, hclass.startsUpper] at hhead
  cases hhead

end IsOwn

end

end Path

namespace CaseFolding

variable {p : String}

theorem endsWith_qualify (className : String) {word : String} (h : '.' ∉ word.toList) :
    Text.endsWith (Path.qualify className p) ("." ++ word) =
      (decide (p = word) || Text.endsWith p ("." ++ word)) := by
  rw [Text.endsWith, Text.endsWith, Path.toList_qualify, String.toList_append]
  show ('.' :: word.toList).isSuffixOf _ = (_ || ('.' :: word.toList).isSuffixOf _)
  rw [Text.isSuffixOf_append_point h]
  simp only [String.toList_inj]

/-- The identifier of the class is one under its own name, too. -/
theorem isIdentifier_qualify (className p : String) :
    isIdentifier (Path.qualify className p) = isIdentifier p := by
  have hne : (Path.qualify className p == "id") = false := by
    rw [beq_eq_false_iff_ne]
    intro heq
    have hpoint := Path.hasChar_point_qualify className p
    rw [heq] at hpoint
    revert hpoint
    decide
  have hends : Text.endsWith (Path.qualify className p) ("." ++ "id") =
      (decide (p = "id") || Text.endsWith p ("." ++ "id")) :=
    endsWith_qualify className (by decide)
  rw [isIdentifier, isIdentifier, hne, Bool.false_or]
  exact hends

/-- A convention about the last of several segments. -/
theorem isNameByConvention_qualify (className : String) (hpoint : Text.hasChar '.' p = true) :
    isNameByConvention (Path.qualify className p) = isNameByConvention p := by
  have hword : ∀ word : String, '.' ∉ word.toList →
      Text.endsWith (Path.qualify className p) ("." ++ word) = Text.endsWith p ("." ++ word) := by
    intro word hword
    have hne : p ≠ word := by
      rintro rfl
      exact hword (by simpa [Text.hasChar] using hpoint)
    rw [endsWith_qualify className hword, decide_eq_false hne, Bool.false_or]
  have hname := hword "name" (by decide)
  have hdisplay := hword "displayName" (by decide)
  rw [isNameByConvention, isNameByConvention]
  exact congr (congrArg or hname) hdisplay

end CaseFolding

/-! ## Aliases -/

namespace Aliases

variable {C p : String} {c : Catalog} {a : Aliases}

/-- The only scope is that of the query class, and the class has the alias that it has from the
start. -/
structure AtHome (C : String) (a : Aliases) : Prop where
  queryClass : a.queryClass = C
  frames : a.frames = (start C).frames
  classAlias : a.classAlias? C = some (classAliasName C none)

theorem AtHome.scope (h : a.AtHome C) : ∃ joined, a.scopes =
    [{ kind := .root, className := C, aliasName := some (classAliasName C none)
       rootClass := C, rootPath := [], joined }] := by
  have hframes : a.scopes.map Scope.frame = (start C).frames := h.frames
  rw [start_eq] at hframes
  obtain ⟨s, hscopes, hs⟩ := List.map_eq_singleton_iff.mp hframes
  refine ⟨s.joined, ?_⟩
  rw [hscopes]
  obtain ⟨kind, className, aliasName, rootClass, rootPath, joined⟩ := s
  cases hs
  rfl

theorem AtHome.currentClass (h : a.AtHome C) : a.currentClass = C := by
  obtain ⟨joined, hscopes⟩ := h.scope
  rw [Aliases.currentClass, scope?, hscopes]
  rfl

theorem AtHome.inCollection (h : a.AtHome C) : a.inCollection = false := by
  obtain ⟨joined, hscopes⟩ := h.scope
  rw [Aliases.inCollection, scope?, hscopes]
  rfl

/-- Steps that leave the scopes and the aliases of classes alone. -/
theorem AtHome.kept {α : Type} {x : Step Aliases α} (hscopes : Leads Resumes Resumes x)
    (hclasses : Leads SameClasses SameClasses x) :
    ∀ a r b, x.Yields a r b → a.AtHome C → b.AtHome C := by
  intro a r b hx ha
  have hb := hscopes.yields hx
  refine ⟨hb.queryClass.trans ha.queryClass, hb.frames.trans ha.frames, ?_⟩
  rw [classAlias?, (hclasses.yields hx).classAliases]
  exact ha.classAlias

/-! ## References -/

/-- A path that cannot be followed is named in errors only. -/
theorem coincides_advance (path path' : String) (o : Resolution) (cursor : Cursor)
    (segment : String) :
    Coincides (AtHome C) (AtHome C) (advance c path o cursor segment)
      (advance c path' o cursor segment) := by
  refine .bind (.ofReported rfl) fun property => ?_
  split
  · exact .bind (.refl (AtHome.kept (resumes_walk.joinSegment _ _ _ _)
      (sameClasses_walk.joinSegment _ _ _ _))) fun _ => .pure _
  · exact .fail _ _

theorem coincides_follow (path path' : String) (o : Resolution) (cursor : Cursor)
    (segments : List String) :
    Coincides (AtHome C) (AtHome C) (follow c path o cursor segments)
      (follow c path' o cursor segments) := by
  match segments with
  | [] => exact .pure _
  | [last] =>
    exact .refl (AtHome.kept (resumes_walk.finish _ _ _) (sameClasses_walk.finish _ _ _))
  | segment :: last :: rest =>
    have hbranch (isKey : Bool) : Coincides (AtHome C) (AtHome C)
        (if isKey then pure (cursor.aliasName, [segment, "id"])
          else do follow c path o (← advance c path o cursor segment) (last :: rest) :
            Step Aliases (String × List String))
        (if isKey then pure (cursor.aliasName, [segment, "id"])
          else do follow c path' o (← advance c path' o cursor segment) (last :: rest)) := by
      split
      · exact .pure _
      · exact .bind (coincides_advance path path' o cursor segment) fun next =>
          coincides_follow path path' o next (last :: rest)
    unfold follow
    dsimp only
    split
    · refine .bind (.ofReported rfl) fun property => ?_
      split
      · exact hbranch true
      · exact hbranch false
    · exact hbranch false

theorem coincides_advanceAll (path path' : String) (cursor : Cursor) (segments : List String) :
    Coincides (AtHome C) (AtHome C) (advanceAll c path cursor segments)
      (advanceAll c path' cursor segments) := by
  induction segments generalizing cursor with
  | nil => exact .pure _
  | cons segment rest ih => exact .bind (coincides_advance _ _ _ _ _) fun next => ih next

section

variable (hclass : Path.IsQualifier C) (hp : Path.IsOwn c C p)

include hclass hp

/-- With the name of the class or without it, a path starts from the alias of the class. -/
theorem startOf_qualify (ha : a.AtHome C) :
    (startOf c (Path.qualify C p)).run a = (startOf c p).run a := by
  obtain ⟨joined, hscopes⟩ := ha.scope
  rw [startOf, startOf, run_bind, run_bind]
  dsimp only
  rw [hclass.head_qualify, hclass.startsUpper, hp.isKnown, hp.startsUpper_head]
  show Outcome.andThen ⟨.ok a, a, []⟩ _ = Outcome.andThen ⟨.ok a, a, []⟩ _
  rw [Outcome.andThen, Outcome.andThen]
  dsimp only
  rw [Bool.and_self, if_pos rfl, ha.classAlias, Bool.false_and, if_neg Bool.false_ne_true, scope?,
    hscopes]
  rfl

theorem coincides_startOf :
    Coincides (AtHome C) (AtHome C) (startOf c (Path.qualify C p)) (startOf c p) := by
  intro a ha r b
  unfold Yields
  rw [startOf_qualify hclass hp ha]
  refine ⟨Iff.rfl, fun h => ?_⟩
  exact AtHome.kept (WalkRules.startOf p) (WalkRules.startOf p) a r b h ha

theorem coincides_resolve (o : Resolution) :
    Coincides (AtHome C) (AtHome C) (resolve c (Path.qualify C p) o) (resolve c p o) := by
  unfold resolve
  rw [Path.parse_eq (hclass.noBracket_qualify hp.noBracket), Path.parse_eq hp.noBracket]
  dsimp only
  rw [if_neg (by simpa using hclass.qualify_ne_rows p), if_neg (by simpa using hp.notRows)]
  refine .bind (coincides_startOf hclass hp) fun start => ?_
  split
  · exact .pure _
  · exact .bind (coincides_follow _ _ _ _ _) fun _ => .pure _

/-! ## Collections -/

theorem coincides_pushCollection (joinType : JoinType) :
    Coincides (AtHome C) (fun _ => True) (pushCollection c (Path.qualify C p) joinType)
      (pushCollection c p joinType) := by
  refine .bind (coincides_startOf hclass hp) fun start => ?_
  split
  · exact .get_bind fun _ _ => .fail _ _
  · split
    · exact .fail _ _
    · refine .bind (coincides_advanceAll _ _ _ _) fun owner => ?_
      refine .bind (J := fun _ => True) (.leaving (.ofReported rfl) fun _ _ _ _ _ => trivial)
        fun found => ?_
      split
      · exact .same _
      · exact .fail _ _

/-! ## Shapes -/

theorem AtHome.describe (ha : a.AtHome C) :
    Aliases.describe c a (Path.qualify C p) = Aliases.describe c a p := by
  rw [Aliases.describe, Aliases.describe,
    Path.parse_eq (hclass.noBracket_qualify hp.noBracket), Path.parse_eq hp.noBracket]
  dsimp only
  rw [hclass.head_qualify, hclass.startsUpper, hp.isKnown, hp.startsUpper_head, ha.currentClass]
  rfl

end

end Aliases

end ObjectQuery
