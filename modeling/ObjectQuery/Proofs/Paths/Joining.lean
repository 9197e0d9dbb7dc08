import ObjectQuery.Proofs.Context.Paths
import ObjectQuery.Proofs.Paths.Strides

/-!
# Joins that paths add

Whatever a path is, and also where it cannot be resolved, resolving it only adds joins. They navigate
associations, and all of them are outer joins or all of them inner ones: outer ones are asked for by
the path itself or by the mark of the aliases.

* `Aliases.Joining`: aliases with such joins added.
* `Aliases.resolve_joining`, `Aliases.resolveEnclosing_joining`, `Aliases.advanceAll_joining`: paths
  add such joins.
* `Aliases.pushCollection_joins`: a collection adds them on the way, and a join for its elements.
-/

namespace ObjectQuery

open Step

namespace Aliases

variable {a b u : Aliases} {c : Catalog} {outer : Bool}

theorem joinTypeFor_congr (h : b.insideOr = a.insideOr) (outer : Bool) :
    b.joinTypeFor outer = a.joinTypeFor outer := by
  rw [joinTypeFor, h, joinTypeFor]

theorem joinTypeFor_eq_leftOuter (a : Aliases) (outer : Bool) :
    a.joinTypeFor outer = .leftOuter ↔ outer = true ∨ a.insideOr = true := by
  rw [joinTypeFor, ← Bool.or_eq_true]
  split <;> simp_all

/-- The aliases with the sources and the mark of others and with associations joined behind their
joins, in the way that is asked for. -/
structure Joining (outer : Bool) (a b : Aliases) : Prop where
  sources : b.sources = a.sources
  insideOr : b.insideOr = a.insideOr
  joins : ∃ added, b.joins = a.joins ++ added ∧
    ∀ j ∈ added, j.isNavigated = true ∧ j.joinType = a.joinTypeFor outer

theorem Joining.refl (outer : Bool) (a : Aliases) : Joining outer a a :=
  ⟨rfl, rfl, [], (List.append_nil _).symm, by simp⟩

theorem Joining.trans (h : Joining outer a b) (h' : Joining outer b u) : Joining outer a u := by
  obtain ⟨added, hjoins, hadded⟩ := h.joins
  obtain ⟨added', hjoins', hadded'⟩ := h'.joins
  rw [joinTypeFor_congr h.insideOr] at hadded'
  refine ⟨h'.sources.trans h.sources, h'.insideOr.trans h.insideOr, added ++ added', ?_, ?_⟩
  · rw [hjoins', hjoins, List.append_assoc]
  · exact List.forall_mem_append.mpr ⟨hadded, hadded'⟩

instance : IsPreorder Aliases (Joining outer) where
  refl := .refl outer
  trans _ _ _ := .trans

theorem joining_createJoin (a : Aliases) (cursor : Cursor) (segment : String)
    (target : Option String) (outer : Bool) :
    Joining outer a (a.createJoin cursor segment target (a.joinTypeFor outer)).2 :=
  ⟨rfl, rfl, _, rfl, List.forall_mem_singleton.mpr ⟨rfl, rfl⟩⟩

/-- The new join is an association's, and comes last. -/
theorem createJoin_last (a : Aliases) (cursor : Cursor) (segment : String) (target : Option String)
    (joinType : JoinType) : ∃ j, (a.createJoin cursor segment target joinType).2.joins =
      a.joins ++ [j] ∧ j.isNavigated = true ∧ j.joinType = joinType ∧
      j.aliasName = (a.createJoin cursor segment target joinType).1 :=
  ⟨_, rfl, rfl, rfl, rfl⟩

/-- An association that is not joined yet is joined in the way that is asked for. -/
theorem joinSegment_joining (a : Aliases) (cursor : Cursor) (segment : String)
    (target : Option String) (o : Resolution) :
    (joinSegment cursor segment target o).Ends (Joining o.outer a)
      (fun _ => Joining o.outer a) a := by
  have hnew := joining_createJoin a cursor segment target o.outer
  refine .get_bind ?_
  dsimp only
  split
  · exact .pure (.refl _ a)
  · refine .put_bind (.pure ?_)
    split
    · exact hnew
    · rw [remember]
      split
      · exact hnew
      · exact ⟨hnew.sources, hnew.insideOr, hnew.joins⟩

theorem joining_strides (o : Resolution) : Strides o (fun _ _ => True) (Joining o.outer)
    (fun a b _ _ _ => Joining o.outer a b) where
  stay _ := .refl _ _
  trans := .trans
  goesOn _ := trivial
  fails _ := .refl _ _
  failsBehind := .trans
  join segment target _ := joinSegment_joining _ _ segment target _

/-- Resolving a path adds joins, also where the path cannot be resolved. -/
theorem resolve_joining (path : String) (o : Resolution) :
    Leads (Joining o.outer) (Joining o.outer) (resolve c path o) := by
  intro a
  have hends : (resolve c path o).Ends (Joining o.outer a)
      (Found (fun a b _ _ _ => Joining o.outer a b) c path o a) a :=
    (joining_strides o).resolve (fun _ _ => trivial) (.refl _ a)
  refine hends.mono (fun _ => id) fun r b hfound => ?_
  cases hfound with
  | rows | nowhere => exact .refl _ _
  | refers _ hrefers =>
    obtain ⟨_, _, _, _, -, -, -, -, hjoining⟩ := hrefers
    exact hjoining

theorem resolveEnclosing_joining (path : String) :
    Leads (Joining false) (Joining false) (resolveEnclosing c path) :=
  leads_resolveEnclosing (fun _ hu => ⟨hu.sources, hu.insideOr, hu.joins⟩) (resolve_joining path _)

/-! ## Collections -/

/-- Associations that are navigated one after the other are joined one after the other. -/
theorem advanceAll_joining (path : String) (cursor : Cursor) (segments : List String) :
    Leads (Joining false) (Joining false) (advanceAll c path cursor segments) := by
  induction segments generalizing cursor with
  | nil => exact .pure _
  | cons segment rest ih =>
    have hadvance : Leads (Joining false) (Joining false) (advance c path {} cursor segment) :=
      fun a => ((joining_strides {}).advance trivial path segment).mono (fun _ => id)
        fun _ _ h => h.2
    exact hadvance.bind fun next => ih next

/-- A collection is joined last, behind the associations on the way to it, and its alias is that of
the scope that is opened for its elements. -/
theorem pushCollection_joins {property aliasName : String} {joinType : JoinType}
    (h : (pushCollection c property joinType).Yields a aliasName b) :
    b.sources = a.sources ∧ b.insideOr = a.insideOr ∧ ∃ way last,
      b.joins = a.joins ++ (way ++ [last]) ∧
      (∀ j ∈ way, j.isNavigated = true ∧ j.joinType = a.joinTypeFor false) ∧
      last.isNavigated = true ∧ last.joinType = joinType ∧
      b.currentAlias = some last.aliasName := by
  obtain ⟨start, u, hstart, h₁⟩ := yields_bind.mp h
  obtain ⟨rfl, -⟩ := (a.startOf_starts c property).yields hstart
  split at h₁
  · have h₂ := yields_get_bind.mp h₁
    exact (yields_fail.mp h₂).elim
  · split at h₁
    · exact (yields_fail.mp h₁).elim
    · rename_i last _
      obtain ⟨owner, v, hall, h₂⟩ := yields_bind.mp h₁
      obtain ⟨p, w, hlook, h₃⟩ := yields_bind.mp h₂
      obtain ⟨rfl, rfl⟩ := yields_ofReported.mp hlook
      split at h₃
      · rename_i _ name column nullable unique element inverse _
        obtain ⟨_, z, hput, h₄⟩ := yields_bind.mp (yields_get_bind.mp h₃)
        obtain rfl := yields_modify.mp hput
        obtain ⟨-, rfl⟩ := yields_pure.mp h₄
        have hway := (advanceAll_joining property _ _).yields hall
        obtain ⟨way, hjoins, hkinds⟩ := hway.joins
        obtain ⟨j, hlast, hnavigated, hkind, halias⟩ :=
          createJoin_last w owner last (some element) joinType
        refine ⟨hway.sources, hway.insideOr, way, j, ?_, hkinds, hnavigated, hkind,
          congrArg some halias.symm⟩
        rw [← List.append_assoc, ← hjoins]
        exact hlast
      · exact (yields_fail.mp h₃).elim

end Aliases

end ObjectQuery
