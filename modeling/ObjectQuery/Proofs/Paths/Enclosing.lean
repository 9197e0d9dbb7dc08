import Mathlib.Data.List.Forall2
import ObjectQuery.Proofs.Context.Aliases
import ObjectQuery.Proofs.Paths.Joining

/-!
# Paths in enclosing scopes

A path that is resolved in the enclosing scopes goes through them from the inside, and the first one
that it starts from decides. The scopes passed on the way are put back, whatever comes of it.

* `Aliases.KeepsScopes`: the same scopes in the same order, which have forgotten nothing.
* `Aliases.keepsScopes_walk`: paths leave the scopes like that.
* `Aliases.outward`: the aliases as they are seen from a scope further out.
* `Aliases.EndsNearest`: a path ends as it does from the nearest scope further out that it starts
  from, or fails where there is none.
* `Aliases.resolveEnclosing_endsNearest`: so does every path that is resolved in the enclosing scopes.
-/

namespace ObjectQuery

open Step

/-- A scope that remembers all joins of another, and is the same otherwise. -/
structure Scope.Keeps (s s' : Scope) : Prop where
  frame : s'.frame = s.frame
  joined : ∀ key aliasName, s.joined.find? key = some aliasName →
    s'.joined.find? key = some aliasName

instance : Std.Refl Scope.Keeps where
  refl _ := ⟨rfl, fun _ _ => id⟩

theorem Scope.Keeps.trans {s s' s'' : Scope} (h : s.Keeps s') (h' : s'.Keeps s'') : s.Keeps s'' where
  frame := h'.frame.trans h.frame
  joined key aliasName hfind := h'.joined key aliasName (h.joined key aliasName hfind)

namespace Aliases

variable {a b : Aliases} {c : Catalog} {path : String}

/-! ## Scopes that are kept -/

/-- The same scopes in the same order, which have forgotten nothing. -/
def KeepsScopes (a b : Aliases) : Prop := List.Forall₂ Scope.Keeps a.scopes b.scopes

theorem KeepsScopes.trans {u : Aliases} (h : a.KeepsScopes b) (h' : b.KeepsScopes u) :
    a.KeepsScopes u := by
  unfold KeepsScopes at h h' ⊢
  generalize a.scopes = first, b.scopes = second, u.scopes = last at h h' ⊢
  induction h generalizing last with
  | nil => exact h'
  | cons hfirst _ ih =>
    cases h' with
    | cons hfirst' hrest' => exact .cons (hfirst.trans hfirst') (ih _ hrest')

instance : IsPreorder Aliases KeepsScopes where
  refl a := List.forall₂_refl a.scopes
  trans _ _ _ := .trans

theorem keepsScopes_remember {key : String × String} (hkey : a.joined? key = none)
    (aliasName : String) : a.KeepsScopes (a.remember key aliasName) := by
  unfold remember
  split
  · exact Std.Refl.refl a
  · rename_i inner outer hscopes
    have hnew : inner.joined.find? key = none := by
      rw [joined?, scope?, hscopes] at hkey
      exact hkey
    have hinner : inner.Keeps { inner with joined := inner.joined.insert key aliasName } := by
      refine ⟨rfl, fun other x hfind => ?_⟩
      have hne : other ≠ key := by
        rintro rfl
        rw [hnew] at hfind
        cases hfind
      exact (Dictionary.find?_insert_of_ne hne _ _).trans hfind
    show List.Forall₂ _ a.scopes _
    rw [hscopes]
    exact .cons hinner (List.forall₂_refl outer)

/-- Paths leave the scopes where they are and make them forget nothing. -/
theorem keepsScopes_walk : WalkRules KeepsScopes where
  createJoin a _ _ _ _ := List.forall₂_refl a.scopes
  remember a cursor segment target joinType hnew := by
    have hcreated : (a.createJoin cursor segment target joinType).2.joined?
        (cursor.aliasName, segment) = none := hnew
    exact keepsScopes_remember (a := (a.createJoin cursor segment target joinType).2) hcreated _
  enclosing {a u inner outer} hscopes hu := by
    show List.Forall₂ _ a.scopes _
    rw [hscopes]
    exact .cons (Std.Refl.refl inner) hu

/-! ## The nearest scope -/

/-- The aliases as they are seen from a scope that is `depth` scopes further out. -/
def outward (a : Aliases) (depth : Nat) : Aliases := { a with scopes := a.scopes.drop depth }

/-- How a path ends from a scope further out. It has joins of its own just if it needs them. -/
def resolveOutward (c : Catalog) (path : String) (a : Aliases) (depth : Nat) :
    Outcome Aliases (Option Reference) :=
  (resolve c path { ownJoins := Path.needsOwnJoins path }).run (a.outward depth)

/-- A path starts nowhere in the scopes further out up to some depth. -/
def StartsNowhere (c : Catalog) (path : String) (a : Aliases) (depth : Nat) : Prop :=
  ∀ nearer, 0 < nearer → nearer < depth → (resolveOutward c path a nearer).result = .ok none

/-- The outcome is that of a path from the nearest scope further out that it starts from, with the
scopes inside of that one put back. Where there is no such scope, the path cannot be resolved. -/
def EndsNearest (c : Catalog) (path : String) (a : Aliases) (o : Outcome Aliases Reference) : Prop :=
  (∃ depth, 0 < depth ∧ depth < a.scopes.length ∧ StartsNowhere c path a depth ∧
    (resolveOutward c path a depth).result = o.result.map some ∧
    o.state = { (resolveOutward c path a depth).state with
      scopes := a.scopes.take depth ++ (resolveOutward c path a depth).state.scopes }) ∨
  StartsNowhere c path a a.scopes.length ∧
    o.result = .error (.unresolvableJoin a.queryClass path path) ∧ o.state = a

/-- A path that starts nowhere has changed nothing. -/
theorem resolve_nowhere {o : Resolution} (h : (resolve c path o).Yields a none b) : b = a := by
  have hends : (resolve c path o).Ends (Joining o.outer a)
      (Found (fun a b _ _ _ => Joining o.outer a b) c path o a) a :=
    (joining_strides o).resolve (fun _ _ => trivial) (.refl _ a)
  cases hends.yields h
  rfl

section

variable {inner : Scope} {outer : List Scope}

theorem resolveOutward_succ (hscopes : a.scopes = inner :: outer) (depth : Nat) :
    resolveOutward c path a (depth + 1) =
      resolveOutward c path { a with scopes := outer } depth := by
  simp [resolveOutward, outward, hscopes]

theorem StartsNowhere.behind (hscopes : a.scopes = inner :: outer)
    (hfirst : (resolveOutward c path a 1).result = .ok none) {depth : Nat}
    (h : StartsNowhere c path { a with scopes := outer } depth) :
    StartsNowhere c path a (depth + 1) := by
  intro nearer hpos hlt
  obtain rfl | hbehind : nearer = 1 ∨ 1 < nearer := by omega
  · exact hfirst
  · obtain ⟨further, rfl⟩ : ∃ further, nearer = further + 1 := ⟨nearer - 1, by omega⟩
    rw [resolveOutward_succ hscopes]
    exact h further (by omega) (by omega)

/-- What comes of the enclosing scopes comes of one more, if the path does not start in it. -/
theorem EndsNearest.behind (hscopes : a.scopes = inner :: outer)
    (hfirst : (resolveOutward c path a 1).result = .ok none) {o : Outcome Aliases Reference}
    (h : EndsNearest c path { a with scopes := outer } o) :
    EndsNearest c path a { o with state := { o.state with scopes := inner :: o.state.scopes } } := by
  rcases h with ⟨depth, hpos, hlt, hnearer, hresult, hstate⟩ | ⟨hnowhere, hresult, hstate⟩
  · refine .inl ⟨depth + 1, by omega, ?_, hnearer.behind hscopes hfirst, ?_, ?_⟩
    · rw [hscopes]
      exact Nat.succ_lt_succ hlt
    · rw [resolveOutward_succ hscopes, hresult]
    · rw [resolveOutward_succ hscopes]
      simp [hstate, hscopes]
  · refine .inr ⟨?_, hresult, ?_⟩
    · rw [hscopes]
      exact hnowhere.behind hscopes hfirst
    · simp [hstate, ← hscopes]

/-- The next scope decides if the path starts in it, also if it fails there. -/
theorem endsNearest_of_next (hscopes : a.scopes = inner :: outer) (houter : outer ≠ [])
    {r : Except CompileError Reference} {u : Aliases} {events events' : List Event}
    (hnext : resolveOutward c path a 1 = ⟨r.map some, u, events⟩) :
    EndsNearest c path a ⟨r, { u with scopes := inner :: u.scopes }, events'⟩ := by
  refine .inl ⟨1, Nat.one_pos, ?_, fun nearer hpos hlt => by omega, ?_, ?_⟩
  · rw [hscopes]
    exact Nat.succ_lt_succ (List.length_pos_of_ne_nil houter)
  · rw [hnext]
  · rw [hnext, hscopes]
    rfl

/-- The next scope decides, or it is passed. -/
theorem endsNearest_step (hscopes : a.scopes = inner :: outer) (houter : outer ≠ [])
    {further : Step Aliases Reference}
    (hfurther : EndsNearest c path { a with scopes := outer }
      (further.run { a with scopes := outer })) :
    EndsNearest c path a ((Step.restoring (fun a => { a with scopes := outer })
      (fun _ u => { u with scopes := inner :: u.scopes })
      (resolve c path { ownJoins := Path.needsOwnJoins path } >>= fun found =>
        match found with
        | some reference => pure reference
        | none => further)).run a) := by
  have hrun (x : Step Aliases Reference) : (Step.restoring (fun a => { a with scopes := outer })
      (fun _ u => { u with scopes := inner :: u.scopes }) x).run a =
      ⟨(x.run { a with scopes := outer }).result,
        { (x.run { a with scopes := outer }).state with
          scopes := inner :: (x.run { a with scopes := outer }).state.scopes },
        (x.run { a with scopes := outer }).events⟩ := rfl
  have hnext : resolveOutward c path a 1 =
      (resolve c path { ownJoins := Path.needsOwnJoins path }).run { a with scopes := outer } :=
    resolveOutward_succ hscopes 0
  rw [hrun, run_bind]
  rcases hfirst : (resolve c path { ownJoins := Path.needsOwnJoins path }).run
    { a with scopes := outer } with ⟨e | found, u, events⟩
  · exact endsNearest_of_next (r := .error e) hscopes houter (hnext.trans hfirst)
  · cases found with
    | some reference =>
      exact endsNearest_of_next (r := .ok reference) hscopes houter (hnext.trans hfirst)
    | none =>
      have hnone : (resolve c path { ownJoins := Path.needsOwnJoins path }).Yields
          { a with scopes := outer } none u := by
        constructor <;> rw [hfirst]
      obtain rfl := resolve_nowhere hnone
      exact hfurther.behind hscopes (congrArg Outcome.result (hnext.trans hfirst))

end

theorem resolveWithin_endsNearest (c : Catalog) (path : String) (a : Aliases) :
    EndsNearest c path a ((resolveWithin c path a.scopes.length).run a) := by
  generalize hscopes : a.scopes = scopes
  induction scopes generalizing a with
  | nil =>
    refine .inr ⟨fun nearer hpos hlt => ?_, rfl, rfl⟩
    rw [hscopes] at hlt
    exact absurd hlt (Nat.not_lt_zero _)
  | cons inner outer ih =>
    have hfurther := ih { a with scopes := outer } rfl
    rw [List.length_cons, resolveWithin, run_enclosing _ hscopes]
    cases outer with
    | nil =>
      refine .inr ⟨fun nearer hpos hlt => ?_, rfl, ?_⟩
      · rw [hscopes] at hlt
        exact absurd hlt (Nat.not_lt.mpr hpos)
      · cases a
        cases hscopes
        rfl
    | cons next rest => exact endsNearest_step hscopes (List.cons_ne_nil next rest) hfurther

/-- A path that is resolved in the enclosing scopes leaves the scopes as they were, only that they may
remember more joins, whether it succeeds or fails and wherever it does. It ends as it does from the
nearest enclosing scope that it starts from, with joins of its own just if it needs them, and fails
if it starts from none. -/
theorem resolveEnclosing_endsNearest (c : Catalog) (path : String) (a : Aliases) :
    a.KeepsScopes ((resolveEnclosing c path).run a).state ∧
      EndsNearest c path a ((resolveEnclosing c path).run a) :=
  ⟨(keepsScopes_walk.resolveEnclosing path a).state, resolveWithin_endsNearest c path a⟩

end Aliases

end ObjectQuery
