import ObjectQuery.Proofs.Context.Operations
import ObjectQuery.Proofs.Paths.Histories
import ObjectQuery.Proofs.Paths.Strides

/-!
# Paths that are resolved again

A path that has been followed without joins of its own has all its joins remembered in the innermost
scope, also where it cannot be followed to its end. As long as the scope stays, it comes to the same
again, without any more joins.

* `Aliases.Recalls`: aliases with the same innermost scope, which remembers all that it did.
* `Aliases.recalls_walk`: paths forget nothing.
* `Aliases.Again`: a step that comes to the same result or error again and leaves the aliases alone.
* `Aliases.resolve_again`: so does a path without joins of its own.
* `Aliases.Operation.StaysInScope`: what may be done to the aliases meanwhile.
* `Aliases.Attained.resolve_repeats`: a path in the course of such operations.
-/

namespace ObjectQuery

open Step

namespace Aliases

variable {a b u : Aliases} {c : Catalog} {α β : Type}

/-- The classes have the same aliases, and the innermost scope is the same and remembers all joins
that it did. -/
structure Recalls (a b : Aliases) : Prop where
  classAliases : b.classAliases = a.classAliases
  scope : b.scope?.map Scope.frame = a.scope?.map Scope.frame
  joined : ∀ key aliasName, a.joined? key = some aliasName → b.joined? key = some aliasName

instance : IsPreorder Aliases Recalls where
  refl _ := ⟨rfl, rfl, fun _ _ => id⟩
  trans _ _ _ h h' := ⟨h'.classAliases.trans h.classAliases, h'.scope.trans h.scope,
    fun key aliasName => h'.joined key aliasName ∘ h.joined key aliasName⟩

theorem Recalls.refl (a : Aliases) : a.Recalls a := Std.Refl.refl a

theorem Recalls.trans (h : a.Recalls b) (h' : b.Recalls u) : a.Recalls u := IsTrans.trans _ _ _ h h'

theorem Recalls.scopes_ne_nil (h : a.Recalls b) (ha : a.scopes ≠ []) : b.scopes ≠ [] := by
  intro hb
  have hscope := h.scope
  rw [scope?, scope?, hb, List.head?_nil, Option.map_none, eq_comm, Option.map_eq_none_iff,
    List.head?_eq_none_iff] at hscope
  exact ha hscope

theorem joined?_remember_self (ha : a.scopes ≠ []) (key : String × String) (aliasName : String) :
    (a.remember key aliasName).joined? key = some aliasName := by
  unfold remember
  split
  · rename_i hscopes
    exact absurd hscopes ha
  · exact Dictionary.find?_insert_self _ _ _

/-- What is remembered newly takes no other join's place. -/
theorem recalls_remember {key : String × String} (hkey : a.joined? key = none)
    (aliasName : String) : a.Recalls (a.remember key aliasName) := by
  unfold remember
  split
  · exact .refl a
  · rename_i inner outer hscopes
    have hinner (other : String × String) : a.joined? other = inner.joined.find? other := by
      rw [joined?, scope?, hscopes]
      rfl
    refine ⟨rfl, by rw [scope?, scope?, hscopes]; rfl, fun other x hfind => ?_⟩
    have hne : other ≠ key := by
      rintro rfl
      rw [hkey] at hfind
      cases hfind
    rw [hinner] at hfind
    exact (Dictionary.find?_insert_of_ne hne _ _).trans hfind

theorem recalls_createJoin (a : Aliases) (cursor : Cursor) (segment : String)
    (target : Option String) (joinType : JoinType) :
    a.Recalls (a.createJoin cursor segment target joinType).2 :=
  ⟨rfl, rfl, fun _ _ => id⟩

/-- Paths forget nothing. -/
theorem recalls_walk : WalkRules Recalls where
  createJoin := recalls_createJoin
  remember a cursor segment target joinType hnew := by
    have hcreated : (a.createJoin cursor segment target joinType).2.joined?
        (cursor.aliasName, segment) = none := hnew
    exact (recalls_createJoin a cursor segment target joinType).trans (recalls_remember hcreated _)
  enclosing {a u inner outer} hscopes hu := by
    refine ⟨hu.classAliases, by rw [scope?, scope?, hscopes]; rfl, fun key aliasName hfind => ?_⟩
    rw [joined?, scope?, hscopes] at hfind
    exact hfind

/-! ## Steps that are run again -/

/-- What the step `x` has come to in an open scope, a result or an error, `y` comes to again as long
as the scope recalls what `x` has left, and leaves the aliases alone. -/
def Again (x y : Step Aliases α) : Prop :=
  ∀ a, a.scopes ≠ [] → ∀ u, (x.run a).state.Recalls u →
    (y.run u).result = (x.run a).result ∧ (y.run u).state = u

namespace Again

/-- A result is given again. -/
theorem yields {x y : Step Aliases α} (h : Again x y) (ha : a.scopes ≠ []) {r : α}
    (hx : x.Yields a r b) (hu : b.Recalls u) : y.Yields u r u := by
  obtain ⟨hresult, rfl⟩ := hx
  obtain ⟨hagain, hstate⟩ := h a ha u hu
  exact ⟨hagain.trans hresult, hstate⟩

theorem pure (r : α) : Again (Pure.pure r) (Pure.pure r) := fun _ _ _ _ => ⟨rfl, rfl⟩

theorem fail (e : CompileError) : Again (Step.fail e : Step Aliases α) (Step.fail e) :=
  fun _ _ _ _ => ⟨rfl, rfl⟩

theorem bind {x y : Step Aliases α} {f g : α → Step Aliases β} (hx : Again x y)
    (hxkeeps : Leads Recalls Recalls x) (hf : ∀ r, Again (f r) (g r))
    (hfkeeps : ∀ r, Leads Recalls Recalls (f r)) : Again (x >>= f) (y >>= g) := by
  intro a ha u
  have hfirst := (hxkeeps a).state
  have hagain := hx a ha
  rw [run_bind, run_bind]
  generalize x.run a = first at hfirst hagain ⊢
  obtain ⟨e | r, t, events⟩ := first
  · -- The first part fails, and fails again.
    intro hu
    obtain ⟨hresult, hstate⟩ := hagain u hu
    generalize y.run u = second at hresult hstate ⊢
    obtain ⟨_ | _, v, events'⟩ := second
    · exact ⟨by cases hresult; rfl, hstate⟩
    · cases hresult
  · intro hu
    have ht : t.scopes ≠ [] := hfirst.scopes_ne_nil ha
    have htu : t.Recalls u := ((hfkeeps r t).state).trans hu
    obtain ⟨hresult, hstate⟩ := hagain u htu
    generalize y.run u = second at hresult hstate ⊢
    obtain ⟨_ | _, v, events'⟩ := second
    · cases hresult
    · cases hresult
      cases hstate
      exact hf r t ht _ hu

theorem ofReported_bind {v : Reported α} {f g : α → Step Aliases β}
    (h : Again (f v.value) (g v.value)) : Again (ofReported v >>= f) (ofReported v >>= g) :=
  fun a ha u hu => h a ha u hu

end Again

/-! ## Paths -/

variable {o o' : Resolution}

theorem joinSegment_again (ho : o.ownJoins = false) (ho' : o'.ownJoins = false) (cursor : Cursor)
    (segment : String) (target : Option String) :
    Again (joinSegment cursor segment target o) (joinSegment cursor segment target o') := by
  intro a ha u
  have hends : (joinSegment cursor segment target o).Ends (fun _ => False) (fun aliasName b =>
      b.joined? (cursor.aliasName, segment) = some aliasName) a :=
    joinSegment_ends_of (fun _ _ hjoined => hjoined)
      (fun hown => absurd (ho.symm.trans hown) Bool.false_ne_true)
      fun _ _ joinType =>
        joined?_remember_self (a := (a.createJoin cursor segment target joinType).2) ha _ _
  unfold Ends at hends
  generalize (joinSegment cursor segment target o).run a = first at hends ⊢
  obtain ⟨e | aliasName, b, events⟩ := first
  · exact hends.elim
  · intro hu
    have hjoined : u.joined? (cursor.aliasName, segment) = some aliasName := hu.joined _ _ hends
    have hagain : (joinSegment cursor segment target o').Yields u aliasName u := by
      refine yields_get_bind.mpr ?_
      dsimp only
      rw [if_neg (by simp [ho']), hjoined]
      exact yields_pure.mpr ⟨rfl, rfl⟩
    exact hagain

theorem advance_again (ho : o.ownJoins = false) (ho' : o'.ownJoins = false) (path : String)
    (cursor : Cursor) (segment : String) :
    Again (advance c path o cursor segment) (advance c path o' cursor segment) := by
  refine .ofReported_bind ?_
  split
  · exact (joinSegment_again ho ho' cursor segment _).bind (recalls_walk.joinSegment _ _ _ _)
      (fun _ => .pure _) fun _ => .pure _
  · exact .fail _

theorem finish_again (ho : o.ownJoins = false) (ho' : o'.ownJoins = false)
    (hkeep : o'.keepCollection = o.keepCollection) (cursor : Cursor) (segment : String) :
    Again (finish c o cursor segment) (finish c o' cursor segment) := by
  refine .ofReported_bind ?_
  rw [hkeep]
  split
  · split
    · exact (joinSegment_again ho ho' cursor segment _).bind (recalls_walk.joinSegment _ _ _ _)
        (fun _ => .pure _) fun _ => .pure _
    · exact .pure _
  · exact .pure _

theorem follow_again (ho : o.ownJoins = false) (ho' : o'.ownJoins = false)
    (hkeep : o'.keepCollection = o.keepCollection) (path : String) (cursor : Cursor)
    (segments : List String) :
    Again (follow c path o cursor segments) (follow c path o' cursor segments) := by
  match segments with
  | [] => exact .pure _
  | [last] => exact finish_again ho ho' hkeep cursor last
  | segment :: last :: rest =>
    have hbranch (isKey : Bool) : Again
        (if isKey then pure (cursor.aliasName, [segment, "id"])
          else do follow c path o (← advance c path o cursor segment) (last :: rest))
        (if isKey then pure (cursor.aliasName, [segment, "id"])
          else do follow c path o' (← advance c path o' cursor segment) (last :: rest)) := by
      split
      · exact .pure _
      · exact (advance_again ho ho' path cursor segment).bind (recalls_walk.advance _ _ _ _)
          (fun next => follow_again ho ho' hkeep path next (last :: rest))
          fun _ => recalls_walk.follow _ _ _ _
    unfold follow
    dsimp only
    split
    · refine .ofReported_bind ?_
      split
      · exact hbranch true
      · exact hbranch false
    · exact hbranch false

/-- Where a path starts depends on the aliases of the classes and on the innermost scope. -/
theorem startOf_again (path : String) : Again (startOf c path) (startOf c path) := by
  have hstays (a : Aliases) : ((startOf c path).run a).state = a :=
    ((startOf_starts a c path).mono (fun _ => id) fun _ _ h => h.1).state
  intro a _ u hu
  rw [hstays a] at hu
  refine ⟨?_, hstays u⟩
  unfold startOf
  rw [run_bind, run_bind]
  rcases Path.head path with ⟨first, rest⟩
  show (Step.run (if _ then _ else _) u).result = (Step.run (if _ then _ else _) a).result
  split
  · rw [classAlias?, classAlias?, hu.classAliases]
    rcases a.classAliases.find? first with _ | aliasName <;> rfl
  · have hscope := hu.scope
    rcases ha : a.scope? with _ | ⟨_, _, _ | _, _, _, _⟩ <;>
      rcases hb : u.scope? with _ | ⟨_, _, _ | _, _, _, _⟩ <;> rw [ha, hb] at hscope <;>
      cases hscope <;> rfl

/-- A path that has been resolved without joins of its own comes to the same again, for whatever kind
of joins, and no more joins are made. -/
theorem resolve_again (ho : o.ownJoins = false) (ho' : o'.ownJoins = false)
    (hkeep : o'.keepCollection = o.keepCollection) (path : String) :
    Again (resolve c path o) (resolve c path o') := by
  unfold resolve
  dsimp only
  split
  · exact .pure _
  · refine (startOf_again _).bind (WalkRules.startOf _) (fun start => ?_) fun start => ?_
    · split
      · exact .pure _
      · exact (follow_again ho ho' hkeep path _ _).bind (recalls_walk.follow _ _ _ _)
          (fun _ => .pure _) fun _ => .pure _
    · split
      · exact .pure _
      · exact (recalls_walk.follow _ _ _ _).bind fun _ => .pure _

/-! ## Paths in the course of operations -/

/-- Operations that neither open nor close a scope nor name a class: paths, for whatever joins, and
marks of disjunctions. -/
inductive Operation.StaysInScope : Operation → Prop
  | insideOr (marked : Bool) : StaysInScope (.insideOr marked)
  | resolve (path : String) (o : Resolution) : StaysInScope (.resolve path o)

theorem Operation.StaysInScope.recalls {operation : Operation} (h : operation.StaysInScope)
    (c : Catalog) (a : Aliases) : a.Recalls (operation.perform c a) := by
  cases h with
  | insideOr marked => exact ⟨rfl, rfl, fun _ _ => id⟩
  | resolve path o => exact (recalls_walk.resolve path o a).state

/-- Nothing is forgotten in the course of such operations, also where some of them fail. -/
theorem recalls_operations {operations : List Operation}
    (hoperations : ∀ operation ∈ operations, operation.StaysInScope) (c : Catalog) (a : Aliases) :
    a.Recalls (operations.foldl (Operation.perform c) a) := by
  induction operations generalizing a with
  | nil => exact .refl a
  | cons operation rest ih =>
    obtain ⟨hoperation, hrest⟩ := List.forall_mem_cons.mp hoperations
    exact (hoperation.recalls c a).trans (ih hrest (operation.perform c a))

/-- A path that has been resolved without joins of its own, to a reference, to none or to an error,
comes to the same when it is resolved again after any operations in the scope, for whatever kind of
joins, and leaves the aliases as they are. -/
theorem Attained.resolve_repeats (h : a.Attained c) (path : String) (outer outer' : Bool)
    {between : List Operation} (hbetween : ∀ operation ∈ between, operation.StaysInScope) :
    let first := (resolve c path { outer }).run a
    let b := between.foldl (Operation.perform c) first.state
    let again := (resolve c path { outer := outer' }).run b
    again.result = first.result ∧ again.state = b := by
  intro first b again
  have hrecalls : first.state.Recalls b := recalls_operations hbetween c first.state
  have hagain : Again (resolve c path { outer }) (resolve c path { outer := outer' }) := by
    refine resolve_again ?_ ?_ ?_ path <;> rfl
  exact hagain a h.scopes_ne_nil b hrecalls

/-- A path under a disjunction, one with joins of its own and one that fails. -/
def meanwhile : List Operation :=
  [.insideOr true, .resolve "manager.manager.name" {}, .resolve "manager.name" { ownJoins := true },
    .resolve "reports.salary.amount" {}]

/-- A path that fails behind an association fails there again and finds the association joined. -/
theorem Attained.resolve_repeats_beyondName :
    let a := Aliases.start "Identity"
    let first := (resolve staff "manager.name.length" {}).run a
    let b := meanwhile.foldl (Operation.perform staff) first.state
    let again := (resolve staff "manager.name.length" { outer := true }).run b
    a.Attained staff ∧ (∀ operation ∈ meanwhile, operation.StaysInScope) ∧
      first.result = .error (.unresolvableJoin "Identity" "name" "manager.name.length") ∧
      first.state.joins.length = 1 ∧ b.joins.length = 4 ∧
      again.result = first.result ∧ again.state = b := by
  intro a first b again
  have ha : a.Attained staff := .start "Identity"
  have hbetween : ∀ operation ∈ meanwhile, operation.StaysInScope := by
    simp only [meanwhile, List.forall_mem_cons]
    exact ⟨.insideOr _, .resolve _ _, .resolve _ _, .resolve _ _, by simp⟩
  have hfirst : first.result =
      .error (.unresolvableJoin "Identity" "name" "manager.name.length") := by
    decide +kernel
  exact ⟨ha, hbetween, hfirst, by decide +kernel, by decide +kernel,
    ha.resolve_repeats "manager.name.length" false true hbetween⟩

end Aliases

end ObjectQuery
