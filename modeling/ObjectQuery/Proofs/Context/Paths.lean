import ObjectQuery.Aliases.Resolve
import ObjectQuery.Proofs.Step.Course

/-!
# Relations kept along paths

On its way along a path, a step does two things to the aliases: it joins associations and remembers
them in the innermost scope. A path that is resolved from enclosing scopes leaves the innermost one
where it is. A relation that each of these keeps is kept by all of them.

* `Aliases.leads_resolveEnclosing`: what a path keeps in a scope, it keeps from the enclosing ones.
* `Aliases.WalkRules`: such a relation.
* `Aliases.WalkRules.resolve`, `Aliases.WalkRules.resolveEnclosing`,
  `Aliases.WalkRules.pushCollection`: it is kept by the paths of a query, also where they cannot be
  resolved.
-/

namespace ObjectQuery

open Step

namespace Aliases

/-- A relation between aliases that is kept by each change on the way along a path: a join that is
left to the path alone, a new join that the scope remembers, and a step in the enclosing scopes. -/
structure WalkRules (R : Aliases → Aliases → Prop) : Prop where
  createJoin : ∀ (a : Aliases) cursor segment target joinType,
    R a (a.createJoin cursor segment target joinType).2
  remember : ∀ (a : Aliases) (cursor : Cursor) segment target joinType,
    a.joined? (cursor.aliasName, segment) = none →
    R a ((a.createJoin cursor segment target joinType).2.remember (cursor.aliasName, segment)
      (a.createJoin cursor segment target joinType).1)
  enclosing : ∀ {a u : Aliases} {inner outer}, a.scopes = inner :: outer →
    R { a with scopes := outer } u → R a { u with scopes := inner :: u.scopes }

/-- Without a scope there is nothing to take away. -/
theorem run_enclosing_nil {α : Type} (x : Step Aliases α) {a : Aliases} (ha : a.scopes = []) :
    (enclosing x).run a = x.run a := by
  cases a
  cases ha
  rfl

/-- A step in the enclosing scopes runs with the innermost scope taken away. -/
theorem run_enclosing {α : Type} (x : Step Aliases α) {a : Aliases} {inner : Scope}
    {outer : List Scope} (ha : a.scopes = inner :: outer) :
    (enclosing x).run a = (Step.restoring (fun a => { a with scopes := outer })
      (fun _ u => { u with scopes := inner :: u.scopes }) x).run a := by
  cases a
  cases ha
  rfl

/-! ## Enclosing scopes -/

section

variable {R : Aliases → Aliases → Prop} {c : Catalog}

/-- The innermost scope is put back in any case. -/
theorem leads_enclosing {α : Type} {x : Step Aliases α}
    (henclosing : ∀ {a u : Aliases} {inner outer}, a.scopes = inner :: outer →
      R { a with scopes := outer } u → R a { u with scopes := inner :: u.scopes })
    (hx : Leads R R x) : Leads R R (enclosing x) := by
  intro a
  cases hscopes : a.scopes with
  | nil =>
    unfold Leaves
    rw [run_enclosing_nil x hscopes]
    exact hx a
  | cons inner outer =>
    unfold Leaves
    rw [run_enclosing x hscopes]
    exact (hx { a with scopes := outer }).restoring (fun _ => henclosing hscopes)
      fun _ => henclosing hscopes

variable [IsPreorder Aliases R]

/-- What a path keeps that is resolved in the scope, one that is resolved in the enclosing scopes
keeps too. -/
theorem leads_resolveEnclosing {path : String}
    (henclosing : ∀ {a u : Aliases} {inner outer}, a.scopes = inner :: outer →
      R { a with scopes := outer } u → R a { u with scopes := inner :: u.scopes })
    (hresolve : Leads R R (resolve c path { ownJoins := Path.needsOwnJoins path })) :
    Leads R R (resolveEnclosing c path) := by
  have hwithin (depth : Nat) : Leads R R (resolveWithin c path depth) := by
    induction depth with
    | zero => exact Leads.get.bind fun _ => .fail _
    | succ depth ih =>
      refine leads_enclosing henclosing (Leads.get.bind fun a => ?_)
      split
      · exact .fail _
      · refine hresolve.bind fun found => ?_
        split
        · exact .pure _
        · exact ih
  exact Leads.get.bind fun _ => hwithin _

end

namespace WalkRules

variable {R : Aliases → Aliases → Prop} [IsPreorder Aliases R] {c : Catalog}

theorem lookUp (className name : String) : Leads R R (Aliases.lookUp c className name) :=
  .ofReported _

/-! ## Joins -/

theorem joinSegment (h : WalkRules R) (cursor : Cursor) (segment : String)
    (target : Option String) (o : Resolution) :
    Leads R R (Aliases.joinSegment cursor segment target o) := by
  intro a
  refine .get_bind ?_
  dsimp only
  split
  · exact .pure (Std.Refl.refl a)
  · rename_i hnew
    refine .put ?_
    by_cases hown : o.ownJoins = true
    · rw [if_pos hown]
      exact h.createJoin a cursor segment target _
    · rw [if_neg hown] at hnew ⊢
      exact h.remember a cursor segment target _ hnew

theorem advance (h : WalkRules R) (path : String) (o : Resolution) (cursor : Cursor)
    (segment : String) : Leads R R (Aliases.advance c path o cursor segment) := by
  refine (lookUp _ _).bind fun property => ?_
  split
  · exact (h.joinSegment _ _ _ _).bind fun _ => .pure _
  · exact .fail _

theorem startOf (path : String) : Leads R R (Aliases.startOf c path) := by
  refine Leads.get.bind fun a => ?_
  dsimp only
  split
  · split
    · exact .pure _
    · exact .fail _
  · split <;> exact .pure _

/-! ## References -/

theorem finish (h : WalkRules R) (o : Resolution) (cursor : Cursor) (segment : String) :
    Leads R R (Aliases.finish c o cursor segment) := by
  refine (lookUp _ _).bind fun property => ?_
  split
  · split
    · exact (h.joinSegment _ _ _ _).bind fun _ => .pure _
    · exact .pure _
  · exact .pure _

theorem follow (h : WalkRules R) (path : String) (o : Resolution) (cursor : Cursor)
    (segments : List String) : Leads R R (Aliases.follow c path o cursor segments) := by
  match segments with
  | [] => exact .pure _
  | [last] => exact h.finish o cursor last
  | segment :: last :: rest =>
    have hbranch (isKey : Bool) : Leads R R
        (if isKey then pure (cursor.aliasName, [segment, "id"])
          else do Aliases.follow c path o (← Aliases.advance c path o cursor segment) (last :: rest) :
            Step Aliases (String × List String)) := by
      split
      · exact .pure _
      · exact (h.advance _ _ _ _).bind fun next => h.follow path o next (last :: rest)
    unfold Aliases.follow
    dsimp only
    split
    · refine (lookUp _ _).bind fun property => ?_
      split
      · exact hbranch true
      · exact hbranch false
    · exact hbranch false

theorem resolve (h : WalkRules R) (path : String) (o : Resolution) :
    Leads R R (Aliases.resolve c path o) := by
  unfold Aliases.resolve
  dsimp only
  split
  · exact .pure _
  · refine (startOf _).bind fun start => ?_
    split
    · exact .pure _
    · exact (h.follow _ _ _ _).bind fun _ => .pure _

theorem resolveEnclosing (h : WalkRules R) (path : String) :
    Leads R R (Aliases.resolveEnclosing c path) :=
  leads_resolveEnclosing h.enclosing (h.resolve path _)

/-! ## Collections -/

theorem advanceAll (h : WalkRules R) (path : String) (cursor : Cursor) (segments : List String) :
    Leads R R (Aliases.advanceAll c path cursor segments) := by
  induction segments generalizing cursor with
  | nil => exact .pure _
  | cons segment rest ih => exact (h.advance _ _ _ _).bind fun next => ih next

/-- A collection opens one more scope, which remembers nothing yet. One that cannot be joined opens
none. -/
theorem pushCollection_fresh (h : WalkRules R) (property : String) (joinType : JoinType) :
    Leads R (fun a b => ∃ u scope, scope.joined = [] ∧ R a u ∧
        b = { u with scopes := scope :: u.scopes })
      (Aliases.pushCollection c property joinType) := by
  intro a
  have hbehind : ∀ {u : Aliases} {α : Type} {x : Step Aliases α}, R a u → Leads R R x →
      x.Leaves (R a) (R a) u := fun hu hx =>
    (hx _).mono (fun _ => IsTrans.trans _ _ _ hu) fun _ => IsTrans.trans _ _ _ hu
  refine (startOf property a).bind fun start u hu => ?_
  split
  · exact .get_bind (.fail hu)
  · split
    · exact .fail hu
    · rename_i cursor segments _ last _
      refine (hbehind hu (h.advanceAll property cursor segments.dropLast)).bind
        fun owner v hv => (hbehind hv (lookUp owner.className last)).bind fun p w hw => ?_
      split
      · refine .get_bind (.put ⟨_, _, rfl, IsTrans.trans _ _ _ hw ?_, rfl⟩)
        exact h.createJoin w _ _ _ _
      · exact .fail hw

theorem pushCollection (h : WalkRules R) (property : String) (joinType : JoinType) :
    Leads R (fun a b => ∃ u scope, R a u ∧ b = { u with scopes := scope :: u.scopes })
      (Aliases.pushCollection c property joinType) := fun a =>
  (h.pushCollection_fresh property joinType a).mono (fun _ hb => hb)
    fun _ ⟨u, scope, _, hu, hb⟩ => ⟨u, scope, hu, hb⟩

end WalkRules

end Aliases

end ObjectQuery
