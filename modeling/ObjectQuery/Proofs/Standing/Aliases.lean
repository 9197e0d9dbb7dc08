import Mathlib.Data.Option.Basic
import ObjectQuery.Proofs.Context.Paths
import ObjectQuery.Proofs.Step.Parallel

/-!
# What resolution depends on

Whether a path resolves, and to which class it leads, depends on the scopes and on the classes that
have an alias. It depends neither on what has been joined nor on the names of aliases.

* `Aliases.standing`: all that it depends on.
* `Aliases.Parallel`: two steps that go the same way from aliases of the same standing.
* `Aliases.resolve_parallel`, `Aliases.pushCollection_parallel`, ...: each walk goes the same way,
  whether or not it asks for joins of its own.
-/

namespace ObjectQuery

namespace Aliases

/-- What the resolution of paths depends on. -/
structure Standing where
  queryClass : String
  /-- The outlines of the scopes, innermost first. -/
  scopes : List (ScopeKind × String × Bool)
  /-- The classes that have an alias. -/
  hasAlias : String → Bool
  /-- The classes listed, and whether each is a theta source. -/
  sources : List (String × Bool)

/-- What opened a scope, its class, and whether it has an alias. -/
def outline (s : Scope) : ScopeKind × String × Bool := (s.kind, s.className, s.aliasName.isSome)

/-- What the resolution of paths depends on. -/
def standing (a : Aliases) : Standing :=
  { queryClass := a.queryClass
    scopes := a.scopes.map outline
    hasAlias := fun className => (a.classAlias? className).isSome
    sources := a.sources.map fun s => (s.className, s.theta) }

/-- Aliases in which the same paths resolve. -/
def SameStanding (a b : Aliases) : Prop := a.standing = b.standing

/-- The steps go the same way from aliases of the same standing. -/
abbrev Parallel {α β : Type} (S : α → β → Prop) (x : Step Aliases α) (y : Step Aliases β) : Prop :=
  Step.Parallel SameStanding S x y

variable {a b : Aliases} {c : Catalog} {α β : Type}

/-! ## What the standing tells -/

namespace SameStanding

theorem queryClass (h : a.SameStanding b) : a.queryClass = b.queryClass :=
  congrArg Standing.queryClass h

theorem scopes (h : a.SameStanding b) : a.scopes.map outline = b.scopes.map outline :=
  congrArg Standing.scopes h

theorem hasAlias (h : a.SameStanding b) (className : String) :
    (a.classAlias? className).isSome = (b.classAlias? className).isSome :=
  congrFun (congrArg Standing.hasAlias h) className

theorem scope? (h : a.SameStanding b) : a.scope?.map outline = b.scope?.map outline := by
  have hhead := congrArg List.head? h.scopes
  rwa [List.head?_map, List.head?_map] at hhead

theorem currentClass (h : a.SameStanding b) : a.currentClass = b.currentClass := by
  have hclass := congrArg (Option.map fun s => s.2.1) h.scope?
  rw [Option.map_map, Option.map_map] at hclass
  unfold Aliases.currentClass
  rw [h.queryClass]
  exact congrArg (·.getD b.queryClass) hclass

theorem inCollection (h : a.SameStanding b) : a.inCollection = b.inCollection := by
  have hkind := congrArg (Option.any fun s => s.1 == .collection) h.scope?
  rwa [Option.any_map, Option.any_map] at hkind

theorem currentAlias (h : a.SameStanding b) :
    a.currentAlias.isSome = b.currentAlias.isSome := by
  have hhas := congrArg (Option.any fun s => s.2.2) h.scope?
  unfold Aliases.currentAlias
  rw [Option.any_map, Option.any_map] at hhas
  cases ha : a.scope? <;> cases hb : b.scope? <;> rw [ha, hb] at hhas <;> exact hhas

theorem length_scopes (h : a.SameStanding b) : a.scopes.length = b.scopes.length := by
  have hlength := congrArg List.length h.scopes
  rwa [List.length_map, List.length_map] at hlength

theorem withScopes (h : a.SameStanding b) {scopes scopes' : List Scope}
    (hscopes : scopes.map outline = scopes'.map outline) :
    SameStanding { a with scopes } { b with scopes := scopes' } := by
  unfold SameStanding standing
  rw [hscopes, h.queryClass]
  exact congrArg₂ (fun hasAlias sources => (⟨b.queryClass, _, hasAlias, sources⟩ : Standing))
    (congrArg Standing.hasAlias h) (congrArg Standing.sources h)

/-- Shapes of paths are read off the catalog, from the current class on. -/
theorem describe (h : a.SameStanding b) (path : String) :
    a.describe c path = b.describe c path := by
  unfold Aliases.describe
  rw [h.currentClass]

theorem isScalarCollection (h : a.SameStanding b) (path : String) :
    Aliases.isScalarCollection c a path = Aliases.isScalarCollection c b path := by
  unfold Aliases.isScalarCollection
  rw [h.describe]

end SameStanding

/-! ## Joins -/

/-- A step that always succeeds and leaves the standing as it is. -/
def Settles (x : Step Aliases α) : Prop := ∀ a, ∃ r b, x.Yields a r b ∧ b.standing = a.standing

theorem Settles.parallel {x : Step Aliases α} {y : Step Aliases β} (hx : Settles x)
    (hy : Settles y) : Parallel (fun _ _ => True) x y := by
  intro a b h
  obtain ⟨r, a', hr, ha⟩ := hx a
  obtain ⟨r', b', hr', hb⟩ := hy b
  exact Step.Parallel.of_yields hr hr' trivial (ha.trans (h.trans hb.symm))

theorem standing_remember (a : Aliases) (key : String × String) (aliasName : String) :
    (a.remember key aliasName).standing = a.standing := by
  unfold remember
  split
  · rfl
  · rename_i inner outer hscopes
    unfold standing
    rw [hscopes]
    rfl

/-- Joins do not change the standing. -/
theorem settles_joinSegment (cursor : Cursor) (segment : String) (target : Option String)
    (o : Resolution) : Settles (joinSegment cursor segment target o) := by
  intro a
  unfold joinSegment
  simp only [Step.yields_get_bind]
  split
  · exact ⟨_, a, Step.yields_pure.mpr ⟨rfl, rfl⟩, rfl⟩
  · refine ⟨_, _, Step.yields_bind.mpr ⟨(), _, Step.yields_modify.mpr rfl,
      Step.yields_pure.mpr ⟨rfl, rfl⟩⟩, ?_⟩
    split
    · rfl
    · exact standing_remember _ _ _

/-! ## Paths -/

/-- Cursors at the same class. -/
def SameClass (cursor cursor' : Cursor) : Prop := cursor.className = cursor'.className

theorem lookUp_parallel (className name : String) :
    Parallel Eq (lookUp c className name) (lookUp c className name) := .ofReported rfl

theorem startOf_parallel (path : String) :
    Parallel (Option.Rel fun p q => SameClass p.1 q.1 ∧ p.2 = q.2) (startOf c path)
      (startOf c path) := by
  refine Step.Parallel.get.bind fun a b h => ?_
  dsimp only
  split
  · have halias := h.hasAlias (Path.head path).1
    rcases ha : a.classAlias? (Path.head path).1 with _ | _ <;>
      rcases hb : b.classAlias? (Path.head path).1 with _ | _ <;> rw [ha, hb] at halias
    case none.none => exact .fail _
    case some.some => exact .pure (.some ⟨rfl, rfl⟩)
    all_goals cases halias
  · have hscope := h.scope?
    rcases ha : a.scope? with _ | ⟨_, _, _ | _, _, _, _⟩ <;>
      rcases hb : b.scope? with _ | ⟨_, _, _ | _, _, _, _⟩ <;> rw [ha, hb] at hscope <;>
      cases hscope
    · exact .pure .none
    · exact .pure .none
    · exact .pure (.some ⟨rfl, rfl⟩)

theorem advance_parallel (path : String) (o o' : Resolution) {cursor cursor' : Cursor}
    (h : SameClass cursor cursor') (segment : String) :
    Parallel SameClass (advance c path o cursor segment) (advance c path o' cursor' segment) := by
  unfold advance
  rw [show cursor.className = cursor'.className from h]
  refine (lookUp_parallel _ _).bind ?_
  rintro property _ rfl
  split
  · exact ((settles_joinSegment _ _ _ _).parallel (settles_joinSegment _ _ _ _)).bind fun _ _ _ =>
      .pure rfl
  · exact .fail _

theorem finish_parallel (o o' : Resolution) {cursor cursor' : Cursor}
    (h : SameClass cursor cursor') (segment : String) :
    Parallel (fun _ _ => True) (finish c o cursor segment) (finish c o' cursor' segment) := by
  have hsettles (o : Resolution) (cursor : Cursor) (p : Property) :
      Settles (if p.kind.isCollection && !o.keepCollection then do
          let aliasName ← joinSegment cursor segment p.kind.target o
          pure (aliasName, [])
        else pure (cursor.aliasName, [segment])) := by
    intro a
    split
    · obtain ⟨aliasName, b, hjoin, hb⟩ := settles_joinSegment cursor segment _ o a
      exact ⟨_, b,
        Step.yields_bind.mpr ⟨aliasName, b, hjoin, Step.yields_pure.mpr ⟨rfl, rfl⟩⟩, hb⟩
    · exact ⟨_, a, Step.yields_pure.mpr ⟨rfl, rfl⟩, rfl⟩
  unfold finish
  rw [show cursor.className = cursor'.className from h]
  refine (lookUp_parallel _ _).bind ?_
  rintro property _ rfl
  cases property with
  | none => exact .pure trivial
  | some p => exact (hsettles o cursor p).parallel (hsettles o' cursor' p)

theorem follow_parallel (path : String) (o o' : Resolution) {cursor cursor' : Cursor}
    (h : SameClass cursor cursor') (segments : List String) :
    Parallel (fun _ _ => True) (follow c path o cursor segments)
      (follow c path o' cursor' segments) := by
  match segments with
  | [] => exact .pure trivial
  | [last] => exact finish_parallel o o' h last
  | segment :: last :: rest =>
    have hbranch (isKey : Bool) : Parallel (fun _ _ => True)
        (if isKey then pure (cursor.aliasName, [segment, "id"])
          else do follow c path o (← advance c path o cursor segment) (last :: rest) :
            Step Aliases (String × List String))
        (if isKey then pure (cursor'.aliasName, [segment, "id"])
          else do follow c path o' (← advance c path o' cursor' segment) (last :: rest)) := by
      split
      · exact .pure trivial
      · exact (advance_parallel path o o' h segment).bind fun _ _ hnext =>
          follow_parallel path o o' hnext (last :: rest)
    unfold follow
    dsimp only
    rw [show cursor.className = cursor'.className from h]
    split
    · refine (lookUp_parallel _ _).bind ?_
      rintro property _ rfl
      split
      · exact hbranch true
      · exact hbranch false
    · exact hbranch false

/-- A path resolves from both aliases or from neither. -/
theorem resolve_parallel (path : String) (o o' : Resolution) :
    Parallel (fun r r' => r.isSome = r'.isSome) (resolve c path o) (resolve c path o') := by
  unfold resolve
  dsimp only
  split
  · exact .pure rfl
  · refine (startOf_parallel _).bind fun start start' hstart => ?_
    cases hstart with
    | none => exact .pure rfl
    | some hstart =>
      obtain ⟨hclass, hsegments⟩ := hstart
      dsimp only
      rw [hsegments]
      exact (follow_parallel path o o' hclass _).bind fun _ _ _ => .pure rfl

instance : IsPreorder Aliases SameStanding where
  refl _ := rfl
  trans _ _ _ h h' := h.trans h'

/-- Paths leave aliases of the same standing. -/
theorem sameStanding_walk : WalkRules SameStanding where
  createJoin _ _ _ _ _ := rfl
  remember a cursor segment target joinType _ :=
    (standing_remember (a.createJoin cursor segment target joinType).2 _ _).symm
  enclosing {a u inner outer} hscopes hu := by
    have hscope : (inner :: outer).map outline = (inner :: u.scopes).map outline :=
      List.cons_eq_cons.mpr ⟨rfl, hu.scopes⟩
    have hopened := hu.withScopes hscope
    rw [← hscopes] at hopened
    exact hopened

/-! ## Enclosing scopes -/

theorem enclosing_parallel {S : α → β → Prop} {x : Step Aliases α} {y : Step Aliases β}
    (h : Parallel S x y) : Parallel S (enclosing x) (enclosing y) := by
  intro a b hab
  have hscopes := hab.scopes
  rcases ha : a.scopes with _ | ⟨inner, outer⟩ <;>
    rcases hb : b.scopes with _ | ⟨inner', outer'⟩ <;>
    rw [ha, hb] at hscopes
  case nil.nil =>
    rw [run_enclosing_nil x ha, run_enclosing_nil y hb]
    exact h a b hab
  case cons.cons =>
    obtain ⟨hinner, houter⟩ := List.cons.inj hscopes
    rw [run_enclosing x ha, run_enclosing y hb]
    refine (h _ _ (hab.withScopes houter)).imp fun r r' ⟨hr, hleft⟩ => ⟨hr, hleft.withScopes ?_⟩
    exact List.cons_eq_cons.mpr ⟨hinner, hleft.scopes⟩
  all_goals cases hscopes

theorem resolveWithin_parallel (path : String) (depth : Nat) :
    Parallel (fun _ _ => True) (resolveWithin c path depth) (resolveWithin c path depth) := by
  induction depth with
  | zero =>
    refine Step.Parallel.get.bind fun a b h => ?_
    rw [h.queryClass]
    exact .fail _
  | succ depth ih =>
    refine enclosing_parallel (Step.Parallel.get.bind fun a b h => ?_)
    have hempty : a.scopes.isEmpty = b.scopes.isEmpty := by
      have hmapped := congrArg List.isEmpty h.scopes
      rwa [List.isEmpty_map, List.isEmpty_map] at hmapped
    rw [hempty, h.queryClass]
    split
    · exact .fail _
    · refine (resolve_parallel path _ _).bind fun r r' hr => ?_
      cases r <;> cases r'
      case some.some => exact .pure trivial
      case none.none => exact ih
      all_goals cases hr

theorem resolveEnclosing_parallel (path : String) :
    Parallel (fun _ _ => True) (resolveEnclosing c path) (resolveEnclosing c path) := by
  refine Step.Parallel.get.bind fun a b h => ?_
  rw [h.length_scopes]
  exact resolveWithin_parallel path _

/-! ## Collections -/

theorem advanceAll_parallel (path : String) (segments : List String) :
    ∀ {cursor cursor' : Cursor}, SameClass cursor cursor' →
      Parallel SameClass (advanceAll c path cursor segments)
        (advanceAll c path cursor' segments) := by
  induction segments with
  | nil => exact fun h => .pure h
  | cons segment rest ih =>
    exact fun h => (advance_parallel path _ _ h segment).bind fun _ _ hnext => ih hnext

/-- The scopes that are opened belong to the same class. -/
theorem pushCollection_parallel (property : String) (joinType joinType' : JoinType) :
    Parallel (fun _ _ => True) (pushCollection c property joinType)
      (pushCollection c property joinType') := by
  refine (startOf_parallel _).bind fun start start' hstart => ?_
  cases hstart with
  | none =>
    refine Step.Parallel.get.bind fun a b h => ?_
    rw [h.currentClass]
    exact .fail _
  | some hstart =>
    rename_i p q
    obtain ⟨cursor, segments⟩ := p
    obtain ⟨cursor', segments'⟩ := q
    obtain ⟨hclass, rfl⟩ : SameClass cursor cursor' ∧ segments = segments' := hstart
    dsimp only
    split
    · rw [show cursor.className = cursor'.className from hclass]
      exact .fail _
    · rename_i last _
      refine (advanceAll_parallel property _ hclass).bind fun cursor cursor' hclass => ?_
      rw [show cursor.className = cursor'.className from hclass]
      refine (lookUp_parallel _ _).bind ?_
      rintro found _ rfl
      split
      · rename_i element _
        refine Step.Parallel.get.bind fun a b h => ?_
        refine (Step.Parallel.modify fun _ _ _ => ?_).bind fun _ _ _ => .pure trivial
        have hjoined : (a.createJoin cursor last (some element) joinType).2.SameStanding
          (b.createJoin cursor' last (some element) joinType').2 := h
        exact hjoined.withScopes (List.cons_eq_cons.mpr ⟨rfl, h.scopes⟩)
      · exact .fail _

theorem SameStanding.pushTheta (h : a.SameStanding b) : a.pushTheta.SameStanding b.pushTheta := by
  refine h.withScopes (List.cons_eq_cons.mpr ⟨?_, h.scopes⟩)
  rw [h.queryClass]

theorem SameStanding.pop (h : a.SameStanding b) : a.pop.SameStanding b.pop := by
  have hscopes := h.scopes
  unfold Aliases.pop
  rcases ha : a.scopes with _ | ⟨_, _ | ⟨_, _⟩⟩ <;>
    rcases hb : b.scopes with _ | ⟨_, _ | ⟨_, _⟩⟩ <;>
    rw [ha, hb] at hscopes
  case cons.cons.cons.cons => exact h.withScopes (List.cons.inj hscopes).2
  case nil.nil => exact h
  case cons.nil.cons.nil => exact h
  all_goals exact absurd (congrArg List.length hscopes) (by simp)

/-! ## Classes -/

theorem SameStanding.setClassAlias (h : a.SameStanding b) (className : String)
    (m n : Option Nat) :
    (a.setClassAlias className m).2.SameStanding (b.setClassAlias className n).2 := by
  have hnamed : (fun c => ((a.setClassAlias className m).2.classAlias? c).isSome) =
      fun c => ((b.setClassAlias className n).2.classAlias? c).isSome := by
    funext other
    unfold Aliases.setClassAlias classAlias?
    dsimp only
    by_cases hother : other = className
    · rw [hother, Dictionary.find?_insert_self, Dictionary.find?_insert_self]
      rfl
    · rw [Dictionary.find?_insert_of_ne hother, Dictionary.find?_insert_of_ne hother]
      exact h.hasAlias other
  unfold SameStanding standing
  rw [hnamed]
  exact congrArg₂ (fun (s : Standing) named => { s with hasAlias := named }) h rfl

theorem SameStanding.obtainClassAlias (h : a.SameStanding b) (className : String) :
    (a.obtainClassAlias className).2.SameStanding (b.obtainClassAlias className).2 := by
  have hnamed := h.hasAlias className
  unfold Aliases.obtainClassAlias
  cases ha : a.classAlias? className <;> cases hb : b.classAlias? className <;>
    rw [ha, hb] at hnamed
  case none.none => exact h.setClassAlias className none none
  case some.some => exact h
  all_goals cases hnamed

theorem SameStanding.listed (h : a.SameStanding b) (className aliasName aliasName' : String)
    (theta : Bool) :
    SameStanding { a with sources := a.sources ++ [⟨className, aliasName, theta⟩] }
      { b with sources := b.sources ++ [⟨className, aliasName', theta⟩] } := by
  unfold SameStanding standing
  dsimp only
  rw [List.map_append, List.map_append]
  exact congrArg (fun s : Standing => { s with sources := s.sources ++ [(className, theta)] }) h

theorem SameStanding.addSource (h : a.SameStanding b) (className : String) :
    (a.addSource className).2.SameStanding (b.addSource className).2 := by
  have hfound : (a.sources.find? fun s => !s.theta && s.className == className).isSome =
      (b.sources.find? fun s => !s.theta && s.className == className).isSome := by
    have hlisted := congrArg (fun s => s.sources.any fun p => !p.2 && p.1 == className) h
    rw [List.isSome_find?, List.isSome_find?]
    unfold standing at hlisted
    dsimp only at hlisted
    rwa [List.any_map, List.any_map] at hlisted
  unfold Aliases.addSource
  cases ha : a.sources.find? fun s => !s.theta && s.className == className <;>
    cases hb : b.sources.find? fun s => !s.theta && s.className == className <;>
    rw [ha, hb] at hfound
  case none.none => exact (h.obtainClassAlias className).listed className _ _ false
  case some.some => exact h
  all_goals cases hfound

theorem SameStanding.addThetaSource (h : a.SameStanding b) (className : String) (m n : Nat) :
    (a.addThetaSource className m).2.SameStanding (b.addThetaSource className n).2 :=
  (h.setClassAlias className (some m) (some n)).listed className _ _ true

end Aliases

end ObjectQuery
