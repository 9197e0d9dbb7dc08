import ObjectQuery.Proofs.Context.Aliases
import ObjectQuery.Proofs.Declarations.Rendering
import ObjectQuery.Proofs.InnerJoins.Truth

/-!
# The associations that joins stand for

A query without joins of other classes has one source, and every join navigates an association on
the way from it.

* `Trail`: the associations on the way from the root to an alias. `Join.StandsFor`: those on the way
  to what a join adds.
* `Aliases.Charted`: every join stands for associations, and those of inner joins meet a condition.
* `Aliases.Surveyed`: aliases of one source that are charted.
* `Aliases.Surveyed.resolve`: resolving a path keeps them so, if the condition covers the way along
  the path or the joins made are outer ones.
-/

namespace ObjectQuery

open Step

/-- The associations that lead from the root to an alias, each of them joined. -/
inductive Trail (joins : List Join) (root : String) : List String → String → Prop
  | root : Trail joins root [] root
  | join {association : List String} {j : Join} {owner segment : String} :
      Trail joins root association owner → j ∈ joins → j.path = .association owner segment →
      Trail joins root (association ++ [segment]) j.aliasName

theorem Trail.mono {joins joins' : List Join} {root : String} {association : List String}
    {aliasName : String} (h : Trail joins root association aliasName)
    (hsub : ∀ j ∈ joins, j ∈ joins') : Trail joins' root association aliasName := by
  induction h with
  | root => exact .root
  | join _ hj hpath ih => exact .join ih (hsub _ hj) hpath

/-- The join navigates the last of some associations, and the ones before it lead from the root to
its owner. -/
def Join.StandsFor (joins : List Join) (root : String) (association : List String) (j : Join) :
    Prop :=
  ∃ way owner segment, Trail joins root way owner ∧ j.path = .association owner segment ∧
    association = way ++ [segment]

theorem Join.StandsFor.mono {joins joins' : List Join} {root : String} {association : List String}
    {j : Join} (h : j.StandsFor joins root association) (hsub : ∀ j ∈ joins, j ∈ joins') :
    j.StandsFor joins' root association := by
  obtain ⟨way, owner, segment, hway, hpath, rfl⟩ := h
  exact ⟨way, owner, segment, hway.mono hsub, hpath, rfl⟩

namespace Aliases

variable {a b : Aliases} {c : Catalog} {root className : String} {P : List String → Prop}

/-- Every join stands for an association, which meets `P` if the join is an inner one, and what a
scope remembers has been joined. -/
structure Charted (root : String) (P : List String → Prop) (a : Aliases) : Prop where
  joins : ∀ j ∈ a.joins, ∃ association, j.StandsFor a.joins root association ∧
    (j.joinType = .inner → P association)
  remembered : ∀ s ∈ a.scopes, ∀ key aliasName, s.joined.find? key = some aliasName →
    ∃ j ∈ a.joins, j.path = .association key.1 key.2 ∧ j.aliasName = aliasName

/-! ## Joining an association -/

/-- The new join continues the trail of the cursor. -/
theorem trail_createJoin {cursor : Cursor} {association : List String}
    (h : Trail a.joins root association cursor.aliasName) (segment : String)
    (target : Option String) (joinType : JoinType) :
    Trail (a.createJoin cursor segment target joinType).2.joins root (association ++ [segment])
      (a.createJoin cursor segment target joinType).1 :=
  Trail.join (h.mono fun _ => List.mem_append_left _)
    (List.mem_append_right _ (List.mem_singleton.mpr rfl)) rfl

theorem Charted.createJoin (ha : a.Charted root P) {cursor : Cursor} {association : List String}
    (h : Trail a.joins root association cursor.aliasName) (segment : String)
    (target : Option String) {joinType : JoinType}
    (hP : joinType = .inner → P (association ++ [segment])) :
    (a.createJoin cursor segment target joinType).2.Charted root P := by
  refine ⟨List.forall_mem_append.mpr ⟨fun j hj => ?_, List.forall_mem_singleton.mpr ?_⟩,
    fun s hs key x hfind => ?_⟩
  · obtain ⟨other, hother, hinner⟩ := ha.joins j hj
    exact ⟨other, hother.mono fun _ => List.mem_append_left _, hinner⟩
  · exact ⟨_, ⟨association, _, segment, h.mono fun _ => List.mem_append_left _, rfl, rfl⟩, hP⟩
  · obtain ⟨j, hj, hpath⟩ := ha.remembered s hs key x hfind
    exact ⟨j, List.mem_append_left _ hj, hpath⟩

theorem Charted.remember (ha : a.Charted root P) {j : Join} (hj : j ∈ a.joins)
    {key : String × String} (hpath : j.path = .association key.1 key.2) :
    (a.remember key j.aliasName).Charted root P := by
  have hremembers : (a.remember key j.aliasName).Remembers :=
    Remembers.remember ha.remembered hj hpath
  unfold Aliases.remember at hremembers ⊢
  split
  · exact ha
  · rename_i inner outer hscopes
    rw [hscopes] at hremembers
    exact ⟨ha.joins, hremembers⟩

/-- An association is joined behind the cursor, or was before, and its alias continues the trail. -/
theorem joinSegment_charted (ha : a.Charted root P) {cursor : Cursor} {association : List String}
    (hcursor : Trail a.joins root association cursor.aliasName) {segment aliasName : String}
    {target : Option String} {o : Resolution}
    (hP : a.joinTypeFor o.outer = .inner → P (association ++ [segment]))
    (h : (joinSegment cursor segment target o).Yields a aliasName b) :
    b.Charted root P ∧ Trail b.joins root (association ++ [segment]) aliasName := by
  have h₁ := yields_get_bind.mp h
  dsimp only at h₁
  split at h₁
  · rename_i found hjoined
    obtain ⟨rfl, rfl⟩ := yields_pure.mp h₁
    split at hjoined
    · cases hjoined
    · obtain ⟨s, hs, hfind⟩ := Option.bind_eq_some_iff.mp hjoined
      obtain ⟨j, hj, hpath, rfl⟩ :=
        ha.remembered s (List.mem_of_mem_head? hs) (cursor.aliasName, segment) _ hfind
      exact ⟨ha, hcursor.join hj hpath⟩
  · obtain ⟨_, u, hput, h₂⟩ := yields_bind.mp h₁
    obtain rfl := yields_modify.mp hput
    obtain ⟨rfl, rfl⟩ := yields_pure.mp h₂
    have hcharted := ha.createJoin hcursor segment target hP
    have htrail := trail_createJoin hcursor segment target (a.joinTypeFor o.outer)
    split
    · exact ⟨hcharted, htrail⟩
    · refine ⟨hcharted.remember (List.mem_append_right _ (List.mem_singleton.mpr rfl)) rfl, ?_⟩
      exact htrail.mono fun j hj =>
        (remember_resumes _ (cursor.aliasName, segment) _).joins.subset hj

theorem advance_charted (ha : a.Charted root P) {cursor next : Cursor} {association : List String}
    (hcursor : Trail a.joins root association cursor.aliasName) {path segment : String}
    {o : Resolution} (hP : a.joinTypeFor o.outer = .inner → P (association ++ [segment]))
    (h : (advance c path o cursor segment).Yields a next b) :
    b.Charted root P ∧ Trail b.joins root (association ++ [segment]) next.aliasName := by
  obtain ⟨property, u, hlook, h₁⟩ := yields_bind.mp h
  obtain ⟨-, rfl⟩ := yields_ofReported.mp hlook
  split at h₁
  · obtain ⟨aliasName, u, hjoin, h₂⟩ := yields_bind.mp h₁
    obtain ⟨rfl, rfl⟩ := yields_pure.mp h₂
    exact joinSegment_charted ha hcursor hP hjoin
  · exact (yields_fail.mp h₁).elim

theorem finish_charted (ha : a.Charted root P) {cursor : Cursor} {association : List String}
    (hcursor : Trail a.joins root association cursor.aliasName) {segment : String}
    {o : Resolution} (hP : a.joinTypeFor o.outer = .inner → P (association ++ [segment]))
    {target : String × List String} (h : (finish c o cursor segment).Yields a target b) :
    b.Charted root P := by
  obtain ⟨property, u, hlook, h₁⟩ := yields_bind.mp h
  obtain ⟨-, rfl⟩ := yields_ofReported.mp hlook
  split at h₁
  · split at h₁
    · obtain ⟨aliasName, u, hjoin, h₂⟩ := yields_bind.mp h₁
      obtain ⟨rfl, rfl⟩ := yields_pure.mp h₂
      exact (joinSegment_charted ha hcursor hP hjoin).1
    · obtain ⟨rfl, rfl⟩ := yields_pure.mp h₁
      exact ha
  · obtain ⟨rfl, rfl⟩ := yields_pure.mp h₁
    exact ha

/-! ## Following a path -/

/-- The joins on the way along a path have the trails that the path begins with. -/
theorem follow_charted {a : Aliases} (ha : a.Charted root P) {path : String} {o : Resolution}
    {segments association : List String} {cursor : Cursor}
    (hcursor : Trail a.joins root association cursor.aliasName)
    (hP : a.joinTypeFor o.outer = .inner →
      ∀ way ≠ [], way <+: segments → P (association ++ way))
    {target : String × List String} (h : (follow c path o cursor segments).Yields a target b) :
    b.Charted root P := by
  match segments with
  | [] =>
    obtain ⟨rfl, rfl⟩ := yields_pure.mp h
    exact ha
  | [last] => exact finish_charted ha hcursor (fun hinner => hP hinner [last] (by simp) (by simp)) h
  | segment :: last :: rest =>
    have hbranch : ∀ isKey : Bool, (if isKey then pure (cursor.aliasName, [segment, "id"])
        else do follow c path o (← advance c path o cursor segment) (last :: rest) :
          Step Aliases (String × List String)).Yields a target b → b.Charted root P := by
      intro isKey h
      split at h
      · obtain ⟨rfl, rfl⟩ := yields_pure.mp h
        exact ha
      · obtain ⟨next, u, hadvance, hfollow⟩ := yields_bind.mp h
        obtain ⟨hu, hnext⟩ := advance_charted ha hcursor
          (fun hinner => hP hinner [segment] (by simp) (by simp)) hadvance
        have hsame : u.joinTypeFor o.outer = a.joinTypeFor o.outer := by
          rw [joinTypeFor, ((resumes_walk.advance _ _ _ _).yields hadvance).insideOr, joinTypeFor]
        refine follow_charted hu hnext (fun hinner way hne hway => ?_) hfollow
        rw [List.append_assoc]
        exact hP (hsame ▸ hinner) ([segment] ++ way) (by simp)
          (List.cons_prefix_cons.mpr ⟨rfl, hway⟩)
    unfold Aliases.follow at h
    dsimp only at h
    split at h
    · obtain ⟨property, u, hlook, h₁⟩ := yields_bind.mp h
      obtain ⟨-, rfl⟩ := yields_ofReported.mp hlook
      split at h₁
      · exact hbranch true h₁
      · exact hbranch false h₁
    · exact hbranch false h

/-! ## Aliases of one source -/

/-- Nothing but the associations of the query class has been joined to it, and all joins have
trails. -/
structure Surveyed (className : String) (P : List String → Prop) (a : Aliases) : Prop where
  navigates : (start className).Navigates a
  orderly : a.Orderly (· ∈ (start className).classesDeclared)
  charted : a.Charted (classAliasName className none) P

theorem start_surveyed (className : String) (P : List String → Prop) :
    (start className).Surveyed className P := by
  refine ⟨.refl _, start_orderly className, ⟨fun j hj => absurd hj List.not_mem_nil, ?_⟩⟩
  rw [start_eq]
  exact List.forall_mem_singleton.mpr fun key x hfind => by cases hfind

theorem Surveyed.eq_of_classAlias? (ha : a.Surveyed className P) {C aliasName : String}
    (h : a.classAlias? C = some aliasName) : aliasName = classAliasName className none :=
  List.mem_singleton.mp (Dictionary.of_find?_eq_some ha.orderly.classAliases h)

theorem Surveyed.aliasName_of_scope? (ha : a.Surveyed className P) {s : Scope}
    (h : a.scope? = some s) : s.aliasName = some (classAliasName className none) := by
  have hframe : s.frame ∈ a.frames := List.mem_map_of_mem (List.mem_of_mem_head? h)
  rw [ha.navigates.frames] at hframe
  exact congrArg Scope.aliasName (List.mem_singleton.mp hframe)

/-- Paths start from the query class, with the segments of their routes. -/
theorem Surveyed.startOf (ha : a.Surveyed className P) {path : String}
    {start : Option (Cursor × List String)}
    (h : (startOf c (Path.parse path).inner).Yields a start b) :
    b = a ∧ ∀ s ∈ start, s.1.aliasName = classAliasName className none ∧
      s.2 = Path.route c path := by
  have h₁ := yields_get_bind.mp h
  dsimp only at h₁
  have hroute : Path.route c path =
      if Text.startsUpper (Path.head (Path.parse path).inner).1 &&
          c.isKnown (Path.head (Path.parse path).inner).1 then
        Path.segments (Path.head (Path.parse path).inner).2
      else Path.segments (Path.parse path).inner := rfl
  split at h₁
  · rename_i hclass
    rw [if_pos hclass] at hroute
    split at h₁
    · rename_i aliasName hfind
      obtain ⟨rfl, rfl⟩ := yields_pure.mp h₁
      refine ⟨rfl, fun s hs => ?_⟩
      obtain rfl := Option.some.inj hs
      refine ⟨ha.eq_of_classAlias? hfind, ?_⟩
      rw [hroute]
    · exact (yields_fail.mp h₁).elim
  · rename_i hclass
    rw [if_neg hclass] at hroute
    split at h₁
    · rename_i hscope
      obtain ⟨rfl, rfl⟩ := yields_pure.mp h₁
      refine ⟨rfl, fun s hs => ?_⟩
      obtain rfl := Option.some.inj hs
      refine ⟨Option.some.inj (ha.aliasName_of_scope? hscope), ?_⟩
      rw [hroute]
    · obtain ⟨rfl, rfl⟩ := yields_pure.mp h₁
      exact ⟨rfl, by rintro _ ⟨⟩⟩

/-- A path joins associations along its route, by outer joins or where `P` allows them. -/
theorem Surveyed.resolve (ha : a.Surveyed className P) {path : String} {o : Resolution}
    {r : Option Reference}
    (hP : a.joinTypeFor o.outer = .inner →
      ∀ association, association <+: Path.route c path → P association)
    (h : (resolve c path o).Yields a r b) : b.Surveyed className P := by
  obtain ⟨hgrows, horderly⟩ := roams_resolve path o h ha.orderly
  refine ⟨ha.navigates.trans hgrows, horderly, ?_⟩
  unfold Aliases.resolve at h
  dsimp only at h
  split at h
  · obtain ⟨-, rfl⟩ := yields_pure.mp h
    exact ha.charted
  · obtain ⟨start, u, hstart, h₁⟩ := yields_bind.mp h
    obtain ⟨rfl, hroot⟩ := ha.startOf hstart
    split at h₁
    · obtain ⟨-, rfl⟩ := yields_pure.mp h₁
      exact ha.charted
    · rename_i cursor segments
      obtain ⟨halias, hroute⟩ := hroot _ rfl
      obtain ⟨target, v, hfollow, h₂⟩ := yields_bind.mp h₁
      obtain ⟨-, rfl⟩ := yields_pure.mp h₂
      dsimp only at halias hroute
      subst hroute
      have hcursor : Trail u.joins (classAliasName className none) [] cursor.aliasName :=
        halias ▸ .root
      exact follow_charted ha.charted hcursor (fun hinner way _ hway => hP hinner way hway) hfollow

/-- All joins follow the one source. -/
theorem Surveyed.mem_joins (ha : a.Surveyed className P) {j : Join} :
    j ∈ a.sourceList.joins ↔ j ∈ a.joins := by
  refine mem_joins_sourceList ?_ (ha.navigates.rooted (start_rooted className))
  rw [ha.navigates.classesDeclared]
  exact ha.orderly

/-- The mark of a disjunction may be set and cleared. -/
theorem Surveyed.withInsideOr (ha : a.Surveyed className P) (insideOr : Bool) :
    Surveyed className P { a with insideOr } where
  navigates := { ha.navigates with }
  orderly := { ha.orderly with }
  charted := { ha.charted with }

end Aliases

end ObjectQuery
