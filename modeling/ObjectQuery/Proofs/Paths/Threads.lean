import Mathlib.Data.List.Nodup
import ObjectQuery.Proofs.InnerJoins.Trails
import ObjectQuery.Proofs.Paths.Strides

/-!
# The way back from an alias

Every joined association hangs off an alias that was there before it, and no two share an alias, so
there is one way back from an alias to where its path has started.

* `Aliases.Threaded`: aliases of which this is so, and whose scopes remember joins for what they
  are.
* `Aliases.Threaded.trail_unique`: there is one trail from an alias to another.
* `Aliases.strides_reaches`: a path leads along a trail that spells it. What is threaded stays so where
  the path cannot be followed to its end.
-/

namespace ObjectQuery

open Step

/-! ## Trails -/

namespace Trail

variable {joins : List Join} {first second third : String} {way way' : List String}

theorem trans (h : Trail joins first way second) (h' : Trail joins second way' third) :
    Trail joins first (way ++ way') third := by
  induction h' with
  | root => simpa using h
  | join _ hj hpath ih =>
    rw [← List.append_assoc]
    exact .join ih hj hpath

theorem single {j : Join} {owner segment : String} (hj : j ∈ joins)
    (hpath : j.path = .association owner segment) : Trail joins owner [segment] j.aliasName :=
  Trail.join .root hj hpath

end Trail

namespace Aliases

/-- The alias is not called like one of a joined association. -/
def Anchor (aliasName : String) : Prop :=
  ∀ rootClass path number, aliasName ≠ joinAliasName rootClass path number

theorem anchor_classAliasName {className : String} {instanceNumber : Option Nat}
    (h : instanceNumber = none ∨ '_' ∉ className.toList) :
    Anchor (classAliasName className instanceNumber) :=
  classAliasName_ne_joinAliasName h

/-- Each joined association hangs off a known alias, and what a scope remembers has been joined. The
owner of an association comes before it, so that nothing is joined to itself in the end. -/
structure Threaded (a : Aliases) : Prop where
  orderly : a.Orderly Anchor
  owners : ∀ j ∈ a.joins, ∀ owner segment, j.path = .association owner segment →
    a.Known Anchor owner
  climbs : ∃ rank : String → Nat, ∀ j ∈ a.joins, ∀ owner segment,
    j.path = .association owner segment → rank owner < rank j.aliasName
  remembered : ∀ s ∈ a.scopes, ∀ key aliasName, s.joined.find? key = some aliasName →
    ∃ j ∈ a.joins, j.path = .association key.1 key.2 ∧ j.aliasName = aliasName

variable {a b u : Aliases} {c : Catalog} {cursor : Cursor} {segment : String}

theorem isNavigated_of_path {j : Join} {owner : String}
    (h : j.path = .association owner segment) : j.isNavigated = true := by
  simp [Join.isNavigated, Join.condition?, h]

namespace Threaded

/-- Joined associations with one alias are one. -/
theorem join_inj (h : a.Threaded) {i j : Join} (hi : i ∈ a.joins) (hj : j ∈ a.joins)
    (hi' : i.isNavigated = true) (hj' : j.isNavigated = true) (heq : i.aliasName = j.aliasName) :
    i = j :=
  List.inj_on_of_nodup_map h.orderly.distinct (List.mem_filter.mpr ⟨hi, hi'⟩)
    (List.mem_filter.mpr ⟨hj, hj'⟩) heq

/-- A trail never comes back to where it began. -/
theorem not_trail_self (h : a.Threaded) {first : String} {way : List String}
    (htrail : Trail a.joins first way first) : way = [] := by
  obtain ⟨rank, hrank⟩ := h.climbs
  have hclimb : ∀ {way last}, Trail a.joins first way last →
      rank first + way.length ≤ rank last := by
    intro way last htrail
    induction htrail with
    | root => simp
    | join _ hj hpath ih =>
      have hlt := hrank _ hj _ _ hpath
      simp only [List.length_append, List.length_singleton]
      omega
  have hle := hclimb htrail
  exact List.length_eq_zero_iff.mp (by omega)

/-- There is one trail from an alias to another. -/
theorem trail_unique (h : a.Threaded) {first last : String} {way way' : List String}
    (htrail : Trail a.joins first way last) (htrail' : Trail a.joins first way' last) :
    way = way' := by
  induction htrail generalizing way' with
  | root => exact (h.not_trail_self htrail').symm
  | @join way j owner segment hway hj hpath ih =>
    generalize hlast : j.aliasName = last at htrail'
    cases htrail' with
    | root =>
      have hback := hway.join hj hpath
      rw [hlast] at hback
      exact h.not_trail_self hback
    | @join way' j' owner' segment' hway' hj' hpath' =>
      have hsame : j = j' := h.join_inj hj hj' (isNavigated_of_path hpath)
        (isNavigated_of_path hpath') hlast
      subst hsame
      rw [hpath] at hpath'
      cases hpath'
      rw [ih hway']

/-! ## Changes -/

/-- What was known before a new join is not called like it. -/
theorem ne_createJoin (h : a.Threaded) {known : String} (hknown : a.Known Anchor known)
    (hcursor : a.Known Anchor cursor.aliasName) (target : Option String) (joinType : JoinType) :
    known ≠ (a.createJoin cursor segment target joinType).1 := by
  rcases hknown with hanchor | ⟨j, hj, hnavigated, rfl⟩
  · exact hanchor _ _ _
  · have hdistinct := (h.orderly.createJoin hcursor segment target joinType).distinct
    change ((List.filter _ (a.joins ++ [_])).map _).Nodup at hdistinct
    rw [List.filter_append, List.filter_cons_of_pos rfl, List.map_append,
      List.nodup_append] at hdistinct
    exact hdistinct.2.2 _ (List.mem_map_of_mem (List.mem_filter.mpr ⟨hj, hnavigated⟩)) _
      (by simp [Aliases.createJoin])

/-- A new join comes behind the alias that it hangs off. -/
theorem createJoin (h : a.Threaded) (hcursor : a.Known Anchor cursor.aliasName)
    (target : Option String) (joinType : JoinType) :
    (a.createJoin cursor segment target joinType).2.Threaded := by
  have hgrows : a.Navigates (a.createJoin cursor segment target joinType).2 :=
    createJoin_navigates a cursor segment target joinType
  have hfresh {known : String} (hknown : a.Known Anchor known) :
      known ≠ (a.createJoin cursor segment target joinType).1 :=
    h.ne_createJoin hknown hcursor target joinType
  refine ⟨h.orderly.createJoin hcursor segment target joinType, ?owners, ?climbs, ?remembered⟩
  case owners =>
    refine List.forall_mem_append.mpr ⟨fun j hj owner segment hpath => ?_, ?_⟩
    · exact (h.owners j hj owner segment hpath).mono hgrows
    · refine List.forall_mem_singleton.mpr fun owner segment hpath => ?_
      cases hpath
      exact hcursor.mono hgrows
  case climbs =>
    obtain ⟨rank, hrank⟩ := h.climbs
    refine ⟨Function.update rank (a.createJoin cursor segment target joinType).1
      (rank cursor.aliasName + 1), List.forall_mem_append.mpr ⟨fun j hj owner way hpath => ?_, ?_⟩⟩
    · have hj' : a.Known Anchor j.aliasName := .inr ⟨j, hj, isNavigated_of_path hpath, rfl⟩
      rw [Function.update_of_ne (hfresh (h.owners j hj owner way hpath)),
        Function.update_of_ne (hfresh hj')]
      exact hrank j hj owner way hpath
    · refine List.forall_mem_singleton.mpr fun owner way hpath => ?_
      cases hpath
      rw [Function.update_of_ne (hfresh hcursor)]
      show _ < Function.update rank (a.createJoin cursor segment target joinType).1 _
        (a.createJoin cursor segment target joinType).1
      rw [Function.update_self]
      omega
  case remembered =>
    intro s hs key x hfind
    obtain ⟨j, hj, hjoined⟩ := h.remembered s hs key x hfind
    exact ⟨j, List.mem_append_left _ hj, hjoined⟩

theorem remember (h : a.Threaded) {j : Join} (hj : j ∈ a.joins) {key : String × String}
    (hpath : j.path = .association key.1 key.2) : (a.remember key j.aliasName).Threaded := by
  have horderly := h.orderly.remember key ⟨j, hj, isNavigated_of_path hpath, rfl⟩
  have hremembers : (a.remember key j.aliasName).Remembers :=
    Remembers.remember h.remembered hj hpath
  unfold Aliases.remember at horderly hremembers ⊢
  split
  · exact h
  · rename_i inner outer hscopes
    rw [hscopes] at horderly hremembers
    exact ⟨horderly, h.owners, h.climbs, hremembers⟩

end Threaded

/-! ## Joining an association -/

/-- Threaded aliases that have grown by joined associations. -/
def Spun (a b : Aliases) : Prop := b.Threaded ∧ a.Navigates b

theorem Spun.refl (h : a.Threaded) : a.Spun a := ⟨h, .refl a⟩

theorem Spun.trans (h : a.Spun b) (h' : b.Spun u) : a.Spun u := ⟨h'.1, h.2.trans h'.2⟩

theorem Navigates.subset (h : a.Navigates b) : ∀ j ∈ a.joins, j ∈ b.joins := by
  obtain ⟨new, hnew, -⟩ := h.joins
  intro j hj
  rw [hnew]
  exact List.mem_append_left _ hj

/-- All that was joined in between is on the way. -/
def JoinsAlong (a b : Aliases) (first : String) (way : List String) : Prop :=
  ∀ j ∈ b.joins, j ∈ a.joins ∨ ∃ part, part <+: way ∧ Trail b.joins first part j.aliasName

/-- One segment leads from an alias to the next. -/
def Reaches (a b : Aliases) (first : String) (way : List String) (last : String) : Prop :=
  a.Spun b ∧ b.Known Anchor last ∧ Trail b.joins first way last ∧ a.JoinsAlong b first way

theorem Reaches.stay (h : a.Threaded) {aliasName : String} (hknown : a.Known Anchor aliasName) :
    a.Reaches a aliasName [] aliasName :=
  ⟨.refl h, hknown, .root, fun _ hj => .inl hj⟩

theorem Reaches.trans {first second third : String} {way way' : List String}
    (h : a.Reaches b first way second) (h' : b.Reaches u second way' third) :
    a.Reaches u first (way ++ way') third := by
  obtain ⟨hspun, -, htrail, halong⟩ := h
  obtain ⟨hspun', hknown', htrail', halong'⟩ := h'
  have hfirst := htrail.mono hspun'.2.subset
  refine ⟨hspun.trans hspun', hknown', hfirst.trans htrail', fun j hj => ?_⟩
  rcases halong' j hj with hb | ⟨part, hpart, hway⟩
  · rcases halong j hb with ha | ⟨part, hpart, hway⟩
    · exact .inl ha
    · exact .inr ⟨part, hpart.trans (List.prefix_append _ _), hway.mono hspun'.2.subset⟩
  · exact .inr ⟨way ++ part, (List.prefix_append_right_inj _).mpr hpart, hfirst.trans hway⟩

/-- A new join is one segment away from the cursor. -/
theorem createJoin_reaches (ha : a.Threaded) (hcursor : a.Known Anchor cursor.aliasName)
    (segment : String) (target : Option String) (joinType : JoinType) :
    a.Reaches (a.createJoin cursor segment target joinType).2 cursor.aliasName [segment]
      (a.createJoin cursor segment target joinType).1 := by
  have htrail : Trail (a.createJoin cursor segment target joinType).2.joins cursor.aliasName
      [segment] (a.createJoin cursor segment target joinType).1 :=
    Trail.single (List.mem_append_right _ (List.mem_singleton.mpr rfl)) rfl
  refine ⟨⟨ha.createJoin hcursor target joinType, createJoin_navigates a cursor segment target
    joinType⟩, .inr (createJoin_joined a cursor segment target joinType), htrail, ?_⟩
  exact List.forall_mem_append.mpr ⟨fun _ => .inl,
    List.forall_mem_singleton.mpr (.inr ⟨[segment], List.prefix_rfl, htrail⟩)⟩

theorem joins_remember (a : Aliases) (key : String × String) (aliasName : String) :
    (a.remember key aliasName).joins = a.joins := by
  unfold remember
  split <;> rfl

/-- An association is joined behind the cursor, or was before. -/
theorem joinSegment_ends (ha : a.Threaded) (hcursor : a.Known Anchor cursor.aliasName)
    (segment : String) (target : Option String) (o : Resolution) {F : Aliases → Prop} :
    (joinSegment cursor segment target o).Ends F
      (fun aliasName b => a.Reaches b cursor.aliasName [segment] aliasName) a := by
  refine joinSegment_ends_of (fun _ x hjoined => ?joined)
    (fun _ joinType => createJoin_reaches ha hcursor segment target joinType)
    fun _ _ joinType => ?remembered
  case joined =>
    obtain ⟨s, hs, hfind⟩ := Option.bind_eq_some_iff.mp hjoined
    obtain ⟨j, hj, hpath, rfl⟩ :=
      ha.remembered s (List.mem_of_mem_head? hs) (cursor.aliasName, segment) _ hfind
    exact ⟨.refl ha, .inr ⟨j, hj, isNavigated_of_path hpath, rfl⟩, .single hj hpath,
      fun _ hi => .inl hi⟩
  case remembered =>
    have hnew := createJoin_reaches ha hcursor segment target joinType
    have hkept : (Aliases.remember (a.createJoin cursor segment target joinType).2
        (cursor.aliasName, segment) (a.createJoin cursor segment target joinType).1).Threaded :=
      hnew.1.1.remember (List.mem_append_right a.joins (List.mem_singleton.mpr rfl)) rfl
    have hstays := remember_navigates (a.createJoin cursor segment target joinType).2
      (cursor.aliasName, segment) (a.createJoin cursor segment target joinType).1
    refine ⟨hnew.1.trans ⟨hkept, hstays⟩, hnew.2.1.mono hstays,
      hnew.2.2.1.mono hstays.subset, fun j hj => ?_⟩
    rw [joins_remember] at hj ⊢
    exact hnew.2.2.2 j hj

/-- Paths lead along trails that spell them, also where they cannot be followed to their ends. -/
theorem strides_reaches (o : Resolution) :
    Strides o (fun a aliasName => a.Threaded ∧ a.Known Anchor aliasName) Spun Reaches where
  stay h := .stay h.1 h.2
  trans h h' := h.trans h'
  goesOn h := ⟨h.1.1, h.2.1⟩
  fails h := .refl h.1
  failsBehind h hu := h.1.trans hu
  join segment target h := joinSegment_ends h.1 h.2 segment target o

end Aliases

end ObjectQuery
