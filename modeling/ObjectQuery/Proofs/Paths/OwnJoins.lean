import ObjectQuery.Proofs.Context.Operations
import ObjectQuery.Proofs.Paths.Threads

/-!
# Paths with joins of their own

A path that asks for joins of its own is given a new join for each association on its way, and they
hang together in a chain from where the path starts. Any other path is led along joins that its
scope remembers or that are made for it.

* `Aliases.JoinChain`: joins that spell a way, each of them hanging off the one before it.
* `Aliases.strides_branches`: a path with joins of its own only adds such a chain.
* `Aliases.strides_trails`: from consistent aliases a path is led along a trail that spells it.
* `Aliases.Apart`, `Aliases.apart_of_found`: the references that a path is resolved to with joins of
  its own and without differ in the joins on the way only.
-/

namespace ObjectQuery

open Step

namespace Aliases

variable {a b u : Aliases} {c : Catalog} {cursor : Cursor} {o : Resolution}

/-! ## Chains -/

/-- Joins that lead from one alias to another along the segments of a way, one after the other. -/
inductive JoinChain : String → List String → List Join → String → Prop
  | nil {first : String} : JoinChain first [] [] first
  | cons {first last segment : String} {way : List String} {j : Join} {joins : List Join} :
    j.path = .association first segment → JoinChain j.aliasName way joins last →
    JoinChain first (segment :: way) (j :: joins) last

namespace JoinChain

variable {first second third : String} {way way' : List String} {joins joins' : List Join}

theorem append (h : JoinChain first way joins second) (h' : JoinChain second way' joins' third) :
    JoinChain first (way ++ way') (joins ++ joins') third := by
  induction h with
  | nil => exact h'
  | cons hpath _ ih => exact .cons hpath (ih h')

end JoinChain

/-- The aliases with more joins at the end. -/
def joining (a : Aliases) (joins : List Join) : Aliases := { a with joins := a.joins ++ joins }

theorem joining_nil (a : Aliases) : a.joining [] = a := by
  rw [joining, List.append_nil]

theorem joining_append (a : Aliases) (joins joins' : List Join) :
    a.joining (joins ++ joins') = (a.joining joins).joining joins' := by
  simp only [joining, List.append_assoc]

/-- The way leads through a chain of new joins, and nothing else has changed. -/
def Branches (a b : Aliases) (first : String) (way : List String) (last : String) : Prop :=
  ∃ joins, b = a.joining joins ∧ JoinChain first way joins last

theorem Branches.trans {first second third : String} {way way' : List String}
    (h : a.Branches b first way second) (h' : b.Branches u second way' third) :
    a.Branches u first (way ++ way') third := by
  obtain ⟨joins, rfl, hchain⟩ := h
  obtain ⟨joins', rfl, hchain'⟩ := h'
  exact ⟨joins ++ joins', (a.joining_append _ _).symm, hchain.append hchain'⟩

/-- Every association on the way of a path with joins of its own is joined anew. -/
theorem strides_branches (ho : o.ownJoins = true) :
    Strides o (fun _ _ => True) (fun _ _ => True) Branches where
  stay {a _} _ := ⟨[], a.joining_nil.symm, .nil⟩
  trans h h' := h.trans h'
  goesOn _ := trivial
  fails _ := trivial
  failsBehind _ _ := trivial
  join {a cursor} segment target _ := by
    refine joinSegment_ends_of (fun h => ?_) (fun _ joinType => ⟨_, rfl, .cons rfl .nil⟩)
      fun h => ?_
    all_goals exact absurd (h.symm.trans ho) Bool.false_ne_true

/-! ## Trails -/

/-- The way leads along joins, old ones and new ones, to aliases that are consistent. -/
def LeadsAlong (a b : Aliases) (first : String) (way : List String) (last : String) : Prop :=
  b.Consistent ∧ a.joins ⊆ b.joins ∧ Trail b.joins first way last

/-- A path is led along joins that its scope remembers or that are made for it. -/
theorem strides_trails (o : Resolution) :
    Strides o (fun a _ => a.Consistent) (fun _ _ => True) LeadsAlong where
  stay h := ⟨h, List.Subset.refl _, .root⟩
  trans h h' := ⟨h'.1, List.Subset.trans h.2.1 h'.2.1,
    (h.2.2.mono fun _ hj => h'.2.1 hj).trans h'.2.2⟩
  goesOn h := h.1
  fails _ := trivial
  failsBehind _ _ := trivial
  join {a cursor} segment target h := by
    have hnew (joinType : JoinType) : Trail (a.createJoin cursor segment target joinType).2.joins
        cursor.aliasName [segment] (a.createJoin cursor segment target joinType).1 :=
      .single (List.mem_append_right _ (List.mem_singleton.mpr rfl)) rfl
    refine joinSegment_ends_of (fun _ x hjoined => ?joined) (fun _ joinType => ?own)
      fun _ _ joinType => ?remembered
    case joined =>
      obtain ⟨s, hs, hfind⟩ := Option.bind_eq_some_iff.mp hjoined
      obtain ⟨j, hj, hpath, rfl⟩ :=
        h.remembers s (List.mem_of_mem_head? hs) (cursor.aliasName, segment) _ hfind
      exact ⟨h, List.Subset.refl _, .single hj hpath⟩
    case own =>
      exact ⟨h.createJoin cursor segment target joinType, List.subset_append_left _ _, hnew joinType⟩
    case remembered =>
      refine ⟨h.remember cursor segment target joinType, ?_, ?_⟩
      · rw [joins_remember]
        exact List.subset_append_left _ _
      · rw [joins_remember]
        exact hnew joinType

/-! ## References -/

/-- Two references of a path from the same place, which both say the same behind the alias at the end
of the way: `shared` along a trail of joins, and `own` through a chain of new joins. References to all
rows need none. -/
inductive Apart (c : Catalog) (path : String) (a : Aliases) (trail : List Join) :
    Reference → Reference → List Join → Prop
  | rows : (Path.parse path).inner = "*" → Apart c path a trail (.rows path) (.rows path) []
  | along {origin first last : String} {way steps : List String} {new : List Join} :
    a.origin? c (Path.parse path).inner = some origin →
    way ++ steps = c.pathSegments (Path.parse path).inner →
    Trail trail origin way first → JoinChain origin way new last →
    Apart c path a trail (.at (Path.parse path).before first steps (Path.parse path).after)
      (.at (Path.parse path).before last steps (Path.parse path).after) new

/-- A path that is resolved again with joins of its own only adds these, and its reference differs in
them only. -/
theorem apart_of_found {path : String} {shared own : Reference} {more : List Join}
    (hshared : Found LeadsAlong c path {} a (some shared) b)
    (hown : Found Branches c path { ownJoins := true } (a.joining more) (some own) u) :
    ∃ new, u = (a.joining more).joining new ∧ Apart c path a b.joins shared own new := by
  cases hshared with
  | rows hrows =>
    cases hown with
    | rows => exact ⟨[], (joining_nil _).symm, .rows hrows⟩
    | refers hother => exact absurd hrows hother
  | refers hother hrefers =>
    cases hown with
    | rows hrows => exact absurd hrows hother
    | refers _ hrefers' =>
      obtain ⟨origin, first, way, steps, horigin, rfl, hway, hsteps, -, -, htrail⟩ := hrefers
      obtain ⟨origin', last, way', steps', horigin', rfl, hway', hsteps', new, hnew, hchain⟩ :=
        hrefers'
      obtain rfl : origin = origin' := Option.some.inj (horigin.symm.trans horigin')
      obtain rfl : steps = steps' := (hsteps rfl).trans (hsteps' rfl).symm
      obtain rfl : way = way' := List.append_cancel_right (hway.trans hway'.symm)
      exact ⟨new, hnew, .along horigin hway htrail hchain⟩

end Aliases

end ObjectQuery
