import ObjectQuery.Proofs.Context.Paths
import ObjectQuery.Proofs.Declarations.Emission

/-!
# What paths leave of the aliases

A path that is resolved, and also one that cannot be, leaves the scopes as it found them and adds
joins behind those that are there.

* `Aliases.Resumes`: aliases with the scopes of others and more sources and joins.
* `Aliases.Underlies`: likewise in whichever scopes.
* `Aliases.resumes_walk`: paths resume the aliases that they are resolved in.
* `Aliases.Remembers`: aliases whose scopes remember joins for what they are.
* `Aliases.Opens`, `Aliases.Opens.pop`: a collection opens one more scope, which is closed again.
* `Aliases.addSource_resumes`, `Aliases.addOnJoin_resumes`, ...: classes are added at the end.
-/

namespace ObjectQuery

open Step

namespace Aliases

/-- Aliases with the scopes and the mark of others, and with sources and joins added behind
theirs. -/
structure Resumes (a b : Aliases) : Prop where
  queryClass : b.queryClass = a.queryClass
  frames : b.frames = a.frames
  insideOr : b.insideOr = a.insideOr
  sources : a.sources <+: b.sources
  joins : a.joins <+: b.joins

instance : IsPreorder Aliases Resumes where
  refl _ := ⟨rfl, rfl, rfl, List.prefix_rfl, List.prefix_rfl⟩
  trans _ _ _ h h' :=
    ⟨h'.queryClass.trans h.queryClass, h'.frames.trans h.frames, h'.insideOr.trans h.insideOr,
      h.sources.trans h'.sources, h.joins.trans h'.joins⟩

/-- What aliases have gathered is the beginning of what others of the query have, in whichever scopes
these stand. -/
structure Underlies (a z : Aliases) : Prop where
  queryClass : z.queryClass = a.queryClass
  sources : a.sources <+: z.sources
  joins : a.joins <+: z.joins

instance : IsPreorder Aliases Underlies where
  refl _ := ⟨rfl, List.prefix_rfl, List.prefix_rfl⟩
  trans _ _ _ h h' :=
    ⟨h'.queryClass.trans h.queryClass, h.sources.trans h'.sources, h.joins.trans h'.joins⟩

/-- Aliases that resume others in one more scope. -/
def Opens (a b : Aliases) : Prop :=
  ∃ u scope, a.Resumes u ∧ b = { u with scopes := scope :: u.scopes }

variable {a b : Aliases} {c : Catalog}

theorem Resumes.refl (a : Aliases) : a.Resumes a := Std.Refl.refl a

theorem Resumes.trans {u : Aliases} (h : a.Resumes b) (h' : b.Resumes u) : a.Resumes u :=
  IsTrans.trans _ _ _ h h'

theorem Resumes.underlies (h : a.Resumes b) : a.Underlies b := ⟨h.queryClass, h.sources, h.joins⟩

theorem Opens.underlies (h : a.Opens b) : a.Underlies b := by
  obtain ⟨u, scope, hu, rfl⟩ := h
  exact ⟨hu.queryClass, hu.sources, hu.joins⟩

theorem underlies_pop (a : Aliases) : a.Underlies a.pop := by
  unfold pop
  split <;> exact ⟨rfl, List.prefix_rfl, List.prefix_rfl⟩

theorem Resumes.scopes_ne_nil (h : a.Resumes b) (ha : a.scopes ≠ []) : b.scopes ≠ [] := by
  intro hb
  have hframes : a.scopes.map Scope.frame = b.scopes.map Scope.frame := h.frames.symm
  rw [hb] at hframes
  exact ha (List.map_eq_nil_iff.mp hframes)

/-- A scope that was opened can be closed again. -/
theorem Opens.pop {u : Aliases} (h : a.Opens b) (hb : b.Resumes u) (ha : a.scopes ≠ []) :
    a.Resumes u.pop := by
  obtain ⟨v, scope, hv, rfl⟩ := h
  obtain ⟨inner, scopes, -, -, hpop, hframes⟩ :=
    pop_eq scope.frame hb.frames (hv.scopes_ne_nil ha)
  rw [hpop] at hframes ⊢
  exact ⟨hb.queryClass.trans hv.queryClass, hframes.trans hv.frames,
    hb.insideOr.trans hv.insideOr, hv.sources.trans hb.sources, hv.joins.trans hb.joins⟩

/-! ## Paths -/

theorem remember_resumes (a : Aliases) (key : String × String) (aliasName : String) :
    a.Resumes (a.remember key aliasName) := by
  have hframes := (remember_navigates a key aliasName).frames
  unfold remember at hframes ⊢
  split
  · exact .refl a
  · rename_i inner outer hscopes
    rw [hscopes] at hframes
    exact ⟨rfl, hframes, rfl, List.prefix_rfl, List.prefix_rfl⟩

theorem createJoin_resumes (a : Aliases) (cursor : Cursor) (segment : String)
    (target : Option String) (joinType : JoinType) :
    a.Resumes (a.createJoin cursor segment target joinType).2 :=
  ⟨rfl, rfl, rfl, List.prefix_rfl, List.prefix_append _ _⟩

/-- Paths leave the scopes alone and add joins at the end. -/
theorem resumes_walk : WalkRules Resumes where
  createJoin := createJoin_resumes
  remember a cursor segment target joinType _ :=
    (createJoin_resumes a cursor segment target joinType).trans (remember_resumes _ _ _)
  enclosing {a u inner outer} hscopes hu := by
    refine ⟨hu.queryClass, ?_, hu.insideOr, hu.sources, hu.joins⟩
    have houter : u.frames = outer.map Scope.frame := hu.frames
    show inner.frame :: u.frames = a.scopes.map Scope.frame
    rw [houter, hscopes, List.map_cons]

/-- The scope of a condition is opened in front of the others. -/
theorem Enters.opens {property : String} (h : a.Enters c property b) : a.Opens b := by
  cases h with
  | theta => exact ⟨a, _, .refl a, rfl⟩
  | collection _ hpush => exact (resumes_walk.pushCollection _ _).yields hpush

/-! ## What scopes remember -/

/-- What a scope remembers as the alias of an association has been joined as that. -/
def Remembers (a : Aliases) : Prop :=
  ∀ s ∈ a.scopes, ∀ key aliasName, s.joined.find? key = some aliasName →
    ∃ j ∈ a.joins, j.path = .association key.1 key.2 ∧ j.aliasName = aliasName

theorem Remembers.congr (h : a.Remembers) (hscopes : ∀ s ∈ b.scopes, s ∈ a.scopes)
    (hjoins : a.joins <+: b.joins) : b.Remembers := by
  intro s hs key aliasName hfind
  obtain ⟨j, hj, hjoined⟩ := h s (hscopes s hs) key aliasName hfind
  exact ⟨j, hjoins.subset hj, hjoined⟩

theorem Remembers.push (h : a.Remembers) {s : Scope} (hs : s.joined = []) :
    Remembers { a with scopes := s :: a.scopes } := by
  refine List.forall_mem_cons.mpr ⟨fun key aliasName hfind => ?_, h⟩
  rw [hs] at hfind
  cases hfind

theorem Remembers.remember (h : a.Remembers) {j : Join} (hj : j ∈ a.joins) {key : String × String}
    (hpath : j.path = .association key.1 key.2) : (a.remember key j.aliasName).Remembers := by
  unfold Aliases.remember
  split
  · exact h
  · rename_i inner outer hscopes
    have hboth := h
    unfold Remembers at hboth
    rw [hscopes] at hboth
    obtain ⟨hinner, houter⟩ := List.forall_mem_cons.mp hboth
    refine List.forall_mem_cons.mpr ⟨fun other x hfind => ?_, houter⟩
    by_cases hkey : other = key
    · subst hkey
      rw [Dictionary.find?_insert_self] at hfind
      exact ⟨j, hj, hpath, Option.some.inj hfind⟩
    · rw [Dictionary.find?_insert_of_ne hkey] at hfind
      exact hinner other x hfind

/-! ## Classes -/

theorem obtainClassAlias_resumes (a : Aliases) (className : String) :
    a.Resumes (a.obtainClassAlias className).2 := by
  obtain ⟨x, -, heq⟩ | ⟨-, heq⟩ := a.obtainClassAlias_eq className <;> rw [heq] <;>
    exact ⟨rfl, rfl, rfl, List.prefix_rfl, List.prefix_rfl⟩

theorem addSource_resumes (a : Aliases) (className : String) :
    a.Resumes (a.addSource className).2 := by
  unfold addSource
  split
  · exact .refl a
  · have h := a.obtainClassAlias_resumes className
    exact ⟨h.queryClass, h.frames, h.insideOr, h.sources.trans (List.prefix_append _ _), h.joins⟩

theorem addThetaSource_resumes (a : Aliases) (className : String) (instanceNumber : Nat) :
    a.Resumes (a.addThetaSource className instanceNumber).2 :=
  ⟨rfl, rfl, rfl, List.prefix_append _ _, List.prefix_rfl⟩

theorem addOnJoin_resumes (a : Aliases) (className property aliasName : String)
    (condition : Correlation) :
    a.Resumes (a.addOnJoin className property aliasName condition) :=
  ⟨rfl, rfl, rfl, List.prefix_rfl, List.prefix_append _ _⟩

end Aliases

end ObjectQuery
