import ObjectQuery.Proofs.Declarations.Names
import ObjectQuery.Proofs.Emission.Steps
import ObjectQuery.Proofs.Parameters.Aliases

/-!
# Joins along paths

Resolving a path adds joined associations and nothing else.

* `Aliases.Navigates`: aliases that have grown by joined associations only.
* `Aliases.Orderly`: every joined association hangs off an alias that is known from elsewhere, and
  no two of them share an alias.
* `Aliases.finds_resolve`, `Aliases.finds_resolveEnclosing`: paths keep aliases orderly, and their
  references go through known aliases.
* `Aliases.pushCollection_yields`: so do the paths of collections.
-/

namespace ObjectQuery

open Step

/-- A scope without the joins made in it. -/
def Scope.frame (s : Scope) : Scope := { s with joined := [] }

namespace Aliases

variable {A : String → Prop} {a b u : Aliases} {c : Catalog}

/-- The scopes without the joins made in them. -/
def frames (a : Aliases) : List Scope := a.scopes.map Scope.frame

/-- The alias belongs to a joined association. -/
def Joined (a : Aliases) (aliasName : String) : Prop :=
  ∃ j ∈ a.joins, j.isNavigated = true ∧ j.aliasName = aliasName

/-- Aliases that have grown by joined associations only. -/
structure Navigates (a b : Aliases) : Prop where
  classAliases : b.classAliases = a.classAliases
  sources : b.sources = a.sources
  frames : b.frames = a.frames
  joins : ∃ new, b.joins = a.joins ++ new ∧ ∀ j ∈ new, j.isNavigated = true

namespace Navigates

theorem refl (a : Aliases) : a.Navigates a := ⟨rfl, rfl, rfl, [], (List.append_nil _).symm, by simp⟩

theorem trans (h : a.Navigates b) (h' : b.Navigates u) : a.Navigates u := by
  obtain ⟨new, hnew, hnavigated⟩ := h.joins
  obtain ⟨new', hnew', hnavigated'⟩ := h'.joins
  refine ⟨h'.classAliases.trans h.classAliases, h'.sources.trans h.sources,
    h'.frames.trans h.frames, new ++ new', ?_, List.forall_mem_append.mpr ⟨hnavigated, hnavigated'⟩⟩
  rw [hnew', hnew, List.append_assoc]

theorem joined (h : a.Navigates b) {aliasName : String} (hj : a.Joined aliasName) :
    b.Joined aliasName := by
  obtain ⟨new, hnew, -⟩ := h.joins
  obtain ⟨j, hmem, hnavigated, hname⟩ := hj
  exact ⟨j, by rw [hnew]; exact List.mem_append_left _ hmem, hnavigated, hname⟩

/-- The classes joined under a condition stay. -/
theorem outer (h : a.Navigates b) :
    b.joins.filter (!·.isNavigated) = a.joins.filter (!·.isNavigated) := by
  obtain ⟨new, hnew, hnavigated⟩ := h.joins
  have hnone : new.filter (!·.isNavigated) = [] :=
    List.filter_eq_nil_iff.mpr fun j hj => by simp [hnavigated j hj]
  rw [hnew, List.filter_append, hnone, List.append_nil]

end Navigates

/-- The alias is an anchor or belongs to a joined association. -/
def Known (A : String → Prop) (a : Aliases) (aliasName : String) : Prop :=
  A aliasName ∨ a.Joined aliasName

theorem Known.mono (h : a.Known A aliasName) (hab : a.Navigates b) : b.Known A aliasName :=
  h.imp_right hab.joined

/-- Paths start from anchors and joined associations, which hang off anchors and have aliases of
their own: the number behind a base is below the count of the joins with the base. -/
structure Orderly (A : String → Prop) (a : Aliases) : Prop where
  classAliases : ∀ entry ∈ a.classAliases, A entry.2
  scopes : ∀ s ∈ a.scopes, (∀ aliasName ∈ s.aliasName, a.Known A aliasName) ∧
    ∀ entry ∈ s.joined, a.Joined entry.2
  roots : ∀ j ∈ a.joins, j.isNavigated = true → A j.rootAlias
  distinct : ((a.joins.filter (·.isNavigated)).map (·.aliasName)).Nodup
  numbered : ∀ j ∈ a.joins, j.isNavigated = true → ∃ rootClass path number,
    j.aliasName = joinAliasName rootClass path number ∧
      number < (a.joins.filter (isNumbered (joinAliasBase rootClass path) ·.aliasName)).length

namespace Orderly

theorem mono {B : String → Prop} (h : a.Orderly A) (hAB : ∀ x, A x → B x) : a.Orderly B where
  classAliases entry hentry := hAB _ (h.classAliases entry hentry)
  scopes s hs := ⟨fun x hx => ((h.scopes s hs).1 x hx).imp_left (hAB x), (h.scopes s hs).2⟩
  roots j hj hnavigated := hAB _ (h.roots j hj hnavigated)
  distinct := h.distinct
  numbered := h.numbered

/-- Other scopes that start from known aliases. -/
theorem withScopes (h : a.Orderly A) {scopes : List Scope}
    (hscopes : ∀ s ∈ scopes, (∀ aliasName ∈ s.aliasName, a.Known A aliasName) ∧
      ∀ entry ∈ s.joined, a.Joined entry.2) : Orderly A { a with scopes } :=
  ⟨h.classAliases, hscopes, h.roots, h.distinct, h.numbered⟩

/-- The source of a joined association is an anchor. -/
theorem rootOf (h : a.Orderly A) {aliasName : String} (hknown : a.Known A aliasName) :
    A (a.rootOf aliasName) := by
  unfold Aliases.rootOf
  split
  · rename_i j hfind
    have hj := List.find?_some hfind
    rw [Bool.and_eq_true] at hj
    exact h.roots j (List.mem_of_find?_eq_some hfind) hj.2
  · rename_i hnone
    refine hknown.resolve_right ?_
    rintro ⟨j, hj, hnavigated, rfl⟩
    exact List.find?_eq_none.mp hnone j hj (by simp [hnavigated])

end Orderly

/-! ## Joining an association -/

theorem createJoin_navigates (a : Aliases) (cursor : Cursor) (segment : String)
    (target : Option String) (joinType : JoinType) :
    a.Navigates (a.createJoin cursor segment target joinType).2 :=
  ⟨rfl, rfl, rfl, _, rfl, List.forall_mem_singleton.mpr rfl⟩

theorem createJoin_joined (a : Aliases) (cursor : Cursor) (segment : String)
    (target : Option String) (joinType : JoinType) :
    (a.createJoin cursor segment target joinType).2.Joined
      (a.createJoin cursor segment target joinType).1 :=
  ⟨_, List.mem_append_right _ (List.mem_singleton.mpr rfl), rfl, rfl⟩

namespace Orderly

/-- A new join has the next number of its base, which no other join has. -/
theorem createJoin (h : a.Orderly A) {cursor : Cursor} (hcursor : a.Known A cursor.aliasName)
    (segment : String) (target : Option String) (joinType : JoinType) :
    (a.createJoin cursor segment target joinType).2.Orderly A := by
  have hgrows : a.Navigates (a.createJoin cursor segment target joinType).2 :=
    createJoin_navigates a cursor segment target joinType
  refine ⟨h.classAliases, fun s hs => ⟨fun x hx => ((h.scopes s hs).1 x hx).mono hgrows,
    fun entry hentry => hgrows.joined ((h.scopes s hs).2 entry hentry)⟩, ?_, ?_, ?_⟩
  case refine_1 =>
    refine List.forall_mem_append.mpr ⟨h.roots, List.forall_mem_singleton.mpr fun _ => ?_⟩
    exact h.rootOf hcursor
  case refine_2 =>
    show ((List.filter (·.isNavigated) (a.joins ++ [_])).map (·.aliasName)).Nodup
    rw [List.filter_append, List.filter_cons_of_pos rfl, List.map_append, List.nodup_append]
    refine ⟨h.distinct, by simp, fun x hx y hy heq => ?_⟩
    obtain ⟨j, hj, rfl⟩ := List.mem_map.mp hx
    obtain ⟨hj, hnavigated⟩ := List.mem_filter.mp hj
    obtain ⟨rootClass, path, number, hname, hlt⟩ := h.numbered j hj hnavigated
    rw [List.mem_singleton.mp hy, hname] at heq
    obtain ⟨hbase, hnumber⟩ := joinAliasName_inj heq
    rw [hbase, hnumber] at hlt
    exact Nat.lt_irrefl _ hlt
  case refine_3 =>
    refine List.forall_mem_append.mpr ⟨fun j hj hnavigated => ?_, ?_⟩
    · obtain ⟨rootClass, path, number, hname, hlt⟩ := h.numbered j hj hnavigated
      refine ⟨rootClass, path, number, hname, Nat.lt_of_lt_of_le hlt ?_⟩
      show _ ≤ (List.filter _ (a.joins ++ [_])).length
      rw [List.filter_append, List.length_append]
      exact Nat.le_add_right _ _
    · refine List.forall_mem_singleton.mpr fun _ => ⟨cursor.rootClass, cursor.rootPath ++ [segment],
        _, rfl, ?_⟩
      show _ < (List.filter _ (a.joins ++ [_])).length
      rw [List.filter_append, List.length_append, List.filter_cons_of_pos]
      · exact Nat.lt_succ_self _
      · exact isNumbered_joinAliasName _ _ _

end Orderly

theorem remember_navigates (a : Aliases) (key : String × String) (aliasName : String) :
    a.Navigates (a.remember key aliasName) := by
  unfold remember
  split
  · exact .refl a
  · rename_i inner outer hscopes
    refine ⟨rfl, rfl, ?_, [], (List.append_nil _).symm, by simp⟩
    rw [frames, frames, hscopes]
    rfl

theorem Orderly.remember (h : a.Orderly A) (key : String × String) {aliasName : String}
    (hjoined : a.Joined aliasName) : (a.remember key aliasName).Orderly A := by
  unfold Aliases.remember
  split
  · exact h
  · rename_i inner outer hscopes
    have hboth := h.scopes
    rw [hscopes] at hboth
    obtain ⟨hinner, houter⟩ := List.forall_mem_cons.mp hboth
    exact h.withScopes (List.forall_mem_cons.mpr
      ⟨⟨hinner.1, Dictionary.forall_mem_insert hinner.2 _ hjoined⟩, houter⟩)

/-- An association is joined behind the cursor, or was before. -/
theorem joinSegment_orderly (ha : a.Orderly A) {cursor : Cursor}
    (hcursor : a.Known A cursor.aliasName) {segment aliasName : String} {target : Option String}
    {o : Resolution} (h : (joinSegment cursor segment target o).Yields a aliasName b) :
    a.Navigates b ∧ b.Orderly A ∧ b.Joined aliasName := by
  have h₁ := yields_get_bind.mp h
  dsimp only at h₁
  split at h₁
  · rename_i found hjoined
    obtain ⟨rfl, rfl⟩ := yields_pure.mp h₁
    split at hjoined
    · cases hjoined
    · obtain ⟨s, hs, hfind⟩ := Option.bind_eq_some_iff.mp hjoined
      have hscope := ha.scopes s (List.mem_of_mem_head? hs)
      exact ⟨.refl _, ha, Dictionary.of_find?_eq_some hscope.2 hfind⟩
  · obtain ⟨_, u, hput, h₂⟩ := yields_bind.mp h₁
    obtain rfl := yields_modify.mp hput
    obtain ⟨rfl, rfl⟩ := yields_pure.mp h₂
    have hgrows := createJoin_navigates a cursor segment target (a.joinTypeFor o.outer)
    have horderly := ha.createJoin hcursor segment target (a.joinTypeFor o.outer)
    have hjoined := createJoin_joined a cursor segment target (a.joinTypeFor o.outer)
    split
    · exact ⟨hgrows, horderly, hjoined⟩
    · have hremember := remember_navigates (a.createJoin cursor segment target
        (a.joinTypeFor o.outer)).2 (cursor.aliasName, segment) (a.createJoin cursor segment target
        (a.joinTypeFor o.outer)).1
      exact ⟨hgrows.trans hremember, horderly.remember _ hjoined, hremember.joined hjoined⟩

theorem advance_orderly (ha : a.Orderly A) {cursor next : Cursor}
    (hcursor : a.Known A cursor.aliasName) {path segment : String} {o : Resolution}
    (h : (advance c path o cursor segment).Yields a next b) :
    a.Navigates b ∧ b.Orderly A ∧ b.Known A next.aliasName := by
  obtain ⟨property, u, hlook, h₁⟩ := yields_bind.mp h
  obtain ⟨-, rfl⟩ := yields_ofReported.mp hlook
  split at h₁
  · obtain ⟨aliasName, u, hjoin, h₂⟩ := yields_bind.mp h₁
    obtain ⟨rfl, rfl⟩ := yields_pure.mp h₂
    obtain ⟨hgrows, horderly, hjoined⟩ := joinSegment_orderly ha hcursor hjoin
    exact ⟨hgrows, horderly, .inr hjoined⟩
  · exact (yields_fail.mp h₁).elim

theorem finish_orderly (ha : a.Orderly A) {cursor : Cursor} (hcursor : a.Known A cursor.aliasName)
    {segment : String} {o : Resolution} {target : String × List String}
    (h : (finish c o cursor segment).Yields a target b) :
    a.Navigates b ∧ b.Orderly A ∧ b.Known A target.1 := by
  obtain ⟨property, u, hlook, h₁⟩ := yields_bind.mp h
  obtain ⟨-, rfl⟩ := yields_ofReported.mp hlook
  split at h₁
  · split at h₁
    · obtain ⟨aliasName, u, hjoin, h₂⟩ := yields_bind.mp h₁
      obtain ⟨rfl, rfl⟩ := yields_pure.mp h₂
      obtain ⟨hgrows, horderly, hjoined⟩ := joinSegment_orderly ha hcursor hjoin
      exact ⟨hgrows, horderly, .inr hjoined⟩
    · obtain ⟨rfl, rfl⟩ := yields_pure.mp h₁
      exact ⟨.refl _, ha, hcursor⟩
  · obtain ⟨rfl, rfl⟩ := yields_pure.mp h₁
    exact ⟨.refl _, ha, hcursor⟩

theorem follow_orderly {a : Aliases} {path : String} {o : Resolution} {segments : List String}
    {cursor : Cursor} {target : String × List String} (ha : a.Orderly A)
    (hcursor : a.Known A cursor.aliasName)
    (h : (follow c path o cursor segments).Yields a target b) :
    a.Navigates b ∧ b.Orderly A ∧ b.Known A target.1 := by
  match segments with
  | [] =>
    obtain ⟨rfl, rfl⟩ := yields_pure.mp h
    exact ⟨.refl _, ha, hcursor⟩
  | [last] => exact finish_orderly ha hcursor h
  | segment :: last :: rest =>
    have hbranch : ∀ isKey : Bool, (if isKey then pure (cursor.aliasName, [segment, "id"])
        else do follow c path o (← advance c path o cursor segment) (last :: rest) :
          Step Aliases (String × List String)).Yields a target b →
        a.Navigates b ∧ b.Orderly A ∧ b.Known A target.1 := by
      intro isKey h
      split at h
      · obtain ⟨rfl, rfl⟩ := yields_pure.mp h
        exact ⟨.refl _, ha, hcursor⟩
      · obtain ⟨next, u, hadvance, hfollow⟩ := yields_bind.mp h
        obtain ⟨hgrows, hu, hnext⟩ := advance_orderly ha hcursor hadvance
        obtain ⟨hgrows', hb, htarget⟩ := follow_orderly hu hnext hfollow
        exact ⟨hgrows.trans hgrows', hb, htarget⟩
    unfold follow at h
    dsimp only at h
    split at h
    · obtain ⟨property, u, hlook, h₁⟩ := yields_bind.mp h
      obtain ⟨-, rfl⟩ := yields_ofReported.mp hlook
      split at h₁
      · exact hbranch true h₁
      · exact hbranch false h₁
    · exact hbranch false h

/-- A path starts from a known alias. -/
theorem startOf_yields {path : String} {start : Option (Cursor × List String)} (ha : a.Orderly A)
    (h : (startOf c path).Yields a start b) :
    b = a ∧ ∀ s ∈ start, a.Known A s.1.aliasName := by
  have h₁ := yields_get_bind.mp h
  dsimp only at h₁
  split at h₁
  · split at h₁
    · rename_i aliasName hfind
      obtain ⟨rfl, rfl⟩ := yields_pure.mp h₁
      refine ⟨rfl, ?_⟩
      rintro _ ⟨⟩
      exact .inl (Dictionary.of_find?_eq_some ha.classAliases hfind)
    · exact (yields_fail.mp h₁).elim
  · split at h₁
    · rename_i hscope
      obtain ⟨rfl, rfl⟩ := yields_pure.mp h₁
      refine ⟨rfl, ?_⟩
      rintro _ ⟨⟩
      exact (ha.scopes _ (List.mem_of_mem_head? hscope)).1 _ rfl
    · obtain ⟨rfl, rfl⟩ := yields_pure.mp h₁
      exact ⟨rfl, by rintro _ ⟨⟩⟩

/-! ## Resolving paths -/

/-- The step adds joined associations to orderly aliases and keeps them orderly. -/
def Roams {α : Type} (x : Step Aliases α) : Prop :=
  ∀ {A : String → Prop} {a r b}, x.Yields a r b → a.Orderly A → a.Navigates b ∧ b.Orderly A

/-- The step roams, and what it finds goes through known aliases. -/
def Finds {α : Type} (names : α → Option String) (x : Step Aliases α) : Prop :=
  ∀ {A : String → Prop} {a r b}, x.Yields a r b → a.Orderly A →
    (a.Navigates b ∧ b.Orderly A) ∧ ∀ y ∈ names r, b.Known A y

theorem finds_resolve (path : String) (o : Resolution) :
    Finds (·.bind Reference.alias?) (resolve c path o) := by
  intro A a r b h ha
  unfold resolve at h
  dsimp only at h
  split at h
  · obtain ⟨rfl, rfl⟩ := yields_pure.mp h
    exact ⟨⟨.refl _, ha⟩, by rintro _ ⟨⟩⟩
  · obtain ⟨start, u, hstart, h₁⟩ := yields_bind.mp h
    obtain ⟨rfl, hknown⟩ := startOf_yields ha hstart
    split at h₁
    · obtain ⟨rfl, rfl⟩ := yields_pure.mp h₁
      exact ⟨⟨.refl _, ha⟩, by rintro _ ⟨⟩⟩
    · obtain ⟨target, v, hfollow, h₂⟩ := yields_bind.mp h₁
      obtain ⟨rfl, rfl⟩ := yields_pure.mp h₂
      obtain ⟨hgrows, hb, htarget⟩ := follow_orderly ha (hknown _ rfl) hfollow
      refine ⟨⟨hgrows, hb⟩, ?_⟩
      rintro _ ⟨⟩
      exact htarget

theorem roams_resolve (path : String) (o : Resolution) : Roams (resolve c path o) :=
  fun h ha => (finds_resolve path o h ha).1

theorem finds_enclosing {α : Type} {names : α → Option String} {x : Step Aliases α}
    (hx : Finds names x) : Finds names (enclosing x) := by
  intro A a r b h ha
  obtain ⟨-, h'⟩ | ⟨inner, outer, u, hscopes, h', rfl⟩ := enclosing_yields h
  · exact hx h' ha
  · have hboth := ha.scopes
    rw [hscopes] at hboth
    obtain ⟨hinner, houter⟩ := List.forall_mem_cons.mp hboth
    obtain ⟨⟨hgrows, hu⟩, hnames⟩ := hx h' (ha.withScopes houter)
    refine ⟨⟨⟨hgrows.classAliases, hgrows.sources, ?_, hgrows.joins⟩, hu.withScopes ?_⟩, hnames⟩
    · have hframes : u.frames = outer.map Scope.frame := hgrows.frames
      show inner.frame :: u.frames = a.scopes.map Scope.frame
      rw [hframes, hscopes, List.map_cons]
    · refine List.forall_mem_cons.mpr ⟨⟨fun x hx => ?_, fun entry hentry => ?_⟩, hu.scopes⟩
      · exact (hinner.1 x hx).imp_right hgrows.joined
      · exact hgrows.joined (hinner.2 entry hentry)

theorem finds_resolveWithin (path : String) (depth : Nat) :
    Finds Reference.alias? (resolveWithin c path depth) := by
  induction depth with
  | zero =>
    intro A a r b h _
    have h₁ := yields_get_bind.mp h
    exact (yields_fail.mp h₁).elim
  | succ depth ih =>
    refine finds_enclosing fun {A a r b} h ha => ?_
    have h₁ := yields_get_bind.mp h
    split at h₁
    · exact (yields_fail.mp h₁).elim
    · obtain ⟨found, u, hresolve, h₂⟩ := yields_bind.mp h₁
      obtain ⟨⟨hgrows, hu⟩, hnames⟩ := finds_resolve _ _ hresolve ha
      split at h₂
      · obtain ⟨rfl, rfl⟩ := yields_pure.mp h₂
        exact ⟨⟨hgrows, hu⟩, hnames⟩
      · obtain ⟨⟨hgrows', hb⟩, hnames'⟩ := ih h₂ hu
        exact ⟨⟨hgrows.trans hgrows', hb⟩, hnames'⟩

theorem finds_resolveEnclosing (path : String) :
    Finds Reference.alias? (resolveEnclosing c path) :=
  fun h ha => finds_resolveWithin path _ (yields_get_bind.mp h) ha

theorem roams_resolveEnclosing (path : String) : Roams (resolveEnclosing c path) :=
  fun h ha => (finds_resolveEnclosing path h ha).1

/-! ## Collections -/

theorem advanceAll_orderly {path : String} {segments : List String} {cursor last : Cursor}
    (ha : a.Orderly A) (hcursor : a.Known A cursor.aliasName)
    (h : (advanceAll c path cursor segments).Yields a last b) :
    a.Navigates b ∧ b.Orderly A ∧ b.Known A last.aliasName := by
  induction segments generalizing a cursor with
  | nil =>
    obtain ⟨rfl, rfl⟩ := yields_pure.mp h
    exact ⟨.refl _, ha, hcursor⟩
  | cons segment rest ih =>
    obtain ⟨next, u, hadvance, hrest⟩ := yields_bind.mp h
    obtain ⟨hgrows, hu, hnext⟩ := advance_orderly ha hcursor hadvance
    obtain ⟨hgrows', hb, hlast⟩ := ih hu hnext hrest
    exact ⟨hgrows.trans hgrows', hb, hlast⟩

/-- A collection is joined, and its elements are the innermost scope. -/
theorem pushCollection_yields {property aliasName : String} {joinType : JoinType}
    (ha : a.Orderly A) (h : (pushCollection c property joinType).Yields a aliasName b) :
    ∃ u scope, a.Navigates u ∧ b = { u with scopes := scope :: u.scopes } ∧ b.Orderly A := by
  obtain ⟨start, u, hstart, h₁⟩ := yields_bind.mp h
  obtain ⟨rfl, hknown⟩ := startOf_yields ha hstart
  split at h₁
  · have h₂ := yields_get_bind.mp h₁
    exact (yields_fail.mp h₂).elim
  · split at h₁
    · exact (yields_fail.mp h₁).elim
    · rename_i last _
      obtain ⟨cursor, v, hall, h₂⟩ := yields_bind.mp h₁
      obtain ⟨hgrows, hv, hcursor⟩ := advanceAll_orderly ha (hknown _ rfl) hall
      obtain ⟨p, w, hlook, h₃⟩ := yields_bind.mp h₂
      obtain ⟨-, rfl⟩ := yields_ofReported.mp hlook
      split at h₃
      · rename_i element _
        have h₄ := yields_get_bind.mp h₃
        obtain ⟨_, z, hput, h₅⟩ := yields_bind.mp h₄
        have hjoined := hv.createJoin hcursor last (some element) joinType
        have hname := createJoin_joined w cursor last (some element) joinType
        obtain rfl := yields_modify.mp hput
        obtain ⟨-, rfl⟩ := yields_pure.mp h₅
        have hgrows' := createJoin_navigates w cursor last (some element) joinType
        refine ⟨_, _, hgrows.trans hgrows', rfl,
          hjoined.withScopes (List.forall_mem_cons.mpr ⟨⟨?_, ?_⟩, hjoined.scopes⟩)⟩
        · rintro _ ⟨⟩
          exact .inr hname
        · exact fun entry hentry => absurd hentry List.not_mem_nil
      · exact (yields_fail.mp h₃).elim

end Aliases

end ObjectQuery
