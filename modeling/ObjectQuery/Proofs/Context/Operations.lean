import ObjectQuery.Proofs.Context.Aliases
import ObjectQuery.Proofs.Context.Visits

/-!
# Operations on aliases

Whatever is done to the aliases of a query, also where it fails, the joins that are there stay, those
of associations have aliases of their own, and the scopes remember joins for what they are.

* `Aliases.Operation`, `Aliases.Operation.perform`: what may be done.
* `Aliases.Attained`: the aliases that a query comes to by any operations one after the other.
* `Aliases.Consistent`: joins that can be told apart, and scopes that remember them.
* `Aliases.Operation.perform_extends`, `Aliases.Attained.consistent`: an operation only adds joins,
  and whatever is attained is consistent.
* `Aliases.joins_of_operations`: the joins in the course of any operations.
* `Draft.keepsAttained`: each change of a visit, also of one that fails, is such an operation.
-/

namespace ObjectQuery

open Step

namespace Aliases

/-! ## Operations -/

/-- What may be done to the aliases of a query. -/
inductive Operation where
  | insideOr (marked : Bool)
  | setClassAlias (className : String) (instanceNumber : Option Nat)
  | addSource (className : String)
  | addThetaSource (className : String) (instanceNumber : Nat)
  | addOnJoin (className property aliasName : String) (condition : Correlation)
  | resolve (path : String) (o : Resolution)
  | resolveEnclosing (path : String)
  | pushCollection (property : String) (joinType : JoinType)
  | pushTheta
  | pop

/-- The aliases that an operation leaves. One that fails leaves what it has done before. -/
def Operation.perform (c : Catalog) (a : Aliases) : Operation → Aliases
  | insideOr marked => { a with insideOr := marked }
  | setClassAlias className instanceNumber => (a.setClassAlias className instanceNumber).2
  | addSource className => (a.addSource className).2
  | addThetaSource className instanceNumber => (a.addThetaSource className instanceNumber).2
  | addOnJoin className property aliasName condition =>
    a.addOnJoin className property aliasName condition
  | resolve path o => ((Aliases.resolve c path o).run a).state
  | resolveEnclosing path => ((Aliases.resolveEnclosing c path).run a).state
  | pushCollection property joinType => ((Aliases.pushCollection c property joinType).run a).state
  | pushTheta => a.pushTheta
  | pop => a.pop

/-- The aliases that a query over some class comes to by operations one after the other. -/
def Attained (c : Catalog) (a : Aliases) : Prop :=
  ∃ className operations, a = List.foldl (Operation.perform c) (start className) operations

variable {a b u : Aliases} {c : Catalog}

theorem Attained.start (className : String) : (Aliases.start className).Attained c :=
  ⟨className, [], rfl⟩

theorem Attained.perform (h : a.Attained c) (operation : Operation) :
    (operation.perform c a).Attained c := by
  obtain ⟨className, operations, rfl⟩ := h
  exact ⟨className, operations ++ [operation], by rw [List.foldl_append]; rfl⟩

/-- What holds of fresh aliases and is kept by each operation holds of all that are attained. -/
theorem Attained.induction {P : Aliases → Prop} (hstart : ∀ className, P (Aliases.start className))
    (hperform : ∀ a operation, P a → P (Operation.perform c a operation)) (h : a.Attained c) :
    P a := by
  obtain ⟨className, operations, rfl⟩ := h
  refine List.foldlRecOn operations _ (hstart className) fun a ha operation _ => ?_
  exact hperform a operation ha

/-! ## Consistent aliases -/

/-- Joined associations have aliases of their own, and the scopes remember joins for what they
are. -/
structure Consistent (a : Aliases) : Prop where
  orderly : a.Orderly fun _ => True
  remembers : a.Remembers

namespace Consistent

theorem start (className : String) : (Aliases.start className).Consistent where
  orderly := (start_orderly className).mono fun _ _ => trivial
  remembers := by
    rw [start_eq]
    exact List.forall_mem_singleton.mpr fun key x hfind => by cases hfind

/-- No two joined associations have one alias. -/
theorem distinct (h : a.Consistent) :
    ((a.joins.filter (·.isNavigated)).map (·.aliasName)).Nodup :=
  h.orderly.distinct

/-- Only the joins and what the scopes remember of them matter. -/
theorem congr (h : a.Consistent) (hscopes : ∀ s ∈ b.scopes, s ∈ a.scopes)
    (hjoins : b.joins = a.joins) : b.Consistent where
  orderly := by
    obtain ⟨⟨-, hknown, -, hdistinct, hnumbered⟩, -⟩ := h
    rw [← hjoins] at hdistinct hnumbered
    refine ⟨fun _ _ => trivial, fun s hs => ⟨fun _ _ => .inl trivial, fun entry hentry => ?_⟩,
      fun _ _ _ => trivial, hdistinct, hnumbered⟩
    obtain ⟨j, hj, hjoined⟩ := (hknown s (hscopes s hs)).2 entry hentry
    exact ⟨j, by rwa [hjoins], hjoined⟩
  remembers := h.remembers.congr hscopes (hjoins ▸ List.prefix_rfl)

/-- A scope that remembers nothing yet. -/
theorem push (h : a.Consistent) {s : Scope} (hs : s.joined = []) :
    Consistent { a with scopes := s :: a.scopes } where
  orderly := h.orderly.withScopes (List.forall_mem_cons.mpr
    ⟨⟨fun _ _ => .inl trivial, by simp [hs]⟩, h.orderly.scopes⟩)
  remembers := h.remembers.push hs

theorem pop (h : a.Consistent) : a.pop.Consistent := by
  unfold Aliases.pop
  split
  · rename_i inner outer rest hscopes
    refine h.congr (fun s hs => ?_) rfl
    rw [hscopes]
    exact List.mem_cons_of_mem _ hs
  · exact h

theorem addSource (h : a.Consistent) (className : String) : (a.addSource className).2.Consistent := by
  unfold Aliases.addSource
  split
  · exact h
  · obtain ⟨x, -, heq⟩ | ⟨-, heq⟩ := a.obtainClassAlias_eq className <;> rw [heq] <;>
      exact h.congr (fun _ hs => hs) rfl

theorem addOnJoin (h : a.Consistent) (className property aliasName : String)
    (condition : Correlation) :
    (a.addOnJoin className property aliasName condition).Consistent where
  orderly := (h.orderly.addOnJoin className property aliasName condition).mono fun _ _ => trivial
  remembers := h.remembers.congr (fun _ hs => hs) (List.prefix_append _ _)

theorem createJoin (h : a.Consistent) (cursor : Cursor) (segment : String)
    (target : Option String) (joinType : JoinType) :
    (a.createJoin cursor segment target joinType).2.Consistent where
  orderly := h.orderly.createJoin (.inl trivial) segment target joinType
  remembers := h.remembers.congr (fun _ hs => hs) (List.prefix_append _ _)

/-- A new join is remembered as the association that it joins. -/
theorem remember (h : a.Consistent) (cursor : Cursor) (segment : String)
    (target : Option String) (joinType : JoinType) :
    ((a.createJoin cursor segment target joinType).2.remember (cursor.aliasName, segment)
      (a.createJoin cursor segment target joinType).1).Consistent where
  orderly := (h.createJoin cursor segment target joinType).orderly.remember _
    (createJoin_joined a cursor segment target joinType)
  remembers := (h.createJoin cursor segment target joinType).remembers.remember
    (List.mem_append_right a.joins (List.mem_singleton.mpr rfl)) rfl

end Consistent

/-- Joins have been added at the end, and the aliases are consistent if they were before. -/
def Extends (a b : Aliases) : Prop := a.joins <+: b.joins ∧ (a.Consistent → b.Consistent)

instance : IsPreorder Aliases Extends where
  refl _ := ⟨List.prefix_rfl, id⟩
  trans _ _ _ h h' := ⟨h.1.trans h'.1, h'.2 ∘ h.2⟩

/-- Paths only add joins at the end. -/
theorem extends_walk : WalkRules Extends where
  createJoin a cursor segment target joinType :=
    ⟨List.prefix_append _ _, fun h => h.createJoin cursor segment target joinType⟩
  remember a cursor segment target joinType _ :=
    ⟨((createJoin_resumes a cursor segment target joinType).trans (remember_resumes _ _ _)).joins,
      fun h => h.remember cursor segment target joinType⟩
  enclosing {a u inner outer} hscopes hu := by
    refine ⟨hu.1, fun ha => ?_⟩
    have hinner : inner ∈ a.scopes := hscopes ▸ List.mem_cons_self
    have hopened : Consistent { a with scopes := outer } :=
      ha.congr (fun s hs => hscopes ▸ List.mem_cons_of_mem _ hs) rfl
    have hleft := hu.2 hopened
    refine ⟨hleft.orderly.withScopes (List.forall_mem_cons.mpr ⟨⟨fun _ _ => .inl trivial,
      fun entry hentry => ?_⟩, hleft.orderly.scopes⟩), List.forall_mem_cons.mpr
      ⟨fun key aliasName hfind => ?_, hleft.remembers⟩⟩
    · obtain ⟨j, hj, hjoined⟩ := (ha.orderly.scopes inner hinner).2 entry hentry
      exact ⟨j, hu.1.subset hj, hjoined⟩
    · obtain ⟨j, hj, hjoined⟩ := ha.remembers inner hinner key aliasName hfind
      exact ⟨j, hu.1.subset hj, hjoined⟩

/-! ## What operations leave -/

theorem joins_pop (a : Aliases) : a.pop.joins = a.joins := by
  unfold Aliases.pop
  split <;> rfl

theorem scopes_pop_ne_nil (ha : a.scopes ≠ []) : a.pop.scopes ≠ [] := by
  unfold Aliases.pop
  split
  · exact List.cons_ne_nil _ _
  · exact ha

/-- An operation, also one that fails, only adds joins at the end. -/
theorem Operation.perform_extends (c : Catalog) (a : Aliases) (operation : Operation) :
    a.Extends (operation.perform c a) := by
  cases operation with
  | insideOr marked => exact ⟨List.prefix_rfl, fun h => h.congr (fun _ hs => hs) rfl⟩
  | setClassAlias className instanceNumber =>
    exact ⟨List.prefix_rfl, fun h => h.congr (fun _ hs => hs) rfl⟩
  | addSource className =>
    exact ⟨(a.addSource_resumes className).joins, fun h => h.addSource className⟩
  | addThetaSource className instanceNumber =>
    exact ⟨List.prefix_rfl, fun h => h.congr (fun _ hs => hs) rfl⟩
  | addOnJoin className property aliasName condition =>
    exact ⟨List.prefix_append _ _, fun h => h.addOnJoin className property aliasName condition⟩
  | resolve path o => exact (extends_walk.resolve path o a).state
  | resolveEnclosing path => exact (extends_walk.resolveEnclosing path a).state
  | pushCollection property joinType =>
    refine ((extends_walk.pushCollection_fresh property joinType a).mono (fun _ hb => hb) ?_).state
    rintro _ ⟨u, s, hs, hu, rfl⟩
    exact ⟨hu.1, fun h => (hu.2 h).push hs⟩
  | pushTheta => exact ⟨List.prefix_rfl, fun h => h.push rfl⟩
  | pop => exact ⟨(joins_pop a).symm ▸ List.prefix_rfl, fun h => h.pop⟩

/-- So do several, one after the other. -/
theorem extends_operations (c : Catalog) (a : Aliases) (operations : List Operation) :
    a.Extends (operations.foldl (Operation.perform c) a) := by
  induction operations generalizing a with
  | nil => exact Std.Refl.refl a
  | cons operation rest ih => exact IsTrans.trans _ _ _ (operation.perform_extends c a) (ih _)

theorem Attained.consistent (h : a.Attained c) : a.Consistent :=
  h.induction .start fun a operation => (operation.perform_extends c a).2

/-- The root scope stays open. -/
theorem Operation.perform_scopes_ne_nil (c : Catalog) (ha : a.scopes ≠ []) (operation : Operation) :
    (operation.perform c a).scopes ≠ [] := by
  cases operation with
  | insideOr | setClassAlias | addThetaSource | addOnJoin => exact ha
  | addSource className => exact (a.addSource_resumes className).scopes_ne_nil ha
  | resolve path o => exact (resumes_walk.resolve path o a).state.scopes_ne_nil ha
  | resolveEnclosing path => exact (resumes_walk.resolveEnclosing path a).state.scopes_ne_nil ha
  | pushCollection property joinType =>
    refine ((resumes_walk.pushCollection property joinType a).mono
      (fun _ hb => hb.scopes_ne_nil ha) ?_).state
    rintro _ ⟨u, s, hu, rfl⟩
    exact List.cons_ne_nil _ _
  | pushTheta => exact List.cons_ne_nil _ _
  | pop => exact scopes_pop_ne_nil ha

theorem Attained.scopes_ne_nil (h : a.Attained c) : a.scopes ≠ [] :=
  h.induction (P := fun a => a.scopes ≠ []) (fun _ => List.cons_ne_nil _ _) fun _ operation ha =>
    operation.perform_scopes_ne_nil c ha

/-- Whatever operations have led to the aliases of a query, also where some of them have failed, the
joined associations have aliases of their own, and whatever operations follow, the joins that are
there stay as they are and new ones come behind them. -/
theorem joins_of_operations (c : Catalog) (className : String) (operations : List Operation) :
    let a := operations.foldl (Operation.perform c) (start className)
    ((a.joins.filter (·.isNavigated)).map (·.aliasName)).Nodup ∧
      ∀ more : List Operation, a.joins <+: (more.foldl (Operation.perform c) a).joins := by
  intro a
  have hattained : a.Attained c := ⟨className, operations, rfl⟩
  exact ⟨hattained.consistent.distinct, fun more => (extends_operations c a more).1⟩

end Aliases

/-! ## Operations in the course of a visit -/

namespace Draft

/-- Where the aliases of the first draft are attained, so are those of the second one. -/
def KeepsAttained (k : Compiler) (d e : Draft) : Prop :=
  d.aliases.Attained k.catalog → e.aliases.Attained k.catalog

variable {k : Compiler} {d e : Draft}

instance : IsPreorder Draft (KeepsAttained k) where
  refl _ := id
  trans _ _ _ h h' := h' ∘ h

/-- Each change of a visit is an operation on the aliases, or leaves them alone. -/
theorem keepsAttained (k : Compiler) : VisitRules k (KeepsAttained k) where
  path path o _ _ := .of_state fun h => h.perform (.resolve path o)
  enclosingPath path _ := .of_state fun h => h.perform (.resolveEnclosing path)
  obtainClassAlias d className h := by
    obtain ⟨x, -, heq⟩ | ⟨-, heq⟩ := d.aliases.obtainClassAlias_eq className
    · rw [heq]
      exact h
    · rw [heq]
      exact h.perform (.setClassAlias className none)
  addSource _ className h := h.perform (.addSource className)
  addThetaSource _ className number h := h.perform (.addThetaSource className number)
  addOnJoin _ className property aliasName condition h :=
    h.perform (.addOnJoin className property aliasName condition)
  thetaInstance _ _ := id
  parameters _ _ := id
  addGroup d group h := by
    unfold addGroup
    split <;> exact h
  addCondition _ _ := id
  inHaving _ hu := hu
  inTheta _ hu := hu
  insideOr insideOr hu h := (hu (h.perform (.insideOr insideOr))).perform (.insideOr _)
  thetaScope hu h := (hu (h.perform .pushTheta)).perform .pop
  collectionScope d property joinType := by
    have hpushed : (aliased (Aliases.pushCollection k.catalog property joinType)).Leaves
        (KeepsAttained k d) (KeepsAttained k d) d :=
      .of_state fun h => h.perform (.pushCollection property joinType)
    exact hpushed.mono (fun _ hv => hv) fun v hv u hu h => (hu (hv h)).perform .pop

end Draft

end ObjectQuery
