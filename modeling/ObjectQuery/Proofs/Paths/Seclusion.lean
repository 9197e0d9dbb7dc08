import ObjectQuery.Proofs.Paths.Enclosing
import ObjectQuery.Proofs.Paths.Histories
import ObjectQuery.Proofs.Paths.OwnJoins

/-!
# Joins that stay with their path

A path with joins of its own is given one for each association on its way. No scope starts from them
or remembers them, and aliases of classes are never called like them, so that no other path comes
across them.

* `Aliases.Secluded`: an alias that paths do not come across.
* `Aliases.Spares`: more joins, none of which hangs off such an alias.
* `Aliases.strides_spares`: paths spare it, also where they cannot be followed to their ends.
* `Aliases.Operation.numberedClass?`, `Aliases.Operation.Plain`: the class that an operation gives a
  numbered alias.
* `Aliases.Operation.returned?`: the alias that an operation comes to.
* `Aliases.Reached.perform_spares`, `Aliases.Reached.run_spares`: so does any operation, and so do
  several.
* `Aliases.MadeFor`: the new joins for a path, and the reference that they lead to.
* `Aliases.Reached.ownJoins_secluded`: the aliases of such joins stay secluded for good.
-/

namespace ObjectQuery

open Step

namespace Aliases

variable {a b u : Aliases} {c : Catalog} {x : String} {cursor : Cursor}

/-! ## Secluded aliases -/

/-- A joined association is called like one, and no anchor is. -/
theorem Threaded.not_anchor (h : a.Threaded) (hx : a.Joined x) : ¬Anchor x := by
  obtain ⟨j, hj, hnavigated, rfl⟩ := hx
  obtain ⟨rootClass, way, number, hname, -⟩ := h.orderly.numbered j hj hnavigated
  exact fun hanchor => hanchor rootClass way number hname

/-- Further out the aliases are threaded too. -/
theorem Threaded.outward (h : a.Threaded) (depth : Nat) : (a.outward depth).Threaded :=
  h.withScopes fun s hs => h.scopes s (List.mem_of_mem_drop hs)

theorem scopes_pop_subset (a : Aliases) : a.pop.scopes ⊆ a.scopes := by
  intro s hs
  unfold pop at hs
  split at hs
  · rename_i hscopes
    rw [hscopes]
    exact List.mem_cons_of_mem _ hs
  · exact hs

/-- The alias of a joined association that no scope starts from and no scope remembers. -/
structure Secluded (a : Aliases) (aliasName : String) : Prop where
  joined : a.Joined aliasName
  scopes : ∀ s ∈ a.scopes, s.aliasName ≠ some aliasName ∧
    ∀ key, s.joined.find? key ≠ some aliasName

namespace Secluded

/-- Other scopes and more joins. -/
theorem congr (h : a.Secluded x) (hjoins : a.joins ⊆ b.joins)
    (hscopes : ∀ s ∈ b.scopes, s ∈ a.scopes ∨
      s.aliasName ≠ some x ∧ ∀ key, s.joined.find? key ≠ some x) : b.Secluded x := by
  obtain ⟨j, hj, hjoined⟩ := h.joined
  refine ⟨⟨j, hjoins hj, hjoined⟩, fun s hs => ?_⟩
  rcases hscopes s hs with hs | hs
  · exact h.scopes s hs
  · exact hs

/-- No path starts from the alias. -/
theorem ne_origin (h : a.Secluded x) (ha : a.Threaded) {path origin : String}
    (horigin : a.origin? c path = some origin) : origin ≠ x := by
  unfold origin? at horigin
  rintro rfl
  split at horigin
  · exact ha.not_anchor h.joined (Dictionary.of_find?_eq_some ha.orderly.classAliases horigin)
  · obtain ⟨s, hs, halias⟩ := Option.bind_eq_some_iff.mp horigin
    exact (h.scopes s (List.mem_of_mem_head? hs)).1 halias

/-- The scope does not give the alias for an association. -/
theorem ne_joined (h : a.Secluded x) {key : String × String} {y : String}
    (hjoined : a.joined? key = some y) : y ≠ x := by
  obtain ⟨s, hs, hfind⟩ := Option.bind_eq_some_iff.mp hjoined
  rintro rfl
  exact (h.scopes s (List.mem_of_mem_head? hs)).2 key hfind

theorem remember (h : a.Secluded x) {y : String} (hne : y ≠ x) (key : String × String) :
    (a.remember key y).Secluded x := by
  unfold Aliases.remember
  split
  · exact h
  · rename_i inner outer hscopes
    have hinner := h.scopes inner (hscopes ▸ List.mem_cons_self)
    refine h.congr (List.Subset.refl _) (List.forall_mem_cons.mpr ⟨.inr ⟨hinner.1, ?_⟩, ?_⟩)
    · intro other
      by_cases hkey : other = key
      · rw [hkey, Dictionary.find?_insert_self]
        exact fun heq => hne (Option.some.inj heq)
      · rw [Dictionary.find?_insert_of_ne hkey]
        exact hinner.2 other
    · intro s hs
      rw [hscopes]
      exact .inl (List.mem_cons_of_mem _ hs)

end Secluded

/-! ## What spares them -/

/-- Threaded aliases with more joins, none of which hangs off the alias. It stays secluded. -/
structure Spares (aliasName : String) (a b : Aliases) : Prop where
  threaded : b.Threaded
  secluded : b.Secluded aliasName
  joins : ∃ later, b.joins = a.joins ++ later ∧
    ∀ j ∈ later, ∀ segment, j.path ≠ .association aliasName segment

namespace Spares

theorem refl (ha : a.Threaded) (hx : a.Secluded x) : Spares x a a :=
  ⟨ha, hx, [], (List.append_nil _).symm, by simp⟩

theorem trans (h : Spares x a b) (h' : Spares x b u) : Spares x a u := by
  obtain ⟨later, hjoins, hlater⟩ := h.joins
  obtain ⟨later', hjoins', hlater'⟩ := h'.joins
  refine ⟨h'.threaded, h'.secluded, later ++ later', ?_, ?_⟩
  · rw [hjoins', hjoins, List.append_assoc]
  · exact List.forall_mem_append.mpr ⟨hlater, hlater'⟩

/-- With the same joins, only the scopes matter. -/
theorem of_scopes (hx : a.Secluded x) (hb : b.Threaded) (hjoins : b.joins = a.joins)
    (hscopes : ∀ s ∈ b.scopes, s ∈ a.scopes ∨
      s.aliasName ≠ some x ∧ ∀ key, s.joined.find? key ≠ some x) : Spares x a b where
  threaded := hb
  secluded := hx.congr (fun _ hj => hjoins ▸ hj) hscopes
  joins := ⟨[], by rw [hjoins, List.append_nil], by simp⟩

end Spares

/-- A join behind another alias is called otherwise. -/
theorem spares_createJoin (ha : a.Threaded) (hx : a.Secluded x)
    (hcursor : a.Known Anchor cursor.aliasName) (hne : cursor.aliasName ≠ x) (segment : String)
    (target : Option String) (joinType : JoinType) :
    Spares x a (a.createJoin cursor segment target joinType).2 ∧
      (a.createJoin cursor segment target joinType).1 ≠ x := by
  refine ⟨⟨ha.createJoin hcursor target joinType, ?_, _, rfl, ?_⟩, ?_⟩
  · exact hx.congr (List.subset_append_left _ _) fun _ => .inl
  · refine List.forall_mem_singleton.mpr fun other hpath => hne ?_
    cases hpath
    rfl
  · exact (ha.ne_createJoin (.inr hx.joined) hcursor target joinType).symm

/-- An association is joined under another alias, and the scope may remember that one. -/
theorem joinSegment_spares (ha : a.Threaded) (hx : a.Secluded x)
    (hcursor : a.Known Anchor cursor.aliasName) (hne : cursor.aliasName ≠ x) (segment : String)
    (target : Option String) (o : Resolution) {F : Aliases → Prop} :
    (joinSegment cursor segment target o).Ends F
      (fun aliasName b => Spares x a b ∧ b.Known Anchor aliasName ∧ aliasName ≠ x) a := by
  have hcreated (joinType : JoinType) :=
    spares_createJoin ha hx hcursor hne segment target joinType
  have hjoined (joinType : JoinType) := createJoin_joined a cursor segment target joinType
  refine joinSegment_ends_of (fun _ y hfind => ?joined) (fun _ joinType => ?own)
    fun _ _ joinType => ?remembered
  case joined =>
    obtain ⟨s, hs, hentry⟩ := Option.bind_eq_some_iff.mp hfind
    obtain ⟨j, hj, hpath, rfl⟩ :=
      ha.remembered s (List.mem_of_mem_head? hs) (cursor.aliasName, segment) _ hentry
    exact ⟨.refl ha hx, .inr ⟨j, hj, isNavigated_of_path hpath, rfl⟩, hx.ne_joined hfind⟩
  case own => exact ⟨(hcreated joinType).1, .inr (hjoined joinType), (hcreated joinType).2⟩
  case remembered =>
    obtain ⟨⟨hthreaded, hsecluded, hlater⟩, hother⟩ := hcreated joinType
    refine ⟨⟨?_, hsecluded.remember hother _, ?_⟩, ?_, hother⟩
    · exact hthreaded.remember (List.mem_append_right a.joins (List.mem_singleton.mpr rfl)) rfl
    · rw [joins_remember]
      exact hlater
    · exact Known.mono (.inr (hjoined joinType)) (remember_navigates _ _ _)

/-- Paths from other aliases lead to other aliases, also where they cannot be followed to their
ends. -/
theorem strides_spares (o : Resolution) (x : String) :
    Strides o (fun a first => a.Threaded ∧ a.Secluded x ∧ a.Known Anchor first ∧ first ≠ x)
      (Spares x) (fun a b _ _ last => Spares x a b ∧ b.Known Anchor last ∧ last ≠ x) where
  stay h := ⟨.refl h.1 h.2.1, h.2.2⟩
  trans h h' := ⟨h.1.trans h'.1, h'.2⟩
  goesOn h := ⟨h.1.threaded, h.1.secluded, h.2⟩
  fails h := .refl h.1 h.2.1
  failsBehind h hu := h.1.trans hu
  join segment target h := joinSegment_spares h.1 h.2.1 h.2.2.1 h.2.2.2 segment target o

/-! ## Paths -/

theorem resolve_spares (ha : a.Threaded) (hx : a.Secluded x) (path : String) (o : Resolution) :
    (resolve c path o).Ends (Spares x a)
      (fun found b => Spares x a b ∧ found.bind Reference.alias? ≠ some x) a := by
  have hends : (resolve c path o).Ends (Spares x a)
      (Found (fun a b _ _ last => Spares x a b ∧ b.Known Anchor last ∧ last ≠ x) c path o a) a :=
    (strides_spares o x).resolve
      (fun _ horigin => ⟨ha, hx, known_origin ha horigin, hx.ne_origin ha horigin⟩) (.refl ha hx)
  refine hends.mono (fun _ hb => hb) fun found b hfound => ?_
  cases hfound with
  | rows | nowhere => exact ⟨.refl ha hx, by rintro ⟨⟩⟩
  | refers _ hrefers =>
    obtain ⟨_, last, _, _, -, rfl, -, -, hspares, -, hne⟩ := hrefers
    exact ⟨hspares, fun heq => hne (Option.some.inj heq)⟩

/-- The scopes in between are put back. -/
theorem Spares.inward {depth : Nat} (hx : a.Secluded x) (h : Spares x (a.outward depth) b)
    (hthreaded : Threaded { b with scopes := a.scopes.take depth ++ b.scopes }) :
    Spares x a { b with scopes := a.scopes.take depth ++ b.scopes } := by
  refine ⟨hthreaded, h.secluded.congr (List.Subset.refl _) fun s hs => ?_, h.joins⟩
  rcases List.mem_append.mp hs with hs | hs
  · exact .inr (hx.scopes s (List.mem_of_mem_take hs))
  · exact .inl hs

theorem resolveEnclosing_spares (ha : a.Threaded) (hx : a.Secluded x) (path : String) :
    (resolveEnclosing c path).Ends (Spares x a)
      (fun reference b => Spares x a b ∧ reference.alias? ≠ some x) a := by
  have hthreaded : ((resolveEnclosing c path).run a).state.Threaded :=
    ((resolveEnclosing_ends ha path).mono (fun _ hb => hb.1) fun _ _ hb => hb.1).state
  have hnearest : EndsNearest c path a ((resolveEnclosing c path).run a) :=
    resolveWithin_endsNearest c path a
  unfold Ends
  generalize (resolveEnclosing c path).run a = o at hthreaded hnearest ⊢
  rcases hnearest with ⟨depth, -, -, -, hresult, hstate⟩ | ⟨-, hresult, hstate⟩
  · -- The path is resolved some scopes further out, or fails there.
    have hsecluded : (a.outward depth).Secluded x :=
      hx.congr (List.Subset.refl _) fun s hs => .inl (List.mem_of_mem_drop hs)
    have hends := resolve_spares (c := c) (ha.outward depth) hsecluded path
      { ownJoins := Path.needsOwnJoins path }
    have hspares : Spares x a o.state := by
      have hinner : Spares x (a.outward depth) (resolveOutward c path a depth).state :=
        (hends.mono (fun _ hb => hb) fun _ _ hb => hb.1).state
      rw [hstate] at hthreaded ⊢
      exact hinner.inward hx hthreaded
    split
    · rename_i reference hr
      rw [hr] at hresult
      exact ⟨hspares, (hends.yields ⟨hresult, rfl⟩).2⟩
    · exact hspares
  · rw [hresult, hstate]
    exact .refl ha hx

/-! ## Collections -/

theorem advanceAll_spares {path : String} {segments : List String} {cursor : Cursor}
    (ha : a.Threaded) (hx : a.Secluded x) (hcursor : a.Known Anchor cursor.aliasName)
    (hne : cursor.aliasName ≠ x) :
    (advanceAll c path cursor segments).Ends (Spares x a)
      (fun last b => Spares x a b ∧ b.Known Anchor last.aliasName ∧ last.aliasName ≠ x) a := by
  induction segments generalizing a cursor with
  | nil => exact .pure ⟨.refl ha hx, hcursor, hne⟩
  | cons segment rest ih =>
    have hadvance := (strides_spares {} x).advance (c := c) ⟨ha, hx, hcursor, hne⟩ path segment
    refine hadvance.bind fun next u hnext => ?_
    obtain ⟨-, hspares, hknown, hother⟩ := hnext
    exact (ih hspares.threaded hspares.secluded hknown hother).mono (fun _ => hspares.trans)
      fun _ _ hb => ⟨hspares.trans hb.1, hb.2⟩

/-- The scope of a collection starts from a new alias and remembers nothing yet. -/
theorem pushCollection_spares (ha : a.Threaded) (hx : a.Secluded x) (property : String)
    (joinType : JoinType) :
    (pushCollection c property joinType).Ends (Spares x a)
      (fun aliasName b => Spares x a b ∧ aliasName ≠ x) a := by
  have hstarts : (startOf c property).Ends (Spares x a) (fun start b => b = a ∧
      start.map (·.1.aliasName) = a.origin? c property) a := by
    refine (startOf_starts a c property).mono ?_ fun _ _ hs => ⟨hs.1, hs.2.1⟩
    rintro _ rfl
    exact .refl ha hx
  refine hstarts.bind fun start u hstart => ?_
  obtain ⟨rfl, horigin⟩ := hstart
  split
  · exact .get_bind (.fail (.refl ha hx))
  · split
    · exact .fail (.refl ha hx)
    · rename_i cursor segments _ last _
      have horigin : u.origin? c property = some cursor.aliasName := horigin.symm
      refine (advanceAll_spares ha hx (known_origin ha horigin) (hx.ne_origin ha horigin)).bind
        fun owner v hv => .ofReported_bind ?_
      obtain ⟨hspares, hknown, hother⟩ := hv
      split
      · rename_i element _ _
        have hcreated := spares_createJoin hspares.threaded hspares.secluded hknown hother last
          (some element) joinType
        refine .get_bind (.put_bind (.pure ⟨hspares.trans (hcreated.1.trans ?_), hcreated.2⟩))
        refine .of_scopes hcreated.1.secluded (hcreated.1.threaded.push rfl ?_) rfl
          (List.forall_mem_cons.mpr ⟨.inr ⟨?_, ?_⟩, fun _ => .inl⟩)
        · rintro _ ⟨⟩
          exact .inr (createJoin_joined v owner last (some element) joinType)
        · exact fun heq => hcreated.2 (Option.some.inj heq)
        · rintro key ⟨⟩
      · exact .fail hspares

/-! ## Operations -/

namespace Operation

/-- The class that the operation gives a numbered alias. -/
def numberedClass? : Operation → Option String
  | setClassAlias className (some _) | addThetaSource className _ => some className
  | setClassAlias _ none | addSource _ | insideOr _ | addOnJoin .. | resolve .. | resolveEnclosing _
  | pushCollection .. | pushTheta | pop => none

/-- The class that the operation gives a numbered alias has no underscore in its name. -/
def Plain (operation : Operation) : Prop :=
  ∀ className ∈ operation.numberedClass?, '_' ∉ className.toList

theorem Plain.setClassAlias {className : String} {instanceNumber : Option Nat}
    (h : (Operation.setClassAlias className instanceNumber).Plain) :
    instanceNumber = none ∨ '_' ∉ className.toList := by
  cases instanceNumber with
  | none => exact .inl rfl
  | some number => exact .inr (h className rfl)

/-- The alias that a path comes to, in its reference or as that of a collection. -/
def returned? (c : Catalog) (a : Aliases) : Operation → Option String
  | resolve path o =>
    ((Aliases.resolve c path o).run a).result.toOption.join.bind Reference.alias?
  | resolveEnclosing path =>
    ((Aliases.resolveEnclosing c path).run a).result.toOption.bind Reference.alias?
  | pushCollection property joinType =>
    ((Aliases.pushCollection c property joinType).run a).result.toOption
  | insideOr _ | setClassAlias .. | addSource _ | addThetaSource .. | addOnJoin .. | pushTheta
  | pop => none

/-- No operation comes to a secluded alias. -/
theorem returned_ne (ha : a.Threaded) (hx : a.Secluded x) (operation : Operation) :
    operation.returned? c a ≠ some x := by
  intro hreturned
  cases operation with
  | resolve path o =>
    obtain ⟨reference, hjoin, halias⟩ := Option.bind_eq_some_iff.mp hreturned
    have hyields := yields_of_toOption (Option.join_eq_some_iff.mp hjoin)
    exact ((resolve_spares ha hx path o).yields hyields).2 halias
  | resolveEnclosing path =>
    obtain ⟨reference, hresult, halias⟩ := Option.bind_eq_some_iff.mp hreturned
    exact ((resolveEnclosing_spares ha hx path).yields (yields_of_toOption hresult)).2 halias
  | pushCollection property joinType =>
    have hyields := yields_of_toOption hreturned
    exact ((pushCollection_spares ha hx property joinType).yields hyields).2 rfl
  | insideOr | setClassAlias | addSource | addThetaSource | addOnJoin | pushTheta | pop =>
    cases hreturned

end Operation

namespace Reached

theorem perform (ha : a.Reached c) {operation : Operation} (h : operation.Plain) :
    (operation.perform c a).Reached c := by
  cases operation with
  | insideOr marked => exact .insideOr marked ha
  | setClassAlias className instanceNumber => exact .setClassAlias h.setClassAlias ha
  | addSource className => exact .addSource className ha
  | addThetaSource className instanceNumber => exact .addThetaSource instanceNumber (h className rfl) ha
  | addOnJoin className property aliasName condition =>
    exact .addOnJoin className property aliasName condition ha
  | resolve path o => exact .resolve path o ha
  | resolveEnclosing path => exact .resolveEnclosing path ha
  | pushCollection property joinType => exact .pushCollection property joinType ha
  | pushTheta => exact .pushTheta ha
  | pop => exact .pop ha

/-- An operation, also one that fails, joins nothing to a secluded alias. -/
theorem perform_spares (ha : a.Reached c) (hx : a.Secluded x) {operation : Operation}
    (h : operation.Plain) : Spares x a (operation.perform c a) := by
  have hthreaded : (operation.perform c a).Threaded := (ha.perform h).threaded
  cases operation with
  | insideOr | setClassAlias | addThetaSource =>
    exact .of_scopes hx hthreaded rfl fun _ => .inl
  | addSource className =>
    have hkept : (a.addSource className).2.scopes = a.scopes ∧
        (a.addSource className).2.joins = a.joins := by
      unfold Aliases.addSource
      split
      · exact ⟨rfl, rfl⟩
      · obtain ⟨y, -, heq⟩ | ⟨-, heq⟩ := a.obtainClassAlias_eq className <;> rw [heq] <;>
          exact ⟨rfl, rfl⟩
    refine .of_scopes hx hthreaded hkept.2 fun s hs => .inl ?_
    exact hkept.1 ▸ hs
  | addOnJoin className property aliasName condition =>
    refine ⟨hthreaded, hx.congr (List.subset_append_left _ _) fun _ => .inl, _, rfl, ?_⟩
    refine List.forall_mem_singleton.mpr ?_
    rintro segment ⟨⟩
  | resolve path o =>
    exact ((resolve_spares ha.threaded hx path o).mono (fun _ => id) fun _ _ hb => hb.1).state
  | resolveEnclosing path =>
    exact ((resolveEnclosing_spares ha.threaded hx path).mono (fun _ => id) fun _ _ hb => hb.1).state
  | pushCollection property joinType =>
    exact ((pushCollection_spares ha.threaded hx property joinType).mono (fun _ => id)
      fun _ _ hb => hb.1).state
  | pushTheta =>
    refine .of_scopes hx hthreaded rfl (List.forall_mem_cons.mpr ⟨.inr ⟨?_, ?_⟩, fun _ => .inl⟩)
    · rintro ⟨⟩
    · rintro key ⟨⟩
  | pop =>
    exact .of_scopes hx hthreaded (joins_pop a) fun s hs => .inl (scopes_pop_subset a hs)

/-- So do several, one after the other. -/
theorem run_spares (ha : a.Reached c) (hx : a.Secluded x) {more : List Operation}
    (hmore : ∀ operation ∈ more, operation.Plain) :
    Spares x a (more.foldl (Operation.perform c) a) := by
  induction more generalizing a with
  | nil => exact .refl ha.threaded hx
  | cons operation rest ih =>
    obtain ⟨hfirst, hrest⟩ := List.forall_mem_cons.mp hmore
    have hspares := ha.perform_spares hx hfirst
    exact hspares.trans (ih (ha.perform hfirst) hspares.secluded hrest)

end Reached

/-! ## Joins of a path's own -/

/-- What a path with joins of its own is resolved to and the new joins for it: a chain with one for
each association on the way to the alias, and for a collection at the end of the path. All rows and
a path that starts nowhere need none. -/
inductive MadeFor (c : Catalog) (path : String) (a : Aliases) : Option Reference → List Join → Prop
  | rows : (Path.parse path).inner = "*" → MadeFor c path a (some (.rows path)) []
  | nowhere : (Path.parse path).inner ≠ "*" → a.origin? c (Path.parse path).inner = none →
    MadeFor c path a none []
  | chain {origin last : String} {way steps : List String} {new : List Join} :
    (Path.parse path).inner ≠ "*" → a.origin? c (Path.parse path).inner = some origin →
    steps = c.steps (a.originClass c (Path.parse path).inner)
      (c.pathSegments (Path.parse path).inner) →
    way ++ steps = c.pathSegments (Path.parse path).inner → JoinChain origin way new last →
    MadeFor c path a (some (.at (Path.parse path).before last steps (Path.parse path).after)) new

theorem JoinChain.isNavigated {first last : String} {way : List String} {joins : List Join}
    (h : JoinChain first way joins last) : ∀ j ∈ joins, j.isNavigated = true := by
  induction h with
  | nil => simp
  | cons hpath _ ih => exact List.forall_mem_cons.mpr ⟨isNavigated_of_path hpath, ih⟩

theorem resolve_madeFor {path : String} {outer : Bool} {found : Option Reference}
    (h : (resolve c path { ownJoins := true, outer }).Yields a found b) :
    ∃ new, b = a.joining new ∧ MadeFor c path a found new ∧ ∀ j ∈ new, j.isNavigated = true := by
  have hends : (resolve c path { ownJoins := true, outer }).Ends (fun _ => True)
      (Found Branches c path { ownJoins := true, outer } a) a :=
    (strides_branches rfl).resolve (fun _ _ => trivial) trivial
  cases hends.yields h with
  | rows hrows => exact ⟨[], a.joining_nil.symm, .rows hrows, by simp⟩
  | nowhere hrows hnone => exact ⟨[], a.joining_nil.symm, .nowhere hrows hnone, by simp⟩
  | refers hrows hrefers =>
    obtain ⟨_, _, _, _, horigin, rfl, hway, hsteps, new, hnew, hchain⟩ := hrefers
    exact ⟨new, hnew, .chain hrows horigin (hsteps rfl) hway hchain, hchain.isNavigated⟩

/-- No scope knows of a new join that none is told of. -/
theorem secluded_joining (ha : a.Threaded) {new : List Join} (hb : (a.joining new).Threaded)
    {j : Join} (hj : j ∈ new) (hnavigated : j.isNavigated = true) :
    (a.joining new).Secluded j.aliasName := by
  have hmem : j ∈ (a.joining new).joins := List.mem_append_right _ hj
  -- All that a scope starts from or remembers was known before, and the new alias was not.
  have hunknown : ¬a.Known Anchor j.aliasName := by
    rintro (hanchor | ⟨i, hi, hi', heq⟩)
    · exact hb.not_anchor ⟨j, hmem, hnavigated, rfl⟩ hanchor
    · have hdistinct := hb.orderly.distinct
      rw [joining, List.filter_append, List.map_append, List.nodup_append] at hdistinct
      exact hdistinct.2.2 _ (List.mem_map_of_mem (List.mem_filter.mpr ⟨hi, hi'⟩)) _
        (List.mem_map_of_mem (List.mem_filter.mpr ⟨hj, hnavigated⟩)) heq
  refine ⟨⟨j, hmem, hnavigated, rfl⟩, fun s hs => ⟨fun halias => ?_, fun key hfind => ?_⟩⟩
  · exact hunknown ((ha.orderly.scopes s hs).1 _ halias)
  · obtain ⟨i, hi, hpath, heq⟩ := ha.remembered s hs key _ hfind
    exact hunknown (.inr ⟨i, hi, isNavigated_of_path hpath, heq⟩)

/-- A path with joins of its own is given a new one for each association on its way and for a
collection at its end, and shares none of them with what was there. Whatever operations follow,
none comes to their aliases and nothing else is joined to them. -/
theorem Reached.ownJoins_secluded (ha : a.Reached c) {path : String} {outer : Bool}
    {found : Option Reference}
    (h : (Aliases.resolve c path { ownJoins := true, outer }).Yields a found b) :
    ∃ new, b = a.joining new ∧ MadeFor c path a found new ∧
      ((b.joins.filter (·.isNavigated)).map (·.aliasName)).Nodup ∧
      ∀ j ∈ new, ∀ more : List Operation, (∀ operation ∈ more, operation.Plain) →
        (∃ later, (more.foldl (Operation.perform c) b).joins = b.joins ++ later ∧
          ∀ i ∈ later, ∀ segment, i.path ≠ .association j.aliasName segment) ∧
        ∀ operation : Operation,
          operation.returned? c (more.foldl (Operation.perform c) b) ≠ some j.aliasName := by
  have hb : b.Reached c := h.2 ▸ .resolve path _ ha
  obtain ⟨new, rfl, hmade, hnavigated⟩ := resolve_madeFor h
  refine ⟨new, rfl, hmade, hb.threaded.orderly.distinct, fun j hj more hmore => ?_⟩
  have hsecluded := secluded_joining ha.threaded hb.threaded hj (hnavigated j hj)
  have hspares := hb.run_spares hsecluded hmore
  exact ⟨hspares.joins, fun operation => operation.returned_ne hspares.threaded hspares.secluded⟩

/-- Operations after a path with joins of its own: the same path, one on a class name, and a
collection that is opened and closed, with a path of the enclosing scope in between. -/
def afterwards : List Operation :=
  [.resolve "manager.reports" {}, .resolve "Identity.manager.manager.name" { ownJoins := true },
    .pushCollection "manager.reports" .inner, .resolveEnclosing "manager.reports.name", .pop]

/-- The reports of the manager are joined once more for each of those, and nothing comes back to the
first joins. -/
theorem Reached.ownJoins_secluded_reportsOfManager :
    let a := Aliases.start "Identity"
    let first := (Aliases.resolve staff "manager.reports" { ownJoins := true }).run a
    let later := afterwards.foldl (Operation.perform staff) first.state
    a.Reached staff ∧ (∀ operation ∈ afterwards, operation.Plain) ∧
      first.result.toOption = some (some (.ofAlias "identity_manager_reportsAlias0")) ∧
      first.state.joins.length = 2 ∧ later.joins.length = 9 ∧
      ∀ operation : Operation,
        operation.returned? staff later ≠ some "identity_manager_reportsAlias0" := by
  intro a first later
  have ha : a.Reached staff := .start "Identity"
  have hplain : ∀ operation ∈ afterwards, operation.Plain := by
    simp [afterwards, Operation.Plain, Operation.numberedClass?]
  have hresult : first.result.toOption =
      some (some (.ofAlias "identity_manager_reportsAlias0")) := by decide +kernel
  obtain ⟨new, hnew, -, -, hsecluded⟩ := ha.ownJoins_secluded (yields_of_toOption hresult)
  have hjoins : new = first.state.joins := (congrArg Aliases.joins hnew).symm
  have hjoined : ∃ j ∈ first.state.joins, j.aliasName = "identity_manager_reportsAlias0" := by
    decide +kernel
  obtain ⟨j, hj, heq⟩ := hjoined
  have hnever := (hsecluded j (hjoins ▸ hj) afterwards hplain).2
  rw [heq] at hnever
  exact ⟨ha, hplain, hresult, by decide +kernel, by decide +kernel, hnever⟩

end Aliases

end ObjectQuery
