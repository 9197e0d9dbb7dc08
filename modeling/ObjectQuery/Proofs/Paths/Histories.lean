import ObjectQuery.Proofs.Paths.Threads

/-!
# Histories of aliases

What may be done to the aliases of a query, in any order, and what it leaves of them.

* `Aliases.Reached`: the aliases that a query over a class comes to, through steps that succeed and
  steps that fail, as long as no class with a numbered alias has an underscore in its name.
* `Aliases.Reached.threaded`: aliases that have been reached are threaded.
* `Aliases.Reached.resolve_spells`: the trail to the alias of a reference spells the path.
-/

namespace ObjectQuery

open Step

namespace Aliases

/-- The aliases that a query comes to. Each step may be followed by any other, also after a
failure. -/
inductive Reached (c : Catalog) : Aliases → Prop
  | start (className : String) : Reached c (Aliases.start className)
  | insideOr {a : Aliases} (marked : Bool) : Reached c a → Reached c { a with insideOr := marked }
  | setClassAlias {a : Aliases} {className : String} {instanceNumber : Option Nat} :
      instanceNumber = none ∨ '_' ∉ className.toList → Reached c a →
        Reached c (a.setClassAlias className instanceNumber).2
  | addSource {a : Aliases} (className : String) : Reached c a → Reached c (a.addSource className).2
  | addThetaSource {a : Aliases} {className : String} (instanceNumber : Nat) :
      '_' ∉ className.toList → Reached c a →
        Reached c (a.addThetaSource className instanceNumber).2
  | addOnJoin {a : Aliases} (className property aliasName : String) (condition : Correlation) :
      Reached c a → Reached c (a.addOnJoin className property aliasName condition)
  | resolve {a : Aliases} (path : String) (o : Resolution) :
      Reached c a → Reached c ((Aliases.resolve c path o).run a).state
  | resolveEnclosing {a : Aliases} (path : String) :
      Reached c a → Reached c ((Aliases.resolveEnclosing c path).run a).state
  | pushCollection {a : Aliases} (property : String) (joinType : JoinType) :
      Reached c a → Reached c ((Aliases.pushCollection c property joinType).run a).state
  | pushTheta {a : Aliases} : Reached c a → Reached c a.pushTheta
  | pop {a : Aliases} : Reached c a → Reached c a.pop

variable {a b : Aliases} {c : Catalog}

/-! ## Classes and scopes -/

namespace Threaded

theorem start (className : String) : (start className).Threaded := by
  refine ⟨(start_orderly className).mono ?anchors, ?owners, ⟨fun _ => 0, ?climbs⟩, ?remembered⟩
  case anchors =>
    rintro x hx
    rw [start_eq] at hx
    obtain rfl := List.mem_singleton.mp hx
    exact anchor_classAliasName (.inl rfl)
  case remembered => simp [start_eq, Dictionary.find?]
  all_goals simp [start_eq]

/-- Other aliases of classes, with the joins and the scopes that are there. -/
theorem of_classes (h : a.Threaded) (horderly : b.Orderly Anchor) (hjoins : b.joins = a.joins)
    (hscopes : b.scopes = a.scopes) : b.Threaded := by
  refine ⟨horderly, fun j hj owner segment hpath => ?_, ?_, fun s hs => ?_⟩
  · rw [hjoins] at hj
    refine (h.owners j hj owner segment hpath).imp_right ?_
    rintro ⟨i, hi, hnavigated, rfl⟩
    exact ⟨i, by rwa [hjoins], hnavigated, rfl⟩
  · rw [hjoins]
    exact h.climbs
  · rw [hscopes] at hs
    rw [hjoins]
    exact h.remembered s hs

/-- A class is given an anchor, unless the alias is numbered and the class has an underscore. -/
theorem setClassAlias (h : a.Threaded) {className : String} {instanceNumber : Option Nat}
    (hclass : instanceNumber = none ∨ '_' ∉ className.toList) :
    (a.setClassAlias className instanceNumber).2.Threaded := by
  refine h.of_classes ((h.orderly.setClassAlias className instanceNumber).mono ?_) rfl rfl
  rintro x (hx | rfl)
  · exact hx
  · exact anchor_classAliasName hclass

theorem append_source (h : a.Threaded) (s : Source) :
    Threaded { a with sources := a.sources ++ [s] } :=
  ⟨{ h.orderly with }, h.owners, h.climbs, h.remembered⟩

theorem obtainClassAlias (h : a.Threaded) (className : String) :
    (a.obtainClassAlias className).2.Threaded := by
  obtain ⟨x, -, heq⟩ | ⟨-, heq⟩ := a.obtainClassAlias_eq className <;> rw [heq]
  · exact h
  · exact h.setClassAlias (.inl rfl)

theorem addSource (h : a.Threaded) (className : String) :
    (a.addSource className).2.Threaded := by
  unfold Aliases.addSource
  split
  · exact h
  · exact (h.obtainClassAlias className).append_source _

theorem addOnJoin (h : a.Threaded) (className property aliasName : String)
    (condition : Correlation) :
    (a.addOnJoin className property aliasName condition).Threaded := by
  have hbefore : ∀ x, a.Known Anchor x →
      (a.addOnJoin className property aliasName condition).Known Anchor x := by
    rintro x (hx | ⟨j, hj, hjoined⟩)
    · exact .inl hx
    · exact .inr ⟨j, List.mem_append_left _ hj, hjoined⟩
  refine ⟨h.orderly.addOnJoin className property aliasName condition, ?owners, ?climbs,
    fun s hs key x hfind => ?_⟩
  case owners =>
    refine List.forall_mem_append.mpr ⟨fun j hj owner segment hpath => ?_, ?_⟩
    · exact hbefore _ (h.owners j hj owner segment hpath)
    · simp
  case climbs =>
    obtain ⟨rank, hrank⟩ := h.climbs
    exact ⟨rank, List.forall_mem_append.mpr ⟨hrank, by simp⟩⟩
  · obtain ⟨j, hj, hjoined⟩ := h.remembered s hs key x hfind
    exact ⟨j, List.mem_append_left _ hj, hjoined⟩

/-- Other scopes that start from known aliases and remember joins for what they are. -/
theorem withScopes (h : a.Threaded) {scopes : List Scope}
    (hscopes : ∀ s ∈ scopes, (∀ aliasName ∈ s.aliasName, a.Known Anchor aliasName) ∧
      (∀ entry ∈ s.joined, a.Joined entry.2) ∧
      ∀ key aliasName, s.joined.find? key = some aliasName →
        ∃ j ∈ a.joins, j.path = .association key.1 key.2 ∧ j.aliasName = aliasName) :
    Threaded { a with scopes } :=
  ⟨h.orderly.withScopes fun s hs => ⟨(hscopes s hs).1, (hscopes s hs).2.1⟩, h.owners, h.climbs,
    fun s hs => (hscopes s hs).2.2⟩

/-- What is known of the scopes that are there. -/
theorem scopes (h : a.Threaded) : ∀ s ∈ a.scopes,
    (∀ aliasName ∈ s.aliasName, a.Known Anchor aliasName) ∧
      (∀ entry ∈ s.joined, a.Joined entry.2) ∧
      ∀ key aliasName, s.joined.find? key = some aliasName →
        ∃ j ∈ a.joins, j.path = .association key.1 key.2 ∧ j.aliasName = aliasName :=
  fun s hs => ⟨(h.orderly.scopes s hs).1, (h.orderly.scopes s hs).2, h.remembered s hs⟩

/-- A scope that remembers nothing yet. -/
theorem push (h : a.Threaded) {s : Scope} (hjoined : s.joined = [])
    (hknown : ∀ aliasName ∈ s.aliasName, a.Known Anchor aliasName) :
    Threaded { a with scopes := s :: a.scopes } := by
  refine h.withScopes (List.forall_mem_cons.mpr ⟨⟨hknown, ?_, ?_⟩, h.scopes⟩)
  · simp [hjoined]
  · simp [hjoined, Dictionary.find?]

theorem pop (h : a.Threaded) : a.pop.Threaded := by
  unfold Aliases.pop
  split
  · rename_i inner outer rest hscopes
    refine h.withScopes fun s hs => h.scopes s ?_
    rw [hscopes]
    exact List.mem_cons_of_mem _ hs
  · exact h

end Threaded

/-! ## Paths -/

theorem known_origin (ha : a.Threaded) {path origin : String}
    (h : a.origin? c path = some origin) : a.Known Anchor origin := by
  unfold origin? at h
  split at h
  · exact .inl (Dictionary.of_find?_eq_some ha.orderly.classAliases h)
  · obtain ⟨s, hs, halias⟩ := Option.bind_eq_some_iff.mp h
    exact (ha.orderly.scopes s (List.mem_of_mem_head? hs)).1 origin halias

theorem startOf_ends (ha : a.Threaded) (path : String) :
    (startOf c path).Ends a.Spun (fun start b => a = b ∧ ∀ s ∈ start,
      a.Known Anchor s.1.aliasName) a := by
  refine (startOf_starts a c path).mono ?_ ?_
  · rintro _ rfl
    exact .refl ha
  · rintro start _ ⟨rfl, horigin, -⟩
    refine ⟨rfl, ?_⟩
    rintro s rfl
    exact known_origin ha horigin.symm

/-- What the reference of a path stands for: the alias at the end of a trail that, with the segments
behind the alias, spells the path. -/
def Refers (c : Catalog) (path : String) (o : Resolution) (a : Aliases) (reference : Reference)
    (b : Aliases) : Prop :=
  ∃ origin aliasName way steps,
    a.origin? c (Path.parse path).inner = some origin ∧
    reference = .at (Path.parse path).before aliasName steps (Path.parse path).after ∧
    way ++ steps = c.pathSegments (Path.parse path).inner ∧
    (o.keepCollection = false → steps = c.steps (a.originClass c (Path.parse path).inner)
      (c.pathSegments (Path.parse path).inner)) ∧
    a.Reaches b origin way aliasName

theorem resolve_ends (ha : a.Threaded) (path : String) (o : Resolution) :
    (resolve c path o).Ends a.Spun (fun found b => a.Spun b ∧
      ((Path.parse path).inner ≠ "*" → ∀ reference ∈ found, Refers c path o a reference b)) a := by
  have hspells : (resolve c path o).Ends a.Spun (Found Reaches c path o a) a :=
    (strides_reaches o).resolve (fun _ horigin => ⟨ha, known_origin ha horigin⟩) (.refl ha)
  refine hspells.mono (fun _ hb => hb) fun found b hfound => ?_
  cases hfound with
  | rows hrows => exact ⟨.refl ha, fun hne => absurd hrows hne⟩
  | nowhere => exact ⟨.refl ha, fun _ => by rintro _ ⟨⟩⟩
  | refers _ hrefers =>
    have ⟨_, _, _, _, _, _, _, _, hreach⟩ := hrefers
    refine ⟨hreach.1, fun _ => ?_⟩
    rintro _ ⟨⟩
    exact hrefers

/-- A path in the enclosing scopes leaves the innermost one where it is. -/
theorem enclosing_ends {α : Type} {x : Step Aliases α} (ha : a.Threaded)
    (hx : ∀ u : Aliases, u.Threaded → x.Ends u.Spun (fun _ => u.Spun) u) :
    (enclosing x).Ends a.Spun (fun _ => a.Spun) a := by
  cases hscopes : a.scopes with
  | nil =>
    unfold Ends
    rw [run_enclosing_nil x hscopes]
    exact hx a ha
  | cons inner outer =>
    have hboth := ha.scopes
    rw [hscopes] at hboth
    obtain ⟨hinner, houter⟩ := List.forall_mem_cons.mp hboth
    have hback (b : Aliases) (hb : Spun { a with scopes := outer } b) :
        a.Spun { b with scopes := inner :: b.scopes } := by
      obtain ⟨hthreaded, hgrows⟩ := hb
      refine ⟨hthreaded.withScopes (List.forall_mem_cons.mpr ⟨⟨fun x hx => ?_, fun entry hentry => ?_,
        fun key x hfind => ?_⟩, hthreaded.scopes⟩), ?_⟩
      · exact (hinner.1 x hx).imp_right hgrows.joined
      · exact hgrows.joined (hinner.2.1 entry hentry)
      · obtain ⟨j, hj, hjoined⟩ := hinner.2.2 key x hfind
        exact ⟨j, hgrows.subset j hj, hjoined⟩
      · refine ⟨hgrows.classAliases, hgrows.sources, ?_, hgrows.joins⟩
        have hframes : b.frames = outer.map Scope.frame := hgrows.frames
        show inner.frame :: b.frames = a.scopes.map Scope.frame
        rw [hframes, hscopes, List.map_cons]
    unfold Ends
    rw [run_enclosing x hscopes]
    exact (hx _ (ha.withScopes houter)).restoring hback fun _ => hback

theorem resolveWithin_ends (path : String) (depth : Nat) (ha : a.Threaded) :
    (resolveWithin c path depth).Ends a.Spun (fun _ => a.Spun) a := by
  induction depth generalizing a with
  | zero => exact .get_bind (.fail (.refl ha))
  | succ depth ih =>
    refine enclosing_ends ha fun u hu => .get_bind ?_
    split
    · exact .fail (.refl hu)
    · refine (resolve_ends hu path _).bind fun found v hv => ?_
      split
      · exact .pure hv.1
      · exact (ih hv.1.1).mono (fun _ => hv.1.trans) fun _ _ => hv.1.trans

theorem resolveEnclosing_ends (ha : a.Threaded) (path : String) :
    (resolveEnclosing c path).Ends a.Spun (fun _ => a.Spun) a :=
  .get_bind (resolveWithin_ends path _ ha)

/-! ## Collections -/

theorem advanceAll_ends {path : String} {segments : List String} {cursor : Cursor}
    (ha : a.Threaded) (hcursor : a.Known Anchor cursor.aliasName) :
    (advanceAll c path cursor segments).Ends a.Spun
      (fun last b => a.Spun b ∧ b.Known Anchor last.aliasName) a := by
  induction segments generalizing a cursor with
  | nil => exact .pure ⟨.refl ha, hcursor⟩
  | cons segment rest ih =>
    refine ((strides_reaches {}).advance ⟨ha, hcursor⟩ path segment).bind fun next u hnext => ?_
    obtain ⟨-, hspun, hknown, -⟩ := hnext
    exact (ih hspun.1 hknown).mono (fun _ => hspun.trans) fun _ _ hb => ⟨hspun.trans hb.1, hb.2⟩

theorem pushCollection_ends (ha : a.Threaded) (property : String) (joinType : JoinType) :
    (pushCollection c property joinType).Ends Threaded (fun _ => Threaded) a := by
  refine ((startOf_ends ha property).mono (fun _ hb => hb.1) fun _ _ hs => hs).bind
    fun start u hstart => ?_
  obtain ⟨rfl, hstart⟩ := hstart
  split
  · exact .get_bind (.fail ha)
  · split
    · exact .fail ha
    · rename_i last _
      have hknown := hstart _ rfl
      refine ((advanceAll_ends ha hknown).mono (fun _ hb => hb.1) fun _ _ hb => hb).bind
        fun owner v hv => .ofReported_bind ?_
      obtain ⟨⟨hthreaded, -⟩, howner⟩ := hv
      split
      · rename_i element _ _
        refine .get_bind (.put_bind (.pure ?_))
        refine (hthreaded.createJoin howner (some element) joinType).push rfl ?_
        rintro _ ⟨⟩
        exact .inr (createJoin_joined v owner last (some element) joinType)
      · exact .fail hthreaded

/-! ## Histories -/

/-- Whatever has been done, the aliases are threaded. -/
theorem Reached.threaded (h : a.Reached c) : a.Threaded := by
  induction h with
  | start className => exact .start className
  | insideOr marked _ ih => exact ⟨{ ih.orderly with }, ih.owners, ih.climbs, ih.remembered⟩
  | setClassAlias hclass _ ih => exact ih.setClassAlias hclass
  | addSource className _ ih => exact ih.addSource className
  | addThetaSource instanceNumber hclass _ ih =>
    exact (ih.setClassAlias (.inr hclass)).append_source (Source.mk _ _ true)
  | addOnJoin className property aliasName condition _ ih =>
    exact ih.addOnJoin className property aliasName condition
  | resolve path o _ ih =>
    exact ((resolve_ends ih path o).mono (fun _ hb => hb.1) fun _ _ hb => hb.1.1).state
  | resolveEnclosing path _ ih =>
    exact ((resolveEnclosing_ends ih path).mono (fun _ hb => hb.1) fun _ _ hb => hb.1).state
  | pushCollection property joinType _ ih => exact (pushCollection_ends ih property joinType).state
  | pushTheta _ ih =>
    refine ih.push rfl ?_
    rintro _ ⟨⟩
  | pop _ ih => exact ih.pop

/-- The reference of a path goes through the one alias from which the joins lead back, segment by
segment, along the associations of the path to the alias that the path starts from. The segments
that are not on this way follow the alias, and only the way is joined. -/
theorem Reached.resolve_spells (ha : a.Reached c) {path : String}
    (hrows : (Path.parse path).inner ≠ "*") {ownJoins outer : Bool} {reference : Reference}
    (h : (Aliases.resolve c path { ownJoins, outer }).Yields a (some reference) b) :
    ∃ origin aliasName way steps,
      a.origin? c (Path.parse path).inner = some origin ∧
      steps = c.steps (a.originClass c (Path.parse path).inner)
        (c.pathSegments (Path.parse path).inner) ∧
      way ++ steps = c.pathSegments (Path.parse path).inner ∧
      reference = .at (Path.parse path).before aliasName steps (Path.parse path).after ∧
      (∀ spelled, Trail b.joins origin spelled aliasName ↔ spelled = way) ∧
      ∀ j ∈ b.joins, j ∈ a.joins ∨
        ∃ part, part <+: way ∧ Trail b.joins origin part j.aliasName := by
  obtain ⟨-, hrefers⟩ := (resolve_ends ha.threaded path { ownJoins, outer }).yields h
  obtain ⟨origin, aliasName, way, steps, horigin, hreference, hway, hsteps, hreach⟩ :=
    hrefers hrows reference rfl
  obtain ⟨hspun, -, htrail, halong⟩ := hreach
  refine ⟨origin, aliasName, way, steps, horigin, hsteps rfl, hway, hreference, fun spelled => ?_,
    halong⟩
  constructor
  · intro hspelled
    exact hspun.1.trail_unique hspelled htrail
  · rintro rfl
    exact htrail

/-- Identities with their managers and reports. -/
def staff : Catalog :=
  { entities := [{ name := "Identity", table := "spt_identity", properties :=
      [{ name := "name" }, { name := "manager", kind := .manyToOne "Identity" },
        { name := "reports", kind := .oneToMany "Identity" (some "manager") }] }] }

/-- The name of the manager of a report is two joins away from the identity, and its own alias is
one join away from the reports. -/
theorem Reached.resolve_spells_managerOfReport :
    let a := ((Aliases.pushCollection staff "reports" .inner).run (Aliases.start "Identity")).state
    a.Reached staff ∧ (Path.parse "manager.name").inner ≠ "*" ∧
    ∃ b, (Aliases.resolve staff "manager.name" { outer := true }).Yields a
        (some (.at "" "identity_reports_managerAlias0" ["name"] "")) b ∧
      ∀ spelled, Trail b.joins "identity_reportsAlias0" spelled "identity_reports_managerAlias0" ↔
        spelled = ["manager"] := by
  intro a
  have ha : a.Reached staff := .pushCollection "reports" .inner (.start "Identity")
  have hrows : (Path.parse "manager.name").inner ≠ "*" := by decide
  have hresult : ((Aliases.resolve staff "manager.name" { outer := true }).run a).result.toOption =
      some (some (.at "" "identity_reports_managerAlias0" ["name"] "")) := by decide +kernel
  have hyields := yields_of_toOption hresult
  refine ⟨ha, hrows, _, hyields, ?_⟩
  obtain ⟨origin, aliasName, way, steps, horigin, hsteps, hway, hreference, htrail, -⟩ :=
    ha.resolve_spells hrows hyields
  have horigin' : a.origin? staff (Path.parse "manager.name").inner =
      some "identity_reportsAlias0" := by decide +kernel
  have hsegments : staff.pathSegments (Path.parse "manager.name").inner = ["manager", "name"] := by
    decide +kernel
  rw [horigin'] at horigin
  cases horigin
  cases hreference
  rw [hsegments] at hway
  have hsame : way = ["manager"] := List.append_left_injective ["name"] hway
  rwa [hsame] at htrail

end Aliases

end ObjectQuery
