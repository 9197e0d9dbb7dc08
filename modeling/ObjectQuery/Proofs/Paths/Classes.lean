import ObjectQuery.Proofs.Paths.Seclusion
import ObjectQuery.Proofs.Paths.Shapes

/-!
# The classes of aliases

An alias stands for the objects of one class: the one that it is named after, or the one that its
association leads to. So a join says of which property it is, and the shape of a path and the
reference that it is resolved to agree on whether the path ends in a collection of plain values. They
need not where classes share an alias.

* `Aliases.Distinctive`: class names that do not share aliases.
* `Aliases.Operation.className?`: the class that an operation names.
* `Aliases.StandsFor`, `Aliases.Typed`: aliases with their classes.
* `Aliases.classRules_typed`: paths keep them.
* `Aliases.typed_operations`: so do operations.
* `Aliases.endsOverScalars`: whether a reference ends in a join over a collection of plain values.
* `Aliases.resolve_described`: the shape of a path against the reference that it is resolved to.
* `Aliases.resolve_not_described`: a foreign key, and classes that share an alias.
-/

namespace ObjectQuery

open Step

namespace Aliases

variable {a b : Aliases} {c : Catalog} {names : List String} {x className : String}

/-! ## Classes of aliases -/

/-- The aliases named after the classes tell them apart: no two names differ in the case of the first
letter only. -/
def Distinctive (names : List String) : Prop :=
  ∀ name ∈ names, ∀ name' ∈ names, Text.lowerFirst name = Text.lowerFirst name' → name = name'

/-- The class whose objects an alias stands for. -/
inductive StandsFor (names : List String) (joins : List Join) : String → String → Prop
  | ofClass {className : String} {instanceNumber : Option Nat} : className ∈ names →
    (instanceNumber = none ∨ '_' ∉ className.toList) →
    StandsFor names joins (classAliasName className instanceNumber) className
  | ofJoin {j : Join} {className : String} : j ∈ joins → j.isNavigated = true →
    j.targetClass = some className → StandsFor names joins j.aliasName className

theorem StandsFor.mono {joins joins' : List Join} (h : StandsFor names joins x className)
    (hjoins : joins ⊆ joins') : StandsFor names joins' x className := by
  cases h with
  | ofClass hclass hplain => exact .ofClass hclass hplain
  | ofJoin hj hnavigated htarget => exact .ofJoin (hjoins hj) hnavigated htarget

theorem StandsFor.known (h : StandsFor names a.joins x className) : a.Known Anchor x := by
  cases h with
  | ofClass _ hplain => exact .inl (anchor_classAliasName hplain)
  | ofJoin hj hnavigated => exact .inr ⟨_, hj, hnavigated, rfl⟩

/-- A joined association stands for the objects that it leads to. -/
theorem StandsFor.targetClass (ha : a.Threaded) {j : Join}
    (hj : j ∈ a.joins) (hnavigated : j.isNavigated = true)
    (h : StandsFor names a.joins j.aliasName className) : j.targetClass = some className := by
  generalize hx : j.aliasName = x at h
  cases h with
  | ofClass _ hplain =>
    exact absurd (anchor_classAliasName hplain) (ha.not_anchor ⟨j, hj, hnavigated, hx⟩)
  | ofJoin hi hnavigated' htarget =>
    rwa [ha.join_inj hj hi hnavigated hnavigated' hx]

/-- No alias stands for the objects of two classes. -/
theorem StandsFor.unique (hnames : Distinctive names) (ha : a.Threaded) {className' : String}
    (h : StandsFor names a.joins x className) (h' : StandsFor names a.joins x className') :
    className = className' := by
  cases h with
  | ofJoin hj hnavigated htarget =>
    have htarget' := h'.targetClass ha hj hnavigated
    exact Option.some.inj (htarget.symm.trans htarget')
  | @ofClass className instanceNumber hclass hplain =>
    generalize hx : classAliasName className instanceNumber = x at h'
    cases h' with
    | ofClass hclass' => exact hnames _ hclass _ hclass' (classAliasName_inj hx).1
    | ofJoin hj hnavigated =>
      exact absurd (anchor_classAliasName hplain) (ha.not_anchor ⟨_, hj, hnavigated, hx.symm⟩)

/-- The aliases of classes and scopes stand for objects of these, and a joined association is a
property of the class that its owner stands for. -/
structure Typed (c : Catalog) (names : List String) (a : Aliases) : Prop where
  classAliases : ∀ className aliasName, a.classAlias? className = some aliasName →
    StandsFor names a.joins aliasName className
  scopes : ∀ s ∈ a.scopes, ∀ aliasName ∈ s.aliasName, StandsFor names a.joins aliasName s.className
  joins : ∀ j ∈ a.joins, j.isNavigated = true → ∃ owner p,
    j.path = .association owner j.property ∧ StandsFor names a.joins owner j.ownerClass ∧
      c.property? j.ownerClass j.property = some p ∧ j.targetClass = p.kind.target

namespace Typed

theorem start (hclass : className ∈ names) : (start className).Typed c names := by
  rw [start_eq]
  refine ⟨fun other aliasName hfind => ?_, ?_, by simp⟩
  · rw [classAlias?, Dictionary.find?] at hfind
    split at hfind
    · rename_i heq
      cases hfind
      rw [← heq]
      exact .ofClass hclass (.inl rfl)
    · cases hfind
  · refine List.forall_mem_singleton.mpr ?_
    rintro _ ⟨⟩
    exact .ofClass hclass (.inl rfl)

/-- Scopes that start from aliases of their classes. -/
theorem withScopes (h : a.Typed c names) {scopes : List Scope}
    (hscopes : ∀ s ∈ scopes, ∀ aliasName ∈ s.aliasName,
      StandsFor names a.joins aliasName s.className) : Typed c names { a with scopes } :=
  ⟨h.classAliases, hscopes, h.joins⟩

theorem push (h : a.Typed c names) {s : Scope}
    (hs : ∀ aliasName ∈ s.aliasName, StandsFor names a.joins aliasName s.className) :
    Typed c names { a with scopes := s :: a.scopes } :=
  h.withScopes (List.forall_mem_cons.mpr ⟨hs, h.scopes⟩)

theorem pop (h : a.Typed c names) : a.pop.Typed c names := by
  have hkept := h.withScopes fun s hs => h.scopes s (scopes_pop_subset a hs)
  have hpop : { a with scopes := a.pop.scopes } = a.pop := by
    unfold Aliases.pop
    split <;> rfl
  rwa [hpop] at hkept

theorem setClassAlias (h : a.Typed c names) (hclass : className ∈ names)
    {instanceNumber : Option Nat} (hplain : instanceNumber = none ∨ '_' ∉ className.toList) :
    (a.setClassAlias className instanceNumber).2.Typed c names := by
  refine ⟨fun other aliasName hfind => ?_, h.scopes, h.joins⟩
  change Dictionary.find? other (Dictionary.insert className _ a.classAliases) = _ at hfind
  rw [Dictionary.find?_insert] at hfind
  split at hfind
  · rename_i heq
    cases hfind
    rw [heq]
    exact .ofClass hclass hplain
  · exact h.classAliases other aliasName hfind

theorem addSource (h : a.Typed c names) (hclass : className ∈ names) :
    (a.addSource className).2.Typed c names := by
  unfold Aliases.addSource
  split
  · exact h
  · have hobtained : (a.obtainClassAlias className).2.Typed c names := by
      obtain ⟨x, -, heq⟩ | ⟨-, heq⟩ := a.obtainClassAlias_eq className <;> rw [heq]
      · exact h
      · exact h.setClassAlias hclass (.inl rfl)
    exact ⟨hobtained.classAliases, hobtained.scopes, hobtained.joins⟩

/-- More joins are of properties of the classes that their owners stand for. -/
theorem append_join (h : a.Typed c names) {j : Join} (hj : j.isNavigated = true → ∃ owner p,
      j.path = .association owner j.property ∧ StandsFor names a.joins owner j.ownerClass ∧
        c.property? j.ownerClass j.property = some p ∧ j.targetClass = p.kind.target) :
    Typed c names { a with joins := a.joins ++ [j] } := by
  have hmore : a.joins ⊆ a.joins ++ [j] := List.subset_append_left _ _
  refine ⟨fun other aliasName hfind => (h.classAliases other aliasName hfind).mono hmore,
    fun s hs aliasName halias => (h.scopes s hs aliasName halias).mono hmore,
    List.forall_mem_append.mpr ⟨fun i hi hnavigated => ?_, List.forall_mem_singleton.mpr ?_⟩⟩
  · obtain ⟨owner, p, hpath, howner, hp⟩ := h.joins i hi hnavigated
    exact ⟨owner, p, hpath, howner.mono hmore, hp⟩
  · intro hnavigated
    obtain ⟨owner, p, hpath, howner, hp⟩ := hj hnavigated
    exact ⟨owner, p, hpath, howner.mono hmore, hp⟩

theorem createJoin (h : a.Typed c names) {cursor : Cursor} {segment : String} {p : Property}
    (hcursor : StandsFor names a.joins cursor.aliasName cursor.className)
    (hp : c.property? cursor.className segment = some p) (joinType : JoinType) :
    (a.createJoin cursor segment p.kind.target joinType).2.Typed c names :=
  h.append_join fun _ => ⟨cursor.aliasName, p, rfl, hcursor, hp, rfl⟩

theorem remember (h : a.Typed c names) (key : String × String) (aliasName : String) :
    (a.remember key aliasName).Typed c names := by
  unfold Aliases.remember
  split
  · exact h
  · rename_i inner outer hscopes
    have hboth := h.scopes
    rw [hscopes] at hboth
    exact h.withScopes (List.forall_mem_cons.mpr (List.forall_mem_cons.mp hboth))

/-- A path starts from an alias of the class that it starts from. -/
theorem standsFor_origin (h : a.Typed c names) {path origin : String}
    (horigin : a.origin? c path = some origin) :
    StandsFor names a.joins origin (a.originClass c path) := by
  unfold origin? at horigin
  unfold originClass
  split at horigin
  · rename_i className hclass
    rw [hclass]
    exact h.classAliases className origin horigin
  · rename_i hclass
    obtain ⟨s, hs, halias⟩ := Option.bind_eq_some_iff.mp horigin
    rw [hclass, currentClass, hs]
    exact h.scopes s (List.mem_of_mem_head? hs) origin halias

/-- What is joined to an alias of a class is a property of that class. -/
theorem join_property (hnames : Distinctive names) (ha : a.Threaded) (h : a.Typed c names) {j : Join}
    (hj : j ∈ a.joins) {owner segment : String} (hpath : j.path = .association owner segment)
    (howner : StandsFor names a.joins owner className) :
    j.ownerClass = className ∧ j.property = segment ∧
      ∃ p, c.property? className segment = some p ∧ j.targetClass = p.kind.target := by
  obtain ⟨owner', p, hpath', howner', hp, htarget⟩ := h.joins j hj (isNavigated_of_path hpath)
  rw [hpath'] at hpath
  cases hpath
  have hclass : j.ownerClass = className := howner'.unique hnames ha howner
  rw [hclass] at hp
  exact ⟨hclass, rfl, p, hp, htarget⟩

end Typed

/-! ## Paths -/

/-- Where an association of the class is joined, the alias stands for the objects that it leads to. -/
theorem classRules_typed (hnames : Distinctive names) (o : Resolution) :
    ClassRules c o (fun a => a.Threaded ∧ a.Typed c names)
      (fun a aliasName className => StandsFor names a.joins aliasName className) where
  join {a cursor segment p} hboth hcursor hp := by
    obtain ⟨ha, h⟩ := hboth
    have hthreaded (joinType : JoinType) :
        (a.createJoin cursor segment p.kind.target joinType).2.Threaded :=
      ha.createJoin (hcursor.known) p.kind.target joinType
    have htyped (joinType : JoinType) := h.createJoin hcursor hp joinType
    have hnew (joinType : JoinType) : ∀ target ∈ p.kind.target,
        StandsFor names (a.createJoin cursor segment p.kind.target joinType).2.joins
          (a.createJoin cursor segment p.kind.target joinType).1 target := by
      intro target htarget
      exact .ofJoin (List.mem_append_right _ (List.mem_singleton.mpr rfl)) rfl htarget
    refine joinSegment_ends_of (fun _ y hfind => ?joined) (fun _ joinType => ?own)
      fun _ _ joinType => ?remembered
    case joined =>
      obtain ⟨s, hs, hentry⟩ := Option.bind_eq_some_iff.mp hfind
      obtain ⟨j, hj, hpath, rfl⟩ :=
        ha.remembered s (List.mem_of_mem_head? hs) (cursor.aliasName, segment) _ hentry
      obtain ⟨-, -, p', hp', htarget'⟩ := h.join_property hnames ha hj hpath hcursor
      obtain rfl : p = p' := Option.some.inj (hp.symm.trans hp')
      refine ⟨⟨ha, h⟩, fun target htarget => ?_⟩
      exact .ofJoin hj (isNavigated_of_path hpath) (htarget'.trans htarget)
    case own => exact ⟨⟨hthreaded joinType, htyped joinType⟩, hnew joinType⟩
    case remembered =>
      refine ⟨⟨?_, (htyped joinType).remember _ _⟩, fun target htarget => ?_⟩
      · exact (hthreaded joinType).remember
          (List.mem_append_right a.joins (List.mem_singleton.mpr rfl)) rfl
      · rw [joins_remember]
        exact hnew joinType target htarget

theorem resolve_typed (hnames : Distinctive names) (ha : a.Threaded) (h : a.Typed c names)
    (path : String) (o : Resolution) : ((resolve c path o).run a).state.Typed c names := by
  have hends : (resolve c path o).Ends _ _ a :=
    (classRules_typed hnames o).resolve ⟨ha, h⟩ fun _ horigin => h.standsFor_origin horigin
  exact (hends.mono (fun _ hb => hb.2) fun _ _ hb => hb.1.2).state

theorem resolveEnclosing_typed (hnames : Distinctive names) (ha : a.Threaded) (h : a.Typed c names)
    (path : String) : ((resolveEnclosing c path).run a).state.Typed c names := by
  have hnearest : EndsNearest c path a ((resolveEnclosing c path).run a) :=
    resolveWithin_endsNearest c path a
  rcases hnearest with ⟨depth, -, -, -, -, hstate⟩ | ⟨-, -, hstate⟩
  · have htyped : (a.outward depth).Typed c names :=
      h.withScopes fun s hs => h.scopes s (List.mem_of_mem_drop hs)
    have hinner : (resolveOutward c path a depth).state.Typed c names :=
      resolve_typed hnames (ha.outward depth) htyped path _
    have hmore : a.joins ⊆ (resolveOutward c path a depth).state.joins :=
      ((extends_walk.resolve path _ (a.outward depth)).state).1.subset
    rw [hstate]
    refine hinner.withScopes (List.forall_mem_append.mpr ⟨fun s hs x hx => ?_, hinner.scopes⟩)
    exact (h.scopes s (List.mem_of_mem_take hs) x hx).mono hmore
  · rw [hstate]
    exact h

/-! ## Collections -/

theorem advanceAll_typed (hnames : Distinctive names) (ha : a.Threaded) (h : a.Typed c names)
    {path : String} {segments : List String} {cursor : Cursor}
    (hcursor : StandsFor names a.joins cursor.aliasName cursor.className) :
    (advanceAll c path cursor segments).Ends (fun b => b.Typed c names)
      (fun last b => (b.Threaded ∧ b.Typed c names) ∧
        StandsFor names b.joins last.aliasName last.className) a := by
  induction segments generalizing a cursor with
  | nil => exact .pure ⟨⟨ha, h⟩, hcursor⟩
  | cons segment rest ih =>
    have hadvance := (classRules_typed hnames {}).advance ⟨ha, h⟩ hcursor path segment
    refine (hadvance.mono (fun _ hb => hb.1.2) fun _ _ => id).bind fun next u hnext => ?_
    exact ih hnext.1.1 hnext.1.2 hnext.2.1

/-- The scope of a collection starts from an alias of its elements. -/
theorem pushCollection_typed (hnames : Distinctive names) (ha : a.Threaded) (h : a.Typed c names)
    (property : String) (joinType : JoinType) :
    ((pushCollection c property joinType).run a).state.Typed c names := by
  have hends : (pushCollection c property joinType).Ends (fun b => b.Typed c names)
      (fun _ b => b.Typed c names) a := by
    have hstarts := startOf_starts a c property
    refine (hstarts.mono (fun u hu => hu ▸ h) fun _ _ hs => hs).bind fun start u hstart => ?_
    obtain ⟨rfl, horigin, hfrom⟩ := hstart
    split
    · exact .get_bind (.fail h)
    · split
      · exact .fail h
      · rename_i cursor segments _ last _
        have hcursor : StandsFor names u.joins cursor.aliasName (u.originClass c property) :=
          h.standsFor_origin horigin.symm
        rw [← (hfrom _ rfl).1] at hcursor
        refine (advanceAll_typed hnames ha h hcursor).bind fun owner v hv => .ofReported_bind ?_
        obtain ⟨⟨-, htyped⟩, howner⟩ := hv
        split
        · rename_i name column nullable unique element inverse hp
          refine .get_bind (.put_bind (.pure ((htyped.createJoin howner hp joinType).push ?_)))
          rintro _ ⟨⟩
          exact .ofJoin (List.mem_append_right _ (List.mem_singleton.mpr rfl)) rfl rfl
        · exact .fail htyped
  exact hends.state

/-! ## Operations -/

/-- The class that the operation names an alias after. -/
def Operation.className? : Operation → Option String
  | setClassAlias className _ | addSource className | addThetaSource className _ => some className
  | insideOr _ | addOnJoin .. | resolve .. | resolveEnclosing _ | pushCollection .. | pushTheta
  | pop => none

theorem Operation.perform_typed (hnames : Distinctive names) (ha : a.Threaded) (h : a.Typed c names)
    {operation : Operation} (hplain : operation.Plain)
    (hclass : ∀ className ∈ operation.className?, className ∈ names) :
    (operation.perform c a).Typed c names := by
  cases operation with
  | insideOr => exact ⟨h.classAliases, h.scopes, h.joins⟩
  | setClassAlias className instanceNumber =>
    exact h.setClassAlias (hclass className rfl) hplain.setClassAlias
  | addSource className => exact h.addSource (hclass className rfl)
  | addThetaSource className instanceNumber =>
    have hset : (a.setClassAlias className (some instanceNumber)).2.Typed c names :=
      h.setClassAlias (hclass className rfl) (.inr (hplain className rfl))
    exact ⟨hset.classAliases, hset.scopes, hset.joins⟩
  | addOnJoin => exact h.append_join fun hnavigated => by cases hnavigated
  | resolve path o => exact resolve_typed hnames ha h path o
  | resolveEnclosing path => exact resolveEnclosing_typed hnames ha h path
  | pushCollection property joinType => exact pushCollection_typed hnames ha h property joinType
  | pushTheta =>
    refine h.push ?_
    rintro _ ⟨⟩
  | pop =>
    exact h.pop

/-- Operations on classes that can be told apart keep the classes of the aliases. -/
theorem typed_operations (hnames : Distinctive names) (ha : a.Reached c) (h : a.Typed c names)
    {operations : List Operation} (hplain : ∀ operation ∈ operations, operation.Plain)
    (hclasses : ∀ operation ∈ operations, ∀ className ∈ operation.className?, className ∈ names) :
    (operations.foldl (Operation.perform c) a).Reached c ∧
      (operations.foldl (Operation.perform c) a).Typed c names := by
  induction operations generalizing a with
  | nil => exact ⟨ha, h⟩
  | cons operation rest ih =>
    obtain ⟨hfirst, hrest⟩ := List.forall_mem_cons.mp hclasses
    obtain ⟨hplain, hplains⟩ := List.forall_mem_cons.mp hplain
    exact ih (ha.perform hplain) (Operation.perform_typed hnames ha.threaded h hplain hfirst)
      hplains hrest

theorem typed_of_distinctive {operations : List Operation}
    (hplain : ∀ operation ∈ operations, operation.Plain)
    (hnames : Distinctive (className :: operations.filterMap (·.className?))) :
    (operations.foldl (Operation.perform c) (start className)).Reached c ∧
      (operations.foldl (Operation.perform c) (start className)).Typed c
        (className :: operations.filterMap (·.className?)) := by
  refine typed_operations hnames (.start className) (.start List.mem_cons_self) hplain
    fun operation hoperation other hother => ?_
  exact List.mem_cons_of_mem _ (List.mem_filterMap.mpr ⟨operation, hoperation, hother⟩)

/-! ## References -/

/-- The reference ends in a join over a collection of plain values. -/
def endsOverScalars (c : Catalog) (a : Aliases) : Reference → Bool
  | .at _ aliasName [] _ => a.joins.any fun j => j.isNavigated && j.aliasName == aliasName &&
      (c.property? j.ownerClass j.property).map (·.kind) == some .scalarCollection
  | .at .. | .rows _ => false

theorem endsOverScalars_at {before aliasName after : String} {steps : List String} :
    endsOverScalars c a (.at before aliasName steps after) = true ↔ steps = [] ∧
      ∃ j ∈ a.joins, j.isNavigated = true ∧ j.aliasName = aliasName ∧
        (c.property? j.ownerClass j.property).map (·.kind) = some .scalarCollection := by
  cases steps with
  | nil => simp [endsOverScalars, and_assoc]
  | cons => simp [endsOverScalars]

/-- A foreign key is not joined. -/
theorem endsOverScalars_of_isForeignKey {reference : Reference}
    (h : reference.isForeignKey = true) : endsOverScalars c a reference = false := by
  match reference with
  | .rows _ => rfl
  | .at _ _ [] _ => cases h
  | .at _ _ (_ :: _) _ => rfl

/-- A trail that follows associations of the classes ends in an alias of the class that these lead
to. -/
theorem standsFor_of_trail (hnames : Distinctive names) (ha : a.Threaded) (h : a.Typed c names)
    {first last reached : String} {way : List String}
    (hfirst : StandsFor names a.joins first className) (htrail : Trail a.joins first way last)
    (hleads : c.LeadsTo className way reached) : StandsFor names a.joins last reached := by
  induction htrail generalizing reached with
  | root =>
    cases hleads
    exact hfirst
  | @join way j owner segment _ hj hpath ih =>
    obtain ⟨between, hbefore, htarget⟩ := hleads.last
    obtain ⟨-, -, p, hp, hkind⟩ := h.join_property hnames ha hj hpath (ih hbefore)
    rw [hp] at htarget
    exact .ofJoin hj (isNavigated_of_path hpath) (hkind.trans htarget)

/-- A path that is joined to its end ends in a join of the property that it leads to. -/
theorem exists_join_of_trail (hnames : Distinctive names) (ha : a.Threaded) (h : a.Typed c names)
    {first last reached : String} {segments : List String} (hne : segments ≠ [])
    (hfirst : StandsFor names a.joins first className) (htrail : Trail a.joins first segments last)
    (hleads : c.LeadsTo className segments.dropLast reached) :
    ∃ j ∈ a.joins, j.isNavigated = true ∧ j.aliasName = last ∧
      c.property? j.ownerClass j.property = c.propertyAt className segments := by
  have hproperty := hleads.propertyAt
  cases htrail with
  | root => exact absurd rfl hne
  | @join way j owner segment hway hj hpath =>
    rw [List.dropLast_concat] at hleads
    rw [List.getLast?_concat, Option.bind_some] at hproperty
    -- The last join hangs off an alias of the class that the other segments lead to.
    have howner := standsFor_of_trail hnames ha h hfirst hway hleads
    obtain ⟨hclass, hname, -⟩ := h.join_property hnames ha hj hpath howner
    exact ⟨j, hj, isNavigated_of_path hpath, rfl, by rw [hclass, hname, hproperty]⟩

/-- An alias that stands for objects has not been joined over plain values. -/
theorem StandsFor.not_scalars (ha : a.Threaded) (h : a.Typed c names)
    {j : Join} (hj : j ∈ a.joins) (hnavigated : j.isNavigated = true)
    (hstands : StandsFor names a.joins j.aliasName className) :
    (c.property? j.ownerClass j.property).map (·.kind) ≠ some .scalarCollection := by
  obtain ⟨-, p, -, -, hp, htarget⟩ := h.joins j hj hnavigated
  rw [hstands.targetClass ha hj hnavigated] at htarget
  rw [hp]
  intro hkind
  rw [Option.map_some, Option.some.injEq] at hkind
  rw [hkind] at htarget
  cases htarget

theorem isScalarCollection_iff (a : Aliases) (path : String) :
    (a.isScalarCollection c path).value = true ↔
      (a.describe c path).value.terminal = some .scalarCollection := by
  unfold isScalarCollection
  rw [Reported.value_bind]
  exact beq_iff_eq

/-- The reference of a path ends in a join over plain values just if the path leads to plain values,
unless it is a foreign key. -/
theorem endsOverScalars_iff (hnames : Distinctive names) (ha : a.Threaded) (h : a.Typed c names)
    {path : String} (hrows : (Path.parse path).inner ≠ "*") {ownJoins outer : Bool}
    {reference : Reference} (hkey : reference.isForeignKey = false)
    (hyields : (resolve c path { ownJoins, outer }).Yields a (some reference) b) :
    (a.isScalarCollection c path).value = true ↔ endsOverScalars c b reference = true := by
  obtain ⟨reached, hleads⟩ := leadsTo_of_resolve hrows hyields
  have hb : b.Typed c names := hyields.2 ▸ resolve_typed hnames ha h path _
  obtain ⟨origin, aliasName, way, steps, horigin, rfl, hway, hsteps, ⟨hthreaded, hmore⟩, -, htrail,
    -⟩ := ((resolve_ends ha path _).yields hyields).2 hrows reference rfl
  have hfirst : StandsFor names b.joins origin _ :=
    (h.standsFor_origin horigin).mono fun j hj => hmore.subset j hj
  obtain rfl := hsteps rfl
  rw [isScalarCollection_iff, describe_terminal, endsOverScalars_at]
  generalize c.pathSegments (Path.parse path).inner = segments at hway hleads hkey ⊢
  have hlast (hnil : c.steps (a.originClass c (Path.parse path).inner) segments = [])
      (hne : segments ≠ []) : ∃ j ∈ b.joins, j.isNavigated = true ∧ j.aliasName = aliasName ∧
        c.property? j.ownerClass j.property =
          c.propertyAt (a.originClass c (Path.parse path).inner) segments := by
    rw [hnil, List.append_nil] at hway
    rw [hway] at htrail
    exact exists_join_of_trail hnames hthreaded hb hne hfirst htrail hleads
  constructor
  · intro hscalars
    have hne : segments ≠ [] := by
      rintro rfl
      cases hscalars
    have hcollection : (c.propertyAt (a.originClass c (Path.parse path).inner) segments).any
        (·.kind.isCollection) = true := by
      obtain ⟨p, hp, hkind⟩ := Option.map_eq_some_iff.mp hscalars
      rw [hp, Option.any_some, hkind]
      rfl
    have hnil := Catalog.steps_eq_nil (by simpa [Reference.isForeignKey] using hkey) hcollection
    obtain ⟨j, hj, hnavigated, halias, hproperty⟩ := hlast hnil hne
    exact ⟨hnil, j, hj, hnavigated, halias, hproperty ▸ hscalars⟩
  · rintro ⟨hnil, i, hi, hnavigated, halias, hscalars⟩
    by_cases hne : segments = []
    · -- A path without segments is the alias that it starts from.
      rw [hne, List.append_eq_nil_iff] at hway
      rw [hway.1] at htrail
      have hstands := standsFor_of_trail hnames hthreaded hb hfirst htrail .here
      rw [← halias] at hstands
      exact absurd hscalars (hstands.not_scalars hthreaded hb hi hnavigated)
    · obtain ⟨j, hj, hnavigated', halias', hproperty⟩ := hlast hnil hne
      obtain rfl := hthreaded.join_inj hi hj hnavigated hnavigated' (halias.trans halias'.symm)
      rw [← hproperty]
      exact hscalars

/-- Each path that is resolved to a reference leads through the classes that its shape is read off:
the shape ends in the property of the last segment in the class that the others lead to, if there
is one, and crosses a collection just if some segment is a collection of its class. As long as no
class with an underscore is given a numbered alias and no two classes with aliases differ in their
first letter only, the path leads to a collection of plain values just if the reference ends
in a join over one, or is a foreign key to an identifier that is declared as one. And a path without a
class name whose shape ends in a property is resolved wherever the scope has an alias. -/
theorem resolve_described (c : Catalog) (className : String) (operations : List Operation)
    (path : String) :
    let a := operations.foldl (Operation.perform c) (start className)
    let origin := a.originClass c (Path.parse path).inner
    let segments := c.pathSegments (Path.parse path).inner
    let shape := (a.describe c path).value
    ((Path.parse path).inner ≠ "*" → ∀ (ownJoins outer : Bool) (reference : Reference) (b : Aliases),
      (resolve c path { ownJoins, outer }).Yields a (some reference) b →
        (∃ reached, c.LeadsTo origin segments.dropLast reached ∧
          shape.terminal = (segments.getLast?.bind (c.property? reached)).map (·.kind)) ∧
        (shape.crossesCollection = true ↔ c.Crosses origin segments) ∧
        ((∀ operation ∈ operations, operation.Plain) →
          Distinctive (className :: operations.filterMap (·.className?)) →
          ((a.isScalarCollection c path).value = true ↔ endsOverScalars c b reference = true ∨
            reference.isForeignKey = true ∧ shape.terminal = some .scalarCollection))) ∧
    (c.leadingClass? (Path.parse path).inner = none → a.currentAlias ≠ none →
      shape.terminal ≠ none → ∀ o : Resolution,
        ∃ reference b, (resolve c path o).Yields a (some reference) b) := by
  intro a origin segments shape
  refine ⟨fun hrows ownJoins outer reference b hyields => ⟨?_, ?_, fun hplain hnames => ?_⟩, ?_⟩
  · obtain ⟨reached, hleads⟩ := leadsTo_of_resolve hrows hyields
    refine ⟨reached, hleads, ?_⟩
    rw [← hleads.propertyAt]
    exact describe_terminal a path
  · exact describe_crossesCollection a path
  · obtain ⟨hreached, htyped⟩ := typed_of_distinctive (c := c) hplain hnames
    cases hkey : reference.isForeignKey with
    | false =>
      rw [endsOverScalars_iff hnames hreached.threaded htyped hrows hkey hyields]
      simp
    | true =>
      rw [isScalarCollection_iff, endsOverScalars_of_isForeignKey hkey]
      simp [shape, a]
  · intro hclass halias hterminal o
    exact resolve_of_terminal o hclass halias hterminal

/-- Identities with tags, and classes that are called like them or like an alias of theirs. The
identifier of an identity is declared as a collection too. -/
def lookalikes : Catalog :=
  { entities := [{ name := "Identity", table := "spt_identity", properties :=
      [{ name := "manager", kind := .manyToOne "Identity" },
        { name := "tags", kind := .scalarCollection }, { name := "id", kind := .scalarCollection }] },
    { name := "identity", table := "spt_identity", properties :=
      [{ name := "tags", kind := .oneToMany "Identity" none }] },
    { name := "Identity_tags", table := "spt_identity_tags" }] }

/-- A number for one class, and the other one among the sources without a number. -/
def numberedAndListed : List Operation :=
  [.setClassAlias "Identity" (some 1), .addSource "Identity_tags"]

/-- The tags of the manager are a collection of plain values, and the reference ends in a join over
it. -/
theorem resolve_described_managerTags :
    let a := numberedAndListed.foldl (Operation.perform lookalikes) (start "Identity")
    let first := (resolve lookalikes "manager.tags" {}).run a
    first.result.toOption = some (some (.ofAlias "identity_manager_tagsAlias0")) ∧
      (∀ operation ∈ numberedAndListed, operation.Plain) ∧
      Distinctive ["Identity", "Identity", "Identity_tags"] ∧
      (a.describe lookalikes "manager.tags").value.terminal = some .scalarCollection ∧
      endsOverScalars lookalikes first.state (.ofAlias "identity_manager_tagsAlias0") = true := by
  intro a first
  have hresult : first.result.toOption = some (some (.ofAlias "identity_manager_tagsAlias0")) := by
    decide +kernel
  have hplain : ∀ operation ∈ numberedAndListed, operation.Plain := by
    simp [numberedAndListed, Operation.Plain, Operation.numberedClass?]
  have hnames : Distinctive ["Identity", "Identity", "Identity_tags"] := by
    unfold Distinctive
    decide +kernel
  have hterminal :
      (a.describe lookalikes "manager.tags").value.terminal = some .scalarCollection := by
    decide +kernel
  have hdescribed := resolve_described lookalikes "Identity" numberedAndListed "manager.tags"
  obtain ⟨-, -, hscalars⟩ :=
    hdescribed.1 (by decide) false false _ _ (yields_of_toOption hresult)
  have hends := (hscalars hplain hnames).mp ((isScalarCollection_iff a _).mpr hterminal)
  have hnokey := hends.resolve_right fun hkey => Bool.false_ne_true hkey.1
  exact ⟨hresult, hplain, hnames, hterminal, hnokey⟩

/-- After some operations, in a scope that has an alias, the shape of a path and the reference that
it is resolved to do not agree on whether it ends in plain values. -/
def Disagrees (c : Catalog) (className : String) (operations : List Operation) (path : String) :
    Prop :=
  let a := operations.foldl (Operation.perform c) (start className)
  a.currentAlias ≠ none ∧ (Path.parse path).inner ≠ "*" ∧ ∃ reference b,
    (resolve c path {}).Yields a (some reference) b ∧
      (a.isScalarCollection c path).value ≠ endsOverScalars c b reference

/-- An identifier behind an association is not joined, whatever it is declared as. The tags of one
class are found joined for another one that only differs in its first letter. And a class may be
called like the alias of a join. -/
theorem resolve_not_described :
    Disagrees lookalikes "Identity" [] "manager.id" ∧
    Disagrees lookalikes "identity"
      [.setClassAlias "Identity" none, .resolve "Identity.tags" {}] "tags" ∧
    Disagrees lookalikes "Identity"
      [.resolve "tags" {}, .setClassAlias "Identity_tags" (some 0)] "Identity_tags" := by
  refine ⟨⟨by decide +kernel, by decide, ?key⟩, ⟨by decide +kernel, by decide, ?initial⟩,
    ⟨by decide +kernel, by decide, ?underscore⟩⟩
  case key =>
    exact ⟨.at "" "identityAlias" ["manager", "id"] "", _, yields_of_toOption (by decide +kernel),
      by decide +kernel⟩
  case initial =>
    exact ⟨.ofAlias "identity_tagsAlias0", _, yields_of_toOption (by decide +kernel),
      by decide +kernel⟩
  case underscore =>
    exact ⟨.ofAlias "identity_tagsAlias0", _, yields_of_toOption (by decide +kernel),
      by decide +kernel⟩

end Aliases

end ObjectQuery
