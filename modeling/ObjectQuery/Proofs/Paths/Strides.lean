import ObjectQuery.Aliases.Resolve
import ObjectQuery.Proofs.Paths.Ways
import ObjectQuery.Proofs.Step.Endings

/-!
# Striding along paths

A path is followed segment by segment, and each association on the way is joined. What holds of one
join holds of the whole path if it can be put together.

* `Aliases.origin?`, `Aliases.originClass`: the alias and the class that a path starts from.
* `Aliases.Strides`: what can be put together along a path.
* `Aliases.Strides.follow`: it holds between the start and the end of the way that segments spell.
* `Aliases.Strides.resolve`: likewise for the reference of a path.
-/

namespace ObjectQuery

open Step

namespace Aliases

variable {a b : Aliases} {c : Catalog} {path segment : String} {cursor : Cursor}

/-! ## Where paths start -/

/-- The alias that a path starts from: that of the class name that it begins with, or else that of
the innermost scope. -/
def origin? (a : Aliases) (c : Catalog) (path : String) : Option String :=
  match c.leadingClass? path with
  | some className => a.classAlias? className
  | none => a.currentAlias

/-- The class that a path starts from. -/
def originClass (a : Aliases) (c : Catalog) (path : String) : String :=
  (c.leadingClass? path).getD a.currentClass

theorem origin_of_leadingClass {className : String}
    (h : c.leadingClass? path = some className) :
    a.origin? c path = a.classAlias? className ∧ a.originClass c path = className ∧
      c.pathSegments path = Path.segments (Path.head path).2 := by
  unfold origin? Catalog.pathSegments
  rw [originClass, h]
  exact ⟨rfl, rfl, rfl⟩

theorem origin_of_noLeadingClass (h : c.leadingClass? path = none) :
    a.origin? c path = a.currentAlias ∧ a.originClass c path = a.currentClass ∧
      c.pathSegments path = Path.segments path := by
  unfold origin? Catalog.pathSegments
  rw [originClass, h]
  exact ⟨rfl, rfl, rfl⟩

/-- A path starts from its origin with the segments that are followed. It starts nowhere if it has
none, and fails only for a class that has no alias. -/
theorem startOf_starts (a : Aliases) (c : Catalog) (path : String) :
    (startOf c path).Ends (fun b => b = a) (fun start b => b = a ∧
      start.map (·.1.aliasName) = a.origin? c path ∧ ∀ s ∈ start,
        s.1.className = a.originClass c path ∧ s.2 = c.pathSegments path) a := by
  refine .get_bind ?_
  dsimp only
  split
  · rename_i hclass
    obtain ⟨horigin, horiginClass, hsegments⟩ :=
      a.origin_of_leadingClass (if_pos hclass : c.leadingClass? path = some (Path.head path).1)
    split
    · rename_i aliasName hfind
      refine .pure ⟨rfl, (horigin.trans hfind).symm, ?_⟩
      rintro _ ⟨⟩
      exact ⟨horiginClass.symm, hsegments.symm⟩
    · exact .fail rfl
  · rename_i hclass
    obtain ⟨horigin, horiginClass, hsegments⟩ :=
      a.origin_of_noLeadingClass (if_neg hclass : c.leadingClass? path = none)
    split
    · rename_i hscope
      rw [currentAlias, hscope] at horigin
      rw [currentClass, hscope] at horiginClass
      refine .pure ⟨rfl, horigin.symm, ?_⟩
      rintro _ ⟨⟩
      exact ⟨horiginClass.symm, hsegments.symm⟩
    · rename_i hnone
      refine .pure ⟨rfl, ?_, by rintro _ ⟨⟩⟩
      rw [horigin, currentAlias]
      rcases hscope : a.scope? with _ | ⟨_, _, _ | _, _, _, _⟩
      · rfl
      · rfl
      · exact absurd hscope (hnone _ _ _ _ _ _)

/-! ## Joins -/

/-- An association has been joined by the scope already, or is joined now: for the path alone, or so
that the scope remembers it. -/
theorem joinSegment_ends_of {target : Option String} {o : Resolution} {F : Aliases → Prop}
    {S : String → Aliases → Prop}
    (hjoined : o.ownJoins = false → ∀ aliasName,
      a.joined? (cursor.aliasName, segment) = some aliasName → S aliasName a)
    (hown : o.ownJoins = true → ∀ joinType,
      S (a.createJoin cursor segment target joinType).1
        (a.createJoin cursor segment target joinType).2)
    (hnew : o.ownJoins = false → a.joined? (cursor.aliasName, segment) = none → ∀ joinType,
      S (a.createJoin cursor segment target joinType).1
        ((a.createJoin cursor segment target joinType).2.remember (cursor.aliasName, segment)
          (a.createJoin cursor segment target joinType).1)) :
    (joinSegment cursor segment target o).Ends F S a := by
  refine .get_bind ?_
  dsimp only
  cases ho : o.ownJoins with
  | true => exact .put_bind (.pure (hown ho _))
  | false =>
    cases hfind : a.joined? (cursor.aliasName, segment) with
    | some aliasName => exact .pure (hjoined ho aliasName hfind)
    | none => exact .put_bind (.pure (hnew ho hfind _))

/-! ## Strides -/

/-- What holds along a path that is resolved as `o` asks. `P a b first way last` says how the way
has led from `first` to `last` and turned the aliases `a` into `b`, `I` from where a path may go on,
and `F` what it leaves where it fails. -/
structure Strides (o : Resolution) (I : Aliases → String → Prop) (F : Aliases → Aliases → Prop)
    (P : Aliases → Aliases → String → List String → String → Prop) : Prop where
  stay : ∀ {a first}, I a first → P a a first [] first
  trans : ∀ {a b u first second third way way'}, P a b first way second →
    P b u second way' third → P a u first (way ++ way') third
  goesOn : ∀ {a b first way last}, P a b first way last → I b last
  fails : ∀ {a first}, I a first → F a a
  failsBehind : ∀ {a b u first way last}, P a b first way last → F b u → F a u
  join : ∀ {a : Aliases} {cursor : Cursor} (segment : String) (target : Option String),
    I a cursor.aliasName → (joinSegment cursor segment target o).Ends (F a)
      (fun aliasName b => P a b cursor.aliasName [segment] aliasName) a

/-- Where following segments from the cursor ends: behind the segments of the way, with the others
left for the reference. -/
def SpellsBy (P : Aliases → Aliases → String → List String → String → Prop) (c : Catalog)
    (o : Resolution) (a : Aliases) (cursor : Cursor) (segments : List String)
    (target : String × List String) (b : Aliases) : Prop :=
  (∃ way, way ++ target.2 = segments ∧ P a b cursor.aliasName way target.1) ∧
    (o.keepCollection = false → target.2 = c.steps cursor.className segments)

/-- What the reference of a path stands for: the alias at the end of a way that, with the segments
behind the alias, spells the path. -/
def RefersBy (P : Aliases → Aliases → String → List String → String → Prop) (c : Catalog)
    (path : String) (o : Resolution) (a : Aliases) (reference : Reference) (b : Aliases) : Prop :=
  ∃ origin aliasName way steps,
    a.origin? c (Path.parse path).inner = some origin ∧
    reference = .at (Path.parse path).before aliasName steps (Path.parse path).after ∧
    way ++ steps = c.pathSegments (Path.parse path).inner ∧
    (o.keepCollection = false → steps = c.steps (a.originClass c (Path.parse path).inner)
      (c.pathSegments (Path.parse path).inner)) ∧
    P a b origin way aliasName

/-- What a path is resolved to: all rows, nothing where it starts nowhere, or a reference. -/
inductive Found (P : Aliases → Aliases → String → List String → String → Prop) (c : Catalog)
    (path : String) (o : Resolution) (a : Aliases) : Option Reference → Aliases → Prop
  | rows : (Path.parse path).inner = "*" → Found P c path o a (some (.rows path)) a
  | nowhere : (Path.parse path).inner ≠ "*" → a.origin? c (Path.parse path).inner = none →
    Found P c path o a none a
  | refers {reference : Reference} {b : Aliases} : (Path.parse path).inner ≠ "*" →
    RefersBy P c path o a reference b → Found P c path o a (some reference) b

namespace Strides

variable {o : Resolution} {I : Aliases → String → Prop} {F : Aliases → Aliases → Prop}
  {P : Aliases → Aliases → String → List String → String → Prop}

theorem advance (h : Strides o I F P) (ha : I a cursor.aliasName) (path segment : String) :
    (Aliases.advance c path o cursor segment).Ends (F a)
      (fun next b => (c.property? cursor.className segment).bind (·.kind.target) =
        some next.className ∧ P a b cursor.aliasName [segment] next.aliasName) a := by
  refine .ofReported_bind ?_
  split
  · rename_i target htarget
    exact (h.join segment (some target) ha).bind fun _ _ hjoin => .pure ⟨htarget, hjoin⟩
  · exact .fail (h.fails ha)

theorem finish (h : Strides o I F P) (ha : I a cursor.aliasName) (segment : String) :
    (Aliases.finish c o cursor segment).Ends (F a) (SpellsBy P c o a cursor [segment]) a := by
  refine .ofReported_bind ?_
  have hplain (hsingle : o.keepCollection = false →
      (c.property? cursor.className segment).any (·.kind.isCollection) = false) :
      (pure (cursor.aliasName, [segment]) : Step Aliases (String × List String)).Ends (F a)
        (SpellsBy P c o a cursor [segment]) a := by
    refine .pure ⟨⟨[], rfl, h.stay ha⟩, fun ho => ?_⟩
    simp [Catalog.steps_singleton, hsingle ho]
  split
  · rename_i p hp
    change c.property? cursor.className segment = some p at hp
    split
    · rename_i hcollection
      rw [Bool.and_eq_true] at hcollection
      refine (h.join segment p.kind.target ha).bind fun _ _ hjoin =>
        .pure ⟨⟨[segment], rfl, hjoin⟩, fun _ => ?_⟩
      simp [Catalog.steps_singleton, hp, hcollection.1]
    · rename_i hcollection
      refine hplain fun ho => ?_
      simpa [hp, ho] using hcollection
  · rename_i hp
    change c.property? cursor.className segment = none at hp
    exact hplain fun _ => by simp [hp]

/-- The segments lead along a way that spells them, as far as they do not stay in the reference. -/
theorem follow (h : Strides o I F P) {a : Aliases} {path : String} {segments : List String}
    {cursor : Cursor} (ha : I a cursor.aliasName) :
    (Aliases.follow c path o cursor segments).Ends (F a) (SpellsBy P c o a cursor segments) a := by
  match segments with
  | [] => exact .pure ⟨⟨[], rfl, h.stay ha⟩, fun _ => Catalog.steps_nil.symm⟩
  | [last] => exact h.finish ha last
  | segment :: last :: rest =>
    have hfurther (hkey : ¬(rest = [] ∧ last = "id" ∧
        (c.property? cursor.className segment).any (·.kind.isManyToOne) = true)) :
        (do Aliases.follow c path o (← Aliases.advance c path o cursor segment) (last :: rest) :
          Step Aliases (String × List String)).Ends (F a)
          (SpellsBy P c o a cursor (segment :: last :: rest)) a := by
      refine (h.advance ha path segment).bind fun next u hnext => ?_
      obtain ⟨htarget, hfirst⟩ := hnext
      refine (h.follow (h.goesOn hfirst)).mono (fun b hb => h.failsBehind hfirst hb) ?_
      rintro target b ⟨⟨way, hway, hrest⟩, hsteps⟩
      refine ⟨⟨[segment] ++ way, by simp [hway], h.trans hfirst hrest⟩, fun ho => ?_⟩
      rw [hsteps ho, Catalog.steps_cons htarget hkey]
    unfold Aliases.follow
    dsimp only
    split
    · rename_i hid
      rw [Bool.and_eq_true, List.isEmpty_iff, beq_iff_eq] at hid
      obtain ⟨rfl, rfl⟩ := hid
      refine .ofReported_bind ?_
      generalize hp : (c.lookUp cursor.className segment).value = property
      change c.property? cursor.className segment = property at hp
      cases property with
      | none => exact hfurther (by simp [hp])
      | some p =>
        obtain ⟨name, column, nullable, unique, kind⟩ := p
        cases kind with
        | manyToOne target =>
          refine .pure ⟨⟨[], rfl, h.stay ha⟩, fun _ => (Catalog.steps_key ?_).symm⟩
          simp [hp, PropertyKind.isManyToOne]
        | scalar | oneToMany | scalarCollection =>
          exact hfurther (by simp [hp, PropertyKind.isManyToOne])
    · rename_i hid
      refine hfurther fun hkey => hid ?_
      simp [hkey.1, hkey.2.1]
termination_by segments

/-- A path is resolved along the way that it spells. -/
theorem resolve (h : Strides o I F P)
    (ha : ∀ origin, a.origin? c (Path.parse path).inner = some origin → I a origin) (hF : F a a) :
    (Aliases.resolve c path o).Ends (F a) (Found P c path o a) a := by
  unfold Aliases.resolve
  dsimp only
  -- How the path is read does not matter, and is not to be unfolded.
  generalize hparsed : Path.parse path = parsed at ha ⊢
  split
  · rename_i hrows
    subst hparsed
    exact .pure (.rows (beq_iff_eq.mp hrows))
  · rename_i hrows
    have hrows : parsed.inner ≠ "*" := fun heq => hrows (beq_iff_eq.mpr heq)
    have hstarts := startOf_starts a c parsed.inner
    refine (hstarts.mono (fun u hu => hu ▸ hF) fun _ _ hs => hs).bind fun start u hstart => ?_
    obtain ⟨rfl, horigin, hstart⟩ := hstart
    split
    · subst hparsed
      exact .pure (.nowhere hrows horigin.symm)
    · rename_i cursor segments
      obtain ⟨hclass, rfl⟩ := hstart _ rfl
      have horigin : u.origin? c parsed.inner = some cursor.aliasName := horigin.symm
      refine (h.follow (ha _ horigin)).bind fun target b hspells => ?_
      obtain ⟨⟨way, hway, hled⟩, hsteps⟩ := hspells
      subst hparsed
      refine .pure (.refers hrows ⟨_, _, way, _, horigin, rfl, hway, fun ho => ?_, hled⟩)
      rw [hsteps ho, hclass]

end Strides

end Aliases

end ObjectQuery
