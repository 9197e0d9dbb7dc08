import ObjectQuery.Proofs.Paths.Crossings

/-!
# Shapes of paths

The shape of a path is read off the catalog alone, while the path is resolved by joining one
association after the other. Both go through the same classes.

* `Catalog.LeadsTo`: the class that associations lead to.
* `Aliases.describeFrom_terminal`: a shape ends in the property that the path leads to.
* `Aliases.ClassRules`: what is kept where an association of a class is joined.
* `Aliases.ClassRules.follow`: a path can be followed just if all segments but the last one are
  associations.
* `Aliases.leadsTo_of_resolve`: so it is with a path that is resolved.
* `Aliases.resolve_of_terminal`: a path without a class name is resolved if its shape ends in a
  property.
-/

namespace ObjectQuery

open Step

namespace Catalog

/-- Associations lead from one class to another, one after the other. -/
inductive LeadsTo (c : Catalog) : String → List String → String → Prop
  | here {className : String} : LeadsTo c className [] className
  | further {className segment target reached : String} {way : List String} :
    (c.property? className segment).bind (·.kind.target) = some target →
    LeadsTo c target way reached → LeadsTo c className (segment :: way) reached

variable {c : Catalog} {className reached : String} {segments : List String}

/-- Before the last association the others lead to its class. -/
theorem LeadsTo.last {way : List String} {segment : String}
    (h : c.LeadsTo className (way ++ [segment]) reached) :
    ∃ between, c.LeadsTo className way between ∧
      (c.property? between segment).bind (·.kind.target) = some reached := by
  induction way generalizing className with
  | nil =>
    cases h with
    | further htarget hrest =>
      cases hrest
      exact ⟨className, .here, htarget⟩
  | cons first rest ih =>
    cases h with
    | further htarget hrest =>
      obtain ⟨between, hbefore, hlast⟩ := ih hrest
      exact ⟨between, .further htarget hbefore, hlast⟩

/-- Behind the associations, the property is that of the class that they lead to. -/
theorem LeadsTo.propertyAt (h : c.LeadsTo className segments.dropLast reached) :
    c.propertyAt className segments = segments.getLast?.bind (c.property? reached) := by
  induction segments generalizing className with
  | nil => rfl
  | cons segment rest ih =>
    cases rest with
    | nil =>
      cases h
      rfl
    | cons next rest =>
      cases h with
      | further htarget hrest =>
        rw [Catalog.propertyAt, htarget, List.getLast?_cons_cons]
        exact ih hrest

/-- Where segments lead to a property, those before the last one are associations. -/
theorem leadsTo_of_propertyAt {p : Property} (h : c.propertyAt className segments = some p) :
    ∃ reached, c.LeadsTo className segments.dropLast reached := by
  induction segments generalizing className with
  | nil => exact ⟨className, .here⟩
  | cons segment rest ih =>
    cases rest with
    | nil => exact ⟨className, .here⟩
    | cons next rest =>
      rw [Catalog.propertyAt] at h
      split at h
      · rename_i target htarget
        obtain ⟨reached, hrest⟩ := ih h
        exact ⟨reached, .further htarget hrest⟩
      · cases h

/-- A collection at the end of a path leaves nothing for the reference, unless it is behind an
association as its identifier. -/
theorem steps_eq_nil (hkey : (c.steps className segments).length ≠ 2)
    (h : (c.propertyAt className segments).any (·.kind.isCollection) = true) :
    c.steps className segments = [] := by
  unfold steps at hkey ⊢
  split at hkey
  · rename_i hid
    have hlong : 2 ≤ segments.length := by
      match segments with
      | [] => cases hid.1
      | [last] => cases hid.2
      | _ :: _ :: _ => simp
    rw [List.length_drop] at hkey
    omega
  · rename_i hid
    rw [if_neg hid, if_pos h]

end Catalog

/-- Whether a reference is the foreign key of an association: it keeps the name of the association
before that of the identifier, and the association is not joined. -/
def Reference.isForeignKey : Reference → Bool
  | .at _ _ steps _ => steps.length == 2
  | .rows _ => false

/-- A step that does not fail succeeds. -/
theorem Step.Ends.exists_yields {σ α : Type} {F : σ → Prop} {S : α → σ → Prop} {x : Step σ α} {s : σ}
    (h : x.Ends F S s) (hF : ∀ t, ¬F t) : ∃ r t, x.Yields s r t ∧ S r t := by
  unfold Ends at h
  split at h
  · rename_i r hresult
    exact ⟨r, (x.run s).state, ⟨hresult, rfl⟩, h⟩
  · exact absurd h (hF _)

namespace Aliases

variable {a b : Aliases} {c : Catalog} {path : String} {cursor : Cursor} {o : Resolution}

/-! ## Shapes -/

/-- A shape ends in the property that the segments lead to. -/
theorem describeFrom_terminal (className : String) (segments : List String) :
    (describeFrom c className segments).value.terminal =
      (c.propertyAt className segments).map (·.kind) := by
  induction segments generalizing className with
  | nil => rfl
  | cons segment rest ih =>
    rw [describeFrom, Reported.value_bind]
    generalize hp : (c.lookUp className segment).value = property
    change c.property? className segment = property at hp
    cases rest with
    | nil => cases property <;> simp [Catalog.propertyAt, hp]
    | cons next rest =>
      rw [Catalog.propertyAt, hp]
      cases property with
      | none => rfl
      | some p =>
        cases htarget : p.kind.target with
        | none => simp [htarget]
        | some target =>
          simp only [List.isEmpty_cons, Bool.false_eq_true, if_false, htarget, Option.bind_some]
          exact ih target

theorem describe_terminal (a : Aliases) (path : String) :
    (a.describe c path).value.terminal =
      (c.propertyAt (a.originClass c (Path.parse path).inner)
        (c.pathSegments (Path.parse path).inner)).map (·.kind) := by
  rw [describe_eq]
  exact describeFrom_terminal _ _

/-! ## Paths through classes -/

/-- What is kept where an association of a class is joined. `J` holds of the aliases, and `I` of an
alias and the class that a path has come to with it. -/
structure ClassRules (c : Catalog) (o : Resolution) (J : Aliases → Prop)
    (I : Aliases → String → String → Prop) : Prop where
  join : ∀ {a : Aliases} {cursor : Cursor} {segment : String} {p : Property}, J a →
    I a cursor.aliasName cursor.className → c.property? cursor.className segment = some p →
    (joinSegment cursor segment p.kind.target o).Ends (fun _ => False)
      (fun aliasName b => J b ∧ ∀ target ∈ p.kind.target, I b aliasName target) a

namespace ClassRules

variable {J : Aliases → Prop} {I : Aliases → String → String → Prop}

theorem advance (h : ClassRules c o J I) (ha : J a) (hcursor : I a cursor.aliasName cursor.className)
    (path segment : String) :
    (Aliases.advance c path o cursor segment).Ends
      (fun b => J b ∧ (c.property? cursor.className segment).bind (·.kind.target) = none)
      (fun next b => J b ∧ I b next.aliasName next.className ∧
        (c.property? cursor.className segment).bind (·.kind.target) = some next.className) a := by
  refine .ofReported_bind ?_
  split
  · rename_i target htarget
    obtain ⟨p, hp, hkind⟩ := Option.bind_eq_some_iff.mp htarget
    have hjoin := h.join ha hcursor hp
    rw [hkind] at hjoin
    refine (hjoin.mono (fun _ => False.elim) fun _ _ => id).bind fun aliasName u hu => ?_
    exact .pure ⟨hu.1, hu.2 target rfl, htarget⟩
  · rename_i hnone
    exact .fail ⟨ha, hnone⟩

theorem finish (h : ClassRules c o J I) (ha : J a) (hcursor : I a cursor.aliasName cursor.className)
    (segment : String) :
    (Aliases.finish c o cursor segment).Ends (fun _ => False) (fun _ => J) a := by
  refine .ofReported_bind ?_
  split
  · rename_i p hp
    split
    · exact (h.join ha hcursor hp).bind fun _ _ hu => .pure hu.1
    · exact .pure ha
  · exact .pure ha

/-- A path is followed to its end if all segments but the last one are associations, and fails
otherwise. -/
theorem follow (h : ClassRules c o J I) {a : Aliases} {path : String} {segments : List String}
    {cursor : Cursor} (ha : J a) (hcursor : I a cursor.aliasName cursor.className) :
    (Aliases.follow c path o cursor segments).Ends
      (fun b => J b ∧ ∀ reached, ¬c.LeadsTo cursor.className segments.dropLast reached)
      (fun _ b => J b ∧ ∃ reached, c.LeadsTo cursor.className segments.dropLast reached) a := by
  match segments with
  | [] => exact .pure ⟨ha, _, .here⟩
  | [last] =>
    exact (h.finish ha hcursor last).mono (fun _ => False.elim) fun _ _ hb => ⟨hb, _, .here⟩
  | segment :: last :: rest =>
    have hfurther :
        (do Aliases.follow c path o (← Aliases.advance c path o cursor segment) (last :: rest) :
          Step Aliases (String × List String)).Ends
        (fun b => J b ∧ ∀ reached,
          ¬c.LeadsTo cursor.className (segment :: last :: rest).dropLast reached)
        (fun _ b => J b ∧ ∃ reached,
          c.LeadsTo cursor.className (segment :: last :: rest).dropLast reached) a := by
      -- Either the first segment is no association, or the rest decides behind it.
      refine ((h.advance ha hcursor path segment).mono ?_ fun _ _ => id).bind fun next u hu => ?_
      · rintro b ⟨hb, hnone⟩
        refine ⟨hb, fun reached hleads => ?_⟩
        cases hleads with
        | further htarget =>
          rw [hnone] at htarget
          cases htarget
      · obtain ⟨hu, hnext, htarget⟩ := hu
        refine (h.follow hu hnext).mono ?_ ?_
        · rintro b ⟨hb, hnowhere⟩
          refine ⟨hb, fun reached hleads => ?_⟩
          cases hleads with
          | further htarget' hrest =>
            obtain rfl := Option.some.inj (htarget.symm.trans htarget')
            exact hnowhere reached hrest
        · rintro _ b ⟨hb, reached, hrest⟩
          exact ⟨hb, reached, .further htarget hrest⟩
    unfold Aliases.follow
    dsimp only
    split
    · rename_i hid
      rw [Bool.and_eq_true, List.isEmpty_iff] at hid
      obtain ⟨rfl, -⟩ := hid
      refine .ofReported_bind ?_
      generalize hp : (c.lookUp cursor.className segment).value = property
      change c.property? cursor.className segment = property at hp
      cases property with
      | none => exact hfurther
      | some p =>
        obtain ⟨name, column, nullable, unique, kind⟩ := p
        cases kind with
        | manyToOne target =>
          refine .pure ⟨ha, target, .further ?_ .here⟩
          rw [hp]
          rfl
        | scalar | oneToMany | scalarCollection => exact hfurther
    · exact hfurther
termination_by segments

/-- Where a path is resolved to a reference, all segments but the last one are associations. -/
theorem resolve (h : ClassRules c o J I) (ha : J a) (horigin : ∀ origin,
      a.origin? c (Path.parse path).inner = some origin →
        I a origin (a.originClass c (Path.parse path).inner)) :
    (Aliases.resolve c path o).Ends J (fun found b => J b ∧
      ((Path.parse path).inner ≠ "*" → ∀ reference ∈ found, ∃ reached,
        c.LeadsTo (a.originClass c (Path.parse path).inner)
          (c.pathSegments (Path.parse path).inner).dropLast reached)) a := by
  unfold Aliases.resolve
  dsimp only
  -- How the path is read does not matter, and is not to be unfolded.
  generalize Path.parse path = parsed at horigin ⊢
  split
  · rename_i hrows
    exact .pure ⟨ha, fun hne => absurd (beq_iff_eq.mp hrows) hne⟩
  · have hstarts := startOf_starts a c parsed.inner
    refine (hstarts.mono (fun u hu => hu ▸ ha) fun _ _ hs => hs).bind fun start u hstart => ?_
    obtain ⟨rfl, hstart, hfrom⟩ := hstart
    split
    · exact .pure ⟨ha, fun _ => by rintro _ ⟨⟩⟩
    · rename_i cursor segments
      obtain ⟨hclass, rfl⟩ := hfrom _ rfl
      have hcursor := horigin cursor.aliasName hstart.symm
      rw [← hclass] at hcursor ⊢
      refine ((h.follow ha hcursor).mono (fun _ hb => hb.1) fun _ _ => id).bind
        fun target b hb => .pure ⟨hb.1, fun _ => ?_⟩
      rintro _ ⟨⟩
      exact hb.2

end ClassRules

/-- Of aliases in general nothing else is to be said. -/
theorem classRules_trivial (c : Catalog) (o : Resolution) :
    ClassRules c o (fun _ => True) fun _ _ _ => True where
  join _ _ _ := joinSegment_ends_of (fun _ _ _ => ⟨trivial, fun _ _ => trivial⟩)
    (fun _ _ => ⟨trivial, fun _ _ => trivial⟩) fun _ _ _ => ⟨trivial, fun _ _ => trivial⟩

/-- Where a path is resolved to a reference, all segments but the last one are associations. -/
theorem leadsTo_of_resolve {reference : Reference} (hrows : (Path.parse path).inner ≠ "*")
    (h : (resolve c path o).Yields a (some reference) b) :
    ∃ reached, c.LeadsTo (a.originClass c (Path.parse path).inner)
      (c.pathSegments (Path.parse path).inner).dropLast reached := by
  have hends : (resolve c path o).Ends _ _ a :=
    (classRules_trivial c o).resolve trivial fun _ _ => trivial
  exact (hends.yields h).2 hrows reference rfl

/-! ## Paths without a class name -/

/-- Such a path starts from the alias of the innermost scope. -/
theorem startOf_of_currentAlias {inner x : String} (h : c.leadingClass? inner = none)
    (halias : a.currentAlias = some x) :
    ∃ cursor : Cursor, (startOf c inner).Yields a (some (cursor, Path.segments inner)) a ∧
      cursor.className = a.currentClass := by
  have hplain : ¬(Text.startsUpper (Path.head inner).1 && c.isKnown (Path.head inner).1) = true := by
    intro hclass
    rw [Catalog.leadingClass?, if_pos hclass] at h
    cases h
  obtain ⟨s, hs, hx⟩ := Option.bind_eq_some_iff.mp halias
  obtain ⟨kind, className, aliasName, rootClass, rootPath, joined⟩ := s
  cases hx
  refine ⟨⟨x, className, rootClass, rootPath⟩, yields_get_bind.mpr ?_, ?_⟩
  · dsimp only
    rw [if_neg hplain, hs]
    exact yields_pure.mpr ⟨rfl, rfl⟩
  · rw [currentClass, hs]
    rfl

/-- A path without a class name is resolved if all its segments but the last one are associations and
the scope has an alias. -/
theorem resolve_of_leadsTo (o : Resolution) {reached : String}
    (hclass : c.leadingClass? (Path.parse path).inner = none) (halias : a.currentAlias ≠ none)
    (hleads : c.LeadsTo a.currentClass (Path.segments (Path.parse path).inner).dropLast reached) :
    ∃ reference b, (resolve c path o).Yields a (some reference) b := by
  unfold resolve
  dsimp only
  split
  · exact ⟨_, _, yields_pure.mpr ⟨rfl, rfl⟩⟩
  · obtain ⟨x, hx⟩ := Option.ne_none_iff_exists'.mp halias
    obtain ⟨cursor, hstart, hcursor⟩ := startOf_of_currentAlias hclass hx
    rw [← hcursor] at hleads
    have hfollow : (follow c path o cursor (Path.segments (Path.parse path).inner)).Ends _ _ a :=
      (classRules_trivial c o).follow trivial trivial
    obtain ⟨target, b, hyields, -⟩ := hfollow.exists_yields fun _ hb => hb.2 reached hleads
    exact ⟨_, b, yields_bind.mpr ⟨_, _, hstart, yields_bind.mpr
      ⟨target, b, hyields, yields_pure.mpr ⟨rfl, rfl⟩⟩⟩⟩

/-- A path without a class name is resolved if its shape ends in a property and the scope has an
alias. -/
theorem resolve_of_terminal (o : Resolution)
    (hclass : c.leadingClass? (Path.parse path).inner = none) (halias : a.currentAlias ≠ none)
    (hterminal : (a.describe c path).value.terminal ≠ none) :
    ∃ reference b, (resolve c path o).Yields a (some reference) b := by
  obtain ⟨-, horigin, hsegments⟩ := a.origin_of_noLeadingClass hclass
  rw [describe_terminal, horigin, hsegments] at hterminal
  obtain ⟨kind, hkind⟩ := Option.ne_none_iff_exists'.mp hterminal
  obtain ⟨p, hp, -⟩ := Option.map_eq_some_iff.mp hkind
  obtain ⟨reached, hleads⟩ := Catalog.leadsTo_of_propertyAt hp
  exact resolve_of_leadsTo o hclass halias hleads

end Aliases

end ObjectQuery
