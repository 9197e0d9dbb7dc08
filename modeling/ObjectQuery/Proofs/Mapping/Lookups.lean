import ObjectQuery.Proofs.Compiler.Registry
import ObjectQuery.Proofs.Mapping.IndexFacts

/-!
# Properties of mappings and of catalogs

A mapping is asked for a property's name and nullability where the catalog is asked for its
declaration. The catalog gives the nearest declaration; so does the mapping, but for `id`, of which
it has the farthest.

* `Registry.outline`: what the mappings of a registry say about names and nullability.
* `Registry.outline_build`: annotations change nothing of it.
* `Registry.build_lookUp`: a property of a mapping and its declarations in the catalog.
* `Registry.describes_build`: there are facts about every property that a mapped class declares or
  inherits. Conventions about names are never asked for a declared property.
-/

namespace ObjectQuery

namespace ClassMapping

/-- The name and the nullability of the property with a key. -/
def outline (m : ClassMapping) (key : String) : Option (String × Bool) :=
  (m.properties.find? key).map fun facts => (facts.name, facts.nullable)

theorem outline_modifyKey (m : ClassMapping) (key : String) {change : PropertyFacts → PropertyFacts}
    (h : ∀ facts, (change facts).name = facts.name ∧ (change facts).nullable = facts.nullable) :
    (m.modifyKey key change).outline = m.outline := by
  funext other
  rw [outline, modifyKey, Dictionary.find?_modify, Option.map_map, outline]
  refine congrArg (Option.map · _) (funext fun facts => ?_)
  rw [Function.comp_apply]
  split
  · rw [(h facts).1, (h facts).2]
  · rfl

/-- An annotation adds to the facts about indexes only. -/
theorem outline_annotate (m : ClassMapping) (a : AnnotatedIndex) :
    (m.annotate a).value.outline = m.outline := by
  unfold annotate
  split
  · rw [Reported.value_bind]
    dsimp only
    split <;> rfl
  · split
    · rfl
    · -- Whether a mismatch is reported makes no difference.
      dsimp only
      split <;> split <;> exact m.outline_modifyKey _ fun _ => ⟨rfl, rfl⟩

theorem property?_of_outline {m : ClassMapping} {name : String} {said : String × Bool}
    (h : m.outline (Text.lowerCase name) = some said) :
    ∃ facts, m.property? name = some facts ∧ facts.name = said.1 ∧ facts.nullable = said.2 := by
  obtain ⟨facts, hfacts, rfl⟩ := Option.map_eq_some_iff.mp h
  exact ⟨facts, hfacts, rfl, rfl⟩

theorem outline_of_property? {m : ClassMapping} {name : String} {facts : PropertyFacts}
    (h : m.property? name = some facts) :
    m.outline (Text.lowerCase name) = some (facts.name, facts.nullable) := by
  rw [property?] at h
  rw [outline, h]
  rfl

/-- Neither do the indexes of the tables. -/
theorem outline_build (c : Catalog) (e : Entity) (key : String) :
    (build c e).value.outline key =
      (declaredFacts? (c.takenOver e.name) key).map fun facts => (facts.name, facts.nullable) := by
  rw [outline, find?_build, Option.map_map]
  rfl

end ClassMapping

namespace Registry

variable {c : Catalog} {r : Registry}

/-- The outlines of the mappings of a registry. -/
def outline (r : Registry) (className : String) : Option (String → Option (String × Bool)) :=
  (r.find? className).map ClassMapping.outline

/-- A mapping may be replaced by one that says the same. -/
theorem outline_setMapping {className : String} {m m' : ClassMapping}
    (hfind : r.find? className = some m) (hsame : m'.outline = m.outline) :
    (r.setMapping className m').outline = r.outline := by
  funext other
  rw [outline, find?, setMapping, Dictionary.find?_insert, outline]
  split
  · rename_i heq
    rw [heq, hfind, Option.map_some, Option.map_some, hsame]
  · rfl

theorem outline_annotateSubclass (a : AnnotatedIndex) (declared : List AnnotatedIndex)
    (r : Registry) (className : String) :
    (annotateSubclass a declared r className).value.outline = r.outline := by
  unfold annotateSubclass
  rw [Reported.value_bind]
  split
  · split
    · rfl
    · rename_i m hfind
      rw [Reported.value_bind]
      split
      · exact outline_setMapping hfind (m.outline_annotate a)
      · rfl
  · rfl

theorem outline_annotate (classNames : List String) (r : Registry) (a : AnnotatedIndex) :
    (annotate classNames r a).value.outline = r.outline := by
  unfold annotate
  split
  · exact Reported.foldlM_induction (P := fun r' => r'.outline = r.outline) rfl
      fun r' className _ h => (outline_annotateSubclass a _ r' className).trans h
  · split
    · rename_i m hfind
      exact outline_setMapping hfind (m.outline_annotate a)
    · rfl

/-- Annotations change nothing of what the mappings say about names and nullability. -/
theorem outline_build (c : Catalog) :
    (build c).value.outline = outline ⟨c, (mapClasses c).value⟩ :=
  Reported.foldlM_induction (P := fun r' => r'.outline = outline ⟨c, (mapClasses c).value⟩) rfl
    fun r' a _ h => (outline_annotate _ r' a).trans h

/-! ## The mapping of a class -/

/-- A dictionary in which the mappings of classes are entered one after the other. -/
theorem find?_insertAll (es : List Entity) (mappings : Dictionary String ClassMapping)
    (className : String) :
    Dictionary.find? className (es.foldlM (fun mappings e => do
        pure (mappings.insert e.name (← ClassMapping.build c e))) mappings : Reported _).value =
      ((es.reverse.find? (·.name == className)).map fun e => (ClassMapping.build c e).value).or
        (mappings.find? className) := by
  induction es generalizing mappings with
  | nil => rfl
  | cons e rest ih =>
    rw [List.foldlM_cons, Reported.value_bind, ih, List.reverse_cons, List.find?_append,
      Option.map_or, Option.or_assoc]
    congr 1
    rw [Reported.value_bind, Reported.value_pure, Dictionary.find?_insert]
    by_cases heq : e.name = className
    · simp [heq]
    · have hne : className ≠ e.name := fun h => heq h.symm
      simp [heq, hne]

/-- The mapping of a class is built from the last of its concrete declarations. -/
theorem find?_mapClasses (c : Catalog) (className : String) :
    (mapClasses c).value.find? className =
      ((c.entities.filter (!·.isAbstract)).reverse.find? (·.name == className)).map fun e =>
        (ClassMapping.build c e).value := by
  rw [mapClasses, find?_insertAll]
  exact Option.or_none

/-- Classes of different names are told apart by their names. -/
theorem eq_of_name_eq {es : List Entity} (h : (es.map (·.name)).Nodup) {e e' : Entity}
    (he : e ∈ es) (he' : e' ∈ es) (hname : e.name = e'.name) : e = e' := by
  induction es with
  | nil => cases he
  | cons first rest ih =>
    rw [List.map_cons, List.nodup_cons] at h
    obtain ⟨hfirst, hrest⟩ := h
    have hne : ∀ other ∈ rest, other.name ≠ first.name := fun other hother heq =>
      hfirst (List.mem_map.mpr ⟨other, hother, heq⟩)
    rcases List.mem_cons.mp he with rfl | hin <;> rcases List.mem_cons.mp he' with rfl | hin'
    · rfl
    · exact absurd hname.symm (hne e' hin')
    · exact absurd hname (hne e hin)
    · exact ih hrest hin hin'

theorem find?_mapClasses_of_mem {e : Entity} (hdistinct : (c.entities.map (·.name)).Nodup)
    (he : e ∈ c.entities) (hconcrete : e.isAbstract = false) :
    (mapClasses c).value.find? e.name = some (ClassMapping.build c e).value := by
  rw [find?_mapClasses]
  have hmem : e ∈ (c.entities.filter (!·.isAbstract)).reverse := by
    simp [he, hconcrete]
  cases hfind : (c.entities.filter (!·.isAbstract)).reverse.find? (·.name == e.name) with
  | none => exact absurd (List.find?_eq_none.mp hfind e hmem) (by simp)
  | some e' =>
    have he' := (List.mem_filter.mp (List.mem_reverse.mp (List.mem_of_find?_eq_some hfind))).1
    have hname : e'.name = e.name := 
      beq_iff_eq.mp (List.find?_some (p := fun x : Entity => x.name == e.name) hfind)
    rw [eq_of_name_eq hdistinct he' he hname]
    rfl

end Registry

/-! ## Lookups -/

namespace Catalog

/-- The farthest declaration of a property, own or inherited. -/
def farthest? (c : Catalog) (className name : String) : Option Property :=
  (c.declarations className).reverse.find? (·.name == name)

/-- No names of properties of a class and its superclasses differ in case only. -/
def HasDistinctKeys (c : Catalog) (className : String) : Prop :=
  ∀ p ∈ c.declarations className, ∀ q ∈ c.declarations className, p.key = q.key → p.name = q.name

instance (c : Catalog) (className : String) : Decidable (c.HasDistinctKeys className) :=
  inferInstanceAs (Decidable (∀ p ∈ _, ∀ q ∈ _, _ → _))

variable {c : Catalog} {className name : String} {p : Property}

/-- A declared property is then the only one with its key. -/
theorem HasDistinctKeys.filter (h : c.HasDistinctKeys className)
    (hp : p ∈ c.declarations className) :
    (c.declarations className).filter (·.key == p.key) =
      (c.declarations className).filter (·.name == p.name) := by
  refine List.filter_congr fun q hq => ?_
  rw [Bool.eq_iff_iff, beq_iff_eq, beq_iff_eq]
  exact ⟨h q hq p hp, fun hname => by rw [Property.key, Property.key, hname]⟩

theorem mem_of_property? (h : c.property? className name = some p) :
    p ∈ c.declarations className ∧ p.name = name := by
  rw [property?_eq] at h
  exact ⟨List.mem_of_find?_eq_some h,
    beq_iff_eq.mp (List.find?_some (p := fun q : Property => q.name == name) h)⟩

end Catalog

namespace ClassMapping

variable {c : Catalog} {e : Entity} {name : String}

/-- Of a declared property other than `id` a mapping says what its nearest declaration says. -/
theorem outline_build_nearest (hkeys : c.HasDistinctKeys e.name) {p : Property}
    (hp : c.property? e.name name = some p) (hid : Text.lowerCase name ≠ "id") :
    (build c e).value.outline (Text.lowerCase name) = some (p.name, p.nullable) := by
  obtain ⟨hmem, rfl⟩ := Catalog.mem_of_property? hp
  have hnearest : lastWith (Text.lowerCase p.name) (c.takenOver e.name) = some p := by
    rw [Catalog.takenOver, lastWith_takenOver hid, ← List.head?_filter, ← Property.key,
      hkeys.filter hmem, List.head?_filter, ← Catalog.property?_eq, hp]
  rw [outline_build, declaredFacts?, hnearest]
  rfl

/-- Of a declared `id` a mapping says what its farthest declaration says. -/
theorem outline_build_farthest (hkeys : c.HasDistinctKeys e.name) {p : Property}
    (hp : c.property? e.name name = some p) (hid : Text.lowerCase name = "id") :
    ∃ q, c.farthest? e.name name = some q ∧
      (build c e).value.outline (Text.lowerCase name) = some (p.name, q.nullable) := by
  obtain ⟨hmem, rfl⟩ := Catalog.mem_of_property? hp
  have hlast : lastWith "id" (c.takenOver e.name) = c.farthest? e.name p.name := by
    rw [Catalog.takenOver, lastWith_takenOver_id, lastWith_eq_getLast?, ← hid]
    rw [← Property.key, hkeys.filter hmem, Catalog.farthest?, ← List.head?_filter,
      List.filter_reverse, List.head?_reverse]
  obtain ⟨q, hq⟩ : ∃ q, c.farthest? e.name p.name = some q := by
    rw [← Option.isSome_iff_exists, Catalog.farthest?, List.find?_isSome]
    exact ⟨p, List.mem_reverse.mpr hmem, beq_self_eq_true _⟩
  have hname : q.name = p.name :=
    beq_iff_eq.mp (List.find?_some (p := fun x : Property => x.name == p.name) hq)
  refine ⟨q, hq, ?_⟩
  rw [outline_build, declaredFacts?, hid, hlast, hq, ← hname]
  rfl

/-- What a mapping says of a property that is not declared: that of one whose name differs in case,
or that of the `id` that every class has. -/
theorem outline_build_undeclared {said : String × Bool} (hp : c.property? e.name name = none)
    (hsaid : (build c e).value.outline (Text.lowerCase name) = some said) :
    (∃ p ∈ c.declarations e.name,
        said.1 = p.name ∧ p.name ≠ name ∧ p.key = Text.lowerCase name) ∨
      (Text.lowerCase name = "id" ∧ said = ("id", true)) := by
  rw [outline_build, Option.map_eq_some_iff] at hsaid
  obtain ⟨facts, hfacts, rfl⟩ := hsaid
  rw [declaredFacts?, Option.or_eq_some_iff, Option.map_eq_some_iff] at hfacts
  rcases hfacts with ⟨p, hlast, rfl⟩ | ⟨-, himplicit⟩
  · obtain ⟨htaken, hkey⟩ := lastWith_eq_some hlast
    have hmem := (takenOver_sublist _ _).subset htaken
    refine .inl ⟨p, hmem, rfl, fun hname => ?_, hkey⟩
    rw [Catalog.property?_eq] at hp
    exact List.find?_eq_none.mp hp p hmem (beq_iff_eq.mpr hname)
  · split at himplicit
    · rename_i hid
      cases himplicit
      exact .inr ⟨hid, rfl⟩
    · cases himplicit

end ClassMapping

namespace Registry

/-- What the mapping of a class has of a property, and what the catalog declares of it. The name and
the nullability are those of the nearest declaration, but of `id` those of the farthest. -/
theorem build_lookUp {c : Catalog} {e : Entity} (hdistinct : (c.entities.map (·.name)).Nodup)
    (he : e ∈ c.entities) (hconcrete : e.isAbstract = false) (hkeys : c.HasDistinctKeys e.name) :
    ∃ m, (build c).value.find? e.name = some m ∧ ∀ name,
      (∀ p, c.property? e.name name = some p →
        ∃ facts, m.property? name = some facts ∧ facts.name = p.name ∧
          (Text.lowerCase name ≠ "id" → facts.nullable = p.nullable) ∧
          (Text.lowerCase name = "id" →
            ∃ q, c.farthest? e.name name = some q ∧ facts.nullable = q.nullable)) ∧
      (c.property? e.name name = none → ∀ facts, m.property? name = some facts →
        (∃ p ∈ c.declarations e.name,
          facts.name = p.name ∧ p.name ≠ name ∧ p.key = Text.lowerCase name) ∨
        (Text.lowerCase name = "id" ∧ facts.name = "id" ∧ facts.nullable = true)) := by
  have hbuilt : (build c).value.outline e.name =
      some (ClassMapping.build c e).value.outline := by
    rw [outline_build, outline, find?, find?_mapClasses_of_mem hdistinct he hconcrete]
    rfl
  obtain ⟨m, hfind, hm⟩ := Option.map_eq_some_iff.mp hbuilt
  refine ⟨m, hfind, fun name => ⟨fun p hp => ?_, fun hp facts hfacts => ?_⟩⟩
  · by_cases hid : Text.lowerCase name = "id"
    · obtain ⟨q, hq, hsaid⟩ := ClassMapping.outline_build_farthest hkeys hp hid
      rw [← hm] at hsaid
      obtain ⟨facts, hfacts, hname, hnullable⟩ := ClassMapping.property?_of_outline hsaid
      exact ⟨facts, hfacts, hname, absurd hid, fun _ => ⟨q, hq, hnullable⟩⟩
    · have hsaid := ClassMapping.outline_build_nearest hkeys hp hid
      rw [← hm] at hsaid
      obtain ⟨facts, hfacts, hname, hnullable⟩ := ClassMapping.property?_of_outline hsaid
      exact ⟨facts, hfacts, hname, fun _ => hnullable, fun h => absurd h hid⟩
  · have hsaid := ClassMapping.outline_of_property? hfacts
    rw [hm] at hsaid
    rcases ClassMapping.outline_build_undeclared hp hsaid with hother | ⟨hid, heq⟩
    · exact .inl hother
    · exact .inr ⟨hid, congrArg Prod.fst heq, congrArg Prod.snd heq⟩

/-- Identities, which declare that they have an `id`. -/
def identitiesWithId : Entity :=
  { name := "Identity", table := "spt_identity", superclass := "SailPointObject"
    properties := [{ name := "id", nullable := false }, { name := "name" }] }

/-- A superclass that declares `id` too. -/
def objectsWithId : Entity :=
  { name := "SailPointObject", table := "spt_object", isAbstract := true
    properties := [{ name := "id" }, { name := "name", nullable := false }] }

/-- The declaration of a superclass stays for `id`, but not for other properties. -/
theorem build_lookUp_declaredTwice :
    let c : Catalog := { entities := [objectsWithId, identitiesWithId] }
    ((c.entities.map (·.name)).Nodup ∧ identitiesWithId ∈ c.entities ∧
        identitiesWithId.isAbstract = false ∧ c.HasDistinctKeys "Identity") ∧
      ∃ m, (build c).value.find? "Identity" = some m ∧
        ((c.property? "Identity" "id").map (·.nullable) = some false ∧
          ∃ facts, m.property? "id" = some facts ∧ facts.nullable = true) ∧
        ((c.property? "Identity" "name").map (·.nullable) = some true ∧
          ∃ facts, m.property? "name" = some facts ∧ facts.nullable = true) := by
  intro c
  have hdistinct : (c.entities.map (·.name)).Nodup := by decide
  have hmem : identitiesWithId ∈ c.entities := by decide
  have hkeys : c.HasDistinctKeys "Identity" := by decide +kernel
  obtain ⟨m, hfind, hlookUp⟩ := build_lookUp hdistinct hmem rfl hkeys
  have hid : Text.lowerCase "id" = "id" := by decide +kernel
  have hname : Text.lowerCase "name" ≠ "id" := by decide +kernel
  refine ⟨⟨hdistinct, hmem, rfl, hkeys⟩, m, hfind, ⟨rfl, ?_⟩, ⟨rfl, ?_⟩⟩
  · obtain ⟨facts, hfacts, -, -, hfarthest⟩ :=
      (hlookUp "id").1 { name := "id", nullable := false } rfl
    obtain ⟨q, hq, hnullable⟩ := hfarthest hid
    have hobject : c.farthest? "Identity" "id" = some { name := "id" } := rfl
    obtain rfl := Option.some.inj (hobject.symm.trans hq)
    exact ⟨facts, hfacts, hnullable⟩
  · obtain ⟨facts, hfacts, -, hnearest, -⟩ := (hlookUp "name").1 { name := "name" } rfl
    exact ⟨facts, hfacts, hnearest hname⟩

end Registry

/-! ## Facts about declared properties -/

namespace ClassMapping

/-- The mapping has facts about all properties that the class declares or inherits. -/
def Describes (c : Catalog) (className : String) (m : ClassMapping) : Prop :=
  ∀ name, (c.property? className name).isSome = true → (m.property? name).isSome = true

/-- Whether there are facts about a property is seen from the outline. -/
theorem Describes.of_outline {c : Catalog} {className : String} {m m' : ClassMapping}
    (h : m.Describes c className) (hsame : m'.outline = m.outline) : m'.Describes c className := by
  intro name hname
  obtain ⟨facts, hfacts⟩ := Option.isSome_iff_exists.mp (h name hname)
  have hsaid := outline_of_property? hfacts
  rw [← hsame] at hsaid
  obtain ⟨facts', hfacts', -⟩ := property?_of_outline hsaid
  rw [hfacts']
  rfl

/-- A mapping is built from the declarations of the class and its superclasses. -/
theorem describes_build (c : Catalog) (e : Entity) : (build c e).value.Describes c e.name := by
  intro name hname
  obtain ⟨p, hp⟩ := Option.isSome_iff_exists.mp hname
  obtain ⟨hmem, rfl⟩ := Catalog.mem_of_property? hp
  rw [property?, find?_build, Option.isSome_map, declaredFacts?]
  by_cases hid : Text.lowerCase p.name = "id"
  · simp [hid]
  · have hdeclared : (lastWith (Text.lowerCase p.name) (c.takenOver e.name)).isSome = true := by
      rw [Catalog.takenOver, lastWith_takenOver hid, List.find?_isSome]
      exact ⟨p, hmem, beq_self_eq_true _⟩
    simp [hdeclared]

end ClassMapping

namespace Registry

/-- The registry of a catalog has facts about every property of a mapped class. -/
theorem describes_build (c : Catalog) (className : String) (m : ClassMapping)
    (hfind : (build c).value.find? className = some m) : m.Describes c className := by
  have hbuilt := congrFun (outline_build c) className
  rw [outline, outline, hfind, find?, find?_mapClasses, Option.map_map] at hbuilt
  obtain ⟨e, he, hsame⟩ := Option.map_eq_some_iff.mp hbuilt.symm
  obtain rfl := beq_iff_eq.mp (List.find?_some (p := fun x : Entity => x.name == className) he)
  exact (ClassMapping.describes_build c e).of_outline hsame.symm

end Registry

end ObjectQuery
