import ObjectQuery.Proofs.Compiler.Registry
import ObjectQuery.Proofs.Mapping.Lookups

/-!
# Annotated mappings

An annotation marks the property that it names in the mappings of the classes that it reaches: the
annotated class itself, or all its subclasses that have the properties of every annotation declared
there. Marks are only ever added, so that it does not matter in which order and how often.

* `ClassMapping.annotated`: a mapping with the marks of some annotations.
* `Catalog.reaches`: whether an annotation reaches a class with some mapping.
* `Registry.find?_build`: the mappings of a registry are those of the classes with the marks of the
  annotations that reach them.
* `Registry.build_annotated`: the facts of a property, from the annotations of the catalog.
-/

namespace ObjectQuery

/-- Whether an annotation names the property with a key. -/
def AnnotatedIndex.names (a : AnnotatedIndex) (key : String) : Bool :=
  a.propertyName?.map Text.lowerCase == some key

/-- The annotation names the property. Case does not matter. -/
def AnnotatedIndex.Names (a : AnnotatedIndex) (property : String) : Prop :=
  ∃ name, a.propertyName? = some name ∧ Text.lowerCase name = Text.lowerCase property

theorem AnnotatedIndex.names_iff {a : AnnotatedIndex} {property : String} :
    a.names (Text.lowerCase property) = true ↔ a.Names property := by
  rw [names, beq_iff_eq, Option.map_eq_some_iff]
  exact Iff.rfl

namespace Dictionary

variable {α : Type}

/-- Values that are changed according to their keys. -/
theorem find?_map_value (change : String → α → α) (key : String) (entries : Dictionary String α) :
    find? key (entries.map fun (k, a) => (k, change k a)) =
      (find? key entries).map (change key) := by
  induction entries with
  | nil => rfl
  | cons entry rest ih =>
    obtain ⟨k, a⟩ := entry
    rw [List.map_cons, find?, find?, ih]
    by_cases hk : k = key
    · subst hk
      simp
    · simp [hk]

/-- A change of values that agrees with another one on the keys that are there. -/
theorem modify_eq_map {key : String} {change : α → α} {marked : String → α → α}
    {entries : Dictionary String α} (hself : marked key = change)
    (hother : ∀ other, other ≠ key → marked other = id) :
    entries.modify key change = entries.map fun (k, a) => (k, marked k a) := by
  refine List.map_congr_left fun entry _ => ?_
  obtain ⟨k, a⟩ := entry
  dsimp only
  by_cases hk : k = key
  · rw [if_pos hk, hk, hself]
  · rw [if_neg hk, hother k hk]
    rfl

theorem isSome_find?_iff {key : String} {entries : Dictionary String α} :
    (find? key entries).isSome = true ↔ key ∈ entries.map (·.1) := by
  induction entries with
  | nil => simp [find?]
  | cons entry rest ih =>
    obtain ⟨k, a⟩ := entry
    rw [find?, List.map_cons, List.mem_cons, ← ih]
    by_cases hk : k = key
    · simp [hk]
    · simp [hk, show ¬ key = k from fun h => hk h.symm]

end Dictionary

namespace ClassMapping

/-! ## One mapping -/

/-- The facts of the property with a key, with the marks of some annotations. -/
def withAnnotations (as : List AnnotatedIndex) (key : String) (facts : PropertyFacts) :
    PropertyFacts :=
  { facts with
    isAnnotated := facts.isAnnotated || as.any (·.names key)
    insensitivelyAnnotated := facts.insensitivelyAnnotated ||
      as.any fun a => a.names key && !a.caseSensitive }

/-- A mapping with the marks of some annotations. -/
def annotated (m : ClassMapping) (as : List AnnotatedIndex) : ClassMapping :=
  { m with properties := m.properties.map fun (key, facts) => (key, withAnnotations as key facts) }

variable {m : ClassMapping} {as bs : List AnnotatedIndex}

theorem isAnnotated_withAnnotations {property : String} {facts : PropertyFacts} :
    (withAnnotations as (Text.lowerCase property) facts).isAnnotated = true ↔
      facts.isAnnotated = true ∨ ∃ a ∈ as, a.Names property := by
  simp only [withAnnotations, Bool.or_eq_true, List.any_eq_true, AnnotatedIndex.names_iff]

theorem insensitivelyAnnotated_withAnnotations {property : String} {facts : PropertyFacts} :
    (withAnnotations as (Text.lowerCase property) facts).insensitivelyAnnotated = true ↔
      facts.insensitivelyAnnotated = true ∨
        ∃ a ∈ as, a.Names property ∧ a.caseSensitive = false := by
  simp only [withAnnotations, Bool.or_eq_true, Bool.and_eq_true, Bool.not_eq_true',
    List.any_eq_true, AnnotatedIndex.names_iff]

theorem property?_annotated (m : ClassMapping) (as : List AnnotatedIndex) (name : String) :
    (m.annotated as).property? name =
      (m.property? name).map (withAnnotations as (Text.lowerCase name)) :=
  Dictionary.find?_map_value (withAnnotations as) (Text.lowerCase name) m.properties

theorem isSome_property?_annotated (m : ClassMapping) (as : List AnnotatedIndex) (name : String) :
    ((m.annotated as).property? name).isSome = (m.property? name).isSome := by
  rw [property?_annotated, Option.isSome_map]

/-- What is marked already stays as it is. -/
theorem annotated_of_forall
    (h : ∀ entry ∈ m.properties, withAnnotations as entry.1 entry.2 = entry.2) :
    m.annotated as = m := by
  have hsame : m.properties.map (fun (key, facts) => (key, withAnnotations as key facts)) =
      m.properties := by
    refine (List.map_congr_left fun entry hentry => ?_).trans (List.map_id m.properties)
    exact Prod.ext rfl (h entry hentry)
  rw [annotated, hsame]

theorem annotated_nil (m : ClassMapping) : m.annotated [] = m :=
  annotated_of_forall fun _ _ => by simp [withAnnotations]

theorem annotated_append (m : ClassMapping) (as bs : List AnnotatedIndex) :
    (m.annotated as).annotated bs = m.annotated (as ++ bs) := by
  simp only [annotated, List.map_map]
  congr 1
  refine List.map_congr_left fun entry _ => ?_
  simp [withAnnotations, Bool.or_assoc]

/-- Only which annotations there are matters, not their order or repetition. -/
theorem annotated_congr (m : ClassMapping) (h : ∀ a, a ∈ as ↔ a ∈ bs) :
    m.annotated as = m.annotated bs := by
  have hany : ∀ test : AnnotatedIndex → Bool, as.any test = bs.any test := by
    intro test
    rw [Bool.eq_iff_iff, List.any_eq_true, List.any_eq_true]
    exact exists_congr fun a => and_congr_left fun _ => h a
  have hmarks : withAnnotations as = withAnnotations bs := by
    funext key facts
    simp only [withAnnotations, hany]
  rw [annotated, annotated, hmarks]

/-- An annotation that names nothing in a mapping leaves it as it is. -/
theorem annotated_of_unnamed {a : AnnotatedIndex}
    (h : ∀ entry ∈ m.properties, a.names entry.1 = false) : m.annotated [a] = m :=
  annotated_of_forall fun entry hentry => by simp [withAnnotations, h entry hentry]

/-- A name that a mapping does not have is the name of none of its properties. -/
theorem ne_key_of_property?_eq_none {name : String} (hmissing : m.property? name = none) :
    ∀ entry ∈ m.properties, Text.lowerCase name ≠ entry.1 := by
  intro entry hentry hkey
  have hfound := Dictionary.isSome_find?_iff.mpr (List.mem_map_of_mem (f := (·.1)) hentry)
  rw [← hkey, ← property?, hmissing] at hfound
  cases hfound

/-- The mark that an annotation adds to the property that it names. -/
theorem modifyProperty_eq_annotated {a : AnnotatedIndex} {name : String}
    (hnames : ∀ key, a.names key = (Text.lowerCase name == key)) :
    m.modifyProperty name (fun facts =>
      { facts with
        isAnnotated := true
        insensitivelyAnnotated := facts.insensitivelyAnnotated || !a.caseSensitive }) =
      m.annotated [a] := by
  rw [modifyProperty, modifyKey, annotated]
  congr 1
  refine Dictionary.modify_eq_map ?_ fun other hother => ?_
  · funext facts
    simp [withAnnotations, hnames]
  · funext facts
    have hne : (Text.lowerCase name == other) = false :=
      beq_eq_false_iff_ne.mpr fun h => hother h.symm
    simp [withAnnotations, hnames, hne]

/-- An annotation adds its mark, whatever it has to report. -/
theorem value_annotate (m : ClassMapping) (a : AnnotatedIndex) :
    (m.annotate a).value = m.annotated [a] := by
  unfold annotate
  split
  · rename_i hnone
    have hunnamed : ∀ key, a.names key = false := fun key => by
      rw [AnnotatedIndex.names, hnone]
      rfl
    rw [annotated_of_unnamed fun entry _ => hunnamed entry.1, Reported.value_bind]
    split <;> rfl
  · rename_i name hname
    have hnames : ∀ key, a.names key = (Text.lowerCase name == key) := fun key => by
      rw [AnnotatedIndex.names, hname]
      rfl
    split
    · rename_i hmissing
      rw [annotated_of_unnamed fun entry hentry => by
        rw [hnames]
        exact beq_eq_false_iff_ne.mpr (ne_key_of_property?_eq_none hmissing entry hentry)]
      rfl
    · -- What is reported makes no difference.
      dsimp only
      split <;> split <;> exact modifyProperty_eq_annotated hnames

theorem hasIndexProperties_iff (m : ClassMapping) (as : List AnnotatedIndex) :
    (m.hasIndexProperties as).value = true ↔
      ∀ a ∈ as, ∀ name, a.propertyName? = some name → (m.property? name).isSome = true := by
  induction as with
  | nil => simp [hasIndexProperties]
  | cons a rest ih =>
    rw [hasIndexProperties, List.forall_mem_cons, ← ih]
    cases hname : a.propertyName? with
    | none => simp
    | some name =>
      dsimp only
      split
      · rename_i hfound
        simp [hfound]
      · rename_i hmissing
        rw [Reported.value_bind]
        simp [hmissing]

end ClassMapping

/-! ## Which classes an annotation reaches -/

namespace Catalog

/-- The annotation is declared for the class alone; or for subclasses, of which the class is one,
and the class has every property that an annotation on the annotated class names. -/
def DeclaresFor (c : Catalog) (a : AnnotatedIndex) (className : String) (m : ClassMapping) : Prop :=
  (a.subClasses = false ∧ a.className = className) ∨
    (a.subClasses = true ∧ c.isAssignable a.className className = true ∧
      ∀ b ∈ c.annotations, b.className = a.className →
        ∀ name, b.propertyName? = some name → (m.property? name).isSome = true)

/-- Whether an annotation reaches a class with a mapping. -/
def reaches (c : Catalog) (className : String) (m : ClassMapping) (a : AnnotatedIndex) : Bool :=
  if a.subClasses then
    c.isAssignable a.className className &&
      (m.hasIndexProperties (c.annotations.filter (·.className == a.className))).value
  else a.className == className

theorem reaches_iff {c : Catalog} {className : String} {m : ClassMapping} {a : AnnotatedIndex} :
    c.reaches className m a = true ↔ c.DeclaresFor a className m := by
  unfold reaches DeclaresFor
  cases a.subClasses with
  | false => simp
  | true =>
    rw [if_pos rfl, Bool.and_eq_true, ClassMapping.hasIndexProperties_iff]
    simp only [List.mem_filter, beq_iff_eq, and_imp, reduceCtorEq, false_and, false_or, true_and]

theorem mem_reaching {c : Catalog} {className : String} {m : ClassMapping} {a : AnnotatedIndex} :
    a ∈ c.annotations.filter (c.reaches className m) ↔
      a ∈ c.annotations ∧ c.DeclaresFor a className m := by
  rw [List.mem_filter, reaches_iff]

theorem declaresFor_annotated {c : Catalog} {a : AnnotatedIndex} {className : String}
    {m : ClassMapping} {as : List AnnotatedIndex} :
    c.DeclaresFor a className (m.annotated as) ↔ c.DeclaresFor a className m := by
  simp only [DeclaresFor, ClassMapping.isSome_property?_annotated]

/-- Marks do not change which annotations reach the class. -/
theorem reaches_annotated (c : Catalog) (className : String) (m : ClassMapping)
    (as : List AnnotatedIndex) : c.reaches className (m.annotated as) = c.reaches className m := by
  funext a
  rw [Bool.eq_iff_iff, reaches_iff, reaches_iff, declaresFor_annotated]

/-- Superclasses are declared by the classes alone. -/
theorem chain_withAnnotations (c : Catalog) (as : List AnnotatedIndex) (depth : Nat)
    (e : Option Entity) : { c with annotations := as }.chain depth e = c.chain depth e := by
  induction depth generalizing e with
  | zero => rfl
  | succ depth ih =>
    cases e with
    | none => rfl
    | some e => exact congrArg (e :: ·) (ih _)

theorem lineage_withAnnotations (c : Catalog) (as : List AnnotatedIndex) :
    { c with annotations := as }.lineage = c.lineage :=
  funext fun className => c.chain_withAnnotations as maxDepth (c.entity? className)

/-- So are the facts that indexes and unique columns give. -/
theorem build_withAnnotations (c : Catalog) (as : List AnnotatedIndex) (e : Entity) :
    (ClassMapping.build { c with annotations := as } e).value = (ClassMapping.build c e).value := by
  simp only [ClassMapping.build, walk, Reported.value_bind, lineage_withAnnotations]

/-- Annotations with the same members reach the same classes. -/
theorem reaches_congr {c : Catalog} {as : List AnnotatedIndex}
    (h : ∀ a, a ∈ as ↔ a ∈ c.annotations) (className : String) (m : ClassMapping) :
    { c with annotations := as }.reaches className m = c.reaches className m := by
  funext a
  rw [Bool.eq_iff_iff, reaches_iff, reaches_iff]
  simp only [DeclaresFor, h, isAssignable, lineage_withAnnotations]

end Catalog

/-! ## The registry -/

namespace Registry

variable {c : Catalog}

theorem find?_mapClasses_withAnnotations (c : Catalog) (as : List AnnotatedIndex)
    (className : String) :
    (mapClasses { c with annotations := as }).value.find? className =
      (mapClasses c).value.find? className := by
  rw [find?_mapClasses, find?_mapClasses]
  simp only [Catalog.build_withAnnotations]

/-- A mapping in place of the one that a class has. -/
theorem find?_setMapping {r : Registry} {name : String} {m m' : ClassMapping}
    {change : ClassMapping → ClassMapping} (hfind : r.find? name = some m) (hm : m' = change m)
    (className : String) :
    (r.setMapping name m').find? className =
      if className = name then (r.find? className).map change else r.find? className := by
  rw [find?, setMapping, Dictionary.find?_insert]
  split
  · rename_i heq
    rw [heq, hfind, Option.map_some, hm]
  · rfl

/-- The mapping of a class that is not there, or that stays as it is. -/
theorem find?_unchanged {r : Registry} {name : String} {change : ClassMapping → ClassMapping}
    (h : ∀ m, r.find? name = some m → change m = m) (className : String) :
    r.find? className =
      if className = name then (r.find? className).map change else r.find? className := by
  split
  · rename_i heq
    rw [heq]
    cases hfind : r.find? name with
    | none => rfl
    | some m => rw [Option.map_some, h m hfind]
  · rfl

/-- A class gets the mark of an annotation that reaches it. -/
def marked (c : Catalog) (a : AnnotatedIndex) (className : String) (m : ClassMapping) :
    ClassMapping :=
  m.annotated ([a].filter (c.reaches className m))

/-- A second mark of the same annotation changes nothing. -/
theorem marked_marked (c : Catalog) (a : AnnotatedIndex) (className : String) (m : ClassMapping) :
    marked c a className (marked c a className m) = marked c a className m := by
  rw [marked, marked, Catalog.reaches_annotated, ClassMapping.annotated_append]
  exact ClassMapping.annotated_congr m fun b => by rw [List.mem_append, or_self]

theorem marked_of_reaches {a : AnnotatedIndex} {className : String} {m : ClassMapping}
    (h : c.reaches className m a = true) : marked c a className m = m.annotated [a] := by
  rw [marked, List.filter_cons_of_pos h, List.filter_nil]

theorem marked_of_not_reaches {a : AnnotatedIndex} {className : String} {m : ClassMapping}
    (h : c.reaches className m a = false) : marked c a className m = m := by
  rw [marked, List.filter_cons_of_neg (by simp [h]), List.filter_nil, ClassMapping.annotated_nil]

/-- An annotation that does not reach subclasses marks the mapping of its own class. -/
theorem map_marked_of_own {a : AnnotatedIndex} (ha : ¬a.subClasses = true) (className : String)
    (found : Option ClassMapping) :
    found.map (marked c a className) =
      if className = a.className then found.map (marked c a a.className) else found := by
  split
  · rename_i heq
    rw [heq]
  · rename_i hne
    have hreaches : ∀ m, c.reaches className m a = false := fun m =>
      (if_neg ha).trans (beq_eq_false_iff_ne.mpr fun h => hne h.symm)
    rw [show marked c a className = id from funext fun m => marked_of_not_reaches (hreaches m),
      Option.map_id, id]

section

variable {r : Registry} (hr : r.Covers c) (a : AnnotatedIndex)

include hr

/-- One step of the walk over the subclasses. -/
theorem find?_annotateSubclass (ha : a.subClasses = true) (name className : String) :
    (annotateSubclass a (c.annotations.filter (·.className == a.className)) r name).value.find?
        className =
      if className = name then (r.find? className).map (marked c a name)
      else r.find? className := by
  have hreaches : ∀ m, c.reaches name m a = (c.isAssignable a.className name &&
      (m.hasIndexProperties (c.annotations.filter (·.className == a.className))).value) :=
    fun m => if_pos ha
  unfold annotateSubclass
  rw [hr.catalog, Reported.value_bind,
    show (c.checkAssignable a.className name).value = c.isAssignable a.className name from rfl]
  cases hassignable : c.isAssignable a.className name with
  | false =>
    exact find?_unchanged (fun m _ => marked_of_not_reaches (by simp [hreaches, hassignable]))
      className
  | true =>
    rw [if_pos rfl]
    split
    · rename_i hnone
      exact find?_unchanged (fun m hfind => by simp [hnone] at hfind) className
    · rename_i m hfind
      rw [Reported.value_bind]
      split
      · rename_i hhas
        refine find?_setMapping hfind ?_ className
        rw [marked_of_reaches (by rw [hreaches, hassignable, hhas]; rfl)]
        exact m.value_annotate a
      · rename_i hlacks
        refine find?_unchanged (fun m' hfind' => ?_) className
        obtain rfl := Option.some.inj (hfind.symm.trans hfind')
        exact marked_of_not_reaches (by simp [hreaches, hlacks])

/-- The walk over the subclasses marks each class, once or more. -/
theorem find?_annotateSubclasses (ha : a.subClasses = true) (names : List String)
    (className : String) :
    (names.foldlM (annotateSubclass a (c.annotations.filter (·.className == a.className)))
        r).value.find? className =
      if className ∈ names then (r.find? className).map (marked c a className)
      else r.find? className := by
  induction names generalizing r with
  | nil => rfl
  | cons name rest ih =>
    rw [List.foldlM_cons, Reported.value_bind, ih (hr.annotateSubclass a _ name),
      find?_annotateSubclass hr a ha name className]
    by_cases hname : className = name
    · subst hname
      have htwice : marked c a className ∘ marked c a className = marked c a className :=
        funext fun m => marked_marked c a className m
      simp [htwice]
    · simp [hname]

/-- An annotation marks every mapped class that it reaches. -/
theorem find?_annotate {names : List String}
    (hnames : ∀ className, (r.find? className).isSome = true → className ∈ names)
    (className : String) :
    (annotate names r a).value.find? className =
      (r.find? className).map (marked c a className) := by
  unfold annotate
  split
  · rename_i ha
    rw [hr.catalog, find?_annotateSubclasses hr a ha names className]
    by_cases hmem : className ∈ names
    · rw [if_pos hmem]
    · have hnone : r.find? className = none :=
        Option.not_isSome_iff_eq_none.mp fun h => hmem (hnames className h)
      rw [if_neg hmem, hnone]
      rfl
  · rename_i ha
    rw [map_marked_of_own ha className]
    split
    · rename_i m hfind
      refine find?_setMapping hfind ?_ className
      have hself : c.reaches a.className m a = true := by simp [Catalog.reaches, ha]
      rw [marked_of_reaches hself]
      exact m.value_annotate a
    · rename_i hnone
      refine find?_unchanged (r := r) (fun m hfind => ?_) className
      rw [hnone] at hfind
      cases hfind

end

/-- Annotations mark a mapping one after the other. What they mark changes nothing of which of them
reach the class. -/
theorem find?_annotateAll {r : Registry} (hr : r.Covers c) {names : List String}
    (hnames : ∀ className, (r.find? className).isSome = true → className ∈ names)
    (as : List AnnotatedIndex) (className : String) :
    (as.foldlM (annotate names) r).value.find? className =
      (r.find? className).map fun m => m.annotated (as.filter (c.reaches className m)) := by
  induction as generalizing r with
  | nil =>
    have hsame : (fun m : ClassMapping => m.annotated []) = id := funext ClassMapping.annotated_nil
    show r.find? className = (r.find? className).map fun m => m.annotated []
    rw [hsame, Option.map_id, id]
  | cons a rest ih =>
    have hfind := find?_annotate hr a hnames
    have hnames' : ∀ other, ((annotate names r a).value.find? other).isSome = true →
        other ∈ names := by
      intro other hother
      rw [hfind, Option.isSome_map] at hother
      exact hnames other hother
    rw [List.foldlM_cons, Reported.value_bind, ih (hr.annotate names a) hnames', hfind,
      Option.map_map]
    refine congrArg (Option.map · _) (funext fun m => ?_)
    rw [Function.comp_apply, marked, Catalog.reaches_annotated, ClassMapping.annotated_append,
      ← List.filter_append]
    rfl

/-- The mappings of a registry are those of the classes, with the marks of the annotations that
reach them. -/
theorem find?_build (c : Catalog) (className : String) :
    (build c).value.find? className =
      ((mapClasses c).value.find? className).map fun m =>
        m.annotated (c.annotations.filter (c.reaches className m)) := by
  refine find?_annotateAll (covers_mapClasses c) (fun name hname => ?_) c.annotations className
  exact (List.mem_mergeSort ..).mpr (Dictionary.isSome_find?_iff.mp hname)

/-- Without annotations nothing is marked. -/
theorem not_marked_of_mapClasses {className : String} {m : ClassMapping}
    (hfind : (mapClasses c).value.find? className = some m) {name : String} {facts : PropertyFacts}
    (hfacts : m.property? name = some facts) :
    facts.isAnnotated = false ∧ facts.insensitivelyAnnotated = false := by
  rw [find?_mapClasses, Option.map_eq_some_iff] at hfind
  obtain ⟨e, -, rfl⟩ := hfind
  rw [ClassMapping.property?, ClassMapping.find?_build, Option.map_eq_some_iff] at hfacts
  obtain ⟨declared, hdeclared, rfl⟩ := hfacts
  have hplain : declared.isAnnotated = false ∧ declared.insensitivelyAnnotated = false := by
    rw [ClassMapping.declaredFacts?, Option.or_eq_some_iff, Option.map_eq_some_iff] at hdeclared
    rcases hdeclared with ⟨p, -, rfl⟩ | ⟨-, himplicit⟩
    · exact ⟨rfl, rfl⟩
    · split at himplicit <;> cases himplicit
      exact ⟨rfl, rfl⟩
  exact hplain

theorem find?_build_withoutAnnotations (c : Catalog) (className : String) :
    (build { c with annotations := [] }).value.find? className =
      (mapClasses c).value.find? className := by
  have hsame : (fun m : ClassMapping => m.annotated []) = id := funext ClassMapping.annotated_nil
  rw [find?_build, find?_mapClasses_withAnnotations]
  show ((mapClasses c).value.find? className).map (fun m => m.annotated []) = _
  rw [hsame, Option.map_id, id]

/-- The mappings of a registry do not depend on the order and the repetition of annotations. -/
theorem find?_build_congr {as : List AnnotatedIndex} (h : ∀ a, a ∈ as ↔ a ∈ c.annotations) :
    (build { c with annotations := as }).value.find? = (build c).value.find? := by
  funext className
  rw [find?_build, find?_build, find?_mapClasses_withAnnotations]
  refine congrArg (Option.map · _) (funext fun m => ?_)
  rw [Catalog.reaches_congr h]
  refine m.annotated_congr fun a => ?_
  rw [List.mem_filter, List.mem_filter, h]

/-- The facts of every property of a mapping. It is marked by the annotations that name it and reach
the class; everything else is as without annotations. Neither the order nor the repetition of
annotations matters. -/
theorem build_annotated (c : Catalog) :
    (∀ className m, (build c).value.find? className = some m →
      ∃ plain, (build { c with annotations := [] }).value.find? className = some plain ∧
        m.className = plain.className ∧ m.tableName = plain.tableName ∧
        m.isAbstract = plain.isAbstract ∧
        (∀ name, (m.property? name).isSome = (plain.property? name).isSome) ∧
        ∀ name facts, m.property? name = some facts →
          plain.property? name =
            some { facts with isAnnotated := false, insensitivelyAnnotated := false } ∧
          (facts.isAnnotated = true ↔
            ∃ a ∈ c.annotations, a.Names name ∧ c.DeclaresFor a className m) ∧
          (facts.insensitivelyAnnotated = true ↔
            ∃ a ∈ c.annotations, a.Names name ∧ c.DeclaresFor a className m ∧
              a.caseSensitive = false)) ∧
    ∀ as, (∀ a, a ∈ as ↔ a ∈ c.annotations) →
      (build { c with annotations := as }).value.find? = (build c).value.find? := by
  refine ⟨fun className m hfind => ?_, fun as h => find?_build_congr h⟩
  rw [find?_build, Option.map_eq_some_iff] at hfind
  obtain ⟨plain, hplain, rfl⟩ := hfind
  refine ⟨plain, by rw [find?_build_withoutAnnotations, hplain], rfl, rfl, rfl,
    plain.isSome_property?_annotated _, fun name facts hfacts => ?_⟩
  rw [ClassMapping.property?_annotated, Option.map_eq_some_iff] at hfacts
  obtain ⟨unmarked, hunmarked, rfl⟩ := hfacts
  obtain ⟨hnot, hneither⟩ := not_marked_of_mapClasses hplain hunmarked
  refine ⟨?_, ?_, ?_⟩
  · rw [hunmarked]
    cases unmarked
    cases hnot
    cases hneither
    rfl
  · rw [ClassMapping.isAnnotated_withAnnotations, hnot]
    simp only [Bool.false_eq_true, false_or, Catalog.mem_reaching, Catalog.declaresFor_annotated]
    exact ⟨fun ⟨a, ⟨ha, hfor⟩, hnames⟩ => ⟨a, ha, hnames, hfor⟩,
      fun ⟨a, ha, hnames, hfor⟩ => ⟨a, ⟨ha, hfor⟩, hnames⟩⟩
  · rw [ClassMapping.insensitivelyAnnotated_withAnnotations, hneither]
    simp only [Bool.false_eq_true, false_or, Catalog.mem_reaching, Catalog.declaresFor_annotated]
    exact ⟨fun ⟨a, ⟨ha, hfor⟩, hnames, hcase⟩ => ⟨a, ha, hnames, hfor, hcase⟩,
      fun ⟨a, ha, hnames, hfor, hcase⟩ => ⟨a, ⟨ha, hfor⟩, hnames, hcase⟩⟩

/-- Identities, whose superclass is annotated. -/
def annotatedIdentities : Catalog where
  entities :=
    [{ name := "SailPointObject", table := "spt_object", isAbstract := true
       properties := [{ name := "name" }] },
     { name := "Identity", table := "spt_identity", superclass := "SailPointObject"
       properties := [{ name := "email" }] },
     { name := "Application", table := "spt_application", properties := [{ name := "name" }] }]
  annotations :=
    [{ className := "SailPointObject", name := "spt_name_ci", property := "NAME"
       caseSensitive := false, subClasses := true },
     { className := "Identity", name := "spt_identity_email", property := "email" }]

/-- An annotation for subclasses marks the property that one of them inherits, without regard to the
case of its name; also if the annotations are repeated in another order. -/
theorem build_annotated_inherited :
    let c := annotatedIdentities
    ∃ m facts, (build c).value.find? "Identity" = some m ∧ m.property? "name" = some facts ∧
      facts.isAnnotated = true ∧ facts.insensitivelyAnnotated = true ∧
      (build { c with annotations := c.annotations.reverse ++ c.annotations }).value.find?
        "Identity" = some m := by
  intro c
  obtain ⟨hfacts, hcongr⟩ := build_annotated c
  have hmapped : ((mapClasses c).value.find? "Identity").isSome = true := by decide +kernel
  have hhas : (((mapClasses c).value.find? "Identity").bind (·.property? "NAME")).isSome = true ∧
      (((mapClasses c).value.find? "Identity").bind (·.property? "name")).isSome = true := by
    decide +kernel
  obtain ⟨m, hm⟩ : ∃ m, (build c).value.find? "Identity" = some m := by
    rw [← Option.isSome_iff_exists, find?_build, Option.isSome_map, hmapped]
  obtain ⟨plain, hplain, -, -, -, hsame, hmarks⟩ := hfacts "Identity" m hm
  rw [find?_build_withoutAnnotations] at hplain
  rw [hplain, Option.bind_some, Option.bind_some, ← hsame, ← hsame] at hhas
  obtain ⟨facts, hname⟩ := Option.isSome_iff_exists.mp hhas.2
  obtain ⟨-, hmarked, hinsensitive⟩ := hmarks "name" facts hname
  let a : AnnotatedIndex :=
    { className := "SailPointObject", name := "spt_name_ci", property := "NAME"
      caseSensitive := false, subClasses := true }
  have hnames : a.Names "name" := ⟨"NAME", rfl, by decide +kernel⟩
  have hfor : c.DeclaresFor a "Identity" m := by
    refine .inr ⟨rfl, by decide, fun b hb hclass name hproperty => ?_⟩
    rcases List.mem_cons.mp hb with rfl | hb
    · obtain rfl := Option.some.inj hproperty
      exact hhas.1
    · obtain rfl := List.mem_singleton.mp hb
      exact absurd hclass (by decide)
  exact ⟨m, facts, hm, hname, hmarked.mpr ⟨a, .head _, hnames, hfor⟩,
    hinsensitive.mpr ⟨a, .head _, hnames, hfor, rfl⟩,
    by rw [hcongr _ (by simp)]; exact hm⟩

end Registry

end ObjectQuery
