import ObjectQuery.Proofs.Mapping.Declarations

/-!
# Index facts of a mapping

Which indexes and which unique declarations a property of a mapping has. An index counts for the
declaration that its first column belongs to. A column that several properties share belongs to the
farthest of them alone.

* `ClassMapping.find?_build`: every property of a mapping, with all its facts.
* `ClassMapping.build_indexFacts`: the facts of a property other than `id` from its declaration.
-/

namespace ObjectQuery

/-- The column that an index counts for: its first one, unless its name starts with an
underscore. -/
def Index.leadingColumn? (i : Index) : Option String :=
  if Text.startsWith i.name "_" then none else i.columns.head?

namespace ClassMapping

/-! ## Marking -/

namespace Building

/-- The second mapping is the first with changed facts. -/
structure Marks (d d' : Building) (change : String → PropertyFacts → PropertyFacts) : Prop where
  facts : ∀ key, d'.mapping.properties.find? key =
    (d.mapping.properties.find? key).map (change key)
  columns : d'.columns = d.columns
  uniqueColumns : d'.uniqueColumns = d.uniqueColumns

/-- An index counts for the property with a key. -/
def covers (owner : String → Option String) (key : String) (i : Index) : Bool :=
  i.leadingColumn?.bind owner == some key

/-- The facts of a property with some indexes that may count for it. -/
def withIndexes (owner : String → Option String) (is : List Index) (key : String)
    (facts : PropertyFacts) : PropertyFacts :=
  { facts with
    hasIndex := facts.hasIndex || is.any (covers owner key)
    insensitiveIndex := facts.insensitiveIndex ||
      is.any fun i => covers owner key i && i.isCaseInsensitive }

/-- The facts of a property with some unique columns that may belong to it. -/
def withUniques (owner : String → Option String) (uniques : List String) (key : String)
    (facts : PropertyFacts) : PropertyFacts :=
  { facts with isUnique := facts.isUnique || uniques.any (owner · == some key) }

variable {d d' d'' : Building}

theorem Marks.trans {change change' : String → PropertyFacts → PropertyFacts}
    (h : d.Marks d' change) (h' : d'.Marks d'' change') :
    d.Marks d'' fun key facts => change' key (change key facts) where
  facts key := by
    rw [h'.facts, h.facts, Option.map_map]
    rfl
  columns := h'.columns.trans h.columns
  uniqueColumns := h'.uniqueColumns.trans h.uniqueColumns

/-- What changes no fact that a mapping has. -/
theorem Marks.of_eq {change : String → PropertyFacts → PropertyFacts}
    (h : ∀ key facts, d.mapping.properties.find? key = some facts → change key facts = facts) :
    d.Marks d change where
  facts key := by
    cases hfind : d.mapping.properties.find? key with
    | none => rfl
    | some facts => rw [Option.map_some, h key facts hfind]
  columns := rfl
  uniqueColumns := rfl

/-- The change of the property that a column belongs to. -/
theorem marks_modifyKey {key : String} {change : PropertyFacts → PropertyFacts}
    {marked : String → PropertyFacts → PropertyFacts} (hself : marked key = change)
    (hother : ∀ other, other ≠ key → marked other = id) :
    d.Marks { d with mapping := d.mapping.modifyKey key change } marked where
  facts other := by
    rw [modifyKey, Dictionary.find?_modify]
    by_cases heq : other = key
    · subst heq
      simp [hself]
    · simp [heq, hother other heq]
  columns := rfl
  uniqueColumns := rfl

theorem propertyOf?_eq_some {column key : String} {facts : PropertyFacts}
    (h : d.propertyOf? column = some (key, facts)) : d.columns.find? column = some key := by
  simp only [propertyOf?, Option.bind_eq_bind, Option.bind_eq_some_iff] at h
  obtain ⟨found, hfound, _, _, heq⟩ := h
  cases heq
  exact hfound

theorem propertyOf?_eq_none {column key : String} {facts : PropertyFacts}
    (h : d.propertyOf? column = none) (hfacts : d.mapping.properties.find? key = some facts) :
    (d.columns.find? column == some key) = false := by
  refine beq_eq_false_iff_ne.mpr fun hcolumn => ?_
  simp [propertyOf?, hcolumn, hfacts] at h

theorem marks_correlate (d : Building) (i : Index) :
    d.Marks (d.correlate i).value (withIndexes (d.columns.find? ·) [i]) := by
  have hnone (h : ∀ key facts, d.mapping.properties.find? key = some facts →
      covers (d.columns.find? ·) key i = false) : d.Marks d (withIndexes (d.columns.find? ·) [i]) :=
    .of_eq fun key facts hfacts => by simp [withIndexes, h key facts hfacts]
  unfold correlate
  split
  · rename_i hskipped
    exact hnone fun _ _ _ => by simp [covers, Index.leadingColumn?, hskipped]
  · rename_i hcounts
    split
    · rename_i hempty
      exact hnone fun _ _ _ => by simp [covers, Index.leadingColumn?, hempty]
    · rename_i column rest hcolumns
      have hlead : i.leadingColumn? = some column := by
        simp [Index.leadingColumn?, hcounts, hcolumns]
      split
      · rename_i key facts hproperty
        refine marks_modifyKey ?_ fun other hother => ?_
        · funext facts
          simp [withIndexes, covers, hlead, propertyOf?_eq_some hproperty]
        · funext facts
          have hne : (key == other) = false := beq_eq_false_iff_ne.mpr fun h => hother h.symm
          simp [withIndexes, covers, hlead, propertyOf?_eq_some hproperty, hne]
      · rename_i hproperty
        exact hnone fun _ _ hfacts => by
          simp [covers, hlead, propertyOf?_eq_none hproperty hfacts]

theorem marks_markUnique (d : Building) (column : String) :
    d.Marks (d.markUnique column).value (withUniques (d.columns.find? ·) [column]) := by
  unfold markUnique
  split
  · rename_i hproperty
    exact .of_eq fun key facts hfacts => by
      simp [withUniques, propertyOf?_eq_none hproperty hfacts]
  · rename_i key facts hproperty
    -- What is reported makes no difference.
    have hmarks : d.Marks { d with mapping := d.mapping.modifyKey key fun facts =>
        { facts with isUnique := true } } (withUniques (d.columns.find? ·) [column]) := by
      refine marks_modifyKey ?_ fun other hother => ?_
      · funext facts
        simp [withUniques, propertyOf?_eq_some hproperty]
      · funext facts
        have hne : (key == other) = false := beq_eq_false_iff_ne.mpr fun h => hother h.symm
        simp [withUniques, propertyOf?_eq_some hproperty, hne]
    rw [Reported.value_bind]
    split <;> exact hmarks

/-- What each step marks, a run of steps marks one after the other. -/
theorem marks_foldlM {α : Type} {step : Building → α → Reported Building}
    {change : (String → Option String) → List α → String → PropertyFacts → PropertyFacts}
    (hstep : ∀ (d : Building) a, d.Marks (step d a).value (change (d.columns.find? ·) [a]))
    (hnil : ∀ owner key facts, change owner [] key facts = facts)
    (hcons : ∀ owner a rest key facts,
      change owner (a :: rest) key facts = change owner rest key (change owner [a] key facts))
    (d : Building) (items : List α) :
    d.Marks (items.foldlM step d).value (change (d.columns.find? ·) items) := by
  induction items generalizing d with
  | nil => exact .of_eq fun key facts _ => hnil _ key facts
  | cons a rest ih =>
    rw [List.foldlM_cons, Reported.value_bind]
    have hrest := ih (step d a).value
    -- The steps do not change to which property a column belongs.
    rw [(hstep d a).columns] at hrest
    have hboth : change (d.columns.find? ·) (a :: rest) = fun key facts =>
        change (d.columns.find? ·) rest key (change (d.columns.find? ·) [a] key facts) :=
      funext fun key => funext fun facts => hcons _ a rest key facts
    rw [hboth]
    exact (hstep d a).trans hrest

theorem marks_correlateAll (d : Building) (is : List Index) :
    d.Marks (is.foldlM correlate d).value (withIndexes (d.columns.find? ·) is) := by
  refine marks_foldlM marks_correlate (fun owner key facts => ?_) (fun owner i rest key facts => ?_)
    d is
  · simp [withIndexes]
  · simp [withIndexes, Bool.or_assoc]

theorem marks_markAll (d : Building) (uniques : List String) :
    d.Marks (uniques.foldlM markUnique d).value (withUniques (d.columns.find? ·) uniques) := by
  refine marks_foldlM marks_markUnique (fun owner key facts => ?_)
    (fun owner column rest key facts => ?_) d uniques
  · simp [withUniques]
  · simp [withUniques, Bool.or_assoc]

end Building

/-! ## The whole mapping -/

/-- What the declarations alone say of a property. Every class has a property `id`. -/
def declaredFacts? (taken : List Property) (key : String) : Option PropertyFacts :=
  ((lastWith key taken).map declaredFacts).or
    (if key = "id" then some { name := "id" } else none)

theorem lowerCase_id : Text.lowerCase "id" = "id" := by decide +kernel

theorem find?_empty (className tableName key : String) :
    (empty className tableName).properties.find? key =
      if key = "id" then some { name := "id" } else none := by
  rw [empty, addProperty, Dictionary.find?_insert, lowerCase_id]
  rfl

/-- A mapping in the making once the declarations of a class are taken over. -/
def Building.declared (c : Catalog) (e : Entity) : Building :=
  (c.declarations e.name).foldl declare
    { mapping := { empty e.name e.table with isAbstract := e.isAbstract } }

theorem Building.find?_declared (c : Catalog) (e : Entity) (key : String) :
    (declared c e).mapping.properties.find? key = declaredFacts? (c.takenOver e.name) key ∧
      ((declared c e).columns.find? ·) = c.columnKey? e.name ∧
      (declared c e).uniqueColumns = ClassMapping.uniqueColumns (c.takenOver e.name) := by
  have hknows : Knows { mapping := { empty e.name e.table with
      isAbstract := e.isAbstract } } [] := by
    intro key hkey
    rw [Dictionary.hasKey, find?_empty, if_neg hkey]
    simp
  have hdeclared : TakesOver _ (declared c e) (c.takenOver e.name) :=
    takesOver_foldl (c.declarations e.name) hknows
  refine ⟨?_, funext fun column => ?_, hdeclared.uniqueColumns⟩
  · rw [hdeclared.facts, find?_empty]
    rfl
  · rw [hdeclared.columns]
    exact Option.or_none

/-- Every property of a mapping with the facts that declarations, indexes and unique columns give
it. -/
theorem find?_build (c : Catalog) (e : Entity) (key : String) :
    (build c e).value.properties.find? key =
      (declaredFacts? (c.takenOver e.name) key).map fun facts =>
        Building.withUniques (c.columnKey? e.name) (uniqueColumns (c.takenOver e.name)) key
          (Building.withIndexes (c.columnKey? e.name) (c.indexes e.name) key facts) := by
  obtain ⟨hfacts, hcolumns, huniques⟩ := Building.find?_declared c e key
  have hcorrelated := Building.marks_correlateAll (Building.declared c e) (c.indexes e.name)
  have hmarked := hcorrelated.trans (Building.marks_markAll _
    ((c.indexes e.name).foldlM Building.correlate (Building.declared c e)).value.uniqueColumns)
  have hfind : (build c e).value.properties.find? key = _ := hmarked.facts key
  rw [hcorrelated.columns, hcorrelated.uniqueColumns, hcolumns, huniques, hfacts] at hfind
  exact hfind

/-! ## One property -/

section Property

variable {c : Catalog} {className : String} {d o : Property}

/-- Of a property other than `id` no declaration but the nearest is taken over. -/
theorem eq_of_mem_takenOver (hd : (c.declarations className).find? (·.key == d.key) = some d)
    (hid : d.key ≠ "id") (ho : o ∈ c.takenOver className) (hkey : o.key = d.key) : o = d := by
  have hfilter := filter_takenOver hid [] (c.declarations className)
  rw [if_neg List.not_mem_nil, hd, Option.toList_some] at hfilter
  have hmem : o ∈ (c.takenOver className).filter (·.key == d.key) :=
    List.mem_filter.mpr ⟨ho, beq_iff_eq.mpr hkey⟩
  rw [Catalog.takenOver, hfilter] at hmem
  exact List.mem_singleton.mp hmem

theorem mem_takenOver (hd : (c.declarations className).find? (·.key == d.key) = some d)
    (hid : d.key ≠ "id") : d ∈ c.takenOver className := by
  have hfilter := filter_takenOver hid [] (c.declarations className)
  rw [if_neg List.not_mem_nil, hd, Option.toList_some] at hfilter
  have hmem : d ∈ (c.takenOver className).filter (·.key == d.key) := by
    rw [Catalog.takenOver, hfilter]
    exact List.mem_singleton_self d
  exact (List.mem_filter.mp hmem).1

theorem columnOwner?_eq_some {column : String} (h : c.columnOwner? className column = some o) :
    o ∈ c.takenOver className ∧ o.kind.isColumn = true ∧ o.columnName = column := by
  unfold Catalog.columnOwner? columnOwner? at h
  have hstored := List.find?_some h
  rw [Bool.and_eq_true, beq_iff_eq] at hstored
  exact ⟨List.mem_reverse.mp (List.mem_of_find?_eq_some h), hstored⟩

/-- A column belongs to a property if it is the property's own and no declaration behind that of
the property is stored in it too. -/
theorem columnKey?_eq_some_iff
    (hd : (c.declarations className).find? (·.key == d.key) = some d) (hid : d.key ≠ "id")
    {column : String} :
    c.columnKey? className column = some d.key ↔
      d.kind.isColumn = true ∧ d.columnName = column ∧
        c.columnOwner? className d.columnName = some d := by
  rw [Catalog.columnKey?, Option.map_eq_some_iff]
  constructor
  · rintro ⟨o, howner, hkey⟩
    obtain ⟨hmem, hcolumn, rfl⟩ := columnOwner?_eq_some howner
    obtain rfl := eq_of_mem_takenOver hd hid hmem hkey
    exact ⟨hcolumn, rfl, howner⟩
  · rintro ⟨-, rfl, howner⟩
    exact ⟨d, howner, rfl⟩

/-- An index counts for a property if the column that it counts for belongs to the property. -/
theorem any_covers_iff (hd : (c.declarations className).find? (·.key == d.key) = some d)
    (hid : d.key ≠ "id") (is : List Index) (test : Index → Bool) :
    (is.any fun i => Building.covers (c.columnKey? className) d.key i && test i) = true ↔
      d.kind.isColumn = true ∧ c.columnOwner? className d.columnName = some d ∧
        ∃ i ∈ is, i.leadingColumn? = some d.columnName ∧ test i = true := by
  simp only [List.any_eq_true, Bool.and_eq_true, Building.covers, beq_iff_eq,
    Option.bind_eq_some_iff, columnKey?_eq_some_iff hd hid]
  constructor
  · rintro ⟨i, hi, ⟨_, hlead, hcolumn, rfl, howner⟩, htest⟩
    exact ⟨hcolumn, howner, i, hi, hlead, htest⟩
  · rintro ⟨hcolumn, howner, i, hi, hlead, htest⟩
    exact ⟨i, hi, ⟨_, hlead, hcolumn, rfl, howner⟩, htest⟩

/-- So does a unique declaration that is stored in a column of the property. -/
theorem any_uniqueColumns_iff
    (hd : (c.declarations className).find? (·.key == d.key) = some d) (hid : d.key ≠ "id") :
    ((uniqueColumns (c.takenOver className)).any (c.columnKey? className · == some d.key)) = true ↔
      d.kind.isColumn = true ∧ c.columnOwner? className d.columnName = some d ∧
        ∃ u ∈ c.takenOver className,
          u.kind.isColumn = true ∧ u.columnName = d.columnName ∧ u.unique = true := by
  simp only [uniqueColumns, List.any_map, List.any_eq_true, List.mem_filter, Bool.and_eq_true,
    Function.comp_apply, beq_iff_eq, columnKey?_eq_some_iff hd hid]
  constructor
  · rintro ⟨u, ⟨hu, hstored, hunique⟩, hcolumn, hname, howner⟩
    exact ⟨hcolumn, howner, u, hu, hstored, hname.symm, hunique⟩
  · rintro ⟨hcolumn, howner, u, hu, hstored, hname, hunique⟩
    exact ⟨u, ⟨hu, hstored, hunique⟩, hcolumn, hname.symm, howner⟩

/-- Another declaration that is taken over is stored in the column of a property. -/
def SharesColumn (c : Catalog) (className : String) (d : Property) : Prop :=
  ∃ o ∈ c.takenOver className,
    o ≠ d ∧ o.kind.isColumn = true ∧ o.columnName = d.columnName

/-- A column that nothing else is stored in belongs to its property. -/
theorem columnOwner?_of_not_sharesColumn
    (hd : (c.declarations className).find? (·.key == d.key) = some d) (hid : d.key ≠ "id")
    (hcolumn : d.kind.isColumn = true) (hshared : ¬ SharesColumn c className d) :
    c.columnOwner? className d.columnName = some d := by
  cases howner : c.columnOwner? className d.columnName with
  | none =>
    unfold Catalog.columnOwner? columnOwner? at howner
    have hnone := List.find?_eq_none.mp howner d (List.mem_reverse.mpr (mem_takenOver hd hid))
    simp [hcolumn] at hnone
  | some o =>
    obtain ⟨hmem, hstored, hname⟩ := columnOwner?_eq_some howner
    by_cases heq : o = d
    · rw [heq]
    · exact absurd ⟨o, hmem, heq, hstored, hname⟩ hshared

end Property

/-- The facts of a property other than `id`, from the declaration that its mapping takes over.
Indexes and unique declarations count for it if its column belongs to it. -/
theorem build_indexFacts (c : Catalog) (e : Entity) (d : Property)
    (hd : (c.declarations e.name).find? (·.key == d.key) = some d) (hid : d.key ≠ "id") :
    ∃ facts, (build c e).value.property? d.name = some facts ∧ facts.name = d.name ∧
      (d.kind.isColumn = true →
        (facts.isUnique = true ↔ c.columnOwner? e.name d.columnName = some d ∧
          ∃ u ∈ c.takenOver e.name,
            u.kind.isColumn = true ∧ u.columnName = d.columnName ∧ u.unique = true) ∧
        (facts.hasIndex = true ↔ c.columnOwner? e.name d.columnName = some d ∧
          ∃ i ∈ c.indexes e.name, i.leadingColumn? = some d.columnName) ∧
        (facts.insensitiveIndex = true ↔ c.columnOwner? e.name d.columnName = some d ∧
          ∃ i ∈ c.indexes e.name,
            i.leadingColumn? = some d.columnName ∧ i.isCaseInsensitive = true)) ∧
      (d.kind.isColumn = true → ¬ SharesColumn c e.name d →
        (facts.isUnique = true ↔ d.unique = true) ∧
        (facts.hasIndex = true ↔
          ∃ i ∈ c.indexes e.name, i.leadingColumn? = some d.columnName) ∧
        (facts.insensitiveIndex = true ↔ ∃ i ∈ c.indexes e.name,
          i.leadingColumn? = some d.columnName ∧ i.isCaseInsensitive = true)) ∧
      (d.kind.isColumn = false →
        facts.isUnique = false ∧ facts.hasIndex = false ∧ facts.insensitiveIndex = false) := by
  have hunique := any_uniqueColumns_iff hd hid
  have hindex := any_covers_iff hd hid (c.indexes e.name) fun _ => true
  have hinsensitive := any_covers_iff hd hid (c.indexes e.name) Index.isCaseInsensitive
  simp only [Bool.and_true, and_true] at hindex
  have hdeclared : declaredFacts? (c.takenOver e.name) d.key = some (declaredFacts d) := by
    rw [declaredFacts?, Catalog.takenOver, lastWith_takenOver hid, hd]
    rfl
  have hfind := find?_build c e d.key
  rw [hdeclared, Option.map_some] at hfind
  refine ⟨_, hfind, rfl, fun hcolumn => ?_, fun hcolumn hshared => ?_, fun hcolumn => ?_⟩
  · -- What is said of columns in general, for one that is there.
    simp only [hcolumn, true_and] at hunique hindex hinsensitive
    exact ⟨hunique, hindex, hinsensitive⟩
  · have howner := columnOwner?_of_not_sharesColumn hd hid hcolumn hshared
    have hown : (∃ u ∈ c.takenOver e.name, u.kind.isColumn = true ∧ u.columnName = d.columnName ∧
        u.unique = true) ↔ d.unique = true := by
      constructor
      · rintro ⟨u, hu, hstored, hname, hmarked⟩
        by_cases heq : u = d
        · rwa [heq] at hmarked
        · exact absurd ⟨u, hu, heq, hstored, hname⟩ hshared
      · exact fun hmarked => ⟨d, mem_takenOver hd hid, hcolumn, rfl, hmarked⟩
    simp only [hcolumn, howner, true_and, hown] at hunique hindex hinsensitive
    exact ⟨hunique, hindex, hinsensitive⟩
  · simp only [hcolumn, Bool.false_eq_true, false_and, iff_false,
      Bool.not_eq_true] at hunique hindex hinsensitive
    exact ⟨hunique, hindex, hinsensitive⟩

/-- Identities whose display name is kept in the column of their unique and indexed name. -/
def identitiesShownByName : Entity :=
  { name := "Identity", table := "spt_identity"
    properties := [{ name := "name", unique := true }, { name := "displayName", column := "name" }]
    indexes := [{ name := "spt_identity_name", columns := ["name"] }] }

/-- A unique and indexed property has neither fact if another one that is declared behind it is
stored in the same column. -/
theorem build_indexFacts_sharedColumn :
    let c : Catalog := { entities := [identitiesShownByName] }
    let d : Property := { name := "name", unique := true }
    ((c.declarations "Identity").find? (·.key == d.key) = some d ∧ d.key ≠ "id") ∧
      ∃ facts, (build c identitiesShownByName).value.property? "name" = some facts ∧
        facts.isUnique = false ∧ facts.hasIndex = false := by
  intro c d
  have hd : (c.declarations "Identity").find? (·.key == d.key) = some d := by decide +kernel
  have hid : d.key ≠ "id" := by decide +kernel
  have howner : c.columnOwner? "Identity" "name" ≠ some d := by decide +kernel
  obtain ⟨facts, hfind, -, hcolumn, -⟩ := build_indexFacts c identitiesShownByName d hd hid
  obtain ⟨hunique, hindex, -⟩ := hcolumn rfl
  refine ⟨⟨hd, hid⟩, facts, hfind, ?_, ?_⟩
  · exact Bool.eq_false_iff.mpr fun h => howner (hunique.mp h).1
  · exact Bool.eq_false_iff.mpr fun h => howner (hindex.mp h).1

end ClassMapping

end ObjectQuery
