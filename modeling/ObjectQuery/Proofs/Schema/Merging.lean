import ObjectQuery.Proofs.Schema.Catalogs

/-!
# Merging the indexes of a database

A database has indexes for each table. A catalog that takes them on replaces what it declares under
the same names, and taking them on once more changes nothing.

* `Schema.Database`: the indexes that a database has, by table.
* `Schema.Database.Answers`: a conversation in which the database tells them.
* `Schema.mergeIndexes_eq`: the declared indexes without those of the same names, then those found.
* `Schema.mergeEntity_mergeEntity`: merging once more changes nothing.
* `Schema.Database.TakesOn`: what becomes of a class.
* `Schema.Database.applyIndexes_merges`: a catalog that has been given the indexes of a database.
-/

namespace ObjectQuery

namespace Schema

/-! ## Indexes of the same names -/

/-- The indexes that have none of the names. -/
def without (indexes : List Index) (names : List String) : List Index :=
  indexes.filter fun i => !names.contains i.name

theorem without_cons (indexes : List Index) (name : String) (names : List String) :
    without indexes (name :: names) = without (indexes.filter (·.name != name)) names := by
  unfold without
  rw [List.filter_filter]
  refine List.filter_congr fun i _ => ?_
  rw [List.contains_cons, Bool.not_or, Bool.and_comm]
  rfl

theorem without_append (indexes others : List Index) (names : List String) :
    without (indexes ++ others) names = without indexes names ++ without others names :=
  List.filter_append ..

theorem without_without (indexes : List Index) (names : List String) :
    without (without indexes names) names = without indexes names := by
  unfold without
  rw [List.filter_filter]
  simp

theorem without_of_subset {indexes : List Index} {names : List String}
    (h : ∀ i ∈ indexes, i.name ∈ names) : without indexes names = [] := by
  refine List.filter_eq_nil_iff.mpr fun i hi => ?_
  simp [h i hi]

theorem without_of_disjoint {indexes : List Index} {names : List String}
    (h : ∀ i ∈ indexes, i.name ∉ names) : without indexes names = indexes := by
  refine List.filter_eq_self.mpr fun i hi => ?_
  simp [h i hi]

variable {found : List Index}

/-- Each index that is found removes those of its name and comes last. No later one removes it, as
the names are different. -/
theorem mergeIndexes_eq (declared : List Index) (h : (found.map (·.name)).Nodup) :
    mergeIndexes declared found = without declared (found.map (·.name)) ++ found := by
  induction found generalizing declared with
  | nil => simp [mergeIndexes, without]
  | cons i rest ih =>
    rw [List.map_cons, List.nodup_cons] at h
    have hkept : without [i] (rest.map (·.name)) = [i] :=
      without_of_disjoint (List.forall_mem_singleton.mpr h.1)
    calc
      mergeIndexes declared (i :: rest)
      _ = mergeIndexes (declared.filter (·.name != i.name) ++ [i]) rest := rfl
      _ = without (declared.filter (·.name != i.name) ++ [i]) (rest.map (·.name)) ++ rest :=
        ih _ h.2
      _ = without (declared.filter (·.name != i.name)) (rest.map (·.name)) ++ ([i] ++ rest) := by
        rw [without_append, hkept, List.append_assoc]
      _ = without declared ((i :: rest).map (·.name)) ++ i :: rest := by
        rw [List.map_cons, without_cons]
        rfl

theorem mergeIndexes_mergeIndexes (declared : List Index) (h : (found.map (·.name)).Nodup) :
    mergeIndexes (mergeIndexes declared found) found = mergeIndexes declared found := by
  have hgone : without found (found.map (·.name)) = [] :=
    without_of_subset fun i hi => List.mem_map_of_mem hi
  rw [mergeIndexes_eq _ h, mergeIndexes_eq declared h, without_append, without_without, hgone,
    List.append_nil]

/-- Merging what is found for a class once more changes nothing. -/
theorem mergeEntity_mergeEntity (e : Entity) {t : TableIndexes} (h : t.HasDistinctNames) :
    mergeEntity (mergeEntity e t) t = mergeEntity e t := by
  have hunique (p : Property) :
      (p.unique || t.uniqueColumns.contains p.columnName ||
        t.uniqueColumns.contains p.columnName) =
        (p.unique || t.uniqueColumns.contains p.columnName) := by
    rw [Bool.or_assoc, Bool.or_self]
  unfold mergeEntity
  simp only [mergeIndexes_mergeIndexes e.indexes h, List.map_map, Entity.mk.injEq, true_and,
    and_true]
  refine List.map_congr_left fun p _ => ?_
  exact congrArg (fun unique => { p with unique }) (hunique p)

/-! ## Databases -/

/-- The indexes that a database has, by table. There are none for a table that cannot be queried. -/
abbrev Database := String → Option TableIndexes

variable {backend : Backend} {db : Database} {s s' : Session} {e : Entity} {es es' : List Entity}

namespace Database

/-- The conversation about the tables, one after the other, in which the database tells its
indexes. It ends with the first table that cannot be queried. -/
def Answers (db : Database) (backend : Backend) : List String → Session → Prop
  | [], _ => True
  | table :: rest, s =>
    let answer := (loadIndexes backend table).run s
    answer.1 = db table ∧ ((db table).isSome = true → db.Answers backend rest answer.2)

/-- A class with the indexes that the database has for its table, if it has one. -/
def merge (db : Database) (e : Entity) : Entity :=
  if e.isAbstract then e
  else
    match db e.table with
    | some found => mergeEntity e found
    | none => e

theorem merge_of_isAbstract (h : e.isAbstract = true) : db.merge e = e := if_pos h

theorem merge_of_concrete (h : ¬e.isAbstract = true) {found : TableIndexes}
    (hfound : db e.table = some found) : db.merge e = mergeEntity e found := by
  rw [merge, if_neg h, hfound]

theorem merge_isAbstract (db : Database) (e : Entity) :
    (db.merge e).isAbstract = e.isAbstract := by
  unfold merge
  split
  · rfl
  · split <;> rfl

theorem merge_table (db : Database) (e : Entity) : (db.merge e).table = e.table := by
  unfold merge
  split
  · rfl
  · split <;> rfl

end Database

/-- The tables of the concrete classes, as they are asked for. -/
def tablesOf (es : List Entity) : List String := (es.filter (!·.isAbstract)).map (·.table)

theorem tablesOf_cons_of_isAbstract (h : e.isAbstract = true) (es : List Entity) :
    tablesOf (e :: es) = tablesOf es := by
  simp [tablesOf, h]

theorem tablesOf_cons_of_concrete (h : ¬e.isAbstract = true) (es : List Entity) :
    tablesOf (e :: es) = e.table :: tablesOf es := by
  simp [tablesOf, h]

theorem tablesOf_map_merge (db : Database) (es : List Entity) :
    tablesOf (es.map db.merge) = tablesOf es := by
  induction es with
  | nil => rfl
  | cons e rest ih =>
    rw [List.map_cons]
    by_cases h : e.isAbstract = true
    · rw [tablesOf_cons_of_isAbstract ((db.merge_isAbstract e).trans h),
        tablesOf_cons_of_isAbstract h, ih]
    · rw [tablesOf_cons_of_concrete ((db.merge_isAbstract e).symm ▸ h),
        tablesOf_cons_of_concrete h, ih, db.merge_table]

namespace Database

/-! ## Taking the indexes on -/

/-- If no query fails, the database has indexes for all tables, and the classes take them on. -/
theorem applyToEach_eq (hs : db.Answers backend (tablesOf es) s)
    (h : applyToEach backend s es = (false, es', s')) :
    (∀ table ∈ tablesOf es, ∃ found, db table = some found ∧ found.HasDistinctNames) ∧
      es' = es.map db.merge := by
  induction es generalizing s es' with
  | nil =>
    cases h
    exact ⟨by rintro _ ⟨⟩, rfl⟩
  | cons e rest ih =>
    rw [applyToEach] at h
    by_cases habstract : e.isAbstract = true
    · rw [tablesOf_cons_of_isAbstract habstract] at hs ⊢
      rw [if_pos habstract] at h
      rcases hothers : applyToEach backend s rest with ⟨failed, es'', t⟩
      rw [hothers] at h
      cases h
      obtain ⟨htables, rfl⟩ := ih hs hothers
      exact ⟨htables, by rw [List.map_cons, merge_of_isAbstract habstract]⟩
    · rw [tablesOf_cons_of_concrete habstract] at hs ⊢
      rw [if_neg habstract] at h
      obtain ⟨hanswer, hrest⟩ := hs
      split at h
      · cases h
      · rename_i found t hfound
        rw [hfound] at hanswer hrest
        rcases hothers : applyToEach backend t rest with ⟨failed, es'', t'⟩
        rw [hothers] at h
        cases h
        obtain ⟨htables, rfl⟩ := ih (hrest (by rw [← hanswer]; rfl)) hothers
        refine ⟨List.forall_mem_cons.mpr ⟨⟨found, hanswer.symm, ?_⟩, htables⟩, ?_⟩
        · exact hasDistinctNames_loadIndexes hfound
        · rw [List.map_cons, merge_of_concrete habstract hanswer.symm]

/-- Classes that have taken on the indexes of a database stay as they are. -/
theorem applyToEach_merged
    (htables : ∀ table ∈ tablesOf es, ∃ found, db table = some found ∧ found.HasDistinctNames)
    (hs : db.Answers backend (tablesOf es) s) :
    ∃ s', applyToEach backend s (es.map db.merge) = (false, es.map db.merge, s') := by
  induction es generalizing s with
  | nil => exact ⟨s, rfl⟩
  | cons e rest ih =>
    rw [List.map_cons, applyToEach, db.merge_isAbstract, db.merge_table]
    by_cases habstract : e.isAbstract = true
    · rw [tablesOf_cons_of_isAbstract habstract] at htables hs
      obtain ⟨s', hrest⟩ := ih htables hs
      exact ⟨s', by rw [if_pos habstract, hrest]⟩
    · rw [tablesOf_cons_of_concrete habstract] at htables hs
      obtain ⟨⟨found, hfound, hdistinct⟩, hothers⟩ := List.forall_mem_cons.mp htables
      obtain ⟨hanswer, hnext⟩ := hs
      obtain ⟨s', hrest⟩ := ih hothers (hnext (by rw [hfound]; rfl))
      refine ⟨s', ?_⟩
      rw [if_neg habstract]
      rcases hload : (loadIndexes backend e.table).run s with ⟨answer, t⟩
      rw [hload] at hanswer hrest
      obtain rfl : answer = some found := hanswer.trans hfound
      dsimp only at hrest ⊢
      rw [hrest, merge_of_concrete habstract hfound, mergeEntity_mergeEntity e hdistinct]

/-- What becomes of a class: an abstract one stays as it is, and a concrete one has the indexes of
other names that it declares, then those of its table, and its properties are unique if they are
declared so or their columns are. -/
inductive TakesOn (db : Database) : Entity → Entity → Prop
  | isAbstract {e : Entity} (h : e.isAbstract = true) : db.TakesOn e e
  | concrete {e : Entity} {found : TableIndexes} (h : e.isAbstract = false)
      (hfound : db e.table = some found) :
      db.TakesOn e { e with
        indexes := without e.indexes (found.indexes.map (·.name)) ++ found.indexes
        properties := e.properties.map fun p =>
          { p with unique := p.unique || found.uniqueColumns.contains p.columnName } }

theorem takesOn_merge (htables : ∀ table ∈ tablesOf es, ∃ found, db table = some found ∧
    found.HasDistinctNames) (he : e ∈ es) : db.TakesOn e (db.merge e) := by
  by_cases habstract : e.isAbstract = true
  · rw [merge_of_isAbstract habstract]
    exact .isAbstract habstract
  · have htable : e.table ∈ tablesOf es :=
      List.mem_map_of_mem (List.mem_filter.mpr ⟨he, by simp [habstract]⟩)
    obtain ⟨found, hfound, hdistinct⟩ := htables _ htable
    rw [merge_of_concrete habstract hfound, mergeEntity, mergeIndexes_eq e.indexes hdistinct]
    exact .concrete (Bool.eq_false_iff.mpr habstract) hfound

/-- A catalog that has been given the indexes of a database has them in its concrete classes and is
otherwise as before, and giving it the indexes of the database once more changes nothing. -/
theorem applyIndexes_merges {c c' : Catalog} (hs : db.Answers backend (tablesOf c.entities) s)
    (h : applyIndexes backend c s = (false, c', s')) :
    c'.annotations = c.annotations ∧ List.Forall₂ db.TakesOn c.entities c'.entities ∧
      ∀ t, db.Answers backend (tablesOf c'.entities) t →
        ∃ t', applyIndexes backend c' t = (false, c', t') := by
  unfold applyIndexes at h
  rcases heach : applyToEach backend s c.entities with ⟨failed, es', u⟩
  rw [heach] at h
  cases h
  obtain ⟨htables, rfl⟩ := applyToEach_eq hs heach
  refine ⟨rfl, ?_, fun t ht => ?_⟩
  · exact List.forall₂_map_right_iff.mpr (List.forall₂_same.mpr fun e he => takesOn_merge htables he)
  · obtain ⟨t', hagain⟩ := applyToEach_merged htables (tablesOf_map_merge db c.entities ▸ ht)
    exact ⟨t', by rw [applyIndexes, hagain]⟩

/-- Identities with an index that the database has on another column, and one that it has not. -/
def identitiesWithStaleIndex : Entity :=
  { identitiesOfObjects with
    properties := [{ name := "name" }, { name := "email" }]
    indexes := [⟨"identity_by_name", ["fullname"]⟩, ⟨"identity_by_email", ["email"]⟩] }

/-- The index of the database comes last and in place of the declared one, and the name becomes
unique. -/
theorem applyIndexes_merges_staleIndex :
    let c : Catalog := { entities := [namedObjects, identitiesWithStaleIndex] }
    let c' : Catalog := { entities := [namedObjects, { identitiesOfObjects with
      properties := [{ name := "name", unique := true }, { name := "email" }]
      indexes := [⟨"identity_by_email", ["email"]⟩, ⟨"identity_by_name", ["name"]⟩] }] }
    let db : Database := fun _ => some ⟨[⟨"identity_by_name", ["name"]⟩], ["name"]⟩
    let s : Session := ⟨[identityNameRows], []⟩
    db.Answers .postgres (tablesOf c.entities) s ∧
      (∃ s', applyIndexes .postgres c s = (false, c', s')) ∧
      List.Forall₂ db.TakesOn c.entities c'.entities ∧
      ∃ t', applyIndexes .postgres c' s = (false, c', t') := by
  intro c c' db s
  have hs : db.Answers .postgres (tablesOf c.entities) s := ⟨rfl, fun _ => trivial⟩
  have hs' : db.Answers .postgres (tablesOf c'.entities) s := ⟨rfl, fun _ => trivial⟩
  have happly : applyIndexes .postgres c s = (false, c', (applyIndexes .postgres c s).2.2) := by
    rfl
  obtain ⟨-, htakes, hagain⟩ := applyIndexes_merges hs happly
  exact ⟨hs, ⟨_, happly⟩, htakes, hagain s hs'⟩

end Database

end Schema

end ObjectQuery
