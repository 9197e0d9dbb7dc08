import Mathlib.Data.List.Nodup
import ObjectQuery.Proofs.Mapping.Annotations
import ObjectQuery.Proofs.Schema.Loading

/-!
# Catalogs with the indexes of a database

A database reports indexes and unique columns for the table of every concrete class. What it reports
is merged into the declaration of that class alone. A mapping has the declarations of superclasses
too: it finds every index that is reported for its class, but of unique columns it knows those that
are reported for the class that declares the property.

* `Schema.reports`: what is reported for each concrete class.
* `Schema.withReport`: the declaration of a class with what is reported for it.
* `Catalog.lineage_withReports`: superclasses stay.
* `Schema.applyIndexes_registry`: the facts of a property, own or inherited.
-/

namespace ObjectQuery

/-! ## Parts of a conversation that succeed -/

theorem Query.run_bind_some {α β : Type} {x : Query α} {f : α → Query β} {s s' : Session} {b : β}
    (h : (x >>= f).run s = (some b, s')) :
    ∃ a t, x.run s = (some a, t) ∧ (f a).run t = (some b, s') := by
  simp only [Query.run, Bind.bind] at h ⊢
  split at h
  · rename_i a t hx
    exact ⟨a, t, hx, h⟩
  · cases h

theorem Query.run_pure {α : Type} {a b : α} {s s' : Session}
    (h : (pure a : Query α).run s = (some b, s')) : a = b ∧ s = s' := by
  cases h
  exact ⟨rfl, rfl⟩

/-! ## Indexes by their names -/

namespace TableIndexes

variable {t : TableIndexes}

/-- No two indexes have the same name. -/
def HasDistinctNames (t : TableIndexes) : Prop := (t.indexes.map (·.name)).Nodup

theorem names_addColumn_of_mem {name : String} (h : name ∈ t.indexes.map (·.name))
    (column : String) : (t.addColumn name column).indexes.map (·.name) = t.indexes.map (·.name) := by
  obtain ⟨indexes, uniqueColumns⟩ := t
  show (addColumn.go name column indexes).map (·.name) = _
  induction indexes with
  | nil => cases h
  | cons i rest ih =>
    rw [addColumn.go]
    split
    · rfl
    · rename_i hne
      rw [List.map_cons, List.mem_cons] at h
      have hrest := h.resolve_left fun heq => hne (beq_iff_eq.mpr heq.symm)
      rw [List.map_cons, ih hrest, List.map_cons]

theorem HasDistinctNames.addColumn (h : t.HasDistinctNames) (name column : String) :
    (t.addColumn name column).HasDistinctNames := by
  by_cases hmem : name ∈ t.indexes.map (·.name)
  · rw [HasDistinctNames, names_addColumn_of_mem hmem]
    exact h
  · rw [HasDistinctNames, addColumn_of_notMem hmem, List.map_append, List.nodup_append]
    refine ⟨h, List.nodup_singleton name, fun other hother same hsame heq => ?_⟩
    obtain rfl := List.mem_singleton.mp hsame
    exact hmem (heq ▸ hother)

theorem HasDistinctNames.addUnique (h : t.HasDistinctNames) (column : String) :
    (t.addUnique column).HasDistinctNames := by
  unfold TableIndexes.addUnique
  split <;> exact h

/-- What each step keeps, a fold keeps. -/
theorem HasDistinctNames.foldl {α : Type} {step : TableIndexes → α → TableIndexes}
    (h : t.HasDistinctNames)
    (hstep : ∀ t a, t.HasDistinctNames → (step t a).HasDistinctNames) (items : List α) :
    (items.foldl step t).HasDistinctNames := by
  induction items generalizing t with
  | nil => exact h
  | cons a rest ih => exact ih (hstep t a h)

theorem hasDistinctNames_empty : HasDistinctNames {} := List.nodup_nil

end TableIndexes

namespace Schema

variable {declared found : List Index} {i : Index}

/-- Indexes that have other names do not replace an index. -/
theorem mem_mergeIndexes (hi : i ∈ declared) (hnames : ∀ j ∈ found, j.name ≠ i.name) :
    i ∈ mergeIndexes declared found := by
  induction found generalizing declared with
  | nil => exact hi
  | cons j rest ih =>
    refine ih (List.mem_append_left _ (List.mem_filter.mpr ⟨hi, ?_⟩)) fun k hk =>
      hnames k (List.mem_cons_of_mem _ hk)
    exact bne_iff_ne.mpr fun heq => hnames j List.mem_cons_self heq.symm

/-- An index that is found is there after the merge. -/
theorem mem_mergeIndexes_of_found (hnames : (found.map (·.name)).Nodup) (hi : i ∈ found) :
    i ∈ mergeIndexes declared found := by
  induction found generalizing declared with
  | nil => cases hi
  | cons j rest ih =>
    rw [List.map_cons, List.nodup_cons] at hnames
    rcases List.mem_cons.mp hi with rfl | hrest
    · have hlast : i ∈ declared.filter (·.name != i.name) ++ [i] :=
        List.mem_append_right _ (List.mem_singleton_self i)
      show i ∈ mergeIndexes _ rest
      exact mem_mergeIndexes hlast fun k hk heq => hnames.1 (List.mem_map.mpr ⟨k, hk, heq⟩)
    · exact ih hnames.2 hrest

/-! ## Loading keeps names apart -/

section

variable {t found : TableIndexes} {s s' : Session}

theorem hasDistinctNames_loadIndex (ht : t.HasDistinctNames) {row : Row}
    (h : (loadIndex t row).run s = (some found, s')) : found.HasDistinctNames := by
  obtain ⟨name, _, -, h⟩ := Query.run_bind_some h
  obtain ⟨origin, _, -, h⟩ := Query.run_bind_some h
  split at h
  · obtain ⟨rfl, -⟩ := Query.run_pure h
    exact ht
  · obtain ⟨rows, _, -, h⟩ := Query.run_bind_some h
    obtain ⟨columns, _, -, h⟩ := Query.run_bind_some h
    split at h
    · split at h
      · obtain ⟨rfl, -⟩ := Query.run_pure h
        exact ht.addUnique _
      · obtain ⟨rfl, -⟩ := Query.run_pure h
        exact ht
    · obtain ⟨rfl, -⟩ := Query.run_pure h
      exact ht.foldl (fun t column ht => ht.addColumn name column) columns

theorem hasDistinctNames_loadEach (ht : t.HasDistinctNames) {rows : List Row}
    (h : (loadEach t rows).run s = (some found, s')) : found.HasDistinctNames := by
  induction rows generalizing t s with
  | nil =>
    obtain ⟨rfl, -⟩ := Query.run_pure h
    exact ht
  | cons row rest ih =>
    obtain ⟨t', _, hrow, hrest⟩ := Query.run_bind_some h
    exact ih (hasDistinctNames_loadIndex ht hrow) hrest

theorem hasDistinctNames_collect (columns : List IndexColumn) :
    (collect columns).HasDistinctNames :=
  (TableIndexes.hasDistinctNames_empty.foldl (fun _ c h => h.addColumn c.index c.column) _).foldl
    (fun _ c h => h.addUnique c.column) _

/-- Whatever the answers are, the indexes that are loaded have different names. -/
theorem hasDistinctNames_loadIndexes {backend : Backend} {table : String}
    (h : (loadIndexes backend table).run s = (some found, s')) : found.HasDistinctNames := by
  have hcolumns : ∀ query, (loadByColumn query table).run s = (some found, s') →
      found.HasDistinctNames := by
    intro query h
    obtain ⟨rows, _, -, h⟩ := Query.run_bind_some h
    obtain ⟨columns, _, -, h⟩ := Query.run_bind_some h
    obtain ⟨rfl, -⟩ := Query.run_pure h
    exact hasDistinctNames_collect columns
  cases backend with
  | sqlite =>
    obtain ⟨rows, _, -, h⟩ := Query.run_bind_some h
    exact hasDistinctNames_loadEach TableIndexes.hasDistinctNames_empty h
  | postgres => exact hcolumns postgresQuery h
  | mysql => exact hcolumns mysqlQuery h

end

/-! ## What is reported -/

/-- What a database reports for each concrete class, asked for one after the other. -/
def reports (backend : Backend) : List Entity → Query (Dictionary String TableIndexes)
  | [] => pure []
  | e :: rest =>
    if e.isAbstract then reports backend rest
    else do
      let found ← loadIndexes backend e.table
      let reported ← reports backend rest
      pure ((e.name, found) :: reported)

/-- The declaration of a class with what is reported for it. -/
def withReport (reported : Dictionary String TableIndexes) (e : Entity) : Entity :=
  match reported.find? e.name with
  | some found => mergeEntity e found
  | none => e

variable {backend : Backend} {s s' : Session} {es : List Entity}
  {reported : Dictionary String TableIndexes}

/-- There is a report for every concrete class, and no other. Its indexes have different names. -/
theorem find?_reports (h : (reports backend es).run s = (some reported, s')) (name : String) :
    ((reported.find? name).isSome = true ↔ ∃ e ∈ es, e.isAbstract = false ∧ e.name = name) ∧
      ∀ found, reported.find? name = some found → found.HasDistinctNames := by
  induction es generalizing s s' reported with
  | nil =>
    obtain ⟨rfl, -⟩ := Query.run_pure h
    exact ⟨by simp [Dictionary.find?], fun _ hfound => nomatch hfound⟩
  | cons e rest ih =>
    rw [reports] at h
    split at h
    · rename_i habstract
      obtain ⟨hsome, hnames⟩ := ih h
      refine ⟨?_, hnames⟩
      rw [hsome]
      simp [habstract]
    · rename_i hconcrete
      obtain ⟨found, _, hfound, h⟩ := Query.run_bind_some h
      obtain ⟨more, _, hmore, h⟩ := Query.run_bind_some h
      obtain ⟨rfl, -⟩ := Query.run_pure h
      obtain ⟨hsome, hnames⟩ := ih hmore
      rw [Dictionary.find?]
      split
      · rename_i heq
        refine ⟨?_, ?_⟩
        · simp [heq, Bool.eq_false_iff.mpr hconcrete]
        · rintro _ ⟨⟩
          exact hasDistinctNames_loadIndexes hfound
      · rename_i hne
        refine ⟨?_, hnames⟩
        rw [hsome]
        simp [hne]

/-- A report for a class does not change the others. -/
theorem map_withReport_cons {name : String} (found : TableIndexes)
    (reported : Dictionary String TableIndexes) (hname : name ∉ es.map (·.name)) :
    es.map (withReport ((name, found) :: reported)) = es.map (withReport reported) := by
  refine List.map_congr_left fun other hother => ?_
  have hne : name ≠ other.name := fun heq => hname (List.mem_map.mpr ⟨other, hother, heq.symm⟩)
  rw [withReport, withReport, Dictionary.find?, if_neg hne]

/-- If no query fails, every class has what is reported for it. -/
theorem applyToEach_run (hnames : (es.map (·.name)).Nodup) {es' : List Entity}
    (h : applyToEach backend s es = (false, es', s')) :
    ∃ reported, (reports backend es).run s = (some reported, s') ∧
      es' = es.map (withReport reported) := by
  induction es generalizing s es' with
  | nil =>
    cases h
    exact ⟨[], rfl, rfl⟩
  | cons e rest ih =>
    obtain ⟨hname, hrest⟩ := List.nodup_cons.mp hnames
    rw [applyToEach] at h
    rw [reports]
    split at h
    · rename_i habstract
      rcases hothers : applyToEach backend s rest with ⟨failed, es'', t⟩
      rw [hothers] at h
      cases h
      obtain ⟨reported, hrun, rfl⟩ := ih hrest hothers
      refine ⟨reported, by rw [if_pos habstract]; exact hrun, ?_⟩
      have hnone : reported.find? e.name = none := by
        rw [← Option.not_isSome_iff_eq_none, (find?_reports hrun e.name).1]
        rintro ⟨other, hother, -, heq⟩
        exact hname (List.mem_map.mpr ⟨other, hother, heq⟩)
      rw [List.map_cons, withReport, hnone]
    · rename_i hconcrete
      split at h
      · cases h
      · rename_i found t hfound
        rcases hothers : applyToEach backend t rest with ⟨failed, es'', t'⟩
        rw [hothers] at h
        cases h
        obtain ⟨reported, hrun, rfl⟩ := ih hrest hothers
        refine ⟨(e.name, found) :: reported, ?_, ?_⟩
        · rw [if_neg hconcrete, Query.run_bind hfound, Query.run_bind hrun]
          rfl
        · rw [List.map_cons, map_withReport_cons found reported hname, withReport, Dictionary.find?,
            if_pos rfl]

/-- Whether a column of a class's table is reported to be unique. -/
def reportsUnique (reported : Dictionary String TableIndexes) (className column : String) : Bool :=
  (reported.find? className).any (·.uniqueColumns.contains column)

/-- The declaration of a property of a class with what is reported for it. -/
def markReported (reported : Dictionary String TableIndexes) (className : String) (p : Property) :
    Property :=
  { p with unique := p.unique || reportsUnique reported className p.columnName }

theorem withReport_eq (reported : Dictionary String TableIndexes) (e : Entity) :
    withReport reported e =
      { e with
        indexes := match reported.find? e.name with
          | some found => mergeIndexes e.indexes found.indexes
          | none => e.indexes
        properties := e.properties.map (markReported reported e.name) } := by
  unfold withReport markReported reportsUnique
  cases reported.find? e.name with
  | none => simp
  | some found => simp [mergeEntity]

theorem key_markReported (reported : Dictionary String TableIndexes) (className : String)
    (p : Property) : (markReported reported className p).key = p.key := rfl

end Schema

namespace Catalog

open Schema

variable (c : Catalog) (reported : Dictionary String TableIndexes)

/-- The catalog with what is reported for its classes. -/
def withReports : Catalog := { c with entities := c.entities.map (withReport reported) }

theorem entity?_withReports (name : String) :
    (c.withReports reported).entity? name = (c.entity? name).map (withReport reported) := by
  rw [entity?, entity?, withReports, List.find?_map]
  simp only [Function.comp_def, withReport_eq]

theorem chain_withReports (depth : Nat) (e : Option Entity) :
    (c.withReports reported).chain depth (e.map (withReport reported)) =
      (c.chain depth e).map (withReport reported) := by
  induction depth generalizing e with
  | zero => rfl
  | succ depth ih =>
    cases e with
    | none => rfl
    | some e =>
      have hnext : (withReport reported e).superclass.bind (c.withReports reported).entity? =
          (e.superclass.bind c.entity?).map (withReport reported) := by
        rw [withReport_eq]
        cases e.superclass with
        | none => rfl
        | some name => exact c.entity?_withReports reported name
      rw [Option.map_some, chain, hnext, ih, chain, List.map_cons]

/-- The superclasses stay, each with what is reported for it. -/
theorem lineage_withReports (className : String) :
    (c.withReports reported).lineage className =
      (c.lineage className).map (withReport reported) := by
  rw [lineage, entity?_withReports, chain_withReports, lineage]

variable {c reported}

/-- A class is the first of its lineage. -/
theorem mem_lineage_self (hnames : (c.entities.map (·.name)).Nodup) {e : Entity}
    (he : e ∈ c.entities) : e ∈ c.lineage e.name := by
  have hfind : c.entity? e.name = some e := by
    cases hfind : c.entity? e.name with
    | none => exact absurd (List.find?_eq_none.mp hfind e he) (by simp)
    | some e' =>
      have hname : e'.name = e.name :=
        beq_iff_eq.mp (List.find?_some (p := fun x : Entity => x.name == e.name) hfind)
      rw [Registry.eq_of_name_eq hnames (List.mem_of_find?_eq_some hfind) he hname]
  rw [lineage, hfind]
  exact List.mem_cons_self

/-! ## Properties and their columns -/

variable {className : String} {p : Property} {d : Entity}

/-- The nearest declaration of a property, and the class that declares it. -/
structure DeclaredBy (c : Catalog) (className : String) (p : Property) (d : Entity) : Prop where
  nearest : (c.lineage className).find? (·.properties.any (·.key == p.key)) = some d
  own : d.properties.find? (·.key == p.key) = some p

/-- No column of a class keeps two properties. -/
def KeepsColumnsApart (c : Catalog) (className : String) : Prop :=
  ∀ p ∈ c.declarations className, ∀ q ∈ c.declarations className,
    p.kind.isColumn = true → q.kind.isColumn = true → p.columnName = q.columnName → p.key = q.key

theorem DeclaredBy.find?_declarations (h : c.DeclaredBy className p d) :
    (c.declarations className).find? (·.key == p.key) = some p := by
  obtain ⟨hnearest, hown⟩ := h
  rw [declarations]
  generalize c.lineage className = es at hnearest ⊢
  induction es with
  | nil => cases hnearest
  | cons e rest ih =>
    rw [List.flatMap_cons, List.find?_append]
    rw [List.find?_cons] at hnearest
    split at hnearest
    · cases hnearest
      rw [hown, Option.some_or]
    · rename_i hnot
      have hnone : e.properties.find? (·.key == p.key) = none := by
        rw [List.find?_eq_none]
        intro q hq hkey
        rw [List.any_eq_true.mpr ⟨q, hq, hkey⟩] at hnot
        cases hnot
      rw [hnone, Option.none_or, ih hnearest]

theorem DeclaredBy.withReports (h : c.DeclaredBy className p d) :
    (c.withReports reported).DeclaredBy className (markReported reported d.name p)
      (withReport reported d) := by
  constructor
  · have hsame : ∀ e, (withReport reported e).properties.any (·.key == p.key) =
        e.properties.any (·.key == p.key) := by
      intro e
      rw [withReport_eq, List.any_map]
      rfl
    rw [lineage_withReports, List.find?_map, key_markReported]
    simp only [Function.comp_def, hsame, h.nearest, Option.map_some]
  · rw [withReport_eq, key_markReported, List.find?_map]
    have hsame : ((·.key == p.key) ∘ markReported reported d.name) = (·.key == p.key) := rfl
    rw [hsame, h.own, Option.map_some]

theorem mem_declarations_withReports {q : Property}
    (h : q ∈ (c.withReports reported).declarations className) :
    ∃ q₀ ∈ c.declarations className, ∃ name, q = markReported reported name q₀ := by
  rw [declarations, lineage_withReports, List.mem_flatMap] at h
  obtain ⟨e', he', hq⟩ := h
  obtain ⟨e, he, rfl⟩ := List.mem_map.mp he'
  rw [withReport_eq] at hq
  obtain ⟨q₀, hq₀, rfl⟩ := List.mem_map.mp hq
  exact ⟨q₀, List.mem_flatMap.mpr ⟨e, he, hq₀⟩, e.name, rfl⟩

theorem KeepsColumnsApart.withReports (h : c.KeepsColumnsApart className) :
    (c.withReports reported).KeepsColumnsApart className := by
  intro p hp q hq hp' hq' hcolumn
  obtain ⟨p₀, hp₀, _, rfl⟩ := mem_declarations_withReports hp
  obtain ⟨q₀, hq₀, _, rfl⟩ := mem_declarations_withReports hq
  exact h p₀ hp₀ q₀ hq₀ hp' hq' hcolumn

/-- The nearest declaration is taken over, also that of `id`. -/
theorem DeclaredBy.mem_takenOver (h : c.DeclaredBy className p d) : p ∈ c.takenOver className := by
  by_cases hid : p.key = "id"
  · have hmem : p ∈ (c.declarations className).filter (·.key == "id") :=
      List.mem_filter.mpr ⟨List.mem_of_find?_eq_some h.find?_declarations, beq_iff_eq.mpr hid⟩
    rw [← ClassMapping.filter_takenOver_id []] at hmem
    exact (List.mem_filter.mp hmem).1
  · exact ClassMapping.mem_takenOver h.find?_declarations hid

theorem mem_declarations_of_mem_takenOver (h : p ∈ c.takenOver className) :
    p ∈ c.declarations className :=
  (ClassMapping.takenOver_sublist [] _).subset h

/-- A column that keeps one property only belongs to it. -/
theorem KeepsColumnsApart.columnKey? (h : c.KeepsColumnsApart className)
    (hp : p ∈ c.takenOver className) (hstored : p.kind.isColumn = true) :
    c.columnKey? className p.columnName = some p.key := by
  rw [Catalog.columnKey?, Option.map_eq_some_iff]
  cases howner : c.columnOwner? className p.columnName with
  | none =>
    unfold Catalog.columnOwner? ClassMapping.columnOwner? at howner
    have hnot := List.find?_eq_none.mp howner p (List.mem_reverse.mpr hp)
    simp [hstored] at hnot
  | some o =>
    obtain ⟨ho, hostored, hcolumn⟩ := ClassMapping.columnOwner?_eq_some howner
    exact ⟨o, rfl, h o (mem_declarations_of_mem_takenOver ho) p
      (mem_declarations_of_mem_takenOver hp) hostored hstored hcolumn⟩

end Catalog

/-! ## Mappings -/

namespace ClassMapping

variable {c : Catalog} {e d : Entity} {p : Property}

/-- The facts of a property whose column is its own, from the declarations. -/
theorem find?_build_of_declaredBy (hcolumns : c.KeepsColumnsApart e.name)
    (hp : c.DeclaredBy e.name p d) (hstored : p.kind.isColumn = true) :
    ∃ facts, (build c e).value.properties.find? p.key = some facts ∧
      (∀ i ∈ c.indexes e.name, i.leadingColumn? = some p.columnName → facts.hasIndex = true) ∧
      (p.unique = true → facts.isUnique = true) ∧
      (p.key ≠ "id" → facts.isUnique = true → p.unique = true) := by
  have hkey := hcolumns.columnKey? hp.mem_takenOver hstored
  have hdeclared : (declaredFacts? (c.takenOver e.name) p.key).isSome = true := by
    have hlast : (lastWith p.key (c.takenOver e.name)).isSome = true :=
      List.find?_isSome.mpr ⟨p, List.mem_reverse.mpr hp.mem_takenOver, beq_self_eq_true _⟩
    rw [declaredFacts?, Option.isSome_or, Option.isSome_map, hlast, Bool.true_or]
  obtain ⟨declared, hdeclared⟩ := Option.isSome_iff_exists.mp hdeclared
  have hfind := find?_build c e p.key
  rw [hdeclared, Option.map_some] at hfind
  refine ⟨_, hfind, fun i hi hlead => ?_, fun hunique => ?_, fun hid hunique => ?_⟩
  · have hcovers : Building.covers (c.columnKey? e.name) p.key i = true := by
      rw [Building.covers, hlead, Option.bind_some, hkey, beq_self_eq_true]
    show (_ || (c.indexes e.name).any _) = true
    rw [List.any_eq_true.mpr ⟨i, hi, hcovers⟩, Bool.or_true]
  · have hmem : p.columnName ∈ uniqueColumns (c.takenOver e.name) := by
      refine List.mem_map_of_mem (List.mem_filter.mpr ⟨hp.mem_takenOver, ?_⟩)
      rw [hstored, hunique, Bool.and_true]
    have howner : (c.columnKey? e.name p.columnName == some p.key) = true := beq_iff_eq.mpr hkey
    show (_ || (uniqueColumns (c.takenOver e.name)).any _) = true
    rw [List.any_eq_true.mpr ⟨p.columnName, hmem, howner⟩, Bool.or_true]
  · have hnearest := hp.find?_declarations
    have hplain : declared = declaredFacts p := by
      rw [declaredFacts?, Catalog.takenOver, lastWith_takenOver hid, hnearest] at hdeclared
      exact (Option.some.inj hdeclared).symm
    subst hplain
    obtain ⟨-, -, u, hu, hustored, hcolumn, humarked⟩ :=
      (any_uniqueColumns_iff hnearest hid).mp hunique
    have hkeys : u.key = p.key :=
      hcolumns u (Catalog.mem_declarations_of_mem_takenOver hu) p
        (Catalog.mem_declarations_of_mem_takenOver hp.mem_takenOver) hustored hstored hcolumn
    rwa [eq_of_mem_takenOver hnearest hid hu hkeys] at humarked

end ClassMapping

/-! ## The registry of a catalog with indexes -/

namespace Schema

variable {c : Catalog} {reported : Dictionary String TableIndexes} {e d : Entity} {p : Property}

/-- An index that is reported for a class is one of those that its mapping looks at. -/
theorem mem_indexes_withReports (hnames : (c.entities.map (·.name)).Nodup) (he : e ∈ c.entities)
    {found : TableIndexes} (hfound : reported.find? e.name = some found)
    (hdistinct : found.HasDistinctNames) {i : Index} (hi : i ∈ found.indexes) :
    i ∈ (c.withReports reported).indexes e.name := by
  rw [Catalog.indexes, Catalog.lineage_withReports]
  refine List.mem_flatMap.mpr
    ⟨_, List.mem_map_of_mem (Catalog.mem_lineage_self hnames he), ?_⟩
  rw [withReport, hfound]
  exact mem_mergeIndexes_of_found hdistinct hi

/-- The mapping of a class is built from the declaration with what is reported for it. -/
theorem find?_mapClasses_withReports (hnames : (c.entities.map (·.name)).Nodup)
    (he : e ∈ c.entities) (hconcrete : e.isAbstract = false) :
    (Registry.mapClasses (c.withReports reported)).value.find? e.name =
      some (ClassMapping.build (c.withReports reported) (withReport reported e)).value := by
  have hname : ∀ e, (withReport reported e).name = e.name := fun e => by rw [withReport_eq]
  have hnames' : ((c.withReports reported).entities.map (·.name)).Nodup := by
    rw [Catalog.withReports, List.map_map]
    simpa only [Function.comp_def, hname] using hnames
  have hconcrete' : (withReport reported e).isAbstract = false := by
    rw [withReport_eq]
    exact hconcrete
  rw [← Registry.find?_mapClasses_of_mem hnames' (List.mem_map_of_mem he) hconcrete', hname]

/-- A class has a report unless it is abstract. -/
theorem isSome_report (hnames : (c.entities.map (·.name)).Nodup) {backend : Backend}
    {s s' : Session} (h : (reports backend c.entities).run s = (some reported, s'))
    (hd : d ∈ c.entities) : (reported.find? d.name).isSome = !d.isAbstract := by
  rw [Bool.eq_iff_iff, (find?_reports h d.name).1, Bool.not_eq_true']
  constructor
  · rintro ⟨other, hother, hconcrete, hname⟩
    rwa [← Registry.eq_of_name_eq hnames hother hd hname]
  · exact fun hconcrete => ⟨d, hd, hconcrete, rfl⟩

theorem applyIndexes_run {backend : Backend} {c' : Catalog} {s s' : Session}
    (hnames : (c.entities.map (·.name)).Nodup)
    (h : applyIndexes backend c s = (false, c', s')) :
    ∃ reported, (reports backend c.entities).run s = (some reported, s') ∧
      c' = c.withReports reported := by
  rw [applyIndexes] at h
  rcases heach : applyToEach backend s c.entities with ⟨failed, es', t⟩
  rw [heach] at h
  cases h
  obtain ⟨reported, hrun, rfl⟩ := applyToEach_run hnames heach
  exact ⟨reported, hrun, rfl⟩

/-- The facts of a property stored in a column of its own, once a catalog has the indexes of a
database. Every reported index whose first column it is counts for the property, own or inherited.
It is unique if it is declared so, or if the column is reported to be unique in the table of the
class that declares the property. An abstract class has no table: what is reported for the tables of
its subclasses does not make its properties unique. -/
theorem applyIndexes_registry {backend : Backend} {c' : Catalog} {s s' : Session}
    (happly : applyIndexes backend c s = (false, c', s'))
    (hnames : (c.entities.map (·.name)).Nodup) (he : e ∈ c.entities)
    (hconcrete : e.isAbstract = false) (hcolumns : c.KeepsColumnsApart e.name)
    (hp : c.DeclaredBy e.name p d) (hstored : p.kind.isColumn = true) :
    ∃ reported found m facts, (reports backend c.entities).run s = (some reported, s') ∧
      reported.find? e.name = some found ∧
      (Registry.build c').value.find? e.name = some m ∧ m.property? p.name = some facts ∧
      (∀ i ∈ found.indexes, i.leadingColumn? = some p.columnName → facts.hasIndex = true) ∧
      (p.unique = true ∨ reportsUnique reported d.name p.columnName = true →
        facts.isUnique = true) ∧
      (p.key ≠ "id" → facts.isUnique = true →
        p.unique = true ∨ reportsUnique reported d.name p.columnName = true) ∧
      (reported.find? d.name).isSome = !d.isAbstract := by
  obtain ⟨reported, hrun, rfl⟩ := applyIndexes_run hnames happly
  obtain ⟨found, hfound⟩ : ∃ found, reported.find? e.name = some found := by
    rw [← Option.isSome_iff_exists, isSome_report hnames hrun he, hconcrete]
    rfl
  have hbuilt := Registry.find?_build (c.withReports reported) e.name
  rw [find?_mapClasses_withReports hnames he hconcrete, Option.map_some] at hbuilt
  have hname : (withReport reported e).name = e.name := by rw [withReport_eq]
  have hstored' : (markReported reported d.name p).kind.isColumn = true := hstored
  obtain ⟨facts, hfacts, hindex, hunique, hnot⟩ := ClassMapping.find?_build_of_declaredBy
    (hname.symm ▸ hcolumns.withReports) (hname.symm ▸ hp.withReports) hstored'
  rw [key_markReported, Property.key, ← ClassMapping.property?] at hfacts
  refine ⟨reported, found, _, _, hrun, hfound, hbuilt,
    by rw [ClassMapping.property?_annotated, hfacts]; rfl, fun i hi hlead => ?_, fun h => ?_,
    fun hid h => ?_, ?_⟩
  · refine hindex i ?_ hlead
    rw [hname]
    exact mem_indexes_withReports hnames he hfound ((find?_reports hrun e.name).2 found hfound) hi
  · exact hunique (Bool.or_eq_true_iff.mpr h)
  · exact Bool.or_eq_true_iff.mp (hnot hid h)
  · exact isSome_report hnames hrun
      (Catalog.mem_entities_of_mem_lineage (List.mem_of_find?_eq_some hp.nearest))

/-- Objects, which are abstract and have names. -/
def namedObjects : Entity :=
  { name := "SailPointObject", table := "spt_object", isAbstract := true
    properties := [{ name := "name" }] }

/-- Identities, which are objects. -/
def identitiesOfObjects : Entity :=
  { name := "Identity", table := "spt_identity", superclass := "SailPointObject" }

/-- The names of identities have an index and a unique constraint. -/
def identityNameRows : List Row :=
  [[("index_name", .text "identity_by_name"), ("column_name", .text "name"),
      ("is_unique_constraint", .bool false)],
    [("index_name", .text "identity_name_once"), ("column_name", .text "name"),
      ("is_unique_constraint", .bool true)]]

/-- An inherited property has the index that is reported for its column, but is not unique although
the column is reported to be. -/
theorem applyIndexes_registry_inherited :
    let c : Catalog := { entities := [namedObjects, identitiesOfObjects] }
    let p : Property := { name := "name" }
    ∃ c' s' found m facts,
      applyIndexes .postgres c ⟨[identityNameRows], []⟩ = (false, c', s') ∧
      (c.entities.map (·.name)).Nodup ∧ c.KeepsColumnsApart "Identity" ∧
      c.DeclaredBy "Identity" p namedObjects ∧
      (loadIndexes .postgres "spt_identity").run ⟨[identityNameRows], []⟩ = (some found, s') ∧
      found.uniqueColumns = ["name"] ∧
      (Registry.build c').value.find? "Identity" = some m ∧ m.property? "name" = some facts ∧
      facts.hasIndex = true ∧ facts.isUnique = false := by
  intro c p
  let s : Session := ⟨[identityNameRows], []⟩
  let found : TableIndexes := ⟨[⟨"identity_by_name", ["name"]⟩], ["name"]⟩
  have happly : applyIndexes .postgres c s =
      (false, (applyIndexes .postgres c s).2.1, (applyIndexes .postgres c s).2.2) := by rfl
  have hnames : (c.entities.map (·.name)).Nodup := by decide
  have hcolumns : c.KeepsColumnsApart "Identity" := by
    intro q hq q' hq' _ _ _
    have hdeclared : c.declarations "Identity" = [p] := by decide +kernel
    rw [hdeclared, List.mem_singleton] at hq hq'
    rw [hq, hq']
  have hp : c.DeclaredBy "Identity" p namedObjects := ⟨by decide +kernel, by decide +kernel⟩
  have hid : p.key ≠ "id" := by decide +kernel
  have hloaded : (loadIndexes .postgres "spt_identity").run s =
      (some found, (applyIndexes .postgres c s).2.2) := by rfl
  have hreports : ((reports .postgres c.entities).run s).1 = some [("Identity", found)] := by rfl
  obtain ⟨reported, found', m, facts, hrun, hfound, hfind, hfacts, hindex, -, hnot, -⟩ :=
    applyIndexes_registry happly hnames (e := identitiesOfObjects) (by decide) rfl hcolumns hp rfl
  rw [hrun] at hreports
  cases hreports
  cases hfound
  refine ⟨_, _, found, m, facts, happly, hnames, hcolumns, hp, hloaded, rfl, hfind, hfacts,
    hindex _ List.mem_cons_self (by decide +kernel), ?_⟩
  exact Bool.eq_false_iff.mpr fun h => absurd (hnot hid h) (by decide)

end Schema

end ObjectQuery
