import Mathlib.Data.List.Forall2
import ObjectQuery.Schema

/-!
# Loading the indexes of a table

A database describes the indexes of a table in one of two ways: by a list of them with an answer for
the columns of each, or by one row for every column of every index. Both ways lead to the same
indexes.

* `Schema.StoredIndex`: an index as a database has it.
* `Schema.AnswersByIndex`, `Schema.AnswersByColumn`: answers that describe some indexes.
* `Schema.tableOf`: the indexes and unique columns that are to be found.
* `Schema.loadIndexes_agree`: both ways find them.
-/

namespace ObjectQuery

theorem Query.run_bind {α β : Type} {x : Query α} {f : α → Query β} {s s' : Session} {a : α}
    (h : x.run s = (some a, s')) : (x >>= f).run s = (f a).run s' := by
  simp only [Query.run, Bind.bind] at h ⊢
  rw [h]

namespace TableIndexes

variable {t : TableIndexes} {name : String}

/-- Adds the columns of an index in order. -/
def addColumns (t : TableIndexes) (name : String) (columns : List String) : TableIndexes :=
  columns.foldl (fun t column => t.addColumn name column) t

/-- The first column of an index that is new. -/
theorem addColumn_of_notMem (h : name ∉ t.indexes.map (·.name)) (column : String) :
    t.addColumn name column = ⟨t.indexes ++ [⟨name, [column]⟩], t.uniqueColumns⟩ := by
  obtain ⟨indexes, uniqueColumns⟩ := t
  rw [addColumn]
  congr 1
  induction indexes with
  | nil => rfl
  | cons i rest ih =>
    rw [List.map_cons, List.mem_cons, not_or] at h
    have hne : (i.name == name) = false := beq_eq_false_iff_ne.mpr fun heq => h.1 heq.symm
    rw [addColumn.go, hne, if_neg Bool.false_ne_true, ih h.2]
    rfl

/-- One more column of the index that came last. -/
theorem addColumn_last {before : List Index} (h : name ∉ before.map (·.name))
    (uniques columns : List String) (column : String) :
    addColumn ⟨before ++ [⟨name, columns⟩], uniques⟩ name column =
      ⟨before ++ [⟨name, columns ++ [column]⟩], uniques⟩ := by
  rw [addColumn]
  congr 1
  induction before with
  | nil => rw [List.nil_append, addColumn.go, beq_self_eq_true, if_pos rfl, List.nil_append]
  | cons i rest ih =>
    rw [List.map_cons, List.mem_cons, not_or] at h
    have hne : (i.name == name) = false := beq_eq_false_iff_ne.mpr fun heq => h.1 heq.symm
    rw [List.cons_append, addColumn.go, hne, if_neg Bool.false_ne_true, ih h.2]
    rfl

/-- An index that is new comes last, with its columns in order. Without columns it does not come. -/
theorem addColumns_of_notMem (h : name ∉ t.indexes.map (·.name)) (columns : List String) :
    t.addColumns name columns =
      if columns = [] then t else ⟨t.indexes ++ [⟨name, columns⟩], t.uniqueColumns⟩ := by
  have hmore : ∀ more seen : List String,
      addColumns ⟨t.indexes ++ [⟨name, seen⟩], t.uniqueColumns⟩ name more =
        ⟨t.indexes ++ [⟨name, seen ++ more⟩], t.uniqueColumns⟩ := by
    intro more
    induction more with
    | nil =>
      intro seen
      rw [List.append_nil]
      rfl
    | cons column rest ih =>
      intro seen
      rw [addColumns, List.foldl_cons, addColumn_last h, ← addColumns, ih, List.append_assoc]
      rfl
  cases columns with
  | nil => rfl
  | cons column rest =>
    rw [addColumns, List.foldl_cons, addColumn_of_notMem h, ← addColumns, hmore]
    rfl

/-- Unique columns come once, where they come first. -/
theorem addUnique_eraseDups {seen : List String} (h : t.uniqueColumns = seen.eraseDups)
    (column : String) :
    t.addUnique column = ⟨t.indexes, (seen ++ [column]).eraseDups⟩ := by
  have hcontains : t.uniqueColumns.contains column = seen.contains column := by
    rw [h, Bool.eq_iff_iff, List.contains_iff_mem, List.contains_iff_mem, List.mem_eraseDups]
  rw [addUnique, hcontains, List.eraseDups_append, h]
  cases hmem : seen.contains column with
  | true =>
    have hnone : [column].removeAll seen = [] := by simpa [List.removeAll] using hmem
    rw [hnone, List.eraseDups_nil, List.append_nil, ← h]
    rfl
  | false =>
    have hone : [column].removeAll seen = [column] := by simpa [List.removeAll] using hmem
    rw [hone, List.eraseDups_cons]
    rfl

theorem foldl_addUnique {seen : List String} (h : t.uniqueColumns = seen.eraseDups)
    (columns : List String) :
    columns.foldl addUnique t = ⟨t.indexes, (seen ++ columns).eraseDups⟩ := by
  induction columns generalizing t seen with
  | nil =>
    rw [List.append_nil, ← h]
    rfl
  | cons column rest ih =>
    rw [List.foldl_cons, addUnique_eraseDups h, ih rfl, List.append_assoc]
    rfl

end TableIndexes

namespace Schema

/-! ## What a database has -/

/-- Where an index of a table comes from. -/
inductive IndexOrigin where
  | created
  /-- It backs a unique constraint. -/
  | constraint
  | primaryKey
  deriving DecidableEq, Repr, Inhabited

/-- How a list of indexes marks the origin. -/
def IndexOrigin.mark : IndexOrigin → String
  | created => "c"
  | constraint => "u"
  | primaryKey => "pk"

/-- An index as a database has it. -/
structure StoredIndex where
  name : String
  origin : IndexOrigin
  columns : List String
  deriving DecidableEq, Repr, Inhabited

/-- The indexes but for primary keys. -/
def secondary (is : List StoredIndex) : List StoredIndex := is.filter (·.origin != .primaryKey)

/-- The column of a unique constraint that has only one. -/
def StoredIndex.soleColumn? (i : StoredIndex) : Option String :=
  match i.origin, i.columns with
  | .constraint, [column] => some column
  | _, _ => none

/-- The index to be found, if it backs no constraint and has columns. -/
def StoredIndex.found? (i : StoredIndex) : Option Index :=
  if i.origin = .created ∧ i.columns ≠ [] then some ⟨i.name, i.columns⟩ else none

/-- What is to be found of some indexes: those that back no constraint, and the columns of the
constraints of one column, each once, in the order in which they come first. -/
def tableOf (is : List StoredIndex) : TableIndexes where
  indexes := is.filterMap StoredIndex.found?
  uniqueColumns := (is.filterMap StoredIndex.soleColumn?).eraseDups

/-! ## How it describes them -/

/-- A row of a list of indexes. -/
def ListsIndex (i : StoredIndex) (row : Row) : Prop :=
  row.text? "name" = some i.name ∧ row.text? "origin" = some i.origin.mark

/-- A row with the name of a column. -/
def NamesColumn (column : String) (row : Row) : Prop := row.text? "name" = some column

/-- Answers that describe indexes by a list of them and the columns of each. Nobody asks for the
columns of primary keys. -/
inductive AnswersByIndex (is : List StoredIndex) : List (List Row) → Prop where
  | intro {listed : List Row} {columns : List (List Row)} :
      List.Forall₂ ListsIndex is listed →
      List.Forall₂ (fun i rows => List.Forall₂ NamesColumn i.columns rows) (secondary is) columns →
      AnswersByIndex is (listed :: columns)

/-- A row for one column of one index. -/
def ShowsColumn (c : IndexColumn) (row : Row) : Prop :=
  row.text? "index_name" = some c.index ∧ row.text? "column_name" = some c.column ∧
    row.bool? "is_unique_constraint" = some c.isConstraint

/-- The columns of an index one by one. -/
def StoredIndex.columnRows (i : StoredIndex) : List IndexColumn :=
  i.columns.map fun column => ⟨i.name, column, i.origin == .constraint⟩

/-- An answer that describes indexes column by column. -/
def AnswersByColumn (is : List StoredIndex) (rows : List Row) : Prop :=
  List.Forall₂ ShowsColumn ((secondary is).flatMap StoredIndex.columnRows) rows

/-! ## Adding one index after the other -/

/-- Adds an index to those found before. -/
def StoredIndex.addTo (i : StoredIndex) (t : TableIndexes) : TableIndexes :=
  match i.origin, i.columns with
  | .created, columns => t.addColumns i.name columns
  | .constraint, [column] => t.addUnique column
  | _, _ => t

theorem secondary_append (is js : List StoredIndex) :
    secondary (is ++ js) = secondary is ++ secondary js :=
  List.filter_append ..

theorem name_of_found {is : List StoredIndex} {name : String}
    (h : name ∈ (tableOf is).indexes.map (·.name)) : name ∈ (secondary is).map (·.name) := by
  obtain ⟨index, hindex, rfl⟩ := List.mem_map.mp h
  obtain ⟨i, hi, hfound⟩ := List.mem_filterMap.mp hindex
  unfold StoredIndex.found? at hfound
  split at hfound
  · rename_i hcreated
    cases hfound
    exact List.mem_map.mpr ⟨i, List.mem_filter.mpr ⟨hi, by rw [hcreated.1]; rfl⟩, rfl⟩
  · cases hfound

theorem tableOf_append_singleton (is : List StoredIndex) (i : StoredIndex) :
    tableOf (is ++ [i]) = ⟨(tableOf is).indexes ++ i.found?.toList,
      (is.filterMap StoredIndex.soleColumn? ++ i.soleColumn?.toList).eraseDups⟩ := by
  have hone : ∀ {α : Type} (f : StoredIndex → Option α), [i].filterMap f = (f i).toList := by
    intro α f
    cases h : f i <;> simp [h]
  rw [tableOf, List.filterMap_append, List.filterMap_append, hone, hone]
  rfl

/-- One more index. -/
theorem addTo_tableOf {is : List StoredIndex} {i : StoredIndex}
    (hnew : i.origin ≠ .primaryKey → i.name ∉ (secondary is).map (·.name)) :
    i.addTo (tableOf is) = tableOf (is ++ [i]) := by
  have hsame : i.found? = none → i.soleColumn? = none → tableOf (is ++ [i]) = tableOf is := by
    intro hfound hsole
    rw [tableOf_append_singleton, hfound, hsole, Option.toList_none, List.append_nil,
      Option.toList_none, List.append_nil]
    rfl
  obtain ⟨name, origin, columns⟩ := i
  cases origin with
  | created =>
    have hname : name ∉ (tableOf is).indexes.map (·.name) := fun h =>
      hnew (fun h => nomatch h) (name_of_found h)
    show (tableOf is).addColumns name columns = _
    rw [TableIndexes.addColumns_of_notMem hname]
    by_cases hcolumns : columns = []
    · rw [if_pos hcolumns, hsame (by simp [StoredIndex.found?, hcolumns]) rfl]
    · have hfound : StoredIndex.found? ⟨name, .created, columns⟩ = some ⟨name, columns⟩ :=
        if_pos ⟨rfl, hcolumns⟩
      have hsole : StoredIndex.soleColumn? ⟨name, .created, columns⟩ = none := rfl
      rw [if_neg hcolumns, tableOf_append_singleton, hfound, hsole, Option.toList_none,
        List.append_nil]
      rfl
  | constraint =>
    rcases columns with _ | ⟨column, _ | ⟨second, rest⟩⟩
    · exact (hsame rfl rfl).symm
    · have hadd := TableIndexes.addUnique_eraseDups (t := tableOf is) rfl column
      have hfound : StoredIndex.found? ⟨name, .constraint, [column]⟩ = none := rfl
      show (tableOf is).addUnique column = _
      rw [hadd, tableOf_append_singleton, hfound, Option.toList_none, List.append_nil]
      rfl
    · exact (hsame rfl rfl).symm
  | primaryKey => exact (hsame rfl rfl).symm

/-- Indexes of different names, one after the other. -/
theorem foldl_addTo {is js : List StoredIndex}
    (hnames : ((secondary (is ++ js)).map (·.name)).Nodup) :
    js.foldl (fun t i => i.addTo t) (tableOf is) = tableOf (is ++ js) := by
  induction js generalizing is with
  | nil => rw [List.append_nil]; rfl
  | cons i rest ih =>
    have hsplit : is ++ i :: rest = is ++ [i] ++ rest := by
      rw [List.append_assoc]
      rfl
    rw [hsplit] at hnames ⊢
    have hnew : i.origin ≠ .primaryKey → i.name ∉ (secondary is).map (·.name) := by
      intro hsecondary hmem
      have hi : i ∈ secondary [i] :=
        List.mem_filter.mpr ⟨List.mem_singleton_self i, bne_iff_ne.mpr hsecondary⟩
      rw [secondary_append, secondary_append, List.map_append, List.map_append] at hnames
      have hdistinct := (List.nodup_append.mp (List.nodup_append.mp hnames).1).2.2
      exact hdistinct _ hmem _ (List.mem_map_of_mem hi) rfl
    rw [List.foldl_cons, addTo_tableOf hnew, ih hnames]

theorem foldl_addTo_empty {is : List StoredIndex} (hnames : ((secondary is).map (·.name)).Nodup) :
    is.foldl (fun t i => i.addTo t) {} = tableOf is :=
  @foldl_addTo [] is hnames

/-! ## One query per index -/

theorem readNames_run {columns : List String} {rows : List Row}
    (h : List.Forall₂ NamesColumn columns rows) (s : Session) :
    (readNames rows).run s = (some columns, s) := by
  induction h with
  | nil => rfl
  | cons hrow _ ih =>
    rw [readNames, hrow]
    exact Query.run_bind ih

/-- The statement that asks for the columns of an index. -/
def columnsStatement (i : StoredIndex) : SentStatement :=
  { sql := "PRAGMA index_info(" ++ quoteName i.name ++ ")" }

theorem loadIndex_run {i : StoredIndex} {row : Row} {rows : List Row} (hrow : ListsIndex i row)
    (hcolumns : List.Forall₂ NamesColumn i.columns rows) (hsecondary : i.origin ≠ .primaryKey)
    (t : TableIndexes) (rest : List (List Row)) (sent : List SentStatement) :
    (loadIndex t row).run ⟨rows :: rest, sent⟩ =
      (some (i.addTo t), ⟨rest, sent ++ [columnsStatement i]⟩) := by
  obtain ⟨name, origin, columns⟩ := i
  rw [loadIndex, hrow.1, hrow.2]
  cases origin with
  | created =>
    show ((readNames rows >>= fun columns => _ : Query _).run ⟨rest, _⟩) = _
    rw [Query.run_bind (readNames_run hcolumns _)]
    rfl
  | constraint =>
    show ((readNames rows >>= fun columns => _ : Query _).run ⟨rest, _⟩) = _
    rw [Query.run_bind (readNames_run hcolumns _)]
    rcases columns with _ | ⟨column, _ | ⟨second, more⟩⟩ <;> rfl
  | primaryKey => exact absurd rfl hsecondary

theorem loadIndex_run_primaryKey {i : StoredIndex} {row : Row} (hrow : ListsIndex i row)
    (hprimary : i.origin = .primaryKey) (t : TableIndexes) (s : Session) :
    (loadIndex t row).run s = (some t, s) := by
  rw [loadIndex, hrow.1, hrow.2, hprimary]
  rfl

/-- The listed indexes are added one after the other, each with an answer for its columns. -/
theorem loadEach_run {is : List StoredIndex} {listed : List Row} (h : List.Forall₂ ListsIndex is listed)
    {columns : List (List Row)}
    (hcolumns : List.Forall₂ (fun i rows => List.Forall₂ NamesColumn i.columns rows) (secondary is)
      columns) (t : TableIndexes) (rest : List (List Row)) (sent : List SentStatement) :
    (loadEach t listed).run ⟨columns ++ rest, sent⟩ =
      (some (is.foldl (fun t i => i.addTo t) t),
        ⟨rest, sent ++ (secondary is).map columnsStatement⟩) := by
  induction h generalizing columns t sent with
  | nil =>
    cases hcolumns
    rw [secondary, List.filter_nil, List.map_nil, List.append_nil]
    rfl
  | @cons i row is listed hrow _ ih =>
    rw [loadEach, List.foldl_cons]
    by_cases hprimary : i.origin = .primaryKey
    · have hsecondary : secondary (i :: is) = secondary is :=
        List.filter_cons_of_neg (by simp [hprimary])
      have hadd : i.addTo t = t := by simp [StoredIndex.addTo, hprimary]
      rw [hsecondary] at hcolumns ⊢
      rw [Query.run_bind (loadIndex_run_primaryKey hrow hprimary t _), hadd]
      exact ih hcolumns t sent
    · have hsecondary : secondary (i :: is) = i :: secondary is :=
        List.filter_cons_of_pos (bne_iff_ne.mpr hprimary)
      rw [hsecondary] at hcolumns ⊢
      obtain _ | ⟨hfirst, hothers⟩ := hcolumns
      rw [List.cons_append, Query.run_bind (loadIndex_run hrow hfirst hprimary t _ sent),
        ih hothers, List.map_cons, List.append_assoc]
      rfl

/-- What is found by one query per index. -/
theorem loadByIndex_run {is : List StoredIndex} {answers : List (List Row)}
    (hnames : ((secondary is).map (·.name)).Nodup) (hanswers : AnswersByIndex is answers)
    (table : String) (rest : List (List Row)) (sent : List SentStatement) :
    ∃ s', (loadByIndex table).run ⟨answers ++ rest, sent⟩ = (some (tableOf is), s') ∧
      s'.answers = rest := by
  obtain ⟨hlisted, hcolumns⟩ := hanswers
  have hrun := loadEach_run hlisted hcolumns {} rest
    (sent ++ [{ sql := "PRAGMA index_list(" ++ quoteName table ++ ")" }])
  rw [foldl_addTo_empty hnames] at hrun
  exact ⟨_, hrun, rfl⟩

/-! ## One row per index column -/

theorem readColumns_run {columns : List IndexColumn} {rows : List Row}
    (h : List.Forall₂ ShowsColumn columns rows) (s : Session) :
    (readColumns rows).run s = (some columns, s) := by
  induction h with
  | nil => rfl
  | cons hrow _ ih =>
    rw [readColumns, hrow.1, hrow.2.1, hrow.2.2]
    exact Query.run_bind ih

/-- The indexes of one origin. -/
def ofOrigin (origin : IndexOrigin) (is : List StoredIndex) : List StoredIndex :=
  is.filter (·.origin == origin)

theorem origin_of_mem {origin : IndexOrigin} {is : List StoredIndex} {i : StoredIndex}
    (h : i ∈ ofOrigin origin is) : i.origin = origin :=
  beq_iff_eq.mp (List.mem_filter.mp h).2

/-- What is made of the indexes of one origin only is made of those of that origin. -/
theorem filterMap_ofOrigin {α : Type} {origin : IndexOrigin} {f : StoredIndex → Option α}
    (hf : ∀ i, i.origin ≠ origin → f i = none) (is : List StoredIndex) :
    (ofOrigin origin is).filterMap f = is.filterMap f := by
  rw [ofOrigin, List.filterMap_filter]
  refine congrArg (List.filterMap · is) (funext fun i => ?_)
  by_cases h : i.origin = origin
  · rw [h, beq_self_eq_true, if_pos rfl]
  · rw [hf i h, ite_self]

/-- Indexes of one origin have names of their own. -/
theorem nodup_ofOrigin {origin : IndexOrigin} (horigin : origin ≠ .primaryKey)
    {is : List StoredIndex} (hnames : ((secondary is).map (·.name)).Nodup) :
    ((ofOrigin origin is).map (·.name)).Nodup := by
  have hsecondary : ofOrigin origin is = ofOrigin origin (secondary is) := by
    rw [ofOrigin, ofOrigin, secondary, List.filter_filter]
    refine List.filter_congr fun i _ => ?_
    by_cases h : i.origin = origin
    · simp [h, horigin]
    · simp [h]
  rw [hsecondary]
  exact (List.filter_sublist.map _).nodup hnames

/-- The rows on constraints are those of the constraints, the others those of the other indexes. -/
theorem filter_columnRows (is : List StoredIndex) :
    ((secondary is).flatMap StoredIndex.columnRows).filter (·.isConstraint) =
        (ofOrigin .constraint is).flatMap StoredIndex.columnRows ∧
      ((secondary is).flatMap StoredIndex.columnRows).filter (!·.isConstraint) =
        (ofOrigin .created is).flatMap StoredIndex.columnRows := by
  have hconstraint : ∀ i : StoredIndex, i.columnRows.filter (·.isConstraint) =
      if i.origin = .constraint then i.columnRows else [] := by
    intro i
    by_cases h : i.origin = .constraint <;>
      simp [StoredIndex.columnRows, List.filter_map, Function.comp_def, h]
  have hother : ∀ i : StoredIndex, i.columnRows.filter (!·.isConstraint) =
      if i.origin = .constraint then [] else i.columnRows := by
    intro i
    by_cases h : i.origin = .constraint
    · simp [StoredIndex.columnRows, List.filter_map, Function.comp_def, h]
    · have hne : (i.origin == .constraint) = false := beq_eq_false_iff_ne.mpr h
      simp [StoredIndex.columnRows, List.filter_map, Function.comp_def, h, hne]
  induction is with
  | nil => exact ⟨rfl, rfl⟩
  | cons i rest ih =>
    simp only [secondary, ofOrigin] at ih ⊢
    cases h : i.origin <;> simp [h, hconstraint, hother, ih]

/-- The indexes that back no constraint. -/
theorem foldl_addColumn {is : List StoredIndex} (hnames : ((secondary is).map (·.name)).Nodup) :
    ((ofOrigin .created is).flatMap StoredIndex.columnRows).foldl
        (fun (t : TableIndexes) c => t.addColumn c.index c.column) {} =
      ⟨(tableOf is).indexes, []⟩ := by
  have hsecondary : secondary (ofOrigin .created is) = ofOrigin .created is := by
    refine List.filter_eq_self.mpr fun i hi => ?_
    rw [origin_of_mem hi]
    rfl
  have hnodup : ((secondary (ofOrigin .created is)).map (·.name)).Nodup := by
    rw [hsecondary]
    exact nodup_ofOrigin (by decide) hnames
  have hcolumns : ∀ (t : TableIndexes), ∀ i ∈ ofOrigin .created is,
      i.columnRows.foldl (fun t c => t.addColumn c.index c.column) t = i.addTo t := by
    intro t i hi
    have haddTo : i.addTo t = t.addColumns i.name i.columns := by
      rw [StoredIndex.addTo, origin_of_mem hi]
    rw [haddTo, StoredIndex.columnRows, List.foldl_map]
    rfl
  rw [List.foldl_flatMap, List.foldl_ext _ _ _ hcolumns, foldl_addTo_empty hnodup, tableOf,
    filterMap_ofOrigin, tableOf]
  · congr 1
    have hnone : (ofOrigin .created is).filterMap StoredIndex.soleColumn? = [] :=
      List.filterMap_eq_nil_iff.mpr fun i hi => by
        rw [StoredIndex.soleColumn?, origin_of_mem hi]
    rw [hnone]
    rfl
  · intro i hi
    rw [StoredIndex.found?, if_neg fun h => hi h.1]

/-- The rows of an index with a name of its own. -/
theorem countP_columnRows {is : List StoredIndex} (hnames : (is.map (·.name)).Nodup)
    {i : StoredIndex} (hi : i ∈ is) :
    (is.flatMap StoredIndex.columnRows).countP (·.index == i.name) = i.columns.length := by
  have hone : ∀ j : StoredIndex, j.columnRows.countP (·.index == i.name) =
      if j.name = i.name then j.columns.length else 0 := by
    intro j
    by_cases h : j.name = i.name <;>
      simp [StoredIndex.columnRows, List.countP_map, Function.comp_def, h]
  induction is with
  | nil => cases hi
  | cons j rest ih =>
    rw [List.map_cons, List.nodup_cons] at hnames
    rw [List.flatMap_cons, List.countP_append, hone]
    rcases List.mem_cons.mp hi with rfl | hrest
    · have hnone : (rest.flatMap StoredIndex.columnRows).countP (·.index == i.name) = 0 := by
        rw [List.countP_eq_zero]
        intro c hc
        obtain ⟨j, hj, hcj⟩ := List.mem_flatMap.mp hc
        obtain ⟨column, -, rfl⟩ := List.mem_map.mp hcj
        exact fun heq => hnames.1 (List.mem_map.mpr ⟨j, hj, beq_iff_eq.mp heq⟩)
      rw [if_pos rfl, hnone, Nat.add_zero]
    · have hne : j.name ≠ i.name := fun heq =>
        hnames.1 (List.mem_map.mpr ⟨i, hrest, heq.symm⟩)
      rw [if_neg hne, Nat.zero_add, ih hnames.2 hrest]

/-- The columns of the constraints that have only one. -/
theorem soleColumns {is : List StoredIndex} (hnames : ((secondary is).map (·.name)).Nodup) :
    let rows := (ofOrigin .constraint is).flatMap StoredIndex.columnRows
    (rows.filter fun c => rows.countP (·.index == c.index) == 1).map (·.column) =
      is.filterMap StoredIndex.soleColumn? := by
  intro rows
  have hone : ∀ i ∈ ofOrigin .constraint is,
      (i.columnRows.filter fun c => rows.countP (·.index == c.index) == 1).map (·.column) =
        i.soleColumn?.toList := by
    intro i hi
    have hcount := countP_columnRows (nodup_ofOrigin (by decide) hnames) hi
    have hrows : i.columnRows.filter (fun c => rows.countP (·.index == c.index) == 1) =
        i.columnRows.filter fun _ => i.columns.length == 1 := by
      refine List.filter_congr fun c hc => ?_
      obtain ⟨column, -, rfl⟩ := List.mem_map.mp hc
      rw [← hcount]
    rw [hrows, StoredIndex.soleColumn?, origin_of_mem hi, StoredIndex.columnRows]
    rcases i.columns with _ | ⟨column, _ | ⟨second, rest⟩⟩
    · rfl
    · rfl
    · simp [List.filter_map]
  rw [← @filterMap_ofOrigin _ .constraint, List.filterMap_eq_flatMap_toList,
    List.filter_flatMap, List.map_flatMap]
  · exact List.flatMap_congr hone
  · intro i hi
    rw [StoredIndex.soleColumn?]
    split
    · rename_i horigin _
      exact absurd horigin hi
    · rfl

theorem collect_columnRows {is : List StoredIndex}
    (hnames : ((secondary is).map (·.name)).Nodup) :
    collect ((secondary is).flatMap StoredIndex.columnRows) = tableOf is := by
  obtain ⟨hconstraint, hother⟩ := filter_columnRows is
  have hsole := soleColumns hnames
  have huniques := @TableIndexes.foldl_addUnique ⟨(tableOf is).indexes, []⟩ [] rfl
    (is.filterMap StoredIndex.soleColumn?)
  rw [collect, hconstraint, hother]
  dsimp only at hsole ⊢
  rw [foldl_addColumn hnames]
  rw [← hsole, List.foldl_map] at huniques
  rw [huniques, hsole]
  rfl

/-- What is found by one query for all indexes. -/
theorem loadByColumn_run {is : List StoredIndex} {rows : List Row}
    (hnames : ((secondary is).map (·.name)).Nodup) (hrows : AnswersByColumn is rows)
    (query table : String) (rest : List (List Row)) (sent : List SentStatement) :
    ∃ s', (loadByColumn query table).run ⟨rows :: rest, sent⟩ = (some (tableOf is), s') ∧
      s'.answers = rest := by
  have hrun := Query.run_bind (f := fun columns => pure (collect columns))
    (readColumns_run hrows ⟨rest, sent ++ [{ sql := query, bound := some [table] }]⟩)
  rw [collect_columnRows hnames] at hrun
  exact ⟨_, hrun, rfl⟩

/-! ## Both ways -/

theorem indexes_tableOf (is : List StoredIndex) :
    (tableOf is).indexes =
      (is.filter fun i => i.origin == .created && i.columns != []).map fun i =>
        ⟨i.name, i.columns⟩ := by
  rw [tableOf, ← List.filterMap_eq_map, List.filterMap_filter]
  refine congrArg (List.filterMap · is) (funext fun i => ?_)
  by_cases horigin : i.origin = .created <;> by_cases hcolumns : i.columns = [] <;>
    simp [StoredIndex.found?, horigin, hcolumns]

theorem nodup_indexes_tableOf {is : List StoredIndex}
    (hnames : ((secondary is).map (·.name)).Nodup) :
    ((tableOf is).indexes.map (·.name)).Nodup := by
  have hcreated := @nodup_ofOrigin .created (by decide) is hnames
  have hsplit : (is.filter fun i => i.origin == .created && i.columns != []) =
      (ofOrigin .created is).filter (·.columns != []) := by
    rw [ofOrigin, List.filter_filter]
    exact List.filter_congr fun i _ => Bool.and_comm ..
  rw [indexes_tableOf, List.map_map, hsplit]
  exact (List.filter_sublist.map _).nodup hcreated

theorem nodup_eraseDups (names : List String) : names.eraseDups.Nodup := by
  match names with
  | [] => exact List.nodup_nil
  | name :: rest =>
    rw [List.eraseDups_cons, List.nodup_cons, List.mem_eraseDups]
    exact ⟨fun h => by simp at h, nodup_eraseDups _⟩
termination_by names.length
decreasing_by exact Nat.lt_succ_of_le (List.length_filter_le ..)

theorem mem_uniqueColumns_tableOf {is : List StoredIndex} {column : String} :
    column ∈ (tableOf is).uniqueColumns ↔
      ∃ i ∈ is, i.origin = .constraint ∧ i.columns = [column] := by
  have hsole : ∀ i : StoredIndex,
      i.soleColumn? = some column ↔ i.origin = .constraint ∧ i.columns = [column] := by
    intro i
    obtain ⟨name, origin, columns⟩ := i
    cases origin <;> rcases columns with _ | ⟨c, _ | ⟨second, rest⟩⟩ <;>
      simp [StoredIndex.soleColumn?]
  rw [tableOf, List.mem_eraseDups, List.mem_filterMap]
  simp only [hsole]

/-- Both ways to describe the indexes of a table lead to the same ones: those that back no
constraint, with their columns in order, and the columns of the constraints of one column, each
once. -/
theorem loadIndexes_agree {is : List StoredIndex} (hnames : ((secondary is).map (·.name)).Nodup)
    {answers : List (List Row)} (hanswers : AnswersByIndex is answers) {rows : List Row}
    (hrows : AnswersByColumn is rows) (table : String) (rest : List (List Row))
    (sent : List SentStatement) :
    ∃ t : TableIndexes,
      (∃ s', (loadIndexes .sqlite table).run ⟨answers ++ rest, sent⟩ = (some t, s') ∧
        s'.answers = rest) ∧
      (∀ backend, backend ≠ .sqlite →
        ∃ s', (loadIndexes backend table).run ⟨rows :: rest, sent⟩ = (some t, s') ∧
          s'.answers = rest) ∧
      t.indexes = ((is.filter fun i => i.origin == .created && i.columns != []).map fun i =>
        ⟨i.name, i.columns⟩) ∧
      (t.indexes.map (·.name)).Nodup ∧
      t.uniqueColumns = (is.filterMap StoredIndex.soleColumn?).eraseDups ∧
      t.uniqueColumns.Nodup ∧
      ∀ column, column ∈ t.uniqueColumns ↔
        ∃ i ∈ is, i.origin = .constraint ∧ i.columns = [column] := by
  refine ⟨tableOf is, loadByIndex_run hnames hanswers table rest sent, ?_, indexes_tableOf is,
    nodup_indexes_tableOf hnames, rfl, nodup_eraseDups _, fun _ => mem_uniqueColumns_tableOf⟩
  intro backend hbackend
  cases backend with
  | sqlite => exact absurd rfl hbackend
  | postgres => exact loadByColumn_run hnames hrows postgresQuery table rest sent
  | mysql => exact loadByColumn_run hnames hrows mysqlQuery table rest sent

/-- Of an index of two columns, two constraints of which one has two columns, and a primary key,
the index and one unique column are found. -/
theorem loadIndexes_agree_users :
    let is : List StoredIndex := [⟨"by_name", .created, ["last", "first"]⟩,
      ⟨"one_mail", .constraint, ["mail"]⟩, ⟨"one_number", .constraint, ["unit", "number"]⟩,
      ⟨"users_key", .primaryKey, ["id"]⟩]
    let name (column : String) : Row := [("name", .text column)]
    let listed (name origin : String) : Row := [("name", .text name), ("origin", .text origin)]
    let shown (name column : String) (isConstraint : Bool) : Row := [("index_name", .text name),
      ("column_name", .text column), ("is_unique_constraint", .bool isConstraint)]
    let answers := [[listed "by_name" "c", listed "one_mail" "u", listed "one_number" "u",
      listed "users_key" "pk"], [name "last", name "first"], [name "mail"],
      [name "unit", name "number"]]
    let rows := [shown "by_name" "last" false, shown "by_name" "first" false,
      shown "one_mail" "mail" true, shown "one_number" "unit" true,
      shown "one_number" "number" true]
    AnswersByIndex is answers ∧ AnswersByColumn is rows ∧
      ∃ t : TableIndexes, t = ⟨[⟨"by_name", ["last", "first"]⟩], ["mail"]⟩ ∧
        (∃ s', (loadIndexes .sqlite "users").run ⟨answers, []⟩ = (some t, s')) ∧
        ∀ backend, backend ≠ .sqlite →
          ∃ s', (loadIndexes backend "users").run ⟨[rows], []⟩ = (some t, s') := by
  intro is name listed shown answers rows
  have hanswers : AnswersByIndex is answers :=
    .intro (.cons ⟨rfl, rfl⟩ (.cons ⟨rfl, rfl⟩ (.cons ⟨rfl, rfl⟩ (.cons ⟨rfl, rfl⟩ .nil))))
      (.cons (.cons rfl (.cons rfl .nil))
        (.cons (.cons rfl .nil) (.cons (.cons rfl (.cons rfl .nil)) .nil)))
  have hrows : AnswersByColumn is rows :=
    .cons ⟨rfl, rfl, rfl⟩ (.cons ⟨rfl, rfl, rfl⟩ (.cons ⟨rfl, rfl, rfl⟩
      (.cons ⟨rfl, rfl, rfl⟩ (.cons ⟨rfl, rfl, rfl⟩ .nil))))
  obtain ⟨t, ⟨s, hsqlite, -⟩, hothers, hindexes, -, huniques, -⟩ :=
    loadIndexes_agree (by decide) hanswers hrows "users" [] []
  refine ⟨hanswers, hrows, t, ?_, ⟨s, hsqlite⟩, fun backend hbackend => ?_⟩
  · obtain ⟨indexes, uniqueColumns⟩ := t
    dsimp only at hindexes huniques
    rw [hindexes, huniques]
    rfl
  · obtain ⟨s', hrun, -⟩ := hothers backend hbackend
    exact ⟨s', hrun⟩

end Schema

end ObjectQuery
