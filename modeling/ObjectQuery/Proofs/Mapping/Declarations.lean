import ObjectQuery.Mapping

/-!
# Declarations that a mapping takes over

A mapping is filled from the declarations of a class and its superclasses, nearest first.

* `Catalog.declarations`: all of them in this order, shadowed ones included.
* `Catalog.takenOver`: those that the mapping takes over. Of every property this is the nearest one,
  but of `id` it is each, so that the farthest one stays.
* `ClassMapping.Building.takesOver_foldl`: the properties, their columns and the unique columns of a
  mapping once all declarations are taken over.
-/

namespace ObjectQuery

/-- The name under which mappings keep the property. Case does not matter. -/
def Property.key (p : Property) : String := Text.lowerCase p.name

namespace ClassMapping

/-! ## Which declarations count -/

/-- The declarations that are taken over behind properties with the keys `seen`: of every property
the nearest, and of `id` each. -/
def takenOver (seen : List String) : List Property → List Property
  | [] => []
  | p :: rest =>
    if p.key ∈ seen ∧ p.key ≠ "id" then takenOver seen rest
    else p :: takenOver (p.key :: seen) rest

/-- The last of some declarations with a key. -/
def lastWith (key : String) (taken : List Property) : Option Property :=
  taken.reverse.find? (·.key == key)

/-- The last of some declarations that is stored in a column. -/
def columnOwner? (taken : List Property) (column : String) : Option Property :=
  taken.reverse.find? fun p => p.kind.isColumn && p.columnName == column

/-- The columns of the declarations that are unique. -/
def uniqueColumns (taken : List Property) : List String :=
  (taken.filter fun p => p.kind.isColumn && p.unique).map (·.columnName)

/-- What a declaration says about a property before indexes are looked at. -/
def declaredFacts (p : Property) : PropertyFacts := { name := p.name, nullable := p.nullable }

theorem lastWith_append (key : String) (taken more : List Property) :
    lastWith key (taken ++ more) = (lastWith key more).or (lastWith key taken) := by
  rw [lastWith, List.reverse_append, List.find?_append]
  rfl

theorem columnOwner?_append (taken more : List Property) (column : String) :
    columnOwner? (taken ++ more) column =
      (columnOwner? more column).or (columnOwner? taken column) := by
  rw [columnOwner?, List.reverse_append, List.find?_append]
  rfl

theorem uniqueColumns_append (taken more : List Property) :
    uniqueColumns (taken ++ more) = uniqueColumns taken ++ uniqueColumns more := by
  rw [uniqueColumns, List.filter_append, List.map_append]
  rfl

theorem takenOver_sublist (seen : List String) (ps : List Property) :
    (takenOver seen ps).Sublist ps := by
  induction ps generalizing seen with
  | nil => exact List.Sublist.refl []
  | cons p rest ih =>
    rw [takenOver]
    split
    · exact (ih seen).cons p
    · exact (ih (p.key :: seen)).cons_cons p

/-- Of a property other than `id` only the nearest declaration is taken over. -/
theorem filter_takenOver {key : String} (hkey : key ≠ "id") (seen : List String)
    (ps : List Property) :
    (takenOver seen ps).filter (·.key == key) =
      if key ∈ seen then [] else (ps.find? (·.key == key)).toList := by
  induction ps generalizing seen with
  | nil => simp [takenOver]
  | cons p rest ih =>
    rw [takenOver]
    by_cases hp : p.key = key
    · by_cases hseen : key ∈ seen
      · simp [hp, hkey, hseen, ih]
      · simp [hp, hseen, ih]
    · have hne : key ≠ p.key := fun h => hp h.symm
      split
      · simp [ih, hp]
      · simp [ih, hp, hne]

/-- Of `id` every declaration is taken over. -/
theorem filter_takenOver_id (seen : List String) (ps : List Property) :
    (takenOver seen ps).filter (·.key == "id") = ps.filter (·.key == "id") := by
  induction ps generalizing seen with
  | nil => rfl
  | cons p rest ih =>
    rw [takenOver]
    by_cases hp : p.key = "id"
    · simp [hp, ih]
    · split <;> simp [hp, ih]

theorem lastWith_eq_some {key : String} {taken : List Property} {p : Property}
    (h : lastWith key taken = some p) : p ∈ taken ∧ p.key = key :=
  ⟨List.mem_reverse.mp (List.mem_of_find?_eq_some h),
    beq_iff_eq.mp (List.find?_some (p := fun q : Property => q.key == key) h)⟩

theorem lastWith_eq_getLast? (key : String) (taken : List Property) :
    lastWith key taken = (taken.filter (·.key == key)).getLast? := by
  rw [lastWith, ← List.head?_filter, List.filter_reverse, List.head?_reverse]

/-- The declaration that stays of a property other than `id` is the nearest. -/
theorem lastWith_takenOver {key : String} (hkey : key ≠ "id") (ps : List Property) :
    lastWith key (takenOver [] ps) = ps.find? (·.key == key) := by
  rw [lastWith_eq_getLast?, filter_takenOver hkey, if_neg List.not_mem_nil]
  cases ps.find? (·.key == key) <;> rfl

/-- The declaration that stays of `id` is the farthest. -/
theorem lastWith_takenOver_id (ps : List Property) :
    lastWith "id" (takenOver [] ps) = lastWith "id" ps := by
  rw [lastWith_eq_getLast?, filter_takenOver_id, ← lastWith_eq_getLast?]

/-! ## Taking over -/

namespace Building

/-- The second mapping is the first once declarations are taken over. -/
structure TakesOver (d d' : Building) (taken : List Property) : Prop where
  facts : ∀ key, d'.mapping.properties.find? key =
    ((lastWith key taken).map declaredFacts).or (d.mapping.properties.find? key)
  columns : ∀ column, d'.columns.find? column =
    ((columnOwner? taken column).map Property.key).or (d.columns.find? column)
  uniqueColumns : d'.uniqueColumns = d.uniqueColumns ++ ClassMapping.uniqueColumns taken

variable {d d' d'' : Building}

theorem TakesOver.refl (d : Building) : d.TakesOver d [] where
  facts _ := rfl
  columns _ := rfl
  uniqueColumns := (List.append_nil _).symm

theorem TakesOver.trans {taken more : List Property} (h : d.TakesOver d' taken)
    (h' : d'.TakesOver d'' more) : d.TakesOver d'' (taken ++ more) where
  facts key := by rw [h'.facts, h.facts, lastWith_append, Option.map_or, Option.or_assoc]
  columns column := by
    rw [h'.columns, h.columns, columnOwner?_append, Option.map_or, Option.or_assoc]
  uniqueColumns := by
    rw [h'.uniqueColumns, h.uniqueColumns, uniqueColumns_append, List.append_assoc]

/-- A declaration of a new property, or one of `id`. -/
theorem takesOver_declare {p : Property}
    (h : ¬ (d.mapping.properties.hasKey p.key = true ∧ p.key ≠ "id")) :
    d.TakesOver (d.declare p) [p] := by
  have hcondition : (d.mapping.properties.hasKey (Text.lowerCase p.name) &&
      Text.lowerCase p.name != "id") = false := by
    rw [Bool.eq_false_iff, ne_eq, Bool.and_eq_true, bne_iff_ne]
    exact h
  have hdeclare : d.declare p =
      { mapping := d.mapping.addProperty (declaredFacts p)
        columns := if p.kind.isColumn then d.columns.insert p.columnName p.key else d.columns
        uniqueColumns := if p.kind.isColumn && p.unique then d.uniqueColumns ++ [p.columnName]
          else d.uniqueColumns } := by
    rw [declare, hcondition]
    cases p.kind.isColumn <;> cases p.unique <;> rfl
  rw [hdeclare]
  constructor
  · intro key
    rw [addProperty, Dictionary.find?_insert]
    by_cases hkey : p.key = key
    · simp [lastWith, declaredFacts, ← hkey, Property.key]
    · have hne : key ≠ Text.lowerCase p.name := fun heq => hkey heq.symm
      simp [lastWith, hkey, hne, declaredFacts]
  · intro column
    cases hcolumn : p.kind.isColumn with
    | false => simp [columnOwner?, hcolumn]
    | true =>
      rw [if_pos rfl, Dictionary.find?_insert]
      by_cases heq : p.columnName = column
      · simp [columnOwner?, hcolumn, heq]
      · have hne : column ≠ p.columnName := fun h => heq h.symm
        simp [columnOwner?, hcolumn, heq, hne]
  · cases hunique : p.kind.isColumn && p.unique <;>
      simp [ClassMapping.uniqueColumns, hunique]

/-- A declaration that a nearer one shadows changes nothing. -/
theorem declare_of_hasKey {p : Property}
    (h : d.mapping.properties.hasKey p.key = true ∧ p.key ≠ "id") : d.declare p = d := by
  have hcondition : (d.mapping.properties.hasKey (Text.lowerCase p.name) &&
      Text.lowerCase p.name != "id") = true := by
    rw [Bool.and_eq_true, bne_iff_ne]
    exact h
  rw [declare, hcondition]
  rfl

/-- The keys that a mapping knows besides `id` are those of the declarations before. -/
def Knows (d : Building) (seen : List String) : Prop :=
  ∀ key, key ≠ "id" → (d.mapping.properties.hasKey key = true ↔ key ∈ seen)

theorem Knows.declare {seen : List String} (h : d.Knows seen) {p : Property}
    (hp : ¬ (p.key ∈ seen ∧ p.key ≠ "id")) : (d.declare p).Knows (p.key :: seen) := by
  have hnew : ¬ (d.mapping.properties.hasKey p.key = true ∧ p.key ≠ "id") :=
    fun hboth => hp ⟨(h _ hboth.2).mp hboth.1, hboth.2⟩
  intro key hkey
  have hold := h key hkey
  rw [Dictionary.hasKey] at hold
  rw [Dictionary.hasKey, (takesOver_declare hnew).facts, List.mem_cons, ← hold]
  by_cases heq : p.key = key
  · simp [lastWith, heq]
  · have hne : key ≠ p.key := fun h => heq h.symm
    simp [lastWith, heq, hne]

/-- All declarations of a lineage. -/
theorem takesOver_foldl {seen : List String} (ps : List Property) (h : d.Knows seen) :
    d.TakesOver (ps.foldl declare d) (takenOver seen ps) := by
  induction ps generalizing d seen with
  | nil => exact .refl d
  | cons p rest ih =>
    rw [List.foldl_cons, takenOver]
    split
    · rename_i hseen
      rw [declare_of_hasKey ⟨(h _ hseen.2).mpr hseen.1, hseen.2⟩]
      exact ih h
    · rename_i hnew
      have hdeclare : d.TakesOver (d.declare p) [p] :=
        takesOver_declare fun hboth => hnew ⟨(h _ hboth.2).mp hboth.1, hboth.2⟩
      exact hdeclare.trans (ih (h.declare hnew))

end Building

end ClassMapping

namespace Catalog

/-- The declarations of a class and its superclasses, nearest first. -/
def declarations (c : Catalog) (className : String) : List Property :=
  (c.lineage className).flatMap (·.properties)

/-- The declarations that the mapping of a class takes over, nearest first. -/
def takenOver (c : Catalog) (className : String) : List Property :=
  ClassMapping.takenOver [] (c.declarations className)

/-- The declaration that a column belongs to: of those taken over, the farthest that is stored in
it. -/
def columnOwner? (c : Catalog) (className column : String) : Option Property :=
  ClassMapping.columnOwner? (c.takenOver className) column

/-- The key of the property that a column belongs to. -/
def columnKey? (c : Catalog) (className column : String) : Option String :=
  (c.columnOwner? className column).map Property.key

/-- The indexes of a class and its superclasses, nearest first. -/
def indexes (c : Catalog) (className : String) : List Index :=
  (c.lineage className).flatMap (·.indexes)

theorem property?_eq (c : Catalog) (className name : String) :
    c.property? className name = (c.declarations className).find? (·.name == name) := by
  rw [property?, declarations, List.find?_flatMap]
  rfl

end Catalog

end ObjectQuery
