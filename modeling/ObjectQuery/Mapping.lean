import ObjectQuery.Catalog
import ObjectQuery.Dictionary
import ObjectQuery.Text.Casing

/-!
# Class mappings

What is known about the indexes of a class's properties, own and inherited.

* `PropertyFacts`: the facts about one property.
* `ClassMapping.build`: the facts that the declared columns and indexes give. An index counts for
  the property of its first column.
* `ClassMapping.annotate`: adds an index declared by annotation. Declarations that disagree are
  reported and never rejected.
* `ClassMapping.hasIndexProperties`: whether a subclass can take over annotations of a superclass.

Properties are looked up without regard to case.
-/

namespace ObjectQuery

/-- What is known about the indexes of a property. -/
structure PropertyFacts where
  name : String
  /-- An index of the table covers the property. -/
  hasIndex : Bool := false
  /-- One of them ignores case. -/
  insensitiveIndex : Bool := false
  /-- An annotation declares an index. -/
  isAnnotated : Bool := false
  /-- One of those ignores case. -/
  insensitivelyAnnotated : Bool := false
  /-- The column is unique, which comes with an index that ignores case. -/
  isUnique : Bool := false
  nullable : Bool := true
  deriving DecidableEq, Repr, Inhabited

/-- Whether an index that ignores case covers the property. -/
def PropertyFacts.isCaseInsensitive (p : PropertyFacts) : Bool :=
  p.insensitiveIndex || p.insensitivelyAnnotated || p.isUnique

/-- What is known about the properties of a class. -/
structure ClassMapping where
  className : String
  tableName : String
  isAbstract : Bool := false
  /-- The properties by their names in lower case. -/
  properties : Dictionary String PropertyFacts
  deriving DecidableEq, Repr, Inhabited

namespace ClassMapping

/-- Adds a property in place of one whose name differs in case only. -/
def addProperty (m : ClassMapping) (p : PropertyFacts) : ClassMapping :=
  { m with properties := m.properties.insert (Text.lowerCase p.name) p }

/-- The mapping that has only the property `id`, which every class has. -/
def empty (className tableName : String) : ClassMapping :=
  addProperty { className, tableName, properties := [] } { name := "id" }

/-- The property with a name in any case. -/
def property? (m : ClassMapping) (name : String) : Option PropertyFacts :=
  m.properties.find? (Text.lowerCase name)

/-- Changes the property with a key. -/
def modifyKey (m : ClassMapping) (key : String) (change : PropertyFacts → PropertyFacts) :
    ClassMapping :=
  { m with properties := m.properties.modify key change }

/-- Changes the property with a name in any case. -/
def modifyProperty (m : ClassMapping) (name : String) (change : PropertyFacts → PropertyFacts) :
    ClassMapping :=
  m.modifyKey (Text.lowerCase name) change

/-! ## Building -/

/-- A mapping in the making: which property each column belongs to, and which columns are unique. -/
structure Building where
  mapping : ClassMapping
  columns : Dictionary String String := []
  uniqueColumns : List String := []

/-- Takes over a declaration, unless a nearer class declares the property. `id` is taken over each
time. -/
def Building.declare (d : Building) (p : Property) : Building :=
  let key := Text.lowerCase p.name
  if d.mapping.properties.hasKey key && key != "id" then d
  else
    let mapping := d.mapping.addProperty { name := p.name, nullable := p.nullable }
    if p.kind.isColumn then
      { mapping
        columns := d.columns.insert p.columnName key
        uniqueColumns := if p.unique then d.uniqueColumns ++ [p.columnName] else d.uniqueColumns }
    else { d with mapping }

/-- The key and the facts of the property that a column belongs to. -/
def Building.propertyOf? (d : Building) (column : String) : Option (String × PropertyFacts) := do
  let key ← d.columns.find? column
  let facts ← d.mapping.properties.find? key
  some (key, facts)

/-- Correlates an index with the property of its first column. Indexes whose names start with an
underscore are left out. -/
def Building.correlate (d : Building) (index : Index) : Reported Building :=
  if Text.startsWith index.name "_" then pure d
  else
    match index.columns with
    | [] => pure d
    | column :: _ =>
      match d.propertyOf? column with
      | some (key, _) =>
        pure { d with mapping := d.mapping.modifyKey key fun facts =>
          { facts with
            hasIndex := true
            insensitiveIndex := facts.insensitiveIndex || index.isCaseInsensitive } }
      | none => do
        Reported.report [.indexWithoutProperty d.mapping.className index.name column]
        pure d

/-- Marks the property of a unique column. -/
def Building.markUnique (d : Building) (column : String) : Reported Building :=
  match d.propertyOf? column with
  | none => pure d
  | some (key, facts) => do
    let className := d.mapping.className
    Reported.report [.uniqueAssumedInsensitive className facts.name]
    if facts.insensitiveIndex then
      Reported.report [.redundantInsensitiveIndex className facts.name]
    pure { d with mapping := d.mapping.modifyKey key fun facts => { facts with isUnique := true } }

/-- The mapping of a class from its own and inherited declarations. -/
def build (c : Catalog) (e : Entity) : Reported ClassMapping := do
  let lineage ← c.walk e.name
  let start : Building := { mapping := { empty e.name e.table with isAbstract := e.isAbstract } }
  let declared := (lineage.flatMap (·.properties)).foldl Building.declare start
  let correlated ← (lineage.flatMap (·.indexes)).foldlM Building.correlate declared
  let marked ← correlated.uniqueColumns.foldlM Building.markUnique correlated
  pure marked.mapping

/-! ## Annotations -/

/-- Adds an index declared by annotation. -/
def annotate (m : ClassMapping) (a : AnnotatedIndex) : Reported ClassMapping :=
  match a.propertyName? with
  | none => do
    Reported.report [.intermediateTableIndex a.table a.column]
    if !a.caseSensitive then
      Reported.report [.insensitiveIntermediateTableIndex a.table a.column]
    pure m
  | some name =>
    match m.property? name with
    | none => do
      Reported.report [.annotationWithoutProperty m.className name]
      pure m
    | some facts => do
      let mismatched :=
        if a.caseSensitive then facts.insensitiveIndex || facts.isUnique
        else facts.hasIndex && !facts.insensitiveIndex
      if mismatched then Reported.report [.mismatchedSensitivity m.className name]
      pure (m.modifyProperty name fun facts =>
        { facts with
          isAnnotated := true
          insensitivelyAnnotated := facts.insensitivelyAnnotated || !a.caseSensitive })

/-- Whether the class has every property that the annotations name. Annotations of columns do not
count against it. -/
def hasIndexProperties (m : ClassMapping) : List AnnotatedIndex → Reported Bool
  | [] => pure true
  | a :: rest =>
    match a.propertyName? with
    | none => do
      Reported.report [.subclassColumnIndex m.className a.column]
      m.hasIndexProperties rest
    | some name =>
      if (m.property? name).isSome then m.hasIndexProperties rest
      else do
        Reported.report [.subclassIndexWithoutProperty m.className name]
        pure false

end ClassMapping

end ObjectQuery
