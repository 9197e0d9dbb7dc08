import ObjectQuery.Reported

/-!
# Catalogs

The declared object model: classes with their superclasses, properties, table indexes, and indexes
declared by annotation.

* `Catalog.entity?`: the declaration of a class.
* `Catalog.lineage`: a class followed by its superclasses, nearest first. A chain of superclasses
  that is longer than `maxDepth` is cut there.
* `Catalog.property?`: the nearest declaration of a property along the lineage.

Each walk along a lineage that is cut is worth a report; `Catalog.lookUp` and its companions are
the walks with their reports.
-/

namespace ObjectQuery

/-- What a property holds. -/
inductive PropertyKind where
  | scalar
  /-- One entity, stored as a foreign key. -/
  | manyToOne (target : String)
  /-- A collection of entities. `inverse` names the property that refers back to the owner. -/
  | oneToMany (target : String) (inverse : Option String)
  /-- A collection of plain values in a table of its own. -/
  | scalarCollection
  deriving DecidableEq, Repr, Inhabited

namespace PropertyKind

/-- Whether a property holds several values. -/
def isCollection : PropertyKind → Bool
  | oneToMany .. | scalarCollection => true
  | scalar | manyToOne _ => false

/-- Whether a property is stored in a column of its owner's table. -/
def isColumn : PropertyKind → Bool
  | scalar | manyToOne _ => true
  | oneToMany .. | scalarCollection => false

/-- The class that a property leads to. -/
def target : PropertyKind → Option String
  | manyToOne target | oneToMany target _ => some target
  | scalar | scalarCollection => none

end PropertyKind

/-- The declaration of a property. -/
structure Property where
  name : String
  /-- The column, if it is not called like the property. -/
  column : Option String := none
  nullable : Bool := true
  unique : Bool := false
  kind : PropertyKind := .scalar
  deriving DecidableEq, Repr, Inhabited

/-- The name of a property's column. -/
def Property.columnName (p : Property) : String := p.column.getD p.name

/-- An index of a table. -/
structure Index where
  name : String
  columns : List String
  deriving DecidableEq, Repr, Inhabited

/-- Indexes that ignore case are known by their names. -/
def Index.isCaseInsensitive (i : Index) : Bool :=
  Text.endsWith i.name "_ci" || Text.endsWith i.name "_csi"

/-- An index declared on a class. It names a property, or a column of an intermediate table. -/
structure AnnotatedIndex where
  className : String
  name : String
  property : Option String := none
  column : Option String := none
  table : Option String := none
  caseSensitive : Bool := true
  /-- The index holds for every subclass that has the indexed properties. -/
  subClasses : Bool := false
  deriving DecidableEq, Repr, Inhabited

/-- The property that an annotation names. An empty name names none. -/
def AnnotatedIndex.propertyName? (a : AnnotatedIndex) : Option String := a.property.filter (· != "")

/-- The declaration of a class. -/
structure Entity where
  name : String
  table : String
  superclass : Option String := none
  isAbstract : Bool := false
  properties : List Property := []
  indexes : List Index := []
  deriving DecidableEq, Repr, Inhabited

/-- The declaration of a property in the class itself. -/
def Entity.ownProperty? (e : Entity) (name : String) : Option Property :=
  e.properties.find? (·.name == name)

/-- The declared object model. -/
structure Catalog where
  entities : List Entity := []
  annotations : List AnnotatedIndex := []
  deriving DecidableEq, Repr, Inhabited

namespace Catalog

/-- Longer chains of superclasses count as cycles. -/
def maxDepth : Nat := 32

/-- The first declaration of a class. -/
def entity? (c : Catalog) (name : String) : Option Entity := c.entities.find? (·.name == name)

/-- Whether a class is declared. -/
def isKnown (c : Catalog) (name : String) : Bool := (c.entity? name).isSome

/-- At most `depth` classes from one on, each the superclass of the one before. -/
def chain (c : Catalog) : Nat → Option Entity → List Entity
  | 0, _ => []
  | _ + 1, none => []
  | depth + 1, some e => e :: c.chain depth (e.superclass.bind c.entity?)

/-- A class followed by its superclasses, nearest first. -/
def lineage (c : Catalog) (name : String) : List Entity := c.chain maxDepth (c.entity? name)

/-- Whether the lineage of a class is cut. -/
def isCut (c : Catalog) (name : String) : Bool :=
  (c.chain (maxDepth + 1) (c.entity? name)).length == maxDepth + 1

/-- The nearest declaration of a property, own or inherited. -/
def property? (c : Catalog) (className name : String) : Option Property :=
  (c.lineage className).findSome? (·.ownProperty? name)

/-- The property of a collection's elements that refers back to the owner. -/
def inverse? (c : Catalog) (owner collection : String) : Option String :=
  match c.property? owner collection with
  | some { kind := .oneToMany _ inverse, .. } => inverse
  | _ => none

/-- Whether a class is another or inherits from it. -/
def isAssignable (c : Catalog) (ancestor className : String) : Bool :=
  (c.lineage className).any (·.name == ancestor)

/-- Changes the first declaration of a class. -/
def modifyEntity (c : Catalog) (name : String) (change : Entity → Entity) : Catalog :=
  let rec go : List Entity → List Entity
    | [] => []
    | e :: rest => if e.name == name then change e :: rest else e :: go rest
  { c with entities := go c.entities }

/-! ## Walks with their reports -/

/-- What is reported when the lineage of a class is walked. -/
def walkEvents (c : Catalog) (className : String) : List Event :=
  if c.isCut className then [.superclassChainTooDeep className] else []

/-- The lineage with its report. -/
def walk (c : Catalog) (className : String) : Reported (List Entity) :=
  ⟨c.lineage className, c.walkEvents className⟩

/-- The nearest declaration of a property with the report of the walk. -/
def lookUp (c : Catalog) (className name : String) : Reported (Option Property) :=
  ⟨c.property? className name, c.walkEvents className⟩

/-- The inverse property with the report of the walk. -/
def lookUpInverse (c : Catalog) (owner collection : String) : Reported (Option String) :=
  ⟨c.inverse? owner collection, c.walkEvents owner⟩

/-- Whether a class is assignable to another with the report of the walk. -/
def checkAssignable (c : Catalog) (ancestor className : String) : Reported Bool :=
  ⟨c.isAssignable ancestor className, c.walkEvents className⟩

end Catalog

end ObjectQuery
