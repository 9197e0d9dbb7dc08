import ObjectQuery.Catalog
import ObjectQuery.Json.Format

/-!
# Catalogs as JSON documents

* `Catalog.toJson`/`Catalog.write`: every field is written, with null where it is not set.
* `Catalog.ofDocument`/`Catalog.read`: fields with a default may be missing.
-/

namespace ObjectQuery

open Json (required orElse maybe toText toBool toList)

namespace PropertyKind

/-- The document of a kind: its name as `type`, with the target and the inverse. -/
def toJson : PropertyKind → Json
  | scalar => .record [("type", .text "scalar")]
  | manyToOne target => .record [("type", .text "many_to_one"), ("target", .text target)]
  | oneToMany target inverse =>
    .record [("type", .text "one_to_many"), ("target", .text target),
      ("inverse", .optional inverse)]
  | scalarCollection => .record [("type", .text "scalar_collection")]

/-- The kind with a name and the document of its own fields. -/
def ofVariant (F : Format) (name : String) (content : Json) : Option PropertyKind :=
  match name with
  | "scalar" => (F.slots [] content).map fun _ => scalar
  | "scalar_collection" => (F.slots [] content).map fun _ => scalarCollection
  | "many_to_one" => do
    match ← F.slots [.required "target"] content with
    | [target] => some (manyToOne (← required toText target))
    | _ => none
  | "one_to_many" => do
    match ← F.slots [.required "target", .optional "inverse"] content with
    | [target, inverse] =>
      some (oneToMany (← required toText target) (← maybe toText inverse))
    | _ => none
  | _ => none

/-- The kind of a document, which names it as `type`. -/
def ofDocument (F : Format) (j : Json) : Option PropertyKind :=
  if j.isReadable then do
    let (name, content) ← F.variant "type" j
    ofVariant F name content
  else none

end PropertyKind

namespace Property

/-- The document of a property. -/
def toJson (p : Property) : Json :=
  .record [("name", .text p.name), ("column", .optional p.column), ("nullable", .bool p.nullable),
    ("unique", .bool p.unique), ("kind", p.kind.toJson)]

/-- The property of a document. -/
def ofDocument (F : Format) (j : Json) : Option Property := do
  match ← F.slots [.required "name", .optional "column", .optional "nullable", .optional "unique",
      .optional "kind"] j with
  | [name, column, nullable, unique, kind] =>
    some
      { name := ← required toText name
        column := ← maybe toText column
        nullable := ← orElse true toBool nullable
        unique := ← orElse false toBool unique
        kind := ← orElse .scalar (PropertyKind.ofDocument F) kind }
  | _ => none

end Property

namespace Index

/-- The document of an index. -/
def toJson (i : Index) : Json := .record [("name", .text i.name), ("columns", .texts i.columns)]

/-- The index of a document. -/
def ofDocument (F : Format) (j : Json) : Option Index := do
  match ← F.slots [.required "name", .required "columns"] j with
  | [name, columns] =>
    some { name := ← required toText name, columns := ← required (toList toText) columns }
  | _ => none

end Index

namespace AnnotatedIndex

/-- The document of an annotation. -/
def toJson (a : AnnotatedIndex) : Json :=
  .record [("class", .text a.className), ("name", .text a.name), ("property", .optional a.property),
    ("column", .optional a.column), ("table", .optional a.table),
    ("case_sensitive", .bool a.caseSensitive), ("sub_classes", .bool a.subClasses)]

/-- The annotation of a document. -/
def ofDocument (F : Format) (j : Json) : Option AnnotatedIndex := do
  match ← F.slots [.required "class", .required "name", .optional "property", .optional "column",
      .optional "table", .optional "case_sensitive", .optional "sub_classes"] j with
  | [className, name, property, column, table, caseSensitive, subClasses] =>
    some
      { className := ← required toText className
        name := ← required toText name
        property := ← maybe toText property
        column := ← maybe toText column
        table := ← maybe toText table
        caseSensitive := ← orElse true toBool caseSensitive
        subClasses := ← orElse false toBool subClasses }
  | _ => none

/-- The annotation of a document in the standard format. -/
def ofJson : Json → Option AnnotatedIndex := ofDocument .standard

end AnnotatedIndex

namespace Entity

/-- The document of a class. -/
def toJson (e : Entity) : Json :=
  .record [("name", .text e.name), ("table", .text e.table), ("superclass", .optional e.superclass),
    ("abstract", .bool e.isAbstract), ("properties", .list (e.properties.map Property.toJson)),
    ("indexes", .list (e.indexes.map Index.toJson))]

/-- The class of a document. -/
def ofDocument (F : Format) (j : Json) : Option Entity := do
  match ← F.slots [.required "name", .required "table", .optional "superclass",
      .optional "abstract", .optional "properties", .optional "indexes"] j with
  | [name, table, superclass, isAbstract, properties, indexes] =>
    some
      { name := ← required toText name
        table := ← required toText table
        superclass := ← maybe toText superclass
        isAbstract := ← orElse false toBool isAbstract
        properties := ← orElse [] (toList (Property.ofDocument F)) properties
        indexes := ← orElse [] (toList (Index.ofDocument F)) indexes }
  | _ => none

end Entity

namespace Catalog

/-- The document of a catalog. -/
def toJson (c : Catalog) : Json :=
  .record [("entities", .list (c.entities.map Entity.toJson)),
    ("annotation_indexes", .list (c.annotations.map AnnotatedIndex.toJson))]

section

variable (F : Format)

/-- The catalog of a document. -/
def ofDocument (j : Json) : Option Catalog := do
  match ← F.slots [.optional "entities", .optional "annotation_indexes"] j with
  | [entities, annotations] =>
    some
      { entities := ← orElse [] (toList (Entity.ofDocument F)) entities
        annotations := ← orElse [] (toList (AnnotatedIndex.ofDocument F)) annotations }
  | _ => none

/-- The JSON text of a catalog. -/
def write (c : Catalog) : String := F.render c.toJson

/-- The catalog that a JSON text writes. -/
def read (s : String) : Option Catalog := (F.parse s).bind (ofDocument F)

end

/-- The catalog of a document in the standard format. -/
def ofJson : Json → Option Catalog := ofDocument .standard

/-- The JSON text of a catalog. -/
def render (c : Catalog) : String := c.write .standard

/-- The catalog that a JSON text writes in the standard format. -/
def parse : String → Option Catalog := read .standard

end Catalog

end ObjectQuery
