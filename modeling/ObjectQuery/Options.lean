import ObjectQuery.Filter.Document

/-!
# Query options

What shapes a query besides its class.

* `SortKey`: one term of an order. `SortKey.ofSort` reads the form `["column","DESC"]`.
* `QueryOptions`: restrictions, projection, grouping and order, with their JSON documents.
* `QueryOptions.write`, `QueryOptions.read`: the texts.
-/

namespace ObjectQuery

open Json (required orElse toText toBool toList)

/-- A term of an order. -/
structure SortKey where
  property : String
  ascending : Bool := true
  /-- Order by the upper-case form, unless the store ignores case anyway. -/
  ignoreCase : Bool := false
  deriving DecidableEq, Repr, Inhabited

namespace SortKey

/-- A text in lower case, as far as its letters are ASCII. -/
def lowerAscii (s : String) : String := String.ofList (s.toList.map Char.toLower)

/-- The order that a JSON list of column and direction asks for. Anything else, or what is missing
in it, means by `id` and ascending. -/
def ofSort (s : String) : SortKey :=
  let texts := ((Json.parse s).bind (toList toText)).getD []
  { property := texts.head?.getD "id"
    ascending := lowerAscii ((texts[1]?).getD "ASC") == "asc" }

/-- The document of a term. -/
def toJson (o : SortKey) : Json :=
  .record [("property", .text o.property), ("ascending", .bool o.ascending),
    ("ignoreCase", .bool o.ignoreCase)]

/-- The term of a document. -/
def ofDocument (F : Format) (j : Json) : Option SortKey := do
  match ← F.slots [.required "property", .optional "ascending", .optional "ignoreCase"] j with
  | [property, ascending, ignoreCase] =>
    some
      { property := ← required toText property
        ascending := ← orElse true toBool ascending
        ignoreCase := ← orElse false toBool ignoreCase }
  | _ => none

end SortKey

/-- What shapes a query besides its class. -/
structure QueryOptions where
  /-- Restrictions that must all hold. -/
  restrictions : List Filter := []
  distinct : Bool := false
  /-- Every comparison asks to ignore case. -/
  ignoreCase : Bool := false
  /-- The projection. An empty one selects entities. -/
  columns : List String := []
  orderings : List SortKey := []
  groupBy : List String := []
  disableOptimizer : Bool := false
  deriving Inhabited

namespace QueryOptions

section

variable (F : Format)

/-- The document of options. -/
def document (o : QueryOptions) : Json :=
  .record [("restrictions", .list (o.restrictions.map (Filter.document F))),
    ("distinct", .bool o.distinct), ("ignoreCase", .bool o.ignoreCase),
    ("columns", .texts o.columns), ("orderings", .list (o.orderings.map SortKey.toJson)),
    ("groupBy", .texts o.groupBy), ("disableOptimizer", .bool o.disableOptimizer)]

/-- The options of a document. Every field has a default. -/
def ofDocument (j : Json) : Option QueryOptions := do
  match ← F.slots [.optional "restrictions", .optional "distinct", .optional "ignoreCase",
      .optional "columns", .optional "orderings", .optional "groupBy",
      .optional "disableOptimizer"] j with
  | [restrictions, distinct, ignoreCase, columns, orderings, groupBy, disableOptimizer] =>
    some
      { restrictions := ← orElse [] (toList (Filter.ofDocument F)) restrictions
        distinct := ← orElse false toBool distinct
        ignoreCase := ← orElse false toBool ignoreCase
        columns := ← orElse [] (toList toText) columns
        orderings := ← orElse [] (toList (SortKey.ofDocument F)) orderings
        groupBy := ← orElse [] (toList toText) groupBy
        disableOptimizer := ← orElse false toBool disableOptimizer }
  | _ => none

/-- The JSON text of options. -/
def write (o : QueryOptions) : String := F.render (document F o)

/-- The options that a JSON text writes. -/
def read (s : String) : Option QueryOptions := (F.parse s).bind (ofDocument F)

end

/-- The document of options in the standard format. -/
def toJson : QueryOptions → Json := document .standard

/-- The options of a document in the standard format. -/
def ofJson : Json → Option QueryOptions := ofDocument .standard

/-- The JSON text of options. -/
def render (o : QueryOptions) : String := o.write .standard

/-- The options that a JSON text writes in the standard format. -/
def parse : String → Option QueryOptions := read .standard

end QueryOptions

end ObjectQuery
