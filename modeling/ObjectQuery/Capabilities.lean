import ObjectQuery.Text.Pieces

/-!
# Capabilities of a store

What the target store can express, as far as compilation depends on it.

* `DatabaseCapabilities`: the questions that compilation asks of a store, which may be answered in
  any way.
* `Capabilities`: the answers derived from a kind of database, with overrides.
* `Capabilities.ofBackend`: the defaults of each kind of database.
-/

namespace ObjectQuery

/-- A kind of database. -/
inductive Backend where
  | postgres | mysql | sqlite
  deriving DecidableEq, Repr, Inhabited

namespace Backend

/-- All kinds of database. -/
def all : List Backend := [postgres, mysql, sqlite]

/-- The name of a kind of database. -/
def name : Backend → String
  | postgres => "postgres"
  | mysql => "mysql"
  | sqlite => "sqlite"

/-- The kind of database with a name. -/
def ofName (s : String) : Option Backend := all.find? (·.name == s)

end Backend

/-- What compilation asks of a store. -/
structure DatabaseCapabilities where
  /-- Comparisons of texts ignore case already. -/
  caseInsensitive : Bool
  /-- Texts with a meaning of their own in patterns. -/
  reserved : List String
  /-- Whether a projection can be selected without duplicates. An empty one selects entities. -/
  canUseDistinct : List String → Bool
  deriving Inhabited

/-- What a store of a kind can express, with the overrides of a deployment. -/
structure Capabilities where
  backend : Backend
  /-- Comparisons of texts ignore case already. -/
  caseInsensitive : Bool
  /-- Texts with a meaning of their own in patterns. -/
  reserved : List String
  /-- Properties of a type that cannot be selected without duplicates. -/
  nonDistinct : List String
  /-- Whole entities can be selected without duplicates. -/
  entityDistinct : Bool
  deriving DecidableEq, Repr, Inhabited

namespace Capabilities

/-- The capabilities of a kind of database: only MySQL compares without regard to case. -/
def ofBackend (backend : Backend) : Capabilities :=
  { backend
    caseInsensitive := backend == .mysql
    reserved := ["%", "_"]
    nonDistinct := []
    entityDistinct := true }

/-- The part of a column's path after the last point. -/
def lastSegment (column : String) : String :=
  String.ofList ((Text.split '.' column.toList).getLastD [])

/-- An empty projection can be selected without duplicates if entities can, and another one if no
column is of a property that cannot. -/
def canUseDistinct (c : Capabilities) (columns : List String) : Bool :=
  if columns.isEmpty then c.entityDistinct
  else columns.all fun column => !c.nonDistinct.contains (lastSegment column)

instance : Coe Capabilities DatabaseCapabilities where
  coe c :=
    { caseInsensitive := c.caseInsensitive
      reserved := c.reserved
      canUseDistinct := c.canUseDistinct }

end Capabilities

end ObjectQuery
