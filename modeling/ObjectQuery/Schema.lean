import ObjectQuery.Capabilities
import ObjectQuery.Catalog
import ObjectQuery.Value

/-!
# Indexes of a live database

Reads the indexes and unique constraints of tables from a database, so that a catalog need not
declare them.

* `Session`, `Query`: a conversation with a database, as the answers still to come and the
  statements sent. A failed query ends it.
* `Schema.loadIndexes`: the indexes of a table.
* `Schema.applyIndexes`: a catalog with the indexes that the database has.
-/

namespace ObjectQuery

/-- A cell of a row. -/
inductive Cell where
  | null
  | bool (b : Bool)
  | integer (i : Int)
  | text (s : String)
  deriving DecidableEq, Repr, Inhabited

/-- A row of an answer: cells by column. -/
abbrev Row := List (String × Cell)

namespace Row

/-- The cell of a column, if it is a text. -/
def text? (row : Row) (column : String) : Option String :=
  match row.lookup column with
  | some (.text s) => some s
  | _ => none

/-- The cell of a column, if it is a truth value. -/
def bool? (row : Row) (column : String) : Option Bool :=
  match row.lookup column with
  | some (.bool b) => some b
  | _ => none

end Row

/-- A statement sent to a database, with the texts bound to it if it takes any. -/
structure SentStatement where
  sql : String
  bound : Option (List String) := none
  deriving DecidableEq, Repr, Inhabited

/-- The bound values of a statement. -/
def SentStatement.values (s : SentStatement) : Option (List Value.Bound) :=
  s.bound.map fun texts => texts.map fun t => .text (some t)

/-- A conversation with a database: the answers still to come, and the statements sent. -/
structure Session where
  answers : List (List Row)
  sent : List SentStatement := []
  deriving Repr, Inhabited

/-- A part of a conversation. It gives nothing if a query failed. -/
def Query (α : Type) := Session → Option α × Session

namespace Query

instance : Monad Query where
  pure a := fun s => (some a, s)
  bind x f := fun s =>
    match x s with
    | (some a, s) => f a s
    | (none, s) => (none, s)

/-- Runs a part of a conversation. -/
def run {α : Type} (x : Query α) (s : Session) : Option α × Session := x s

/-- Ends the conversation with a failure. -/
def fail {α : Type} : Query α := fun s => (none, s)

/-- The value, or a failure where there is none. -/
def orFail {α : Type} : Option α → Query α
  | some a => pure a
  | none => fail

/-- Sends a statement and takes the next answer. Without one the query fails. -/
def send (statement : SentStatement) : Query (List Row) := fun s =>
  let s := { s with sent := s.sent ++ [statement] }
  match s.answers with
  | rows :: rest => (some rows, { s with answers := rest })
  | [] => (none, s)

end Query

/-- The indexes of a table and the columns that are unique by themselves. -/
structure TableIndexes where
  indexes : List Index := []
  uniqueColumns : List String := []
  deriving DecidableEq, Repr, Inhabited

namespace TableIndexes

/-- Adds a column to the index with a name, which is new at the end if there is none. -/
def addColumn (t : TableIndexes) (indexName column : String) : TableIndexes :=
  let rec go : List Index → List Index
    | [] => [⟨indexName, [column]⟩]
    | i :: rest =>
      if i.name == indexName then { i with columns := i.columns ++ [column] } :: rest
      else i :: go rest
  { t with indexes := go t.indexes }

/-- Adds a unique column, once. -/
def addUnique (t : TableIndexes) (column : String) : TableIndexes :=
  if t.uniqueColumns.contains column then t
  else { t with uniqueColumns := t.uniqueColumns ++ [column] }

end TableIndexes

namespace Schema

/-- A name in double quotes, with quotes in it doubled. -/
def quoteName (name : String) : String :=
  String.ofList ('"' :: Text.replace ['"'] ['"', '"'] name.toList ++ ['"'])

/-- The query for the indexes of a Postgres table. -/
def postgresQuery : String :=
  "\n" ++
  "            SELECT\n" ++
  "                i.relname AS index_name,\n" ++
  "                a.attname AS column_name,\n" ++
  "                EXISTS (\n" ++
  "                    SELECT 1 FROM pg_constraint c\n" ++
  "                    WHERE c.conindid = ix.indexrelid AND c.contype = 'u'\n" ++
  "                ) AS is_unique_constraint\n" ++
  "            FROM pg_class t\n" ++
  "            JOIN pg_index ix ON t.oid = ix.indrelid\n" ++
  "            JOIN pg_class i ON i.oid = ix.indexrelid\n" ++
  "            JOIN pg_attribute a ON t.oid = a.attrelid AND a.attnum = ANY(ix.indkey)\n" ++
  "            WHERE t.relname = $1\n" ++
  "            AND t.relkind = 'r'\n" ++
  "            AND NOT ix.indisprimary\n" ++
  "            ORDER BY i.relname, array_position(ix.indkey, a.attnum)\n" ++
  "            "

/-- The query for the indexes of a MySQL table. -/
def mysqlQuery : String :=
  "\n" ++
  "            SELECT\n" ++
  "                s.INDEX_NAME AS index_name,\n" ++
  "                s.COLUMN_NAME AS column_name,\n" ++
  "                (tc.CONSTRAINT_TYPE IS NOT NULL) AS is_unique_constraint\n" ++
  "            FROM information_schema.statistics s\n" ++
  "            LEFT JOIN information_schema.table_constraints tc\n" ++
  "                ON tc.TABLE_SCHEMA = s.TABLE_SCHEMA\n" ++
  "                AND tc.TABLE_NAME = s.TABLE_NAME\n" ++
  "                AND tc.CONSTRAINT_NAME = s.INDEX_NAME\n" ++
  "                AND tc.CONSTRAINT_TYPE = 'UNIQUE'\n" ++
  "            WHERE s.TABLE_NAME = ?\n" ++
  "            AND s.TABLE_SCHEMA = DATABASE()\n" ++
  "            AND s.INDEX_NAME <> 'PRIMARY'\n" ++
  "            ORDER BY s.INDEX_NAME, s.SEQ_IN_INDEX\n" ++
  "            "

/-! ## One row per index column -/

/-- A row that names an index, one of its columns, and whether it backs a unique constraint. -/
structure IndexColumn where
  index : String
  column : String
  isConstraint : Bool
  deriving DecidableEq, Repr, Inhabited

/-- Reads the rows of an answer. -/
def readColumns : List Row → Query (List IndexColumn)
  | [] => pure []
  | row :: rest => do
    let index ← Query.orFail (row.text? "index_name")
    let column ← Query.orFail (row.text? "column_name")
    let isConstraint ← Query.orFail (row.bool? "is_unique_constraint")
    let columns ← readColumns rest
    pure (⟨index, column, isConstraint⟩ :: columns)

/-- The indexes of a table from their columns. A constraint counts if it has one column. -/
def collect (columns : List IndexColumn) : TableIndexes :=
  let plain := columns.filter (!·.isConstraint)
  let constraints := columns.filter (·.isConstraint)
  let indexes := plain.foldl (fun t c => t.addColumn c.index c.column) {}
  let single := constraints.filter fun c => constraints.countP (·.index == c.index) == 1
  single.foldl (fun t c => t.addUnique c.column) indexes

/-- The indexes of a table, from one query for all of them. -/
def loadByColumn (query table : String) : Query TableIndexes := do
  let rows ← Query.send { sql := query, bound := some [table] }
  let columns ← readColumns rows
  pure (collect columns)

/-! ## One query per index -/

/-- Reads the column names of an index. -/
def readNames : List Row → Query (List String)
  | [] => pure []
  | row :: rest => do
    let name ← Query.orFail (row.text? "name")
    let names ← readNames rest
    pure (name :: names)

/-- Adds an index of a table. Primary keys are left out, and a unique constraint counts if it has
one column. -/
def loadIndex (t : TableIndexes) (row : Row) : Query TableIndexes := do
  let name ← Query.orFail (row.text? "name")
  let origin ← Query.orFail (row.text? "origin")
  if origin == "pk" then pure t
  else do
    let rows ← Query.send { sql := "PRAGMA index_info(" ++ quoteName name ++ ")" }
    let columns ← readNames rows
    if origin == "u" then
      match columns with
      | [column] => pure (t.addUnique column)
      | _ => pure t
    else pure (columns.foldl (fun t column => t.addColumn name column) t)

/-- Adds the indexes of a table one by one. -/
def loadEach (t : TableIndexes) : List Row → Query TableIndexes
  | [] => pure t
  | row :: rest => do
    let t ← loadIndex t row
    loadEach t rest

/-- The indexes of a table, from a list of indexes and a query for each. -/
def loadByIndex (table : String) : Query TableIndexes := do
  let rows ← Query.send { sql := "PRAGMA index_list(" ++ quoteName table ++ ")" }
  loadEach {} rows

/-! ## Catalogs -/

/-- The indexes of a table. -/
def loadIndexes (backend : Backend) (table : String) : Query TableIndexes :=
  match backend with
  | .sqlite => loadByIndex table
  | .postgres => loadByColumn postgresQuery table
  | .mysql => loadByColumn mysqlQuery table

/-- Adds indexes to those declared. One of the same name replaces the declared ones. -/
def mergeIndexes (declared found : List Index) : List Index :=
  found.foldl (fun indexes i => indexes.filter (·.name != i.name) ++ [i]) declared

/-- A class with the indexes found on its table. Properties of unique columns become unique. -/
def mergeEntity (e : Entity) (found : TableIndexes) : Entity :=
  { e with
    indexes := mergeIndexes e.indexes found.indexes
    properties := e.properties.map fun p =>
      { p with unique := p.unique || found.uniqueColumns.contains p.columnName } }

/-- Classes with the indexes of their tables, one after the other, and whether a query failed. From
a failure on the classes stay as they are. Abstract classes have no table. -/
def applyToEach (backend : Backend) (s : Session) : List Entity → Bool × List Entity × Session
  | [] => (false, [], s)
  | e :: rest =>
    if e.isAbstract then
      let (failed, entities, s) := applyToEach backend s rest
      (failed, e :: entities, s)
    else
      match (loadIndexes backend e.table).run s with
      | (none, s) => (true, e :: rest, s)
      | (some found, s) =>
        let (failed, entities, s) := applyToEach backend s rest
        (failed, mergeEntity e found :: entities, s)

/-- A catalog with the indexes that the database has, and whether a query failed. -/
def applyIndexes (backend : Backend) (c : Catalog) (s : Session) : Bool × Catalog × Session :=
  let (failed, entities, s) := applyToEach backend s c.entities
  (failed, { c with entities }, s)

end Schema

end ObjectQuery
