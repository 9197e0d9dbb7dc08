import ObjectQuery.Aliases
import ObjectQuery.Step

/-!
# Resolving paths

Every path that a filter mentions becomes a reference to an alias, with joins made on the way.

* `Aliases.resolve`: follows a path from a class name at its start or from the innermost scope. An
  association is joined once per scope, unless own joins are asked for.
* `Aliases.resolveEnclosing`: resolves in the nearest enclosing scope that can.
* `Aliases.pushCollection`: joins a collection and opens the scope of its elements.
* `Aliases.describe`: what a path leads to, without any joins.
-/

namespace ObjectQuery

/-- Where a walk along a path stands. -/
structure Cursor where
  aliasName : String
  className : String
  /-- The class and the path that joins made here are named after. -/
  rootClass : String
  rootPath : List String
  deriving DecidableEq, Repr, Inhabited

/-- How a path is resolved. -/
structure Resolution where
  /-- Make new joins and leave them to this path alone. -/
  ownJoins : Bool := false
  /-- Make outer joins, also outside disjunctions. -/
  outer : Bool := false
  /-- Leave a collection at the end of the path unjoined. -/
  keepCollection : Bool := false
  deriving DecidableEq, Repr, Inhabited

/-- What a path leads to. -/
structure PathShape where
  /-- The kind of the last property, if the path leads to one. -/
  terminal : Option PropertyKind := none
  /-- Some property on the way, or the last one, is a collection. -/
  crossesCollection : Bool := false
  deriving DecidableEq, Repr, Inhabited

namespace Aliases

/-- Looks up a property and reports the walk. -/
def lookUp (c : Catalog) (className name : String) : Step Aliases (Option Property) :=
  .ofReported (c.lookUp className name)

/-- Where a path starts and the segments that follow: a class name that has an alias, or the
innermost scope. None if the scope has no alias. -/
def startOf (c : Catalog) (path : String) : Step Aliases (Option (Cursor × List String)) := do
  let a ← Step.get
  let (first, rest) := Path.head path
  if Text.startsUpper first && c.isKnown first then
    match a.classAlias? first with
    | some aliasName => pure (some (⟨aliasName, first, first, []⟩, Path.segments rest))
    | none => .fail (.unresolvableJoin first first path)
  else
    match a.scope? with
    | some { className, aliasName := some aliasName, rootClass, rootPath, .. } =>
      pure (some (⟨aliasName, className, rootClass, rootPath⟩, Path.segments path))
    | _ => pure none

/-! ## Joins -/

/-- What the aliases of joins along a path start with. -/
def joinAliasBase (rootClass : String) (path : List String) : String :=
  Text.lowerFirst (rootClass ++ "_" ++ Text.joinWith "_" path) ++ "Alias"

/-- Whether an alias is a base followed by digits. -/
def isNumbered (base aliasName : String) : Bool :=
  match Text.dropStart? aliasName base with
  | some digits => digits != "" && digits.toList.all Digits.isDigit
  | none => false

/-- The source alias that an alias was joined from. -/
def rootOf (a : Aliases) (aliasName : String) : String :=
  match a.joins.find? fun j => j.aliasName == aliasName && j.isNavigated with
  | some j => j.rootAlias
  | none => aliasName

/-- Joins an association under a new alias: the number behind the base counts the joins that have
the base already. -/
def createJoin (a : Aliases) (cursor : Cursor) (segment : String) (target : Option String)
    (joinType : JoinType) : String × Aliases :=
  let base := joinAliasBase cursor.rootClass (cursor.rootPath ++ [segment])
  let number := (a.joins.filter (isNumbered base ·.aliasName)).length
  let aliasName := base ++ String.ofList (Digits.ofNat number)
  (aliasName, { a with joins := a.joins ++ [
      { rootAlias := a.rootOf cursor.aliasName
        ownerClass := cursor.className
        targetClass := target
        property := segment
        joinType
        aliasName
        path := .association cursor.aliasName segment }] })

/-- Remembers the alias of an association in the innermost scope. -/
def remember (a : Aliases) (key : String × String) (aliasName : String) : Aliases :=
  match a.scopes with
  | [] => a
  | inner :: outer =>
    let inner := { inner with joined := inner.joined.insert key aliasName }
    { a with scopes := inner :: outer }

/-- The alias of an association that the innermost scope has joined. -/
def joined? (a : Aliases) (key : String × String) : Option String :=
  a.scope?.bind (·.joined.find? key)

/-- The kind of a join made now. -/
def joinTypeFor (a : Aliases) (outer : Bool) : JoinType :=
  if outer || a.insideOr then .leftOuter else .inner

/-- The alias of an association: the one that the scope has, or a new join. -/
def joinSegment (cursor : Cursor) (segment : String) (target : Option String) (o : Resolution) :
    Step Aliases String := do
  let a ← Step.get
  let key := (cursor.aliasName, segment)
  match if o.ownJoins then none else a.joined? key with
  | some aliasName => pure aliasName
  | none =>
    let (aliasName, joined) := a.createJoin cursor segment target (a.joinTypeFor o.outer)
    Step.modify fun _ => if o.ownJoins then joined else joined.remember key aliasName
    pure aliasName

/-- Navigates one association of a path and joins it. -/
def advance (c : Catalog) (path : String) (o : Resolution) (cursor : Cursor) (segment : String) :
    Step Aliases Cursor := do
  let property ← lookUp c cursor.className segment
  match property.bind (·.kind.target) with
  | some target =>
    let aliasName ← joinSegment cursor segment (some target) o
    pure ⟨aliasName, target, cursor.rootClass, cursor.rootPath ++ [segment]⟩
  | none => .fail (.unresolvableJoin cursor.className segment path)

/-! ## References -/

/-- The last segment of a path: a collection is joined, anything else follows the alias. -/
def finish (c : Catalog) (o : Resolution) (cursor : Cursor) (segment : String) :
    Step Aliases (String × List String) := do
  match ← lookUp c cursor.className segment with
  | some p =>
    if p.kind.isCollection && !o.keepCollection then
      let aliasName ← joinSegment cursor segment p.kind.target o
      pure (aliasName, [])
    else pure (cursor.aliasName, [segment])
  | none => pure (cursor.aliasName, [segment])

/-- Follows the segments of a path to an alias and the segments behind it. The identifier of a
many-to-one association is its foreign key, which needs no join. -/
def follow (c : Catalog) (path : String) (o : Resolution) :
    Cursor → List String → Step Aliases (String × List String)
  | cursor, [] => pure (cursor.aliasName, [])
  | cursor, [last] => finish c o cursor last
  | cursor, segment :: last :: rest => do
    let isKey ←
      if rest.isEmpty && last == "id" then do
        match ← lookUp c cursor.className segment with
        | some { kind := .manyToOne _, .. } => pure true
        | _ => pure false
      else pure false
    if isKey then pure (cursor.aliasName, [segment, "id"])
    else follow c path o (← advance c path o cursor segment) (last :: rest)

/-- The reference of a path, none if it has no class name and the scope no alias. -/
def resolve (c : Catalog) (path : String) (o : Resolution) : Step Aliases (Option Reference) := do
  let p := Path.parse path
  if p.inner == "*" then pure (some (.rows path))
  else
    match ← startOf c p.inner with
    | none => pure none
    | some (cursor, segments) =>
      let (aliasName, steps) ← follow c path o cursor segments
      pure (some (.at p.before aliasName steps p.after))

/-- Runs a step with the innermost scope taken away, and puts it back in any case. -/
def enclosing {α : Type} (x : Step Aliases α) : Step Aliases α := fun a =>
  match a.scopes with
  | [] => x a
  | inner :: outer =>
    let o := x { a with scopes := outer }
    { o with state := { o.state with scopes := inner :: o.state.scopes } }

/-- Resolves a path in the nearest of at most `depth` enclosing scopes that can. -/
def resolveWithin (c : Catalog) (path : String) : Nat → Step Aliases Reference
  | 0 => do
    let a ← Step.get
    .fail (.unresolvableJoin a.queryClass path path)
  | depth + 1 => enclosing do
    let a ← Step.get
    if a.scopes.isEmpty then .fail (.unresolvableJoin a.queryClass path path)
    else
      match ← resolve c path { ownJoins := Path.needsOwnJoins path } with
      | some reference => pure reference
      | none => resolveWithin c path depth

/-- Resolves a path in the nearest enclosing scope that can. -/
def resolveEnclosing (c : Catalog) (path : String) : Step Aliases Reference := do
  let a ← Step.get
  resolveWithin c path a.scopes.length

/-! ## Collections -/

/-- Navigates associations one after the other. -/
def advanceAll (c : Catalog) (path : String) : Cursor → List String → Step Aliases Cursor
  | cursor, [] => pure cursor
  | cursor, segment :: rest => do
    advanceAll c path (← advance c path {} cursor segment) rest

/-- Joins a collection of entities, always anew, and opens the scope of its elements. -/
def pushCollection (c : Catalog) (property : String) (joinType : JoinType) :
    Step Aliases String := do
  match ← startOf c property with
  | none => do
    let a ← Step.get
    .fail (.unresolvableJoin a.currentClass property property)
  | some (cursor, segments) =>
    match segments.getLast? with
    | none => .fail (.unresolvableJoin cursor.className property property)
    | some last => do
      let cursor ← advanceAll c property cursor segments.dropLast
      match ← lookUp c cursor.className last with
      | some { kind := .oneToMany element _, .. } => do
        let a ← Step.get
        let (aliasName, a) := a.createJoin cursor last (some element) joinType
        Step.modify fun _ => { a with scopes :=
          { kind := .collection
            className := element
            aliasName := some aliasName
            rootClass := cursor.rootClass
            rootPath := cursor.rootPath ++ [last]
            joined := [] } :: a.scopes }
        pure aliasName
      | _ => .fail (.unresolvableJoin cursor.className last property)

/-! ## Shapes -/

/-- What segments lead to from a class. -/
def describeFrom (c : Catalog) : String → List String → Reported PathShape
  | _, [] => pure {}
  | className, segment :: rest => do
    match ← c.lookUp className segment with
    | none => pure {}
    | some p =>
      let crosses := p.kind.isCollection
      if rest.isEmpty then pure ⟨some p.kind, crosses⟩
      else
        match p.kind.target with
        | none => pure ⟨none, crosses⟩
        | some target => do
          let shape ← describeFrom c target rest
          pure { shape with crossesCollection := crosses || shape.crossesCollection }

/-- What a path leads to. -/
def describe (c : Catalog) (a : Aliases) (path : String) : Reported PathShape :=
  let inner := (Path.parse path).inner
  let (first, rest) := Path.head inner
  if Text.startsUpper first && c.isKnown first then describeFrom c first (Path.segments rest)
  else describeFrom c a.currentClass (Path.segments inner)

/-- Whether a path leads to a collection of plain values. -/
def isScalarCollection (c : Catalog) (a : Aliases) (path : String) : Reported Bool := do
  let shape ← describe c a path
  pure (shape.terminal == some .scalarCollection)

end Aliases

end ObjectQuery
