import ObjectQuery.Catalog
import ObjectQuery.Dictionary
import ObjectQuery.Path
import ObjectQuery.Text.Casing

/-!
# Aliases

The classes and joins of a query under their aliases, and the scopes in which paths are resolved.

* `Source`: a class listed in the query. `Join`: an association joined to it.
* `Scope`: where paths without a class name start. The root scope belongs to the query class; each
  condition on a collection's elements opens a scope of its own.
* `Aliases`: all of these for one query. Sources and joins are only ever added at the end.
-/

namespace ObjectQuery

/-- How an association is joined. -/
inductive JoinType where
  | inner | leftOuter
  deriving DecidableEq, Repr, Inhabited

/-- The words for a kind of join. -/
def JoinType.keyword : JoinType → String
  | inner => "inner join"
  | leftOuter => "left outer join"

/-- A class listed in the query. -/
structure Source where
  className : String
  aliasName : String
  /-- Listed behind the other sources and correlated by a condition. -/
  theta : Bool
  deriving DecidableEq, Repr, Inhabited

/-- What is joined: an association of an alias, or a class under a condition. -/
inductive JoinPath where
  | association (owner segment : String)
  | onCondition (className : String) (condition : Correlation)
  deriving DecidableEq, Repr, Inhabited

/-- A join of the query. -/
structure Join where
  /-- The alias of the source that the join hangs off. -/
  rootAlias : String
  ownerClass : String
  targetClass : Option String
  property : String
  joinType : JoinType
  aliasName : String
  path : JoinPath
  deriving DecidableEq, Repr, Inhabited

namespace Join

/-- The condition of a join that has one. -/
def condition? (j : Join) : Option Correlation :=
  match j.path with
  | .onCondition _ condition => some condition
  | .association .. => none

/-- Whether the join navigates an association. -/
def isNavigated (j : Join) : Bool := j.condition?.isNone

/-- What is joined, as it stands in a statement. -/
def target (j : Join) : String :=
  match j.path with
  | .association owner segment => owner ++ "." ++ segment
  | .onCondition className _ => className

/-- The text of a join. -/
def render (j : Join) : String :=
  let joined := j.joinType.keyword ++ " " ++ j.target ++ " " ++ j.aliasName
  match j.condition? with
  | some condition => joined ++ " on " ++ condition.render
  | none => joined

end Join

/-- What opened a scope. -/
inductive ScopeKind where
  | root | collection | theta
  deriving DecidableEq, Repr, Inhabited

/-- Where paths without a class name start. -/
structure Scope where
  kind : ScopeKind
  /-- The class that such paths start from. -/
  className : String
  /-- The alias that they start from. A theta scope has none. -/
  aliasName : Option String
  /-- The class and the path that the scope's joins are named after. -/
  rootClass : String
  rootPath : List String
  /-- The aliases of the associations joined so far, by owner alias and segment. -/
  joined : Dictionary (String × String) String
  deriving DecidableEq, Repr, Inhabited

/-- The sources, joins and scopes of a query. -/
structure Aliases where
  queryClass : String
  /-- The scopes, innermost first. The last one is the root scope. -/
  scopes : List Scope
  /-- The latest alias of each class that has one. -/
  classAliases : Dictionary String String
  sources : List Source
  joins : List Join
  /-- Joins made now stand under a disjunction. -/
  insideOr : Bool
  deriving DecidableEq, Repr, Inhabited

namespace Aliases

/-- The innermost scope. -/
def scope? (a : Aliases) : Option Scope := a.scopes.head?

/-- The alias that paths without a class name start from. -/
def currentAlias (a : Aliases) : Option String := a.scope?.bind (·.aliasName)

/-- The class that paths without a class name start from. -/
def currentClass (a : Aliases) : String := (a.scope?.map (·.className)).getD a.queryClass

/-- The alias of the query class. -/
def rootAlias (a : Aliases) : String := (a.scopes.getLast?.bind (·.aliasName)).getD ""

/-- Whether the innermost scope belongs to the elements of a collection. -/
def inCollection (a : Aliases) : Bool := a.scope?.any (·.kind == .collection)

/-- Whether the innermost scope belongs to a class correlated by a condition. -/
def inTheta (a : Aliases) : Bool := a.scope?.any (·.kind == .theta)

/-- Whether some join is an outer one. -/
def hasOuterJoins (a : Aliases) : Bool := a.joins.any (·.joinType == .leftOuter)

/-- The joins that hang off a source, in order. -/
def joinsOf (a : Aliases) (rootAlias : String) : List Join :=
  a.joins.filter (·.rootAlias == rootAlias)

/-- Whether a source has the alias. -/
def isSourceAlias (a : Aliases) (aliasName : String) : Bool :=
  a.sources.any (·.aliasName == aliasName)

/-! ## Classes and sources -/

/-- The alias named after a class, with a number if there is one. -/
def classAliasName (className : String) (instanceNumber : Option Nat) : String :=
  let number :=
    match instanceNumber with
    | some n => String.ofList (Digits.ofNat n)
    | none => ""
  Text.lowerFirst className ++ "Alias" ++ number

/-- The alias that paths starting with the class name start from. -/
def classAlias? (a : Aliases) (className : String) : Option String :=
  a.classAliases.find? className

/-- Names an alias after a class, which then belongs to the class. -/
def setClassAlias (a : Aliases) (className : String) (instanceNumber : Option Nat) :
    String × Aliases :=
  let aliasName := classAliasName className instanceNumber
  (aliasName, { a with classAliases := a.classAliases.insert className aliasName })

/-- The alias of a class, named after it if it has none. -/
def obtainClassAlias (a : Aliases) (className : String) : String × Aliases :=
  match a.classAlias? className with
  | some aliasName => (aliasName, a)
  | none => a.setClassAlias className none

/-- Lists a class among the sources, once. -/
def addSource (a : Aliases) (className : String) : String × Aliases :=
  match a.sources.find? fun s => !s.theta && s.className == className with
  | some s => (s.aliasName, a)
  | none =>
    let (aliasName, a) := a.obtainClassAlias className
    (aliasName, { a with sources := a.sources ++ [⟨className, aliasName, false⟩] })

/-- Lists a numbered instance of a class among the sources. -/
def addThetaSource (a : Aliases) (className : String) (instanceNumber : Nat) : String × Aliases :=
  let (aliasName, a) := a.setClassAlias className (some instanceNumber)
  (aliasName, { a with sources := a.sources ++ [⟨className, aliasName, true⟩] })

/-- Joins a class to the query class under a condition. -/
def addOnJoin (a : Aliases) (className property aliasName : String) (condition : Correlation) :
    Aliases :=
  { a with joins := a.joins ++ [
      { rootAlias := a.rootAlias
        ownerClass := a.queryClass
        targetClass := some className
        property
        joinType := .leftOuter
        aliasName
        path := .onCondition className condition }] }

/-- The aliases of a query with its class as the only source. -/
def start (queryClass : String) : Aliases :=
  let (aliasName, a) := addSource
    { queryClass, scopes := [], classAliases := [], sources := [], joins := [], insideOr := false }
    queryClass
  { a with scopes :=
      [{ kind := .root
         className := queryClass
         aliasName := some aliasName
         rootClass := queryClass
         rootPath := []
         joined := [] }] }

/-! ## Scopes -/

/-- Opens a scope in which only paths with a class name are resolved. -/
def pushTheta (a : Aliases) : Aliases :=
  { a with scopes :=
      { kind := .theta
        className := a.queryClass
        aliasName := none
        rootClass := a.queryClass
        rootPath := []
        joined := [] } :: a.scopes }

/-- Closes the innermost scope. The root scope stays open. -/
def pop (a : Aliases) : Aliases :=
  match a.scopes with
  | _ :: outer :: rest => { a with scopes := outer :: rest }
  | _ => a

end Aliases

end ObjectQuery
