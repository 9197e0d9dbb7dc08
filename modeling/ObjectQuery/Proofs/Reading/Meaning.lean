import Mathlib.Data.List.Forall2
import ObjectQuery.Proofs.Context.Emission

/-!
# The meaning of a filter

What a where clause has to say for a filter, as a Boolean combination of predicates.

* `Meaning`: a truth value that depends on those of predicates.
* `Place`: the scopes that paths start from.
* `RefersFrom`: what a path stands for at a place.
* `Compares`, `Equates`, `Lists`, ...: the predicate that stands for a comparison. It names the
  property, and its parameters hold the operands.
* `Selects`, `Excludes`: the predicate that stands for a nested select.
* `Test.Means`, `Filter.Means`: the meanings of tests and filters at a place. A condition on a
  collection has the meaning of its plain part at the place of the elements.
* `Filter.isProper`: filters without aggregates, outer joins and empty connectives.
-/

namespace ObjectQuery

/-- A truth value that depends on the truth values of predicates. -/
abbrev Meaning := (Atom → Bool) → Bool

namespace Meaning

/-- The predicate holds. -/
def predicate (p : Atom) : Meaning := fun truth => truth p

/-- All of them hold. -/
def all (ms : List Meaning) : Meaning := fun truth => ms.all fun m => m truth

/-- One of them holds. -/
def any (ms : List Meaning) : Meaning := fun truth => ms.any fun m => m truth

/-- Several meanings under a connective. A negation negates their conjunction. -/
def under (operation : BooleanOp) (ms : List Meaning) : Meaning :=
  match operation with
  | .and => all ms
  | .or => any ms
  | .not => fun truth => !all ms truth

end Meaning

/-! ## Places -/

/-- The query class and the scopes that paths start from. -/
structure Place where
  queryClass : String
  /-- The scopes, innermost first, without the joins made in them. -/
  scopes : List Scope

/-- Where aliases stand. -/
def Aliases.place (a : Aliases) : Place := ⟨a.queryClass, a.frames⟩

theorem Aliases.Resumes.place {a b : Aliases} (h : a.Resumes b) : b.place = a.place :=
  congrArg₂ Place.mk h.queryClass h.frames

namespace Place

/-- The class that paths without a class name start from. -/
def currentClass (s : Place) : String := (s.scopes.head?.map (·.className)).getD s.queryClass

/-- The alias that they start from, if the scope has one. -/
def currentAlias (s : Place) : Option String := s.scopes.head?.bind (·.aliasName)

/-- The place seen from a scope further out. -/
def outward (s : Place) (depth : Nat) : Place := { s with scopes := s.scopes.drop depth }

end Place

namespace Aliases

variable (a : Aliases)

theorem currentClass_place : a.place.currentClass = a.currentClass := by
  unfold place frames Place.currentClass currentClass scope?
  cases a.scopes <;> rfl

theorem currentAlias_place : a.place.currentAlias = a.currentAlias := by
  unfold place frames Place.currentAlias currentAlias scope?
  cases a.scopes <;> rfl

end Aliases

section

variable (k : Compiler) (z : Draft)

/-! ## Predicates of tests

`s` is the place of a test, and `z` is what the visit leaves in the end: it has the parameters, and
the joins that references go through. -/

/-- The reference is what a path stands for at a place of the query. -/
def RefersFrom (s : Place) (path : String) (r : Reference) : Prop :=
  ∃ o a b, a.place = s ∧ (Aliases.resolve k.catalog path o).Yields a (some r) b ∧
    b.Underlies z.aliases

section

variable (s : Place)

/-- The predicate compares the property of a test with a value, which is bound to its parameter. -/
def Compares (t : Test) (operator : String) (v : Value) (p : Atom) : Prop :=
  ∃ upper r number,
    p = .comparison { reference := r, upper, cast := t.cast } operator number
      (Draft.boundValue k t v upper).2 ∧
    RefersFrom k z s t.property r ∧ ⟨number, (Draft.boundValue k t v upper).1⟩ ∈ z.parameters

/-- The predicate checks whether the property of a test is null. -/
def ChecksNull (t : Test) (isNull : Bool) (p : Atom) : Prop :=
  ∃ r, p = .nullCheck r isNull ∧ RefersFrom k z s t.property r

/-- The predicate equates the property of a test with a value, or says that they differ. -/
def Equates (t : Test) (v : Value) (equal : Bool) (p : Atom) : Prop :=
  if v.isNull then ChecksNull k z s t equal p
  else Compares k z s t (if equal then "=" else "!=") v p

/-- The predicate lists the operands of a test, which are bound to its parameters. No operands are
met by no row. -/
def Lists (t : Test) (p : Atom) : Prop :=
  (t.value.elements = [] ∧ p = .never) ∨
    ∃ upper r numbers,
      p = .membership { reference := r, upper } numbers ∧ RefersFrom k z s t.property r ∧
      List.Forall₂ (fun number v => ⟨number, (Draft.boundValue k t v upper).1⟩ ∈ z.parameters)
        numbers t.value.elements

/-- The predicate correlates the property of a join with its other side. In a condition on a class,
the property belongs to a scope further out. -/
def Correlates (t : Test) (p : Atom) : Prop :=
  ∃ other left right, t.joinProperty = some other ∧ RefersFrom k z s other right ∧
    ((RefersFrom k z s t.property left ∧
        (p = .correlated (.equal left right) ∨ p = .correlated (.element right left))) ∨
      ∃ depth, 0 < depth ∧ RefersFrom k z (s.outward depth) t.property left ∧
        p = .correlated (.equal left right))

/-- What a test without nested filters means. -/
inductive Test.Means (t : Test) : Meaning → Prop where
  | equal {p : Atom} : t.operation = .eq → Equates k z s t t.value true p → Means t (.predicate p)
  | unequal {p : Atom} : t.operation = .ne → Equates k z s t t.value false p →
      Means t (.predicate p)
  | compared {operator : String} {p : Atom} :
      (t.operation, operator) ∈
        [(.lt, "<"), (.gt, ">"), (.le, "<="), (.ge, ">="), (.like, "like")] →
      Compares k z s t operator t.value p → Means t (.predicate p)
  | null {p : Atom} : t.operation = .isNull → ChecksNull k z s t true p → Means t (.predicate p)
  | notNull {p : Atom} : t.operation = .notNull → ChecksNull k z s t false p →
      Means t (.predicate p)
  | empty {r : Reference} : t.operation = .isEmpty → RefersFrom k z s t.property r →
      Means t (.predicate (.emptyCheck r))
  | listed {p : Atom} : t.operation = .inList → t.value.hasEntities = false → Lists k z s t p →
      Means t (.predicate p)
  /-- A list with entities is a disjunction of equalities. -/
  | entities {ms : List Meaning} : t.operation = .inList → t.value.hasEntities = true →
      List.Forall₂ (fun v m => ∃ p, Equates k z s (t.withOperation .eq v) v true p ∧
        m = .predicate p) t.value.elements ms →
      Means t (.any ms)
  | containsOne {v : Value} {p : Atom} : t.operation = .containsAll → t.value.elements = [v] →
      Equates k z s t v true p → Means t (.predicate p)
  /-- A collection that contains several values is a conjunction of equalities. -/
  | containsAll {ms : List Meaning} : t.operation = .containsAll →
      (∀ v, t.value.elements ≠ [v]) →
      List.Forall₂ (fun v m => ∃ p, Compares k z s t "=" v p ∧ m = .predicate p) t.value.elements
        ms →
      Means t (.all ms)
  | joined {p : Atom} : t.operation = .join → Correlates k z s t p → Means t (.predicate p)

end

/-! ## Nested selects -/

/-- The query selects a column of a class under the condition that an emission leaves. Its parameters
are among those of the query around it. -/
def SelectsUnder (className column : String) (body : Emission) (query : Select) : Prop :=
  ∃ first condition u assembled v, body.Yields (.start className first) condition u ∧
    (Draft.assembleSelect k { columns := [column] }).Yields (u.addCondition condition) assembled v ∧
    query = assembled.statement ∧ v.parameters ⊆ z.parameters

/-- The predicate looks for the property of a test among those that its nested query selects. -/
def Selects (s : Place) (t : Test) (subfilter : Option Filter) (p : Atom) : Prop :=
  ∃ className column r query, t.subqueryClass = some className ∧
    t.subqueryProperty = some column ∧ p = .inSelect r false query ∧ RefersFrom k z s t.property r ∧
    SelectsUnder k z className column
      (match subfilter with
        | none => pure none
        | some f => Draft.emit k f)
      query

/-- The predicate excludes the owners of the elements of a collection that meet a condition. The
owners are those that the innermost scope stands for, the collection is their property, which may be
named behind the query class, and a select of the inverse property gives those to exclude. -/
def Excludes (s : Place) (property : String) (part : Composite) (p : Atom) : Prop :=
  let collection := (Text.dropStart? property (s.queryClass ++ ".")).getD property
  ∃ inverse declared element aliasName query,
    k.catalog.inverse? s.currentClass collection = some inverse ∧
    k.catalog.property? s.currentClass collection = some declared ∧
    declared.kind.target = some element ∧ s.currentAlias = some aliasName ∧
    p = .inSelect (.ofAlias aliasName) true query ∧
    SelectsUnder k z element inverse (Draft.emit k (.composite part)) query

/-! ## Filters -/

/-- From a place of the query, the condition on a property leads to the place of the elements. -/
def LeadsInto (s : Place) (property : String) (inner : Place) : Prop :=
  ∃ a b : Aliases, a.place = s ∧ a.Enters k.catalog property b ∧ b.place = inner ∧
    b.Underlies z.aliases

/-- What a filter means at a place. A condition on a collection's elements divides into its plain
part, which is meant at the place of the elements, and a single predicate for its negated part, under
the connective of the condition. -/
inductive Filter.Means : Place → Filter → Meaning → Prop where
  | test {s : Place} {t : Test} {condition : Option Composite} {subfilter : Option Filter}
      {m : Meaning} :
      t.Means k z s m → Means s (.leaf ⟨t, condition, subfilter⟩) m
  | subquery {s : Place} {t : Test} {condition : Option Composite} {subfilter : Option Filter}
      {p : Atom} :
      t.operation = .subquery → Selects k z s t subfilter p →
      Means s (.leaf ⟨t, condition, subfilter⟩) (.predicate p)
  | composite {s : Place} {operation : BooleanOp} {children : List Filter} {ms : List Meaning} :
      children.length = ms.length → (∀ f m, (f, m) ∈ children.zip ms → Means s f m) →
      Means s (.composite ⟨operation, children⟩) (.under operation ms)
  | plain {s inner : Place} {t : Test} {c part : Composite} {subfilter : Option Filter}
      {m : Meaning} :
      t.operation = .collectionCondition → c.split = (some part, none) →
      LeadsInto k z s t.property inner → Means inner (.composite part) m →
      Means s (.leaf ⟨t, some c, subfilter⟩) m
  | negated {s : Place} {t : Test} {c part : Composite} {subfilter : Option Filter} {p : Atom} :
      t.operation = .collectionCondition → c.split = (none, some part) →
      Excludes k z s t.property part p →
      Means s (.leaf ⟨t, some c, subfilter⟩) (.predicate p)
  | divided {s inner : Place} {t : Test} {c plainPart negatedPart : Composite}
      {subfilter : Option Filter} {m : Meaning} {p : Atom} :
      t.operation = .collectionCondition → c.split = (some plainPart, some negatedPart) →
      LeadsInto k z s t.property inner → Means inner (.composite plainPart) m →
      Excludes k z s t.property negatedPart p →
      Means s (.leaf ⟨t, some c, subfilter⟩) (.under c.operation [m, .predicate p])

end

/-! ## Proper filters -/

/-- The property stands outside functions, the test is no outer join, and a `CONTAINS_ALL` has
values. -/
def Test.isProper (t : Test) : Bool :=
  !t.isAggregate && t.operation != .leftJoin &&
    !(t.operation == .containsAll && t.value.elements.isEmpty)

namespace Filter

mutual

/-- All tests are proper, and no composite is empty. -/
def isProper : Filter → Bool
  | .leaf ⟨t, condition, _⟩ => t.isProper && isProperCondition condition
  | .composite ⟨_, children⟩ => !children.isEmpty && areProper children

/-- All the filters are proper. -/
def areProper : List Filter → Bool
  | [] => true
  | f :: rest => isProper f && areProper rest

/-- The children of a condition are proper, and there are some. -/
def isProperCondition : Option Composite → Bool
  | none => true
  | some ⟨_, children⟩ => !children.isEmpty && areProper children

end

end Filter

end ObjectQuery
