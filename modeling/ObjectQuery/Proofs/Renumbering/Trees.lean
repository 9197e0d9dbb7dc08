import ObjectQuery.Statement

/-!
# Statements under other parameter numbers

* `Condition.renumber`, `Select.renumber`: a tree with another number for each parameter. Nothing
  else in it changes.
-/

namespace ObjectQuery

/-- A parameter under another number. -/
def Parameter.renumber (g : Nat → Nat) (p : Parameter) : Parameter := { p with number := g p.number }

mutual

/-- A predicate with other parameter numbers. -/
def Atom.renumber (g : Nat → Nat) : Atom → Atom
  | .comparison left operator number escape => .comparison left operator (g number) escape
  | .membership left numbers => .membership left (numbers.map g)
  | .nullCheck reference isNull => .nullCheck reference isNull
  | .emptyCheck collection => .emptyCheck collection
  | .never => .never
  | .correlated correlation => .correlated correlation
  | .inSelect reference negated query => .inSelect reference negated (query.renumber g)

/-- A condition with other parameter numbers. -/
def Condition.renumber (g : Nat → Nat) : Condition → Condition
  | .atom predicate => .atom (predicate.renumber g)
  | .chain members => .chain (renumberConditions g members)
  | .group disjunctive members => .group disjunctive (renumberConditions g members)
  | .negation condition => .negation (condition.renumber g)
  | .unfinished separator members => .unfinished separator (renumberConditions g members)

/-- A query with other parameter numbers. -/
def Select.renumber (g : Nat → Nat) : Select → Select
  | ⟨distinct, items, sources, conditions, groupBy, having, orderBy⟩ =>
    ⟨distinct, items, sources, renumberConditions g conditions, groupBy, renumberGroups g having,
      orderBy⟩

/-- Conditions with other parameter numbers. -/
def renumberConditions (g : Nat → Nat) : List Condition → List Condition
  | [] => []
  | c :: rest => c.renumber g :: renumberConditions g rest

/-- A group, which may hold nothing, with other parameter numbers. -/
def renumberGroup (g : Nat → Nat) : Option Condition → Option Condition
  | none => none
  | some c => some (c.renumber g)

/-- Groups, which may hold nothing, with other parameter numbers. -/
def renumberGroups (g : Nat → Nat) : List (Option Condition) → List (Option Condition)
  | [] => []
  | c :: rest => renumberGroup g c :: renumberGroups g rest

end

variable {g : Nat → Nat}

theorem renumberConditions_eq (cs : List Condition) :
    renumberConditions g cs = cs.map (Condition.renumber g) := by
  induction cs with
  | nil => rfl
  | cons c rest ih => rw [renumberConditions, ih, List.map_cons]

theorem renumberGroups_eq (cs : List (Option Condition)) :
    renumberGroups g cs = cs.map (renumberGroup g) := by
  induction cs with
  | nil => rfl
  | cons c rest ih => rw [renumberGroups, ih, List.map_cons]

theorem renumberConditions_append (cs ds : List Condition) :
    renumberConditions g (cs ++ ds) = renumberConditions g cs ++ renumberConditions g ds := by
  rw [renumberConditions_eq, renumberConditions_eq, renumberConditions_eq, List.map_append]

theorem renumberConditions_toList (c : Option Condition) :
    renumberConditions g c.toList = (renumberGroup g c).toList := by
  cases c <;> rfl

end ObjectQuery
