import ObjectQuery.Catalog
import ObjectQuery.Path
import ObjectQuery.Text.Casing

/-!
# The ways that paths spell

What the segments of a path stand for, read off the catalog alone.

* `Catalog.propertyAt`: the property that segments lead to from a class.
* `Catalog.steps`: the segments that follow an alias in a reference. The segments before them are
  the associations on the way to the alias.
* `Catalog.leadingClass?`, `Catalog.pathSegments`: the class name that a path may begin with, and
  the segments that are followed.
-/

namespace ObjectQuery

/-- Whether a property refers to one entity. -/
def PropertyKind.isManyToOne : PropertyKind → Bool
  | manyToOne _ => true
  | scalar | oneToMany .. | scalarCollection => false

namespace Catalog

variable {c : Catalog} {className target segment next : String} {segments rest : List String}

/-- The property that segments lead to from a class: that of the last one, where all before it are
associations. -/
def propertyAt (c : Catalog) (className : String) : List String → Option Property
  | [] => none
  | [last] => c.property? className last
  | segment :: next :: rest =>
    match (c.property? className segment).bind (·.kind.target) with
    | some target => c.propertyAt target (next :: rest)
    | none => none

/-- The segments that follow the alias in the reference of a path: the last one. A collection is an
alias itself, and the identifier of a many-to-one association is its foreign key. -/
def steps (c : Catalog) (className : String) (segments : List String) : List String :=
  if segments.getLast? = some "id" ∧
      (c.propertyAt className segments.dropLast).any (·.kind.isManyToOne) then
    segments.drop (segments.length - 2)
  else if (c.propertyAt className segments).any (·.kind.isCollection) then []
  else segments.drop (segments.length - 1)

@[simp] theorem steps_nil : c.steps className [] = [] := by simp [steps]

theorem steps_singleton (c : Catalog) (className segment : String) :
    c.steps className [segment] =
      if (c.property? className segment).any (·.kind.isCollection) then [] else [segment] := by
  simp [steps, propertyAt]

/-- The identifier of a many-to-one association needs no way to the association. -/
theorem steps_key (h : (c.property? className segment).any (·.kind.isManyToOne) = true) :
    c.steps className [segment, "id"] = [segment, "id"] := by
  simp [steps, propertyAt, h]

/-- Any other association is on the way, and the rest of the path goes on from its target. -/
theorem steps_cons (htarget : (c.property? className segment).bind (·.kind.target) = some target)
    (hkey : ¬(rest = [] ∧ next = "id" ∧
      (c.property? className segment).any (·.kind.isManyToOne) = true)) :
    c.steps className (segment :: next :: rest) = c.steps target (next :: rest) := by
  cases rest with
  | nil =>
    have hnot : ¬(next = "id" ∧
        (c.property? className segment).any (·.kind.isManyToOne) = true) := by simpa using hkey
    simp [steps, propertyAt, htarget, hnot]
  | cons further rest =>
    simp [steps, propertyAt, htarget]

/-! ## The beginning of a path -/

/-- The class name that a path begins with, if it does. -/
def leadingClass? (c : Catalog) (path : String) : Option String :=
  let first := (Path.head path).1
  if Text.startsUpper first && c.isKnown first then some first else none

/-- The segments of a path that are followed: those behind the class name, if there is one. -/
def pathSegments (c : Catalog) (path : String) : List String :=
  match c.leadingClass? path with
  | some _ => Path.segments (Path.head path).2
  | none => Path.segments path

end Catalog

end ObjectQuery
