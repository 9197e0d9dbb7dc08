import ObjectQuery.Proofs.Paths.Strides

/-!
# Paths across collections

* `Catalog.Crosses`: segments that lead from a class across some collection.
* `Aliases.describe_crossesCollection`: that is what the shape of a path says.
-/

namespace ObjectQuery

variable {c : Catalog}

/-- Some property that segments lead to from a class is a collection, each after the associations
before it. -/
inductive Catalog.Crosses (c : Catalog) : String → List String → Prop
  | here {className segment : String} {rest : List String} {p : Property} :
    c.property? className segment = some p → p.kind.isCollection = true →
    Crosses c className (segment :: rest)
  | further {className segment target : String} {rest : List String} {p : Property} :
    c.property? className segment = some p → p.kind.target = some target →
    Crosses c target rest → Crosses c className (segment :: rest)

namespace Aliases

theorem describeFrom_crossesCollection (className : String) (segments : List String) :
    (describeFrom c className segments).value.crossesCollection = true ↔
      c.Crosses className segments := by
  induction segments generalizing className with
  | nil =>
    refine ⟨fun h => ?_, fun h => ?_⟩
    · cases h
    · cases h
  | cons segment rest ih =>
    rw [describeFrom, Reported.value_bind]
    generalize hp : (c.lookUp className segment).value = property
    change c.property? className segment = property at hp
    cases property with
    | none =>
      refine ⟨fun h => ?_, fun h => ?_⟩
      · cases h
      · cases h with
        | here hfound | further hfound => rw [hp] at hfound; cases hfound
    | some p =>
      have hsplit : c.Crosses className (segment :: rest) ↔ p.kind.isCollection = true ∨
          ∃ target, p.kind.target = some target ∧ c.Crosses target rest := by
        constructor
        · rintro (⟨hfound, hcollection⟩ | ⟨hfound, htarget, hrest⟩)
          · obtain rfl := Option.some.inj (hp.symm.trans hfound)
            exact .inl hcollection
          · obtain rfl := Option.some.inj (hp.symm.trans hfound)
            exact .inr ⟨_, htarget, hrest⟩
        · rintro (hcollection | ⟨target, htarget, hrest⟩)
          · exact .here hp hcollection
          · exact .further hp htarget hrest
      rw [hsplit]
      dsimp only
      split
      · rename_i hempty
        obtain rfl := List.isEmpty_iff.mp hempty
        simpa using fun target _ (h : c.Crosses target []) => by cases h
      · cases htarget : p.kind.target with
        | none => simp
        | some target =>
          change (p.kind.isCollection || (describeFrom c target rest).value.crossesCollection) =
            true ↔ _
          simp [ih]

theorem describe_eq (a : Aliases) (path : String) :
    a.describe c path = describeFrom c (a.originClass c (Path.parse path).inner)
      (c.pathSegments (Path.parse path).inner) := by
  unfold describe
  dsimp only
  split
  · rename_i hclass
    obtain ⟨-, horigin, hsegments⟩ := a.origin_of_leadingClass
      (if_pos hclass : c.leadingClass? _ = some (Path.head (Path.parse path).inner).1)
    rw [horigin, hsegments]
  · rename_i hclass
    obtain ⟨-, horigin, hsegments⟩ := a.origin_of_noLeadingClass
      (if_neg hclass : c.leadingClass? (Path.parse path).inner = none)
    rw [horigin, hsegments]

/-- The shape of a path says whether it crosses a collection. -/
theorem describe_crossesCollection (a : Aliases) (path : String) :
    (a.describe c path).value.crossesCollection = true ↔
      c.Crosses (a.originClass c (Path.parse path).inner)
        (c.pathSegments (Path.parse path).inner) := by
  rw [describe_eq]
  exact describeFrom_crossesCollection _ _

end Aliases

end ObjectQuery
