import ObjectQuery.Proofs.Standing.Drafts
import ObjectQuery.Query.Predicate

/-!
# Leaves on drafts of the same standing

A leaf goes the same way from drafts of the same standing: it resolves paths, and binds the same
values.

* `Draft.Alongside.resolve`, `Draft.Alongside.plainComparison`, ...: the steps of a leaf.
* `Draft.Abreast.test`: the predicate of a leaf.
-/

namespace ObjectQuery

namespace Draft

variable {k : Compiler} {r : Likeness}

/-! ## References -/

namespace Alongside

theorem failAt {err err' : Draft → CompileError} (h : ∀ d e, Peers r d e → err d = err' e)
    {α β : Type} {S : α → β → Prop} :
    Parallel r S (Step.get >>= fun d => .fail (err d)) (Step.get >>= fun d => .fail (err' d)) := by
  refine Step.Parallel.get.bind fun d e hpeers => ?_
  rw [h d e hpeers]
  exact .fail _

/-- Look-ups that find something from both drafts or from neither. -/
theorem found {x y : Step Aliases (Option Reference)}
    {f g : Option Reference → Step Draft Reference}
    (h : Aliases.Parallel (fun a b => a.isSome = b.isSome) x y)
    (hsome : ∀ a b, Alongside r (f (some a)) (g (some b))) (hnone : Alongside r (f none) (g none)) :
    Alongside r (Draft.aliased x >>= f) (Draft.aliased y >>= g) := by
  refine (Parallel.aliased h).bind fun found found' hfound => ?_
  cases found <;> cases found'
  case none.none => exact hnone
  case some.some => exact hsome _ _
  all_goals cases hfound

/-- A path resolves from both drafts or from neither. -/
theorem resolve (path : String) (ownJoins ownJoins' : Bool) :
    Alongside r (Draft.resolve k path ownJoins) (Draft.resolve k path ownJoins') := by
  refine found (Aliases.resolve_parallel path _ _) (fun _ _ => .pure trivial) ?_
  refine failAt fun d e hpeers => ?_
  rw [hpeers.aliases.currentClass]

theorem resolveCollection (path : String) :
    Alongside r (Draft.resolveCollection k path) (Draft.resolveCollection k path) := by
  refine found (Aliases.resolve_parallel path _ _) (fun _ _ => .pure trivial) ?_
  refine failAt fun d e hpeers => ?_
  rw [hpeers.aliases.currentClass]

theorem isScalarCollection (path : String) :
    Parallel r Eq (Draft.isScalarCollection k path) (Draft.isScalarCollection k path) := by
  refine Step.Parallel.get.bind fun d e hpeers => ?_
  rw [hpeers.aliases.isScalarCollection]
  exact .ofReported rfl

end Alongside

/-! ## Simple comparisons -/

theorem Peers.propertyFacts {d e : Draft} (h : Peers r d e) (property : String) :
    Draft.propertyFacts k d property = Draft.propertyFacts k e property := by
  unfold Draft.propertyFacts
  rw [h.aliases.currentClass]

/-- Whether a comparison ignores case depends on the class of the scope, which peers share. -/
theorem Alongside.ignoresCase (t : Test) (v : Value) :
    Parallel r Eq (Draft.ignoresCase k t v) (Draft.ignoresCase k t v) := by
  refine Step.Parallel.get.bind fun d e hpeers => ?_
  rw [hpeers.propertyFacts, hpeers.autoIgnoreCase]
  exact .ofReported rfl

section

variable (hr : ∀ v, r.values v v)

include hr

theorem Alongside.plainComparison (t : Test) (v : Value) (operator : String) (ownJoins : Bool) :
    Alongside r (Draft.plainComparison k t v operator ownJoins)
      (Draft.plainComparison k t v operator ownJoins) := by
  refine (ignoresCase t v).bind ?_
  rintro upper _ rfl
  refine (resolve _ _ _).bind fun _ _ _ => ?_
  exact (Parallel.bindValue (hr _)).bind fun _ _ _ => .pure trivial

namespace Abreast

theorem comparison (t : Test) (v : Value) (operator : String) :
    Abreast r (Draft.comparison k t v operator) (Draft.comparison k t v operator) :=
  routed _ ((Alongside.plainComparison hr t v operator false).bind fun _ _ _ => predicate _ _)

omit hr in
theorem nullCheck (t : Test) (isNull : Bool) :
    Abreast r (Draft.nullCheck k t isNull) (Draft.nullCheck k t isNull) :=
  routed _ ((Alongside.resolve _ _ _).bind fun _ _ _ => predicate _ _)

theorem equality (t : Test) (v : Value) (equal : Bool) :
    Abreast r (Draft.equality k t v equal) (Draft.equality k t v equal) := by
  unfold Draft.equality
  split
  · exact nullCheck t equal
  · exact comparison hr t v _

omit hr in
theorem emptyCheck (t : Test) : Abreast r (Draft.emptyCheck k t) (Draft.emptyCheck k t) :=
  routed _ ((Alongside.resolveCollection _).bind fun _ _ _ => predicate _ _)

/-! ## Lists of values -/

theorem equalities (t : Test) (values : List Value) :
    AllAbreast r (Draft.equalities k t values) (Draft.equalities k t values) := by
  induction values with
  | nil => exact .pure rfl
  | cons v rest ih => exact together (equality hr _ v true) ih

theorem separateComparisons (t : Test) (values : List Value) :
    AllAbreast r (Draft.separateComparisons k t values) (Draft.separateComparisons k t values) := by
  induction values with
  | nil => exact .pure rfl
  | cons v rest ih =>
    exact (Alongside.plainComparison hr _ _ _ _).bind fun _ _ _ => ih.bind fun _ _ _ => .pure rfl

theorem plainMembership (t : Test) (values : List Value) :
    Alongside r (Draft.plainMembership k t values) (Draft.plainMembership k t values) := by
  unfold Draft.plainMembership
  split
  · exact .pure trivial
  · refine (Alongside.ignoresCase t t.value).bind ?_
    rintro upper _ rfl
    refine (Alongside.isScalarCollection _).bind fun _ _ _ => ?_
    refine (Alongside.resolve _ _ _).bind fun _ _ _ => ?_
    exact (Parallel.bindAll (List.forall₂_same.mpr fun _ _ => hr _)).bind fun _ _ _ => .pure trivial

theorem membership (t : Test) : Abreast r (Draft.membership k t) (Draft.membership k t) := by
  unfold Draft.membership
  dsimp only
  split
  · split
    · exact equality hr _ _ true
    · exact composite ⟨rfl, rfl, rfl, rfl⟩ (equalities hr t _)
  · exact routed _ ((plainMembership hr t _).bind fun _ _ _ => predicate _ _)

omit hr in
/-- Peers agree on whether the values exclude each other. -/
theorem unlessImpossible {d e : Draft} (hpeers : Peers r d e) (property : String) (several : Bool)
    (err : CompileError) {x : Emission} (hx : Abreast r x x) :
    let checked := fun d : Draft => (do
      let impossible ← if several && d.aliases.inCollection then do
          let shape ← Step.ofReported (d.aliases.describe k.catalog property)
          pure (!shape.crossesCollection)
        else pure false
      if impossible then .fail err else x : Emission)
    Abreast r (checked d) (checked e) := by
  have hrest (impossible : Bool) : Abreast r (if impossible then .fail err else x)
      (if impossible then .fail err else x) := by
    split
    · exact .fail _
    · exact hx
  dsimp only
  rw [hpeers.aliases.inCollection, hpeers.aliases.describe]
  split
  · refine Step.Parallel.bind (S := Eq) (.ofReported rfl) ?_
    rintro shape _ rfl
    exact hrest (!shape.crossesCollection)
  · exact hrest false

theorem containsAll (t : Test) : Abreast r (Draft.containsAll k t) (Draft.containsAll k t) := by
  refine Step.Parallel.get.bind fun d e hpeers => unlessImpossible hpeers _ _ _ ?_
  split
  · exact equality hr t _ true
  · refine routed _ (Step.Parallel.bind (separateComparisons hr t _) fun cs cs' hempty => ?_)
    refine .pure ?_
    unfold chained
    rw [hempty]
    split <;> rfl

end Abreast

end

/-! ## Joins -/

namespace Alongside

theorem joinClass (joinProperty : String) :
    Parallel r Eq (Draft.joinClass k joinProperty) (Draft.joinClass k joinProperty) := by
  unfold Draft.joinClass
  dsimp only
  split
  · exact .pure rfl
  · refine failAt fun d e hpeers => ?_
    rw [hpeers.aliases.queryClass]

theorem joinProperty (t : Test) :
    Parallel r Eq (Draft.joinProperty t) (Draft.joinProperty t) :=
  .orFail _ _

theorem correlation (t : Test) (joinProperty : String) :
    Alongside r (Draft.correlation k t joinProperty) (Draft.correlation k t joinProperty) := by
  refine (resolve _ _ _).bind fun _ _ _ => (isScalarCollection _).bind ?_
  rintro isScalar _ rfl
  split
  · exact (resolveCollection _).bind fun _ _ _ => .pure trivial
  · exact (resolve _ _ _).bind fun _ _ _ => .pure trivial

end Alongside

namespace Abreast

theorem join (t : Test) : Abreast r (Draft.join k t) (Draft.join k t) := by
  refine (Alongside.joinProperty t).bind ?_
  rintro other _ rfl
  refine (Alongside.joinClass other).bind ?_
  rintro className _ rfl
  refine Step.Parallel.get.bind fun d e hpeers => ?_
  rw [hpeers.inTheta]
  split
  · refine (Parallel.changeAliases fun a b h => h.addThetaSource _ _ _).bind fun _ _ _ => ?_
    refine (Step.Parallel.modify fun _ _ h => { h with }).bind fun _ _ _ => ?_
    refine (Parallel.aliased (Aliases.resolveEnclosing_parallel _)).bind fun _ _ _ => ?_
    exact (Alongside.resolve _ _ _).bind fun _ _ _ => predicate _ _
  · refine (Parallel.changeAliases fun a b h => h.addSource _).bind fun _ _ _ => ?_
    exact (Alongside.correlation t other).bind fun _ _ _ => predicate _ _

theorem leftJoin (t : Test) : Abreast r (Draft.leftJoin k t) (Draft.leftJoin k t) := by
  refine (Alongside.joinProperty t).bind ?_
  rintro other _ rfl
  refine (Alongside.joinClass other).bind ?_
  rintro className _ rfl
  refine (Parallel.changeAliases fun a b h => h.obtainClassAlias _).bind fun _ _ _ => ?_
  refine (Alongside.correlation t other).bind fun _ _ _ => ?_
  exact (Parallel.changeAliases fun a b h => h).bind fun _ _ _ => .pure rfl

/-! ## Leaves -/

theorem test (hr : ∀ v, r.values v v) (t : Test) : Abreast r (Draft.test k t) (Draft.test k t) := by
  unfold Draft.test
  cases t.operation with
  | isNull | notNull => exact nullCheck t _
  | isEmpty => exact emptyCheck t
  | join => exact join t
  | leftJoin => exact leftJoin t
  | collectionCondition | subquery => exact .fail _
  | inList => exact membership hr t
  | containsAll => exact containsAll hr t
  | eq | ne => exact equality hr t _ _
  | lt | gt | le | ge | like => exact comparison hr t _ _

end Abreast

end Draft

end ObjectQuery
