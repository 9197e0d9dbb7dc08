import ObjectQuery.Proofs.Matching.Drafts

/-!
# Predicates on drafts that are alike

* `Draft.Interchangeable`: comparisons that can stand for each other as far as steps see.
* `Draft.Similar`: tests all of whose comparisons can.
* `Draft.Matches.test`: the predicates of such leaves go the same way.
-/

namespace ObjectQuery

namespace Draft

/-- The comparisons of `t` with `v` and of `u` with `w` differ in nothing that a step looks at.
Where the wish to ignore case differs between drafts, the wishes of the tests make up for it. -/
structure Interchangeable (r : Likeness) (k : Compiler) (t u : Test) (v w : Value) : Prop where
  property : u.property = t.property
  asks : ∀ a b, r.wishes a b → (u.ignoreCase || b) = (t.ignoreCase || a)
  cast : u.cast = t.cast
  isNull : w.isNull = v.isNull
  startsWithText : w.startsWithText = v.startsWithText
  escape : ∀ upper, (boundValue k u w upper).2 = (boundValue k t v upper).2
  bound : ∀ upper, r.values (boundValue k t v upper).1 (boundValue k u w upper).1

/-- The tests differ in nothing that a step looks at. -/
structure Similar (r : Likeness) (k : Compiler) (t u : Test) : Prop where
  operation : u.operation = t.operation
  joinProperty : u.joinProperty = t.joinProperty
  subqueryClass : u.subqueryClass = t.subqueryClass
  subqueryProperty : u.subqueryProperty = t.subqueryProperty
  operand : Interchangeable r k t u t.value u.value
  hasEntities : u.value.hasEntities = t.value.hasEntities
  /-- The values of a list are compared one by one, some of them as operands of equalities. -/
  elements : List.Forall₂ (fun v w => Interchangeable r k t u v w ∧
    Interchangeable r k (t.withOperation .eq v) (u.withOperation .eq w) v w)
    t.value.elements u.value.elements

variable {k : Compiler} {r : Likeness}

theorem Interchangeable.isAggregate {t u : Test} {v w : Value} (h : Interchangeable r k t u v w) :
    u.isAggregate = t.isAggregate := by
  rw [Test.isAggregate, Test.isAggregate, h.property]

theorem Similar.isAggregate {t u : Test} (h : Similar r k t u) : u.isAggregate = t.isAggregate :=
  h.operand.isAggregate

/-- Only patterns are escaped. -/
theorem boundValue_escape {t : Test} (h : t.operation ≠ .like) (v : Value) (upper : Bool) :
    (boundValue k t v upper).2 = none := by
  unfold boundValue
  dsimp only
  split
  · exact absurd (by assumption) h
  · rfl

namespace Matches

/-! ## References -/

theorem resolve (path : String) (ownJoins : Bool) :
    Matches r (Draft.resolve k path ownJoins) (Draft.resolve k path ownJoins) := by
  refine bind (aliased _) fun reference => ?_
  cases reference with
  | some reference => exact pure reference
  | none => exact get_fail fun _ _ _ => rfl

theorem resolveCollection (path : String) :
    Matches r (Draft.resolveCollection k path) (Draft.resolveCollection k path) := by
  refine bind (aliased _) fun reference => ?_
  cases reference with
  | some reference => exact pure reference
  | none => exact get_fail fun _ _ _ => rfl

theorem isScalarCollection (path : String) :
    Matches r (Draft.isScalarCollection k path) (Draft.isScalarCollection k path) := by
  refine get_bind ?_
  rintro d _ ⟨parameters, wish, -, -, rfl⟩
  exact ofReported _

/-! ## Simple comparisons -/

section

variable {t u : Test} {v w : Value}

theorem ignoresCase (h : Interchangeable r k t u v w) :
    Matches r (Draft.ignoresCase k t v) (Draft.ignoresCase k u w) := by
  refine get_bind ?_
  rintro d _ ⟨parameters, wish, -, hwish, rfl⟩
  dsimp only
  rw [h.property, h.asks _ _ hwish]
  unfold CaseFolding.applies
  rw [h.startsWithText]
  exact ofReported _

theorem plainComparison (h : Interchangeable r k t u v w) (operator : String) (ownJoins : Bool) :
    Matches r (Draft.plainComparison k t v operator ownJoins)
      (Draft.plainComparison k u w operator ownJoins) := by
  refine bind (ignoresCase h) fun upper => ?_
  rw [h.property]
  refine bind (resolve _ _) fun reference => ?_
  rw [show Draft.boundValue k u w upper = ((Draft.boundValue k u w upper).1,
    (Draft.boundValue k t v upper).2) by rw [← h.escape], h.cast]
  exact bind (bindValue (h.bound upper)) fun number => pure _

theorem comparison (h : Interchangeable r k t u v w) (operator : String) :
    Matches r (Draft.comparison k t v operator) (Draft.comparison k u w operator) := by
  unfold Draft.comparison
  rw [h.isAggregate]
  exact routed _ (bind (plainComparison h operator false) fun a => predicate a)

theorem nullCheck (hproperty : u.property = t.property) (isNull : Bool) :
    Matches r (Draft.nullCheck k t isNull) (Draft.nullCheck k u isNull) := by
  unfold Draft.nullCheck Test.isAggregate
  rw [hproperty]
  exact routed _ (bind (resolve _ _) fun reference => predicate _)

theorem equality (h : Interchangeable r k t u v w) (equal : Bool) :
    Matches r (Draft.equality k t v equal) (Draft.equality k u w equal) := by
  unfold Draft.equality
  rw [h.isNull]
  split
  · exact nullCheck h.property equal
  · exact comparison h _

theorem emptyCheck (hproperty : u.property = t.property) :
    Matches r (Draft.emptyCheck k t) (Draft.emptyCheck k u) := by
  unfold Draft.emptyCheck Test.isAggregate
  rw [hproperty]
  exact routed _ (bind (resolveCollection _) fun reference => predicate _)

end

/-! ## Lists of values -/

section

variable {t u : Test} {values others : List Value}

theorem equalities (h : List.Forall₂ (fun v w => Interchangeable r k (t.withOperation .eq v)
      (u.withOperation .eq w) v w) values others) :
    Matches r (Draft.equalities k t values) (Draft.equalities k u others) := by
  induction h with
  | nil => exact pure []
  | cons hvalue _ ih =>
    exact bind (equality hvalue true) fun condition => bind ih fun conditions => pure _

theorem separateComparisons (h : List.Forall₂ (Interchangeable r k t u) values others) :
    Matches r (Draft.separateComparisons k t values) (Draft.separateComparisons k u others) := by
  induction h with
  | nil => exact pure []
  | cons hvalue _ ih =>
    exact bind (plainComparison hvalue "=" true) fun a => bind ih fun conditions => pure _

theorem plainMembership (h : Similar r k t u)
    (hvalues : List.Forall₂ (Interchangeable r k t u) values others) :
    Matches r (Draft.plainMembership k t values) (Draft.plainMembership k u others) := by
  have hempty : others.isEmpty = values.isEmpty := by cases hvalues <;> rfl
  unfold Draft.plainMembership
  rw [hempty, h.operand.property]
  split
  · exact pure _
  · refine bind (ignoresCase h.operand) fun upper => ?_
    refine bind (isScalarCollection _) fun ownJoins => bind (resolve _ _) fun reference => ?_
    refine bind (bindAll ?_) fun numbers => pure _
    rw [List.forall₂_map_left_iff, List.forall₂_map_right_iff]
    exact hvalues.imp fun v w hvalue => hvalue.bound upper

/-- A disjunction of equalities is routed by the property. -/
theorem routedAlike_equalities (hproperty : u.property = t.property)
    (hlength : others.length = values.length) :
    RoutedAlike ⟨.or, values.map fun v => .test (t.withOperation .eq v)⟩
      ⟨.or, others.map fun w => .test (u.withOperation .eq w)⟩ := by
  have hall : ∀ (t : Test) (values : List Value),
      Filter.areAggregateOnly (values.map fun v => .test (t.withOperation .eq v)) =
        (List.replicate values.length (Text.hasChar '(' t.property)).all id := by
    intro t values
    induction values with
    | nil => rfl
    | cons v rest ih => rw [List.map_cons, Filter.areAggregateOnly, ih]; rfl
  have hany : ∀ (t : Test) (values : List Value),
      Filter.anyHasAggregate (values.map fun v => .test (t.withOperation .eq v)) =
        (List.replicate values.length (Text.hasChar '(' t.property)).any id := by
    intro t values
    induction values with
    | nil => rfl
    | cons v rest ih => rw [List.map_cons, Filter.anyHasAggregate, ih]; rfl
  refine ⟨rfl, ?_, ?_, ?_⟩
  · rw [Bool.eq_iff_iff, List.isEmpty_iff_length_eq_zero, List.isEmpty_iff_length_eq_zero]
    simp [hlength]
  · rw [hall, hall, hlength, hproperty]
  · rw [hany, hany, hlength, hproperty]

theorem membership (h : Similar r k t u) :
    Matches r (Draft.membership k t) (Draft.membership k u) := by
  have heach := h.elements.imp fun v w hvalue => hvalue.1
  have hequal := h.elements.imp fun v w hvalue => hvalue.2
  have hrouted := routedAlike_equalities h.operand.property h.elements.length_eq.symm
  have hmany := composite (r := r) hrouted (equalities hequal)
  unfold Draft.membership
  rw [h.hasEntities, h.isAggregate]
  dsimp only
  split
  · revert hequal hmany
    generalize t.value.elements = values
    generalize u.value.elements = others
    intro hequal hmany
    match hequal with
    | .nil => exact hmany
    | .cons hvalue .nil => exact equality hvalue true
    | .cons _ (.cons _ _) => exact hmany
  · exact routed _ (bind (plainMembership h heach) fun a => predicate a)

/-- Two steps behind one check whether the values exclude each other. -/
theorem unlessImpossible (several : Bool) (shape : Reported PathShape) (err : CompileError)
    {x y : Emission} (h : Matches r x y) :
    Matches r (do
        let impossible ← if several then do
            let shape ← Step.ofReported shape
            Pure.pure (!shape.crossesCollection)
          else Pure.pure false
        if impossible then .fail err else x)
      (do
        let impossible ← if several then do
            let shape ← Step.ofReported shape
            Pure.pure (!shape.crossesCollection)
          else Pure.pure false
        if impossible then .fail err else y) := by
  have hrest : ∀ impossible : Bool,
      Matches r (if impossible then .fail err else x) (if impossible then .fail err else y) := by
    intro impossible
    split
    · exact fail _
    · exact h
  split
  · exact bind (ofReported _) fun shape => bind (pure _) hrest
  · exact bind (pure false) hrest

theorem containsAll (h : Similar r k t u) :
    Matches r (Draft.containsAll k t) (Draft.containsAll k u) := by
  have heach := h.elements.imp fun v w hvalue => hvalue.1
  have hmany : Matches r
      (Draft.routed t.isAggregate do
        let conditions ← Draft.separateComparisons k t t.value.elements
        Pure.pure (chained conditions))
      (Draft.routed t.isAggregate do
        let conditions ← Draft.separateComparisons k u u.value.elements
        Pure.pure (chained conditions)) :=
    routed _ (bind (separateComparisons heach) fun conditions => pure _)
  unfold Draft.containsAll
  rw [h.isAggregate, h.operand.property]
  dsimp only
  refine get_bind ?_
  rintro d _ ⟨parameters, wish, -, -, rfl⟩
  rw [← heach.length_eq]
  refine unlessImpossible _ _ _ ?_
  revert heach hmany
  generalize t.value.elements = values
  generalize u.value.elements = others
  intro heach hmany
  match heach with
  | .nil => exact hmany
  | .cons hvalue .nil => exact equality hvalue true
  | .cons _ (.cons _ _) => exact hmany

end

/-! ## Joins -/

theorem joinClass (joinProperty : String) :
    Matches r (Draft.joinClass k joinProperty) (Draft.joinClass k joinProperty) := by
  unfold Draft.joinClass
  dsimp only
  split
  · exact pure _
  · exact get_fail fun _ _ _ => rfl

section

variable {t u : Test} (hproperty : u.property = t.property)

include hproperty

theorem correlation (joinProperty : String) :
    Matches r (Draft.correlation k t joinProperty) (Draft.correlation k u joinProperty) := by
  unfold Draft.correlation
  rw [hproperty]
  refine bind (resolve _ _) fun right => bind (isScalarCollection _) fun isScalar => ?_
  split
  · exact bind (resolveCollection _) fun left => pure _
  · exact bind (resolve _ _) fun left => pure _

variable (hjoin : u.joinProperty = t.joinProperty)

include hjoin

theorem joinProperty : Matches r (Draft.joinProperty t) (Draft.joinProperty u) := by
  unfold Draft.joinProperty
  rw [hproperty, hjoin]
  exact orFail _ _

theorem join : Matches r (Draft.join k t) (Draft.join k u) := by
  unfold Draft.join
  refine bind (joinProperty hproperty hjoin) fun other => bind (joinClass other) fun className => ?_
  refine get_bind ?_
  rintro d _ ⟨parameters, wish, -, -, rfl⟩
  dsimp only
  split
  · refine bind (changeAliases _) fun _ => ?_
    refine bind (modify ⟨fun _ _ _ => rfl, fun _ => rfl, fun _ => rfl⟩) fun _ => ?_
    rw [hproperty]
    exact bind (aliased _) fun left => bind (resolve _ _) fun right => predicate _
  · refine bind (changeAliases _) fun _ => bind (correlation hproperty other) fun condition => ?_
    exact predicate _

theorem leftJoin : Matches r (Draft.leftJoin k t) (Draft.leftJoin k u) := by
  unfold Draft.leftJoin
  refine bind (joinProperty hproperty hjoin) fun other => bind (joinClass other) fun className => ?_
  refine bind (changeAliases _) fun aliasName => bind (correlation hproperty other) fun _ => ?_
  exact bind (changeAliases _) fun _ => pure none

end

/-! ## Leaves -/

theorem test {t u : Test} (h : Similar r k t u) : Matches r (Draft.test k t) (Draft.test k u) := by
  unfold Draft.test
  rw [h.operation, h.operand.property]
  cases t.operation with
  | isNull => exact nullCheck h.operand.property true
  | notNull => exact nullCheck h.operand.property false
  | isEmpty => exact emptyCheck h.operand.property
  | join => exact join h.operand.property h.joinProperty
  | leftJoin => exact leftJoin h.operand.property h.joinProperty
  | collectionCondition | subquery => exact fail _
  | inList => exact membership h
  | containsAll => exact containsAll h
  | eq | ne => exact equality h.operand _
  | lt | gt | le | ge | like => exact comparison h.operand _

end Matches

end Draft

end ObjectQuery
