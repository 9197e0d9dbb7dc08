import ObjectQuery.Proofs.Filter.Change
import ObjectQuery.Query.Predicate

/-!
# Operands without their contents

* `Value.blank`: a value of the same kind whose content is gone. Lists keep their length.
* `Test.blank`: the comparison with a blank operand. A pattern keeps its operand, whose characters
  decide about the escape character.
* `QueryOptions.SameUpToOperands`: options that differ in the contents of operands only.
-/

namespace ObjectQuery

namespace Value

mutual

/-- A value of the same kind, and with as many items, that says nothing else. -/
def blank : Value → Value
  | null => null
  | bool _ => bool false
  | int _ => int 0
  | float _ => float default
  | uuid _ => uuid default
  | instant _ => instant default
  | text _ => text ""
  | entity _ => entity default
  | list items => list (blankAll items)

/-- Blank values in place of several. -/
def blankAll : List Value → List Value
  | [] => []
  | v :: rest => blank v :: blankAll rest

end

theorem blankAll_eq (values : List Value) : blankAll values = values.map blank := by
  induction values with
  | nil => rfl
  | cons v rest ih => rw [blankAll, ih, List.map_cons]

@[simp] theorem isNull_blank (v : Value) : v.blank.isNull = v.isNull := by cases v <;> rfl

@[simp] theorem isEntity_blank (v : Value) : v.blank.isEntity = v.isEntity := by cases v <;> rfl

@[simp] theorem isList_blank (v : Value) : v.blank.isList = v.isList := by cases v <;> rfl

@[simp] theorem elements_blank (v : Value) : v.blank.elements = v.elements.map blank := by
  cases v with
  | list items => exact blankAll_eq items
  | _ => rfl

@[simp] theorem hasEntities_blank (v : Value) : v.blank.hasEntities = v.hasEntities := by
  simp [hasEntities, Function.comp_def]

@[simp] theorem startsWithText_blank (v : Value) : v.blank.startsWithText = v.startsWithText := by
  match v with
  | list (first :: rest) => cases first <;> rfl
  | list [] | null | bool _ | int _ | float _ | uuid _ | instant _ | text _ | entity _ => rfl

end Value

namespace Test

/-- The comparison with a blank operand, if it is no pattern. -/
def blank (t : Test) : Test :=
  if t.operation = .like then t else { t with value := t.value.blank }

theorem blank_eq {t : Test} (h : t.operation ≠ .like) :
    t.blank = { t with value := t.value.blank } := if_neg h

@[simp] theorem blank_property (t : Test) : t.blank.property = t.property := by
  unfold blank
  split <;> rfl

@[simp] theorem blank_operation (t : Test) : t.blank.operation = t.operation := by
  unfold blank
  split <;> rfl

@[simp] theorem blank_ignoreCase (t : Test) : t.blank.ignoreCase = t.ignoreCase := by
  unfold blank
  split <;> rfl

@[simp] theorem blank_cast (t : Test) : t.blank.cast = t.cast := by
  unfold blank
  split <;> rfl

@[simp] theorem blank_joinProperty (t : Test) : t.blank.joinProperty = t.joinProperty := by
  unfold blank
  split <;> rfl

@[simp] theorem blank_subqueryClass (t : Test) : t.blank.subqueryClass = t.subqueryClass := by
  unfold blank
  split <;> rfl

@[simp] theorem blank_subqueryProperty (t : Test) :
    t.blank.subqueryProperty = t.subqueryProperty := by
  unfold blank
  split <;> rfl

@[simp] theorem blank_isAggregate (t : Test) : t.blank.isAggregate = t.isAggregate := by
  simp [isAggregate]

/-- The rearrangements of a filter look at the kinds of operands only. -/
theorem neutral_blank : Filter.Neutral blank where
  property := blank_property
  operation := blank_operation
  inverse t operation h := by
    have hlike : t.operation ≠ .like := by
      intro heq
      rw [heq] at h
      cases h
    have hlike' : operation ≠ .like := by
      rintro rfl
      cases t with | mk _ op => cases op <;> cases h
    rw [blank_eq hlike, blank_eq (t := t.withOperation operation t.value) hlike']
    rfl
  collapsible t property := by
    unfold blank
    split
    · rfl
    · simp [isCollapsible]
  collapsed property tests _ h := by
    have hvalues : (tests.map blank).map (·.value) = (tests.map (·.value)).map Value.blank := by
      rw [List.map_map, List.map_map]
      refine List.map_congr_left fun t ht => ?_
      show t.blank.value = t.value.blank
      rw [blank_eq (by simp [h t ht])]
    rw [blank_eq (by simp), hvalues, ← Value.blankAll_eq]
    simp [Value.blank, Function.comp_def, List.any_map]

end Test

namespace QueryOptions

/-- Both options are the same but for the contents of operands that are no patterns: the kinds of
the operands and the lengths of lists agree. -/
def SameUpToOperands (o o' : QueryOptions) : Prop := o.mapTests Test.blank = o'.mapTests Test.blank

end QueryOptions

end ObjectQuery
