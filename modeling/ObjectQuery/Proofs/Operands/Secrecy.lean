import ObjectQuery.Proofs.Compiler.Run
import ObjectQuery.Proofs.Matching.Selects
import ObjectQuery.Proofs.Operands.Blank

/-!
# Operands stay out of the text

Compilation looks at the kinds of operands only. Two queries that differ in the contents of operands
are compiled to the same text with the same parameter names, or fail with the same error, and the
reports are the same.

* `Draft.Matches.congruence`: what a filter emits goes the same way for blank operands.
* `Compiler.outlineOf`: what a compilation shows besides the values of parameters.
* `Compiler.outlineOf_compile_eq`: it is the same for options that differ in operands only.
-/

namespace ObjectQuery

namespace Draft

/-- The values of parameters may differ. -/
def Likeness.operands : Likeness := ⟨fun _ _ => True, Eq⟩

variable {k : Compiler}

/-! ## Tests -/

theorem Interchangeable.refl (t : Test) (v : Value) : Interchangeable .operands k t t v v where
  property := rfl
  asks a b h := by rw [show a = b from h]
  cast := rfl
  isNull := rfl
  startsWithText := rfl
  escape _ := rfl
  bound _ := trivial

theorem Interchangeable.blank {t : Test} (h : t.operation ≠ .like) (v : Value) :
    Interchangeable .operands k t t.blank v v.blank where
  property := t.blank_property
  asks a b h := by rw [t.blank_ignoreCase, show a = b from h]
  cast := t.blank_cast
  isNull := v.isNull_blank
  startsWithText := v.startsWithText_blank
  escape upper := by
    rw [boundValue_escape h, boundValue_escape (by rwa [Test.blank_operation])]
  bound _ := trivial

theorem Interchangeable.blankEquality (t : Test) (v : Value) :
    Interchangeable .operands k (t.withOperation .eq v) (t.blank.withOperation .eq v.blank) v
      v.blank where
  property := t.blank_property
  asks a b h := by
    rw [show a = b from h]
    exact congrArg (· || b) t.blank_ignoreCase
  cast := t.blank_cast
  isNull := v.isNull_blank
  startsWithText := v.startsWithText_blank
  escape upper := by rw [boundValue_escape (by simp [Test.withOperation]),
    boundValue_escape (by simp [Test.withOperation])]
  bound _ := trivial

/-- A test with a blank operand looks the same. A pattern keeps its operand. -/
theorem similar_blank (t : Test) : Similar .operands k t t.blank := by
  by_cases hlike : t.operation = .like
  · rw [show t.blank = t from if_pos hlike]
    exact ⟨rfl, rfl, rfl, rfl, .refl t t.value, rfl,
      List.forall₂_same.mpr fun v _ => ⟨.refl t v, .refl (t.withOperation .eq v) v⟩⟩
  · have hvalue : t.blank.value = t.value.blank := by rw [Test.blank_eq hlike]
    refine ⟨t.blank_operation, t.blank_joinProperty, t.blank_subqueryClass, t.blank_subqueryProperty,
      ?_, ?_, ?_⟩
    · rw [hvalue]
      exact .blank hlike t.value
    · rw [hvalue, Value.hasEntities_blank]
    · rw [hvalue, Value.elements_blank, List.forall₂_map_right_iff]
      exact List.forall₂_same.mpr fun v _ => ⟨.blank hlike v, .blankEquality t v⟩

namespace Matches

/-! ## Conditions on collections -/

theorem routedAlike_blank (c : Composite) : RoutedAlike c (Filter.mapComposite Test.blank c) where
  operation := rfl
  isEmpty := by rw [Filter.mapComposite, Filter.mapAll_eq, List.isEmpty_map]
  areAggregateOnly := Test.neutral_blank.areAggregateOnly c.children
  anyHasAggregate := Test.neutral_blank.anyHasAggregate c.children

section

variable (property : String) {xs ys : Step Draft (List Condition)}

theorem keptPart (outer : Bool) (part : Option Composite) (h : Matches .operands xs ys) :
    Matches .operands (Draft.keptPart k property outer part xs)
      (Draft.keptPart k property outer (part.map (Filter.mapComposite Test.blank)) ys) := by
  cases part with
  | none => exact pure none
  | some c => exact inScope property outer (composite (routedAlike_blank c) h)

theorem excludedPart (part : Option Composite) (h : Matches .operands xs ys) :
    Matches .operands (Draft.excludedPart k property part xs)
      (Draft.excludedPart k property (part.map (Filter.mapComposite Test.blank)) ys) := by
  cases part with
  | none => exact pure none
  | some c =>
    exact excluding (fun _ _ h => h) rfl property (composite (routedAlike_blank c) h)

theorem elementCondition (c : Composite) {us vs : Step Draft (List Condition)}
    (hxs : Matches .operands xs ys)
    (hus : Matches .operands us vs) :
    Matches .operands (Draft.elementCondition k property c xs us)
      (Draft.elementCondition k property (Filter.mapComposite Test.blank c) ys vs) := by
  have hlength : (Filter.mapComposite Test.blank c).children.length = c.children.length := by
    rw [Filter.mapComposite, Filter.mapAll_eq, List.length_map]
  rw [elementCondition_eq, elementCondition_eq, Test.neutral_blank.split, hlength]
  refine withTheta _ ?_
  refine bind (keptPart property _ c.split.1 hxs) fun kept => ?_
  exact bind (excludedPart property c.split.2 hus) fun excluded => pure _

end

/-! ## Filters -/

/-- What a filter emits goes the same way for blank operands. -/
theorem congruence (k : Compiler) :
    Congruence k (fun _ => True) Test.blank (fun x y => Matches .operands x y)
      (fun xs ys => Matches .operands xs ys) where
  nothing := pure none
  test t _ := test (similar_blank t)
  nil := pure []
  together hx hxs := bind hx fun condition => bind hxs fun conditions => pure _
  composite c _ _ hxs := composite (routedAlike_blank c) hxs
  elementCondition t c _ _ _ _ _ hxs hus := by
    rw [t.blank_property]
    exact elementCondition t.property c hxs hus
  subquery t _ _ _ hx := subquery (fun _ _ h => h) rfl (similar_blank t) hx

theorem add (f : Filter) :
    Matches .operands (Draft.add k f) (Draft.add k (f.mapEverywhere Test.blank)) :=
  bind ((congruence k).emit ⟨fun _ _ _ _ => trivial, fun _ _ _ _ _ => trivial⟩ Test.neutral_blank
    fun _ _ => trivial) addCondition

theorem restrict (o : QueryOptions) :
    Step.EndsLike (Alike .operands) Eq (k.restrict o) (k.restrict (o.mapTests Test.blank)) := by
  unfold Compiler.restrict
  rw [QueryOptions.prepare_mapTests Test.neutral_blank]
  refine .bind (Step.Agrees.endsLike (Step.Agrees.modify ?_)) fun _ _ _ => ?_
  · rintro d _ ⟨parameters, wish, hparameters, -, rfl⟩
    exact ⟨parameters, o.ignoreCase, hparameters, rfl, rfl⟩
  cases o.prepare with
  | none => exact (pure ()).endsLike
  | some f => exact (add f).endsLike.onFailure

end Matches

end Draft

/-! ## Compilation -/

/-- What a compiled query shows besides the values of its parameters. -/
structure Outline where
  text : String
  parameterNames : List String
  requiresDistinctFilter : Bool
  spansMultipleTables : Bool
  deriving DecidableEq, Repr

/-- A compiled query without the values of its parameters. -/
def CompiledQuery.outline (q : CompiledQuery) : Outline :=
  { text := q.text
    parameterNames := q.parameters.map (·.name)
    requiresDistinctFilter := q.requiresDistinctFilter
    spansMultipleTables := q.spansMultipleTables }

namespace Compiler

/-- What a compilation shows besides the values of parameters: the outline of the query or the
error, and the reports. -/
def outlineOf (r : Reported (Except CompileError CompiledQuery)) :
    Reported (Except CompileError Outline) :=
  ⟨r.value.map CompiledQuery.outline, r.events⟩

/-- A statement made of a draft shows the same for blank operands. -/
theorem outlineOf_run_blank {α : Type} (k : Compiler) (className : String) (o : QueryOptions)
    {assemble : Step Draft (Assembled α)} (h : Draft.Matches .operands assemble assemble)
    (statement : α → Statement) :
    outlineOf (k.run className (o.mapTests Test.blank) assemble statement) =
      outlineOf (k.run className o assemble statement) := by
  have hmatch : Step.EndsLike (Draft.Alike .operands) Eq (do k.restrict o; assemble)
      (do k.restrict (o.mapTests Test.blank); assemble) :=
    .bind (Draft.Matches.restrict o) fun _ _ _ => h.endsLike
  unfold run
  cases k.registry.get className with
  | error e => rfl
  | ok m =>
    obtain ⟨hresult, hstates, hevents⟩ := hmatch _ _ (.start rfl className 0)
    unfold outlineOf
    dsimp only
    rw [← hresult.eq, ← hevents]
    cases hok : ((do k.restrict o; assemble : Step Draft _).run (.start className 0)).result with
    | error e => rfl
    | ok a =>
      obtain ⟨parameters, wish, hparameters, -, hstate⟩ := hstates a hok
      have hnames : parameters.map (·.name) =
          ((do k.restrict o; assemble : Step Draft _).run (.start className 0)).state.parameters.map
            (·.name) := by
        have h := congrArg (List.map parameterName)
          (Draft.Likeness.Parameters.map_number hparameters)
        rwa [List.map_map, List.map_map] at h
      rw [hstate]
      simp only [Except.map, CompiledQuery.outline, CompiledQuery.text]
      rw [hnames]

/-- Options that differ in the contents of operands only show the same: the same text, parameter
names and flags, or the same error. -/
theorem outlineOf_compile_eq (k : Compiler) (className : String) {o o' : QueryOptions}
    (h : o.SameUpToOperands o') :
    outlineOf (k.compile className o) = outlineOf (k.compile className o') ∧
      outlineOf (k.compileDelete className o) = outlineOf (k.compileDelete className o') := by
  have hspec : selectSpec o = selectSpec o' := by
    have heq := congrArg selectSpec h
    exact heq
  refine ⟨?_, ?_⟩
  · unfold compile
    rw [hspec, ← outlineOf_run_blank k className o (Draft.Matches.assembleSelect _),
      ← outlineOf_run_blank k className o' (Draft.Matches.assembleSelect _), h]
  · unfold compileDelete
    rw [← outlineOf_run_blank k className o Draft.Matches.assembleDelete,
      ← outlineOf_run_blank k className o' Draft.Matches.assembleDelete, h]

/-- Identities of a name whose manager has another one. -/
def namedUnder (name manager : String) : QueryOptions :=
  { restrictions := [.compare .eq "name" (.text name), .compare .eq "manager.name" (.text manager)] }

/-- Queries for two pairs of names look the same, and so do the deletions. All four of them are
compiled. -/
theorem outlineOf_compile_names :
    let alice := namedUnder "alice" "carol"
    let bob := namedUnder "bob" "dave"
    alice.SameUpToOperands bob ∧
      (∀ o ∈ [alice, bob], ∃ q d, (linkedAccounts.compile "Identity" o).value = .ok q ∧
        (linkedAccounts.compileDelete "Identity" o).value = .ok d ∧
        q.text = "select identityAlias from Identity identityAlias inner join " ++
          "identityAlias.manager identity_managerAlias0 where (identityAlias.name = :param0 and " ++
          "upper(identity_managerAlias0.name) = :param1)") ∧
      outlineOf (linkedAccounts.compile "Identity" alice) =
        outlineOf (linkedAccounts.compile "Identity" bob) ∧
      outlineOf (linkedAccounts.compileDelete "Identity" alice) =
        outlineOf (linkedAccounts.compileDelete "Identity" bob) := by
  intro alice bob
  refine ⟨rfl, fun o ho => ?_, outlineOf_compile_eq linkedAccounts "Identity" rfl⟩
  have hok : ∀ o ∈ [alice, bob],
      (linkedAccounts.compileDelete "Identity" o).value.toOption.isSome = true ∧
        (linkedAccounts.compile "Identity" o).value.toOption.map (·.text) =
          some ("select identityAlias from Identity identityAlias inner join " ++
            "identityAlias.manager identity_managerAlias0 where (identityAlias.name = :param0 and " ++
            "upper(identity_managerAlias0.name) = :param1)") := by
    decide +kernel
  obtain ⟨hdelete, hselect⟩ := hok o ho
  cases hd : (linkedAccounts.compileDelete "Identity" o).value with
  | error e =>
    rw [hd] at hdelete
    cases hdelete
  | ok d =>
    cases hq : (linkedAccounts.compile "Identity" o).value with
    | error e =>
      rw [hq] at hselect
      cases hselect
    | ok q =>
      rw [hq] at hselect
      exact ⟨q, d, rfl, rfl, Option.some.inj hselect⟩

end Compiler

end ObjectQuery
