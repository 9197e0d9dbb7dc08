import ObjectQuery.Proofs.Qualified.Drafts
import ObjectQuery.Proofs.Mapping.Lookups
import ObjectQuery.Proofs.Qualified.Filters

/-!
# Leaves with the name of their class in front

What a leaf emits at home does not depend on whether its property is written with the name of the
class in front.

* `Draft.Home`: a class whose name can stand in front of its properties.
* `Draft.Concurs.test`, `Draft.Concurs.subquery`, `Draft.Concurs.emitCondition`: leaves of each kind
  emit the same.
-/

namespace ObjectQuery

open Step Aliases

/-- A convention about names is asked for only where nothing is known about the property. -/
theorem CaseFolding.value_applies_qualify (capabilities : DatabaseCapabilities) (className p : String)
    {facts : Option PropertyFacts} (h : Text.hasChar '.' p = true ∨ facts.isSome = true)
    (value : Value) (requested : Bool) :
    (applies capabilities className (Path.qualify className p) facts value requested).value =
      (applies capabilities className p facts value requested).value := by
  unfold applies
  rw [isIdentifier_qualify]
  split
  · rfl
  · rcases facts with _ | facts
    · rw [isNameByConvention_qualify className (h.resolve_right Bool.false_ne_true)]
    · -- What is known decides. The reports name the property, the results do not.
      dsimp only
      split
      · split <;> rfl
      · split
        · rfl
        · split
          · rfl
          · split <;> rfl

namespace Draft

variable {k : Compiler} {C : String}

/-- A mapped class whose name can stand in front of its properties, about which there are facts. -/
structure Home (k : Compiler) (C : String) : Prop where
  qualifier : Path.IsQualifier C
  facts : ∃ m, k.registry.find? C = some m ∧ m.Describes k.catalog C

/-- A property of a class is no class. -/
theorem namesClass_of_isOwn {c : Catalog} {p : String} (h : Path.IsOwn c C p) :
    namesClass p = false := by
  rw [namesClass]
  cases hpoint : Text.hasChar '.' p with
  | true => rfl
  | false => rw [(h.of_single hpoint).1]; rfl

theorem namesClass_qualify (C p : String) : namesClass (Path.qualify C p) = false := by
  rw [namesClass, Path.hasChar_point_qualify]
  rfl

namespace Concurs

/-! ## References -/

section

variable (hhome : Home k C) {p : String} (hp : Path.IsOwn k.catalog C p)

include hhome hp

theorem found (o : Resolution) {f g : Option Reference → Step Draft Reference}
    (hf : ∀ r, Concurs C (f r) (g r)) :
    Concurs C (Draft.aliased (Aliases.resolve k.catalog (Path.qualify C p) o) >>= f)
      (Draft.aliased (Aliases.resolve k.catalog p o) >>= g) :=
  .bind (aliased (coincides_resolve hhome.qualifier hp o) (sameClasses_walk.resolve _ _)) hf

theorem resolve (ownJoins : Bool) :
    Concurs C (Draft.resolve k (Path.qualify C p) ownJoins) (Draft.resolve k p ownJoins) := by
  refine found hhome hp _ fun reference => ?_
  cases reference with
  | some reference => exact .pure reference
  | none => exact .get_bind fun _ _ => .fail _ _

theorem resolveCollection :
    Concurs C (Draft.resolveCollection k (Path.qualify C p)) (Draft.resolveCollection k p) := by
  refine found hhome hp _ fun reference => ?_
  cases reference with
  | some reference => exact .pure reference
  | none => exact .get_bind fun _ _ => .fail _ _

theorem isScalarCollection :
    Concurs C (Draft.isScalarCollection k (Path.qualify C p)) (Draft.isScalarCollection k p) := by
  refine .get_bind fun d hd => .ofReported ?_
  unfold Aliases.isScalarCollection
  rw [hd.aliases.describe hhome.qualifier hp]

end

/-! ## Facts -/

/-- At home both ways of writing a property find the facts about it, which has some unless the path
is longer. -/
theorem propertyFacts_qualify (hhome : Home k C) {p : String} (hp : Path.IsOwn k.catalog C p)
    {d : Draft} (hd : d.AtHome C) :
    ∃ facts, propertyFacts k d p = (C, facts) ∧ propertyFacts k d (Path.qualify C p) = (C, facts) ∧
      (Text.hasChar '.' p = true ∨ facts.isSome = true) := by
  obtain ⟨m, hfind, hdescribes⟩ := hhome.facts
  unfold propertyFacts
  dsimp only
  rw [hd.aliases.currentClass, Path.hasChar_point_qualify, hhome.qualifier.head_qualify,
    hhome.qualifier.startsUpper, hp.isKnown, hp.startsUpper_head, if_pos rfl]
  cases hpoint : Text.hasChar '.' p with
  | true => exact ⟨none, by simp, by simp, .inl rfl⟩
  | false =>
    refine ⟨m.property? p, ?_, ?_, .inr (hdescribes p (hp.of_single hpoint).2)⟩ <;>
      simp [hfind]

section

variable (hhome : Home k C) {t u : Test} (h : Test.Qualified k.catalog C t u)

include hhome h

/-! ## Simple comparisons -/

theorem ignoresCase (v : Value) : Concurs C (Draft.ignoresCase k u v) (Draft.ignoresCase k t v) := by
  obtain ⟨hown, rfl⟩ := h
  refine .get_bind fun d hd => ?_
  obtain ⟨facts, hplain, hqualified, hknown⟩ := propertyFacts_qualify hhome hown hd
  dsimp only
  rw [hplain, hqualified]
  exact .ofReported (CaseFolding.value_applies_qualify _ _ _ hknown _ _)

theorem plainComparison (v : Value) (operator : String) (ownJoins : Bool) :
    Concurs C (Draft.plainComparison k u v operator ownJoins)
      (Draft.plainComparison k t v operator ownJoins) := by
  have hcase := ignoresCase hhome h v
  obtain ⟨hown, rfl⟩ := h
  exact .bind hcase fun upper => .bind (resolve hhome hown _) fun reference =>
    .bind (bindValue _) fun number => .pure _

/-- Neither way of writing a property makes it an aggregate. -/
theorem routed {x y : Emission} (hx : Concurs C x y) :
    Concurs C (Draft.routed u.isAggregate x) (Draft.routed t.isAggregate y) := by
  obtain ⟨ht, hu⟩ := h.isAggregate hhome.qualifier
  rw [ht, hu]
  exact .get_bind fun _ _ => hx

theorem comparison (v : Value) (operator : String) :
    Concurs C (Draft.comparison k u v operator) (Draft.comparison k t v operator) :=
  routed hhome h (.bind (plainComparison hhome h v operator false) fun a => predicate a)

theorem nullCheck (isNull : Bool) :
    Concurs C (Draft.nullCheck k u isNull) (Draft.nullCheck k t isNull) := by
  refine routed hhome h ?_
  obtain ⟨hown, rfl⟩ := h
  exact .bind (resolve hhome hown false) fun reference => predicate _

theorem equality (v : Value) (equal : Bool) :
    Concurs C (Draft.equality k u v equal) (Draft.equality k t v equal) := by
  unfold Draft.equality
  split
  · exact nullCheck hhome h equal
  · exact comparison hhome h v _

theorem emptyCheck : Concurs C (Draft.emptyCheck k u) (Draft.emptyCheck k t) := by
  refine routed hhome h ?_
  obtain ⟨hown, rfl⟩ := h
  exact .bind (resolveCollection hhome hown) fun reference => predicate _

/-! ## Lists of values -/

theorem equalities (values : List Value) :
    Concurs C (Draft.equalities k u values) (Draft.equalities k t values) := by
  induction values with
  | nil => exact .pure []
  | cons v rest ih => exact together (equality hhome (h.withOperation .eq v) v true) ih

theorem separateComparisons (values : List Value) :
    Concurs C (Draft.separateComparisons k u values) (Draft.separateComparisons k t values) := by
  induction values with
  | nil => exact .pure []
  | cons v rest ih =>
    exact .bind (plainComparison hhome h v "=" true) fun a => .bind ih fun conditions => .pure _

theorem plainMembership (values : List Value) :
    Concurs C (Draft.plainMembership k u values) (Draft.plainMembership k t values) := by
  have hcase := ignoresCase hhome h t.value
  obtain ⟨hown, rfl⟩ := h
  unfold Draft.plainMembership
  split
  · exact .pure _
  · exact .bind hcase fun upper => .bind (isScalarCollection hhome hown) fun ownJoins =>
      .bind (resolve hhome hown _) fun reference => .bind (bindAll _) fun numbers => .pure _

/-- A disjunction of equalities compares no aggregates. -/
theorem disjunction (values : List Value) :
    Concurs C
      (Draft.composite ⟨.or, values.map fun v => .test (u.withOperation .eq v)⟩
        (Draft.equalities k u values))
      (Draft.composite ⟨.or, values.map fun v => .test (t.withOperation .eq v)⟩
        (Draft.equalities k t values)) := by
  refine composite (Filter.routedAlike_of_each .or ?_) (equalities hhome h values)
  rw [List.forall₂_map_left_iff, List.forall₂_map_right_iff, List.forall₂_same]
  intro v _
  have hleaf : Filter.Qualified k.catalog C (.test (t.withOperation .eq v))
      (.test (u.withOperation .eq v)) := .leaf none none (h.withOperation .eq v)
  exact hleaf.aggregates hhome.qualifier

theorem membership : Concurs C (Draft.membership k u) (Draft.membership k t) := by
  have hvalue : u.value = t.value := by rw [h.eq]
  unfold Draft.membership
  dsimp only
  rw [hvalue]
  split
  · split
    · rename_i v _
      exact equality hhome (h.withOperation .eq v) v true
    · exact disjunction hhome h _
  · exact routed hhome h (.bind (plainMembership hhome h _) fun a => predicate a)

/-- Outside conditions on collections no values exclude each other. -/
theorem containsAll : Concurs C (Draft.containsAll k u) (Draft.containsAll k t) := by
  have hvalue : u.value = t.value := by rw [h.eq]
  unfold Draft.containsAll
  dsimp only
  rw [hvalue]
  refine .get_bind fun d hd => ?_
  rw [hd.aliases.inCollection, Bool.and_false, if_neg Bool.false_ne_true,
    if_neg Bool.false_ne_true, pure_bind, pure_bind, if_neg Bool.false_ne_true,
    if_neg Bool.false_ne_true]
  split
  · exact equality hhome h _ true
  · exact routed hhome h (.bind (separateComparisons hhome h _) fun conditions => .pure _)

/-! ## Joins -/

theorem correlation (other : String) :
    Concurs C (Draft.correlation k u other) (Draft.correlation k t other) := by
  obtain ⟨hown, rfl⟩ := h
  have hother : Concurs C (Draft.resolve k other false) (Draft.resolve k other false) :=
    quiet ((continues k).resolve other false) ((Reflects.namingRules k).leafRules.resolve other false)
  refine .bind hother fun right => .bind (isScalarCollection hhome hown) fun isScalar => ?_
  split
  · exact .bind (resolveCollection hhome hown) fun left => .pure _
  · exact .bind (resolve hhome hown false) fun left => .pure _

omit hhome in
theorem joinProperty : Concurs C (Draft.joinProperty u) (Draft.joinProperty t) := by
  obtain ⟨-, rfl⟩ := h
  exact .orFail _ _ _

omit hhome h in
theorem joinClass (other : String) : Concurs C (Draft.joinClass k other) (Draft.joinClass k other) := by
  unfold Draft.joinClass
  dsimp only
  split
  · exact .pure _
  · exact .get_bind fun _ _ => .fail _ _

/-- At home the other class is listed once. -/
theorem join : Concurs C (Draft.join k u) (Draft.join k t) := by
  refine .bind (joinProperty h) fun other => .bind (joinClass other) fun className =>
    .get_bind fun d hd => ?_
  rw [hd.inTheta, if_neg Bool.false_ne_true, if_neg Bool.false_ne_true]
  exact .bind (changeAliases [.listed className] rfl (fun a => a.addSource_resumes className)
    fun ha => ha.addSource className) fun _ =>
    .bind (correlation hhome h other) fun condition => predicate _

theorem leftJoin : Concurs C (Draft.leftJoin k u) (Draft.leftJoin k t) := by
  refine .bind (joinProperty h) fun other => .bind (joinClass other) fun className =>
    .bind (changeAliases [.outer className] rfl (fun a => a.obtainClassAlias_resumes className)
      fun ha => ha.obtainClassAlias className) fun aliasName =>
    .bind (correlation hhome h other) fun condition => .bind (changeAliases [] rfl
      (fun a => a.addOnJoin_resumes _ _ _ _) fun ha => ?_) fun _ => .pure none
  rw [List.append_nil]
  exact ha.same ⟨rfl, rfl⟩

/-- What a leaf emits that has no other filter nested in it. -/
theorem test : Concurs C (Draft.test k u) (Draft.test k t) := by
  have hoperation : u.operation = t.operation := by rw [h.eq]
  have hvalue : u.value = t.value := by rw [h.eq]
  unfold Draft.test
  rw [hoperation, hvalue]
  cases t.operation with
  | isNull => exact nullCheck hhome h true
  | notNull => exact nullCheck hhome h false
  | isEmpty => exact emptyCheck hhome h
  | join => exact join hhome h
  | leftJoin => exact leftJoin hhome h
  | collectionCondition | subquery => exact .fail _ _
  | inList => exact membership hhome h
  | containsAll => exact containsAll hhome h
  | eq | ne => exact equality hhome h _ _
  | lt | gt | le | ge | like => exact comparison hhome h _ _

/-! ## Nested filters -/

/-- The nested select does not depend on the reference. -/
theorem subquery (body : Emission) :
    Concurs C (Draft.subquery k u body) (Draft.subquery k t body) := by
  have hclass : u.subqueryClass = t.subqueryClass := by rw [h.eq]
  have hproperty : u.subqueryProperty = t.subqueryProperty := by rw [h.eq]
  have htest := test hhome h
  have hrouted := fun x y hx => routed hhome h (x := x) (y := y) hx
  unfold Draft.subquery
  rw [hclass, hproperty]
  split
  · refine hrouted _ _ ?_
    obtain ⟨hown, rfl⟩ := h
    exact .bind (resolve hhome hown false) fun reference =>
      quiet ((continues k).inSelect _ _ _ _) ((Reflects.namingRules k).inSelect _ _ _ _)
  · exact htest

end

/-! ## Conditions on collections -/

section

variable (hhome : Home k C) {p : String} (hp : Path.IsOwn k.catalog C p)

include hhome hp

/-- The elements of a collection are given a scope in which the plain part of a condition is
emitted, which leads home. -/
theorem inScope (outer : Bool) {f : Filter} (hf : .correlated C ∉ f.namings false) :
    Concurs C (Draft.inScope k (Path.qualify C p) outer (emit k f))
      (Draft.inScope k p outer (emit k f)) := by
  have hruns : Coincides (AtHome C) (fun _ => True)
      (Draft.inScope k (Path.qualify C p) outer (emit k f)) (Draft.inScope k p outer (emit k f)) := by
    unfold Draft.inScope
    rw [namesClass_qualify, namesClass_of_isOwn hp]
    refine .get_bind fun d hd => .bind (J := fun _ => True) ?_ fun _ => .same _
    intro d hd r e
    rw [aliased_yields, aliased_yields]
    have hrun := coincides_pushCollection hhome.qualifier hp (c := k.catalog)
    exact ⟨exists_congr fun a => and_congr_left fun _ => (hrun _ hd.aliases r a).1, fun _ => trivial⟩
  exact hruns.leaving (AtHome.kept ((continues k).inScope _ _ (steady_emit k f))
    (Reflects.inScope _ _ ((Reflects.namingRules k).emit f)) hf)

/-- The collection whose elements exclude owners is looked up without the name of the class. -/
theorem excluding (body : Emission) :
    Concurs C (Draft.excluding k (Path.qualify C p) body) (Draft.excluding k p body) := by
  refine .get_bind fun d hd => ?_
  dsimp only
  rw [hd.queryClass, Path.dropStart?_qualify, hp.dropStart? hhome.qualifier, Option.getD_some,
    Option.getD_none]
  exact .bind (.ofReported rfl) fun inverse? => .bind (.orFail _ _ _) fun inverse =>
    .bind (.ofReported rfl) fun declared => .bind (.orFail _ _ _) fun element =>
    .bind (.orFail _ _ _) fun aliasName =>
    quiet ((continues k).inSelect _ _ _ _) ((Reflects.namingRules k).inSelect _ _ _ _)

/-- The parts of a condition emit the same. -/
theorem emitParts (outer disjunctive : Bool) {plain : Option Composite}
    (hplain : ∀ part ∈ plain, .correlated C ∉ (Filter.composite part).namings false)
    (negated : Option Composite) :
    Concurs C (Draft.emitParts k (Path.qualify C p) outer disjunctive (plain, negated))
      (Draft.emitParts k p outer disjunctive (plain, negated)) := by
  cases plain with
  | none =>
    refine .bind (.pure none) fun kept => ?_
    cases negated with
    | none => exact .bind (.pure none) fun _ => .pure _
    | some part => exact .bind (excluding hhome hp _) fun _ => .pure _
  | some part =>
    refine .bind (inScope hhome hp outer (hplain part rfl)) fun kept => ?_
    cases negated with
    | none => exact .bind (.pure none) fun _ => .pure _
    | some part => exact .bind (excluding hhome hp _) fun _ => .pure _

end

/-- A condition on a collection's elements. -/
theorem emitCondition (hhome : Home k C) {t u : Test} (h : Test.Qualified k.catalog C t u)
    {condition : Option Composite}
    (hcondition : ∀ c ∈ condition, ∀ part ∈ c.split.1,
      .correlated C ∉ (Filter.composite part).namings false) :
    Concurs C (Draft.emitCondition k u condition) (Draft.emitCondition k t condition) := by
  cases condition with
  | none => exact test hhome h
  | some c =>
    have hparts := emitParts hhome h.own (c.operation == .or && 1 < c.children.length)
      (c.operation == .or) (hcondition c rfl) c.split.2
    obtain ⟨hown, rfl⟩ := h
    rw [emitCondition_eq, emitCondition_eq, namesClass_qualify, namesClass_of_isOwn hown]
    refine .restoring hparts (fun d hd => hd.same rfl rfl hd.inTheta.symm) fun d u hd hu => ?_
    exact hu.same rfl rfl (hd.inTheta.trans hu.inTheta.symm)

end Concurs

end Draft

end ObjectQuery
