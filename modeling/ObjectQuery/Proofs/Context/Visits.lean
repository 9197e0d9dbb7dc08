import ObjectQuery.Proofs.Emission.Steps
import ObjectQuery.Proofs.Step.Course

/-!
# Relations kept by visits

Whatever a filter is, visiting it changes a draft in a few ways only: it resolves paths, names
classes, binds values, sets marks and puts them back, opens scopes and closes them again, and adds
conditions. A relation that each of these keeps is kept by the visit, also where it fails.

* `Draft.TestRules`, `Draft.TestRules.test`: a relation that is kept by each change of a leaf.
* `Draft.VisitRules`: a relation that is kept by each change of a visit.
* `Draft.VisitRules.closure`: it is kept by every way to build an emission.
* `Draft.VisitRules.emit`, `Draft.VisitRules.visit`: so it is by filters.
-/

namespace ObjectQuery

open Step

namespace Draft

/-- A relation between drafts that is kept by each change of a leaf. The paths of a leaf ask for no
outer joins. -/
structure TestRules (k : Compiler) (R : Draft → Draft → Prop) : Prop where
  path : ∀ path o, o.outer = false → Leads R R (aliased (Aliases.resolve k.catalog path o))
  enclosingPath : ∀ path, Leads R R (aliased (Aliases.resolveEnclosing k.catalog path))
  obtainClassAlias : ∀ (d : Draft) className,
    R d (d.withAliases (d.aliases.obtainClassAlias className).2)
  addSource : ∀ (d : Draft) className, R d (d.withAliases (d.aliases.addSource className).2)
  addThetaSource : ∀ (d : Draft) className number,
    R d (d.withAliases (d.aliases.addThetaSource className number).2)
  addOnJoin : ∀ (d : Draft) className property aliasName condition,
    R d (d.withAliases (d.aliases.addOnJoin className property aliasName condition))
  thetaInstance : ∀ (d : Draft) thetaInstance, R d { d with thetaInstance }
  parameters : ∀ (d : Draft) more, R d { d with parameters := d.parameters ++ more }
  addGroup : ∀ (d : Draft) group, R d (d.addGroup group)
  inHaving : ∀ {d u : Draft} marked, R { d with inHaving := marked } u →
    R d { u with inHaving := d.inHaving }

/-- A relation between drafts that is kept by each change of a visit. -/
structure VisitRules (k : Compiler) (R : Draft → Draft → Prop) : Prop extends TestRules k R where
  addCondition : ∀ (d : Draft) condition, R d (addCondition condition d)
  inTheta : ∀ {d u : Draft} marked, R { d with inTheta := marked } u →
    R d { u with inTheta := d.inTheta }
  insideOr : ∀ {d u : Draft} insideOr, R (d.withAliases { d.aliases with insideOr }) u →
    R d (u.withAliases { u.aliases with insideOr := d.aliases.insideOr })
  thetaScope : ∀ {d u : Draft}, R (d.withAliases d.aliases.pushTheta) u →
    R d (u.withAliases u.aliases.pop)
  collectionScope : ∀ (d : Draft) property joinType,
    (aliased (Aliases.pushCollection k.catalog property joinType)).Leaves (R d)
      (fun v => ∀ u, R v u → R d (u.withAliases u.aliases.pop)) d

variable {k : Compiler} {R : Draft → Draft → Prop} [IsPreorder Draft R]

/-! ## Nested selects -/

/-- A nested select adds its parameters and changes nothing else. -/
theorem leads_inSelect {reference : Reference} {negated : Bool} {className column : String}
    {x : Emission}
    (hparameters : ∀ (d : Draft) more, R d { d with parameters := d.parameters ++ more }) :
    Leads R R (Draft.inSelect k reference negated className column x) :=
  Leads.get.bind fun _ => (Leads.ofExcept _).bind fun _ => Leads.isolated.bind fun _ =>
    (Leads.modify fun d => hparameters d _).bind fun _ => .pure _

theorem leads_excluding {property : String} {x : Emission}
    (hparameters : ∀ (d : Draft) more, R d { d with parameters := d.parameters ++ more }) :
    Leads R R (Draft.excluding k property x) :=
  Leads.get.bind fun _ => (Leads.ofReported _).bind fun _ => (Leads.orFail _ _).bind fun _ =>
    (Leads.ofReported _).bind fun _ => (Leads.orFail _ _).bind fun _ =>
    (Leads.orFail _ _).bind fun _ => leads_inSelect hparameters

namespace TestRules

/-! ## Basic steps -/

omit [IsPreorder Draft R] in
theorem bindOne (h : TestRules k R) (v : Value) : Leads R R (Draft.bind v) := fun d =>
  h.parameters d [⟨d.nextParameter, v⟩]

theorem bindAll (h : TestRules k R) (values : List Value) : Leads R R (Draft.bindAll values) := by
  induction values with
  | nil => exact .pure _
  | cons v rest ih => exact (h.bindOne v).bind fun _ => ih.bind fun _ => .pure _

omit [IsPreorder Draft R] in
theorem changeAliases {α : Type} {f : Aliases → α × Aliases}
    (hf : ∀ d : Draft, R d (d.withAliases (f d.aliases).2)) :
    Leads R R (Draft.changeAliases f) := hf

theorem resolve (h : TestRules k R) (path : String) (ownJoins : Bool) :
    Leads R R (Draft.resolve k path ownJoins) := by
  refine (h.path _ _ rfl).bind fun found => ?_
  split
  · exact .pure _
  · exact Leads.get.bind fun _ => .fail _

theorem resolveCollection (h : TestRules k R) (path : String) :
    Leads R R (Draft.resolveCollection k path) := by
  refine (h.path _ _ rfl).bind fun found => ?_
  split
  · exact .pure _
  · exact Leads.get.bind fun _ => .fail _

theorem isScalarCollection (path : String) : Leads R R (Draft.isScalarCollection k path) :=
  Leads.get.bind fun _ => .ofReported _

theorem ignoresCase (t : Test) (v : Value) : Leads R R (Draft.ignoresCase k t v) :=
  Leads.get.bind fun _ => .ofReported _

/-! ## Clauses -/

section

variable {x : Emission}

theorem inHavingGroup (h : TestRules k R) (hx : Leads R R x) :
    Leads R R (Draft.inHavingGroup x) := by
  have hgroup : Leads R R (Step.restoring (fun d => { d with inHaving := true })
      (fun before d => { d with inHaving := before.inHaving }) x) := fun d =>
    (hx { d with inHaving := true }).restoring (fun _ => h.inHaving true) fun _ => h.inHaving true
  exact hgroup.bind fun group => (Leads.modify fun d => h.addGroup d group).bind fun _ => .pure _

theorem routed (h : TestRules k R) (isAggregate : Bool) (hx : Leads R R x) :
    Leads R R (Draft.routed isAggregate x) := by
  refine Leads.get.bind fun d => ?_
  split
  · exact h.inHavingGroup hx
  · exact hx

theorem together {xs : Step Draft (List Condition)} (hx : Leads R R x) (hxs : Leads R R xs) :
    Leads R R (Draft.together x xs) :=
  hx.bind fun _ => hxs.bind fun _ => .pure _

end

/-! ## Leaves -/

theorem plainComparison (h : TestRules k R) (t : Test) (v : Value) (operator : String)
    (ownJoins : Bool) : Leads R R (Draft.plainComparison k t v operator ownJoins) :=
  (ignoresCase t v).bind fun _ => (h.resolve _ _).bind fun _ => (h.bindOne _).bind fun _ => .pure _

theorem comparison (h : TestRules k R) (t : Test) (v : Value) (operator : String) :
    Leads R R (Draft.comparison k t v operator) :=
  h.routed _ ((h.plainComparison _ _ _ _).bind fun _ => .pure _)

theorem nullCheck (h : TestRules k R) (t : Test) (isNull : Bool) :
    Leads R R (Draft.nullCheck k t isNull) :=
  h.routed _ ((h.resolve _ _).bind fun _ => .pure _)

theorem equality (h : TestRules k R) (t : Test) (v : Value) (equal : Bool) :
    Leads R R (Draft.equality k t v equal) := by
  unfold Draft.equality
  split
  · exact h.nullCheck t equal
  · exact h.comparison t v _

theorem emptyCheck (h : TestRules k R) (t : Test) : Leads R R (Draft.emptyCheck k t) :=
  h.routed _ ((h.resolveCollection _).bind fun _ => .pure _)

theorem equalities (h : TestRules k R) (t : Test) (values : List Value) :
    Leads R R (Draft.equalities k t values) := by
  induction values with
  | nil => exact .pure _
  | cons v rest ih => exact together (h.equality _ v true) ih

theorem plainMembership (h : TestRules k R) (t : Test) (values : List Value) :
    Leads R R (Draft.plainMembership k t values) := by
  unfold Draft.plainMembership
  split
  · exact .pure _
  · exact (ignoresCase t _).bind fun _ => (isScalarCollection _).bind fun _ =>
      (h.resolve _ _).bind fun _ => (h.bindAll _).bind fun _ => .pure _

/-- Several entities are compared under a disjunction. -/
theorem membership (h : TestRules k R) (t : Test)
    (hseveral : t.value.hasEntities = true → (∀ v, t.value.elements ≠ [v]) →
      Leads R R (Draft.composite ⟨.or, t.value.elements.map fun v => .test (t.withOperation .eq v)⟩
        (Draft.equalities k t t.value.elements))) : Leads R R (Draft.membership k t) := by
  unfold Draft.membership
  dsimp only
  split
  · rename_i hentities
    split
    · exact h.equality _ _ true
    · rename_i hne
      exact hseveral hentities hne
  · exact h.routed _ ((h.plainMembership t _).bind fun _ => .pure _)

theorem separateComparisons (h : TestRules k R) (t : Test) (values : List Value) :
    Leads R R (Draft.separateComparisons k t values) := by
  induction values with
  | nil => exact .pure _
  | cons v rest ih => exact (h.plainComparison _ _ _ _).bind fun _ => ih.bind fun _ => .pure _

theorem unlessImpossible (d : Draft) (property : String) (several : Bool) (err : CompileError)
    {x : Emission} (hx : Leads R R x) :
    Leads R R (do
      let impossible ← if several && d.aliases.inCollection then do
          let shape ← Step.ofReported (d.aliases.describe k.catalog property)
          pure (!shape.crossesCollection)
        else pure false
      if impossible then .fail err else x : Emission) := by
  have hguarded (impossible : Bool) : Leads R R (if impossible then .fail err else x) := by
    split
    · exact .fail _
    · exact hx
  dsimp only
  split
  · exact (Leads.ofReported _).bind fun shape => (Leads.pure _).bind hguarded
  · exact (Leads.pure _).bind hguarded

theorem containsAll (h : TestRules k R) (t : Test) : Leads R R (Draft.containsAll k t) := by
  refine Leads.get.bind fun d => unlessImpossible d _ _ _ ?_
  split
  · exact h.equality t _ true
  · exact h.routed _ ((h.separateComparisons t _).bind fun _ => .pure _)

/-! ## Joins -/

theorem joinProperty (t : Test) : Leads R R (Draft.joinProperty t) := .orFail _ _

theorem joinClass (other : String) : Leads R R (Draft.joinClass k other) := by
  unfold Draft.joinClass
  dsimp only
  split
  · exact .pure _
  · exact Leads.get.bind fun _ => .fail _

theorem correlation (h : TestRules k R) (t : Test) (other : String) :
    Leads R R (Draft.correlation k t other) := by
  refine (h.resolve _ _).bind fun right => (isScalarCollection _).bind fun isScalar => ?_
  split
  · exact (h.resolveCollection _).bind fun _ => .pure _
  · exact (h.resolve _ _).bind fun _ => .pure _

theorem join (h : TestRules k R) (t : Test) : Leads R R (Draft.join k t) := by
  refine (joinProperty t).bind fun other => (joinClass other).bind fun className =>
    Leads.get.bind fun d => ?_
  split
  · exact (changeAliases fun d => h.addThetaSource d _ _).bind fun _ =>
      (Leads.modify fun d => h.thetaInstance d _).bind fun _ =>
      (h.enclosingPath _).bind fun _ => (h.resolve _ _).bind fun _ => .pure _
  · exact (changeAliases fun d => h.addSource d _).bind fun _ =>
      (h.correlation t other).bind fun _ => .pure _

theorem leftJoin (h : TestRules k R) (t : Test) : Leads R R (Draft.leftJoin k t) :=
  (joinProperty t).bind fun other => (joinClass other).bind fun _ =>
    (changeAliases fun d => h.obtainClassAlias d _).bind fun _ =>
    (h.correlation t other).bind fun _ =>
    (changeAliases fun d => h.addOnJoin d _ _ _ _).bind fun _ => .pure _

theorem test (h : TestRules k R) (t : Test)
    (hseveral : t.operation = .inList → t.value.hasEntities = true →
      (∀ v, t.value.elements ≠ [v]) →
      Leads R R (Draft.composite ⟨.or, t.value.elements.map fun v => .test (t.withOperation .eq v)⟩
        (Draft.equalities k t t.value.elements))) : Leads R R (Draft.test k t) := by
  unfold Draft.test
  split
  case h_1 | h_2 => exact h.equality t _ _
  case h_3 | h_4 | h_5 | h_6 | h_7 => exact h.comparison t _ _
  case h_8 hop => exact h.membership t (hseveral hop)
  case h_9 | h_10 => exact h.nullCheck t _
  case h_11 => exact h.emptyCheck t
  case h_12 => exact h.containsAll t
  case h_13 => exact h.join t
  case h_14 => exact h.leftJoin t
  case h_15 | h_16 => exact .fail _

/-! ## Nested selects -/

theorem inSelect (h : TestRules k R) (reference : Reference) (negated : Bool)
    (className column : String) {x : Emission} :
    Leads R R (Draft.inSelect k reference negated className column x) :=
  leads_inSelect h.parameters

theorem subquery (h : TestRules k R) {t : Test} {x : Emission}
    (htest : Leads R R (Draft.test k t)) : Leads R R (Draft.subquery k t x) := by
  unfold Draft.subquery
  split
  · exact h.routed _ ((h.resolve _ _).bind fun _ => h.inSelect _ _ _ _)
  · exact htest

end TestRules

namespace VisitRules

/-! ## Composites and leaves -/

section

variable {x : Emission}

omit [IsPreorder Draft R] in
theorem underOr (h : VisitRules k R) (hx : Leads R R x) : Leads R R (Draft.insideOr x) := fun d =>
  Leaves.restoring (hx (d.withAliases { d.aliases with insideOr := true }))
    (fun _ => h.insideOr true) fun _ => h.insideOr true

theorem composite (h : VisitRules k R) (c : Composite) {xs : Step Draft (List Condition)}
    (hxs : Leads R R xs) : Leads R R (Draft.composite c xs) := by
  have hcombined : Leads R R (combined c.operation xs) := by
    unfold combined
    split
    · exact hxs.bind fun _ => .pure _
    · exact h.underOr (hxs.bind fun _ => .pure _)
    · exact hxs.bind fun _ => .pure _
  refine Leads.get.bind fun d => ?_
  split
  · exact hcombined
  · split
    · split
      · exact hcombined
      · exact h.inHavingGroup hcombined
    · split
      · exact .fail _
      · exact hcombined

end

theorem test (h : VisitRules k R) (t : Test) : Leads R R (Draft.test k t) :=
  h.toTestRules.test t fun _ _ _ => h.composite _ (h.equalities t _)

/-! ## Conditions on collections -/

section

variable {x : Emission}

omit [IsPreorder Draft R] in
theorem withTheta (h : VisitRules k R) (theta : Bool) (hx : Leads R R x) :
    Leads R R (Draft.withTheta theta x) := fun d =>
  (hx { d with inTheta := theta }).restoring (fun _ => h.inTheta theta) fun _ => h.inTheta theta

omit [IsPreorder Draft R] in
/-- A scope that was opened is closed behind the step, also where the step fails. -/
theorem closingScope (hx : Leads R R x) {d v : Draft}
    (hclose : ∀ u, R v u → R d (u.withAliases u.aliases.pop)) :
    (Draft.closingScope x).Leaves (R d) (R d) v :=
  Leaves.restoring (hx v) hclose hclose

theorem inScope (h : VisitRules k R) (property : String) (outer : Bool) (hx : Leads R R x) :
    Leads R R (Draft.inScope k property outer x) := by
  intro d
  refine .get_bind ?_
  split
  · split
    · exact closingScope (v := d.withAliases d.aliases.pushTheta) hx fun _ => h.thetaScope
    · exact .fail (Std.Refl.refl d)
  · exact (h.collectionScope d property _).bind fun _ _ => closingScope hx

theorem elementCondition (h : VisitRules k R) (property : String) (c : Composite)
    {plain negated : Step Draft (List Condition)} (hplain : Leads R R plain) :
    Leads R R (Draft.elementCondition k property c plain negated) := by
  rw [elementCondition_eq]
  have hkept (outer : Bool) (part : Option Composite) :
      Leads R R (keptPart k property outer part plain) := by
    cases part with
    | none => exact .pure _
    | some part => exact h.inScope _ _ (h.composite part hplain)
  have hexcluded (part : Option Composite) : Leads R R (excludedPart k property part negated) := by
    cases part with
    | none => exact .pure _
    | some part => exact leads_excluding h.parameters
  exact h.withTheta _ ((hkept _ _).bind fun _ => (hexcluded _).bind fun _ => .pure _)

end

theorem closure (h : VisitRules k R) : Closure k (fun _ => True) (Leads R R) (Leads R R) where
  nothing := .pure _
  test t _ := h.test t
  nil := .pure _
  together := TestRules.together
  composite := h.composite
  elementCondition t c _ _ _ hxs _ := h.elementCondition t.property c hxs
  subquery t _ _ _ := h.subquery (h.test t)

/-- The relation is kept whatever a filter emits, and wherever it fails. -/
theorem emit (h : VisitRules k R) (f : Filter) : Leads R R (Draft.emit k f) :=
  h.closure.emit ⟨fun _ _ _ _ => trivial, fun _ _ _ _ _ => trivial⟩ fun _ _ => trivial

theorem emitEach (h : VisitRules k R) (selection : Selection) (fs : List Filter) :
    Leads R R (Draft.emitEach k selection fs) :=
  h.closure.emitEach ⟨fun _ _ _ _ => trivial, fun _ _ _ _ _ => trivial⟩
    (fun _ _ _ _ => trivial) selection

theorem add (h : VisitRules k R) (f : Filter) : Leads R R (Draft.add k f) :=
  (h.emit f).bind fun condition => Leads.modify fun d => h.addCondition d condition

theorem leave (h : VisitRules k R) (r : Remains) (d : Draft) : R d (Draft.leave r d) := by
  have hcondition := h.addCondition d r.condition
  unfold Draft.leave
  cases r.group with
  | none => exact hcondition
  | some group => exact IsTrans.trans _ _ _ hcondition (h.addGroup _ group)

/-- The relation is kept by the visit of a filter, whatever is left of one that fails. -/
theorem visit (h : VisitRules k R) (f : Filter) : Leads R R (Draft.visit k f) := fun d =>
  (h.add f d).onFailure fun u hu => IsTrans.trans _ _ _ hu (h.leave _ u)

end VisitRules

end Draft

end ObjectQuery
