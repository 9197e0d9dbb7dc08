import ObjectQuery.Proofs.Renumbering.Drafts
import ObjectQuery.Query.Visit

/-!
# Predicates under other parameter numbers

* `Draft.Shifted.test`: the predicate of a leaf holds the new numbers.
* `Draft.Shifted.inSelect`: a nested select starts behind the parameters that are bound, so its
  numbers are mapped as those around it are.
* `Draft.Shifted.closure`: what a filter emits holds the new numbers.
-/

namespace ObjectQuery

namespace Draft

variable {k : Compiler} {g : Nat → Nat}

namespace Unmoved

theorem joinClass (joinProperty : String) :
    Unmoved g (Draft.joinClass k joinProperty) (Draft.joinClass k joinProperty) := by
  unfold Draft.joinClass
  dsimp only
  split
  · exact .pure rfl
  · exact agrees_get_bind fun _ _ _ => .fail _

theorem joinProperty (t : Test) : Unmoved g (Draft.joinProperty t) (Draft.joinProperty t) :=
  Step.Agrees.orFail _ _

theorem correlation (t : Test) (joinProperty : String) :
    Unmoved g (Draft.correlation k t joinProperty) (Draft.correlation k t joinProperty) := by
  refine bind (resolve _ _) fun right => bind (isScalarCollection _) fun isScalar => ?_
  split
  · exact bind (resolveCollection _) fun _ => .pure rfl
  · exact bind (resolve _ _) fun _ => .pure rfl

end Unmoved

namespace Shifted

/-! ## Simple comparisons -/

theorem plainComparison (t : Test) (v : Value) (operator : String) (ownJoins : Bool) :
    Shifted g (Atom.renumber g) (Draft.plainComparison k t v operator ownJoins)
      (Draft.plainComparison k t v operator ownJoins) := by
  refine Unmoved.bind (.ignoresCase t v) fun upper => Unmoved.bind (.resolve _ _) fun reference => ?_
  refine Step.Agrees.bind (bindValue _) ?_
  rintro number _ rfl
  exact .pure rfl

theorem comparison (t : Test) (v : Value) (operator : String) :
    Shifted g (renumberGroup g) (Draft.comparison k t v operator)
      (Draft.comparison k t v operator) := by
  refine routed _ (Step.Agrees.bind (plainComparison t v operator false) ?_)
  rintro p _ rfl
  exact predicate p

theorem nullCheck (t : Test) (isNull : Bool) :
    Shifted g (renumberGroup g) (Draft.nullCheck k t isNull) (Draft.nullCheck k t isNull) :=
  routed _ (Unmoved.bind (.resolve _ _) fun reference => predicate (.nullCheck reference isNull))

theorem equality (t : Test) (v : Value) (equal : Bool) :
    Shifted g (renumberGroup g) (Draft.equality k t v equal) (Draft.equality k t v equal) := by
  unfold Draft.equality
  split
  · exact nullCheck t equal
  · exact comparison t v _

theorem emptyCheck (t : Test) :
    Shifted g (renumberGroup g) (Draft.emptyCheck k t) (Draft.emptyCheck k t) :=
  routed _ (Unmoved.bind (.resolveCollection _) fun reference => predicate (.emptyCheck reference))

/-! ## Lists of values -/

theorem equalities (t : Test) (vs : List Value) :
    Shifted g (renumberConditions g) (Draft.equalities k t vs) (Draft.equalities k t vs) := by
  induction vs with
  | nil => exact .pure rfl
  | cons v rest ih => exact together (equality _ v true) ih

theorem separateComparisons (t : Test) (vs : List Value) :
    Shifted g (renumberConditions g) (Draft.separateComparisons k t vs)
      (Draft.separateComparisons k t vs) := by
  induction vs with
  | nil => exact .pure rfl
  | cons v rest ih =>
    refine Step.Agrees.bind (plainComparison t v "=" true) ?_
    rintro p _ rfl
    refine Step.Agrees.bind ih ?_
    rintro cs _ rfl
    exact .pure rfl

theorem plainMembership (t : Test) (vs : List Value) :
    Shifted g (Atom.renumber g) (Draft.plainMembership k t vs) (Draft.plainMembership k t vs) := by
  unfold Draft.plainMembership
  split
  · exact .pure rfl
  · refine Unmoved.bind (.ignoresCase t _) fun upper => ?_
    refine Unmoved.bind (.isScalarCollection _) fun ownJoins => ?_
    refine Unmoved.bind (.resolve _ _) fun reference => Step.Agrees.bind (bindAll _) ?_
    rintro numbers _ rfl
    exact .pure rfl

theorem membership (t : Test) :
    Shifted g (renumberGroup g) (Draft.membership k t) (Draft.membership k t) := by
  unfold Draft.membership
  dsimp only
  split
  · split
    · exact equality _ _ true
    · exact composite _ (equalities t _)
  · refine routed _ (Step.Agrees.bind (plainMembership t _) ?_)
    rintro p _ rfl
    exact predicate p

theorem chained (cs : List Condition) :
    Draft.chained (renumberConditions g cs) = renumberGroup g (Draft.chained cs) := by
  cases cs <;> rfl

/-- A step behind the check whether its values exclude each other. -/
theorem unlessImpossible (several : Bool) (shape : Reported PathShape) (err : CompileError)
    {x y : Emission} (h : Shifted g (renumberGroup g) x y) :
    Shifted g (renumberGroup g)
      (do
        let impossible ← if several then do
            let shape ← Step.ofReported shape
            pure (!shape.crossesCollection)
          else pure false
        if impossible then .fail err else x)
      (do
        let impossible ← if several then do
            let shape ← Step.ofReported shape
            pure (!shape.crossesCollection)
          else pure false
        if impossible then .fail err else y) := by
  have hrest (impossible : Bool) : Shifted g (renumberGroup g)
      (if impossible then Step.fail err else x) (if impossible then Step.fail err else y) := by
    split
    · exact .fail _
    · exact h
  split
  · exact Unmoved.bind (Step.Agrees.ofReported _) fun _ => Unmoved.bind (.pure rfl) hrest
  · exact Unmoved.bind (x := pure false) (.pure rfl) hrest

theorem containsAll (t : Test) :
    Shifted g (renumberGroup g) (Draft.containsAll k t) (Draft.containsAll k t) := by
  unfold Draft.containsAll
  dsimp only
  refine agrees_get_bind fun d first _ => ?_
  rw [renumber_aliases]
  refine unlessImpossible _ _ _ ?_
  split
  · exact equality t _ true
  · refine routed _ (Step.Agrees.bind (separateComparisons t _) ?_)
    rintro cs _ rfl
    exact .pure (chained cs)

/-! ## Joins -/

theorem join (t : Test) : Shifted g (renumberGroup g) (Draft.join k t) (Draft.join k t) := by
  refine Unmoved.bind (.joinProperty t) fun other => Unmoved.bind (.joinClass other) fun className => ?_
  refine agrees_get_bind fun d first _ => ?_
  rw [renumber_inTheta, renumber_thetaInstance]
  split
  · refine Unmoved.bind (.changeAliases _) fun _ => ?_
    refine Unmoved.bind (.modify ⟨fun _ => rfl, fun _ _ _ => rfl⟩) fun _ => ?_
    refine Unmoved.bind (.aliased _) fun left => Unmoved.bind (.resolve _ _) fun right => ?_
    exact predicate (.correlated (.equal left right))
  · refine Unmoved.bind (.changeAliases _) fun _ => Unmoved.bind (.correlation t other) fun condition => ?_
    exact predicate (.correlated condition)

theorem leftJoin (t : Test) :
    Shifted g (renumberGroup g) (Draft.leftJoin k t) (Draft.leftJoin k t) := by
  refine Unmoved.bind (.joinProperty t) fun other => Unmoved.bind (.joinClass other) fun className => ?_
  refine Unmoved.bind (.changeAliases _) fun aliasName => ?_
  refine Unmoved.bind (.correlation t other) fun condition => ?_
  exact Unmoved.bind (.changeAliases _) fun _ => nothing

/-! ## Leaves -/

theorem test (t : Test) : Shifted g (renumberGroup g) (Draft.test k t) (Draft.test k t) := by
  unfold Draft.test
  cases t.operation with
  | isNull => exact nullCheck t true
  | notNull => exact nullCheck t false
  | isEmpty => exact emptyCheck t
  | join => exact join t
  | leftJoin => exact leftJoin t
  | collectionCondition | subquery => exact .fail _
  | inList => exact membership t
  | containsAll => exact containsAll t
  | eq | ne => exact equality t _ _
  | lt | gt | le | ge | like => exact comparison t _ _

/-! ## Nested selects -/

variable {x y : Emission}

/-- The condition of a clause. -/
theorem addCondition (condition : Option Condition) :
    Unmoved g (Step.modify (Draft.addCondition condition))
      (Step.modify (Draft.addCondition (renumberGroup g condition))) := by
  refine Step.Agrees.modify ?_
  rintro d _ ⟨first, hfirst, rfl⟩
  refine ⟨first, hfirst, ?_⟩
  simp [Draft.addCondition, renumber, renumberConditions_append, renumberConditions_toList]

/-- A whole select, from its first condition to its statement. -/
theorem selected (hx : Shifted g (renumberGroup g) x y) (spec : SelectSpec) :
    Shifted g (assembledRenumber g)
      (do
        let condition ← x
        Step.modify (Draft.addCondition condition)
        assembleSelect k spec)
      (do
        let condition ← y
        Step.modify (Draft.addCondition condition)
        assembleSelect k spec) := by
  refine Step.Agrees.bind hx ?_
  rintro condition _ rfl
  exact Unmoved.bind (addCondition condition) fun _ => shifted_assembleSelect spec

/-- The nested parameters are numbered behind those that are bound already. -/
theorem inSelect (reference : Reference) (negated : Bool) (className column : String)
    (hx : Shifted g (renumberGroup g) x y) :
    Shifted g (renumberGroup g) (Draft.inSelect k reference negated className column x)
      (Draft.inSelect k reference negated className column y) := by
  refine agrees_get_bind fun d first hfirst => ?_
  have hstart := renumbered_start (g := g)
    (Renumbered.next (g := g) (d := d) ⟨first, hfirst, rfl⟩) className
  refine Unmoved.bind (Step.Agrees.ofExcept _) fun _ => ?_
  refine Step.Agrees.bind (Step.Agrees.isolated hstart (selected hx _)) ?_
  rintro ⟨query, nested⟩ ⟨_, nested'⟩ ⟨rfl, hnested⟩
  refine Step.Agrees.bind (T := fun c c' => c' = renumberGroup g c) (S := Eq)
    (Step.Agrees.modify ?_) fun _ _ _ => predicate (.inSelect reference negated query.statement)
  obtain ⟨first', -, rfl⟩ := hnested
  rintro d _ ⟨first, hfirst, rfl⟩
  refine ⟨first, hfirst, ?_⟩
  simp [renumber]

theorem subquery (t : Test) (hx : Shifted g (renumberGroup g) x y) :
    Shifted g (renumberGroup g) (Draft.subquery k t x) (Draft.subquery k t y) := by
  unfold Draft.subquery
  split
  · exact routed _ (Unmoved.bind (.resolve _ _) fun reference => inSelect reference false _ _ hx)
  · exact test t

theorem excluding (property : String) (hx : Shifted g (renumberGroup g) x y) :
    Shifted g (renumberGroup g) (Draft.excluding k property x) (Draft.excluding k property y) := by
  refine agrees_get_bind fun d first _ => ?_
  rw [renumber_aliases]
  refine Unmoved.bind (Step.Agrees.ofReported _) fun _ => ?_
  refine Unmoved.bind (Step.Agrees.orFail _ _) fun inverse => ?_
  refine Unmoved.bind (Step.Agrees.ofReported _) fun _ => ?_
  refine Unmoved.bind (Step.Agrees.orFail _ _) fun element => ?_
  exact Unmoved.bind (Step.Agrees.orFail _ _) fun aliasName => inSelect _ true _ _ hx

/-! ## Conditions on collections -/

theorem inScope (property : String) (outer : Bool) (hx : Shifted g (renumberGroup g) x y) :
    Shifted g (renumberGroup g) (Draft.inScope k property outer x)
      (Draft.inScope k property outer y) := by
  have hclosing : Shifted g (renumberGroup g) (Draft.closingScope x) (Draft.closingScope y) :=
    restoring hx ⟨fun _ => rfl, fun _ _ _ => rfl⟩ (fun _ => ⟨fun _ => rfl, fun _ _ _ => rfl⟩)
      fun _ _ _ => rfl
  refine agrees_get_bind fun d first _ => ?_
  rw [renumber_aliases]
  split
  · split
    · exact Unmoved.bind (.changeAliases _) fun _ => hclosing
    · exact .fail _
  · exact Unmoved.bind (.aliased _) fun _ => hclosing

theorem withTheta (theta : Bool) (hx : Shifted g (renumberGroup g) x y) :
    Shifted g (renumberGroup g) (Draft.withTheta theta x) (Draft.withTheta theta y) :=
  restoring hx ⟨fun _ => rfl, fun _ _ _ => rfl⟩ (fun _ => ⟨fun _ => rfl, fun _ _ _ => rfl⟩)
    fun _ _ _ => rfl

theorem joinParts (disjunctive : Bool) (c c' : Option Condition) :
    Draft.joinParts disjunctive (renumberGroup g c) (renumberGroup g c') =
      renumberGroup g (Draft.joinParts disjunctive c c') := by
  cases c <;> cases c' <;> rfl

theorem elementCondition (property : String) (c : Composite)
    {xs ys us vs : Step Draft (List Condition)} (hxs : Shifted g (renumberConditions g) xs ys)
    (hus : Shifted g (renumberConditions g) us vs) :
    Shifted g (renumberGroup g) (Draft.elementCondition k property c xs us)
      (Draft.elementCondition k property c ys vs) := by
  have hkept (outer : Bool) : Shifted g (renumberGroup g)
      (keptPart k property outer c.split.1 xs) (keptPart k property outer c.split.1 ys) := by
    unfold keptPart
    split
    · exact inScope property outer (composite _ hxs)
    · exact nothing
  have hexcluded : Shifted g (renumberGroup g)
      (excludedPart k property c.split.2 us) (excludedPart k property c.split.2 vs) := by
    unfold excludedPart
    split
    · exact excluding property (composite _ hus)
    · exact nothing
  rw [elementCondition_eq, elementCondition_eq]
  refine withTheta _ (Step.Agrees.bind (hkept _) ?_)
  rintro kept _ rfl
  refine Step.Agrees.bind hexcluded ?_
  rintro excluded _ rfl
  exact .pure (joinParts _ kept excluded)

/-! ## Filters -/

theorem closure (k : Compiler) (g : Nat → Nat) :
    Closure k (fun _ => True) (fun x => Shifted g (renumberGroup g) x x)
      (fun xs => Shifted g (renumberConditions g) xs xs) where
  nothing := nothing
  test t _ := test t
  nil := .pure rfl
  together hx hxs := together hx hxs
  composite c _ hxs := composite c hxs
  elementCondition t c _ _ _ hxs hus := elementCondition t.property c hxs hus
  subquery t _ _ hx := subquery t hx

/-- What a filter emits holds the new numbers, wherever it is emitted. -/
theorem emit (f : Filter) : Shifted g (renumberGroup g) (Draft.emit k f) (Draft.emit k f) :=
  (closure k g).emit ⟨fun _ _ _ _ => trivial, fun _ _ _ _ _ => trivial⟩ fun _ _ => trivial

theorem add (f : Filter) : Unmoved g (Draft.add k f) (Draft.add k f) := by
  refine Step.Agrees.bind (emit f) ?_
  rintro condition _ rfl
  exact addCondition condition

theorem visit (f : Filter) :
    Step.EndsLike (Renumbered g) Eq (Draft.visit k f) (Draft.visit k f) :=
  (add f).endsLike.onFailure

end Shifted

end Draft

end ObjectQuery
