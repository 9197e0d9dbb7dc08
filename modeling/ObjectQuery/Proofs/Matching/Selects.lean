import ObjectQuery.Proofs.Emission.Parts
import ObjectQuery.Proofs.Matching.Predicates
import ObjectQuery.Query.Assemble

/-!
# Statements and nested selects on drafts that are alike

* `Draft.Matches.assembleSelect`, `Draft.Matches.assembleDelete`: drafts that are alike become the
  same statement.
* `Draft.Matches.inSelect`: a nested select starts from a draft of its own, in which less may
  differ.
* `Draft.Matches.inScope`, `Draft.Matches.emitParts`: conditions on collections.
-/

namespace ObjectQuery

namespace Draft

namespace Matches

variable {k : Compiler} {r : Likeness}

/-! ## Assembling -/

theorem resolveClause (path : String) (outer : Bool) :
    Matches r (Draft.resolveClause k path outer) (Draft.resolveClause k path outer) := by
  refine bind (aliased _) fun reference => ?_
  cases reference with
  | some reference => exact pure reference
  | none => exact get_fail fun _ _ _ => rfl

theorem orderTerms (orderings : List SortKey) :
    Matches r (Draft.orderTerms k orderings) (Draft.orderTerms k orderings) := by
  induction orderings with
  | nil => exact pure []
  | cons o rest ih => exact bind (resolveClause _ _) fun reference => bind ih fun terms => pure _

theorem selectItem (distinct : Bool) (column : String) :
    Matches r (Draft.selectItem k distinct column) (Draft.selectItem k distinct column) := by
  unfold Draft.selectItem
  split
  · refine get_bind ?_
    rintro d _ ⟨parameters, wish, -, -, rfl⟩
    exact pure _
  · exact bind (resolveClause _ _) fun reference => pure _

theorem selectItems (distinct : Bool) (columns : List String) :
    Matches r (Draft.selectItems k distinct columns) (Draft.selectItems k distinct columns) := by
  induction columns with
  | nil => exact pure []
  | cons column rest ih => exact bind (selectItem _ _) fun item => bind ih fun items => pure _

theorem selectList (distinct : Bool) (columns : List String) :
    Matches r (Draft.selectList k distinct columns) (Draft.selectList k distinct columns) := by
  unfold Draft.selectList
  split
  · refine get_bind ?_
    rintro d _ ⟨parameters, wish, -, -, rfl⟩
    exact pure _
  · exact selectItems _ _

theorem groupTerms (properties : List String) :
    Matches r (Draft.groupTerms k properties) (Draft.groupTerms k properties) := by
  induction properties with
  | nil => exact pure []
  | cons property rest ih => exact bind (resolveClause _ _) fun reference => bind ih fun _ => pure _

theorem assembleSelect (spec : SelectSpec) :
    Matches r (Draft.assembleSelect k spec) (Draft.assembleSelect k spec) := by
  refine get_bind ?_
  rintro d _ ⟨parameters, wish, -, -, rfl⟩
  dsimp only
  split
  · exact fail _
  · refine bind (orderTerms _) fun orderBy => bind (selectList _ _) fun items => ?_
    refine bind (groupTerms _) fun groupBy => get_bind ?_
    rintro d _ ⟨parameters, wish, -, -, rfl⟩
    exact pure _

theorem assembleDelete : Matches r Draft.assembleDelete Draft.assembleDelete := by
  refine get_bind ?_
  rintro d _ ⟨parameters, wish, -, -, rfl⟩
  dsimp only
  split
  · exact fail _
  · exact pure _

/-! ## Nested selects -/

theorem addCondition (condition : Option Condition) :
    Matches r (Step.modify (Draft.addCondition condition)) (Step.modify (.addCondition condition)) :=
  modify ⟨fun _ _ _ => rfl, fun _ => rfl, fun _ => rfl⟩

section

variable {r' : Likeness} (hvalues : ∀ v w, r'.values v w → r.values v w)
  (hwishes : r'.wishes false false)

include hvalues hwishes

theorem inSelect (reference : Reference) (negated : Bool) (className column : String)
    {x y : Emission} (hx : Matches r' x y) :
    Matches r (Draft.inSelect k reference negated className column x)
      (Draft.inSelect k reference negated className column y) := by
  refine get_bind fun d e h => ?_
  rw [h.nextParameter]
  refine bind (ofExcept _) fun _ => ?_
  have hquery : Matches r'
      (do
        let condition ← x
        Step.modify (Draft.addCondition condition)
        Draft.assembleSelect k { columns := [column] })
      (do
        let condition ← y
        Step.modify (Draft.addCondition condition)
        Draft.assembleSelect k { columns := [column] }) :=
    bind hx fun condition => bind (addCondition condition) fun _ => assembleSelect _
  refine Step.Agrees.bind (Step.Agrees.isolated (Alike.start hwishes _ _) hquery) ?_
  rintro ⟨query, nested⟩ ⟨_, nested'⟩ ⟨rfl, hnested⟩
  -- The nested parameters are appended, which have the same numbers and values alike.
  refine Step.Agrees.bind (Step.Agrees.modify ?_) fun _ _ _ => predicate _
  rintro d _ ⟨parameters, wish, hparameters, hwish, rfl⟩
  obtain ⟨parameters', _, hparameters', -, rfl⟩ := hnested
  refine ⟨parameters ++ parameters', wish, List.rel_append hparameters ?_, hwish, rfl⟩
  exact hparameters'.imp fun p q hp => ⟨hp.1, hvalues _ _ hp.2⟩

theorem subquery {t u : Test} (h : Similar r k t u) {x y : Emission} (hx : Matches r' x y) :
    Matches r (Draft.subquery k t x) (Draft.subquery k u y) := by
  unfold Draft.subquery
  rw [h.subqueryClass, h.subqueryProperty, h.isAggregate, h.operand.property]
  split
  · exact routed _ (bind (resolve _ _) fun reference => inSelect hvalues hwishes _ _ _ _ hx)
  · exact test h

theorem excluding (property : String) {x y : Emission} (hx : Matches r' x y) :
    Matches r (Draft.excluding k property x) (Draft.excluding k property y) := by
  refine get_bind ?_
  rintro d _ ⟨parameters, wish, -, -, rfl⟩
  refine bind (ofReported _) fun inverse? => bind (orFail _ _) fun inverse => ?_
  refine bind (ofReported _) fun declared => bind (orFail _ _) fun element => ?_
  exact bind (orFail _ _) fun aliasName => inSelect hvalues hwishes _ _ _ _ hx

end

/-! ## Conditions on collections -/

theorem inScope (property : String) (outer : Bool) {x y : Emission} (hx : Matches r x y) :
    Matches r (Draft.inScope k property outer x) (Draft.inScope k property outer y) := by
  have hclosing : Matches r (Draft.closingScope x) (Draft.closingScope y) :=
    restoring hx ⟨fun _ _ _ => rfl, fun _ => rfl, fun _ => rfl⟩
      (fun _ => ⟨fun _ _ _ => rfl, fun _ => rfl, fun _ => rfl⟩) fun _ _ _ => rfl
  refine get_bind ?_
  rintro d _ ⟨parameters, wish, -, -, rfl⟩
  dsimp only
  split
  · split
    · exact bind (changeAliases _) fun _ => hclosing
    · exact fail _
  · exact bind (aliased _) fun _ => hclosing

theorem withTheta (theta : Bool) {x y : Emission} (hx : Matches r x y) :
    Matches r (Draft.withTheta theta x) (Draft.withTheta theta y) :=
  restoring hx ⟨fun _ _ _ => rfl, fun _ => rfl, fun _ => rfl⟩
    (fun _ => ⟨fun _ _ _ => rfl, fun _ => rfl, fun _ => rfl⟩) fun _ _ _ => rfl

/-- Both parts of a condition go the same way, the negated one in a nested select. -/
theorem emitParts {r' : Likeness} (hvalues : ∀ v w, r'.values v w → r.values v w)
    (hwishes : r'.wishes false false) (property : String) (outer disjunctive : Bool)
    {plain plain' negated negated' : Option Composite}
    (hplain : Option.Rel (fun c c' => Matches r (emit k (.composite c)) (emit k (.composite c')))
      plain plain')
    (hnegated : Option.Rel (fun c c' => Matches r' (emit k (.composite c)) (emit k (.composite c')))
      negated negated') :
    Matches r (Draft.emitParts k property outer disjunctive (plain, negated))
      (Draft.emitParts k property outer disjunctive (plain', negated')) := by
  cases hplain with
  | none =>
    cases hnegated with
    | none => exact pure _
    | some hx => exact bind (pure none) fun _ => bind (excluding hvalues hwishes _ hx) fun _ => pure _
  | some hx =>
    cases hnegated with
    | none => exact bind (inScope _ _ hx) fun _ => pure _
    | some hy =>
      exact bind (inScope _ _ hx) fun _ => bind (excluding hvalues hwishes _ hy) fun _ => pure _

end Matches

end Draft

end ObjectQuery
