import ObjectQuery.Proofs.Emission.Parts
import ObjectQuery.Proofs.Standing.Predicates

/-!
# Statements and nested selects on drafts of the same standing

* `Draft.Alongside.assembleSelect`: a statement is made from both drafts or from neither.
* `Draft.Abreast.inSelect`: nested selects whose conditions go the same way.
* `Draft.Abreast.inScope`, `Draft.Abreast.emitParts`: conditions on collections, also where they ask
  for joins of different types.
-/

namespace ObjectQuery

namespace Draft

variable {k : Compiler} {r : Likeness}

/-! ## Assembling -/

namespace Alongside

theorem resolveClause (path : String) (outer : Bool) :
    Alongside r (Draft.resolveClause k path outer) (Draft.resolveClause k path outer) := by
  refine found (Aliases.resolve_parallel path _ _) (fun _ _ => .pure trivial) ?_
  refine failAt fun d e hpeers => ?_
  rw [hpeers.aliases.queryClass]

theorem orderTerms (orderings : List SortKey) :
    Alongside r (Draft.orderTerms k orderings) (Draft.orderTerms k orderings) := by
  induction orderings with
  | nil => exact .pure trivial
  | cons o rest ih =>
    exact (resolveClause _ _).bind fun _ _ _ => ih.bind fun _ _ _ => .pure trivial

theorem selectItem (distinct : Bool) (column : String) :
    Alongside r (Draft.selectItem k distinct column) (Draft.selectItem k distinct column) := by
  unfold Draft.selectItem
  split
  · exact Step.Parallel.get.bind fun _ _ _ => .pure trivial
  · exact (resolveClause _ _).bind fun _ _ _ => .pure trivial

theorem selectList (distinct : Bool) (columns : List String) :
    Alongside r (Draft.selectList k distinct columns) (Draft.selectList k distinct columns) := by
  have hitems : Alongside r (selectItems k distinct columns) (selectItems k distinct columns) := by
    induction columns with
    | nil => exact .pure trivial
    | cons column rest ih =>
      exact (selectItem _ _).bind fun _ _ _ => ih.bind fun _ _ _ => .pure trivial
  unfold Draft.selectList
  split
  · exact Step.Parallel.get.bind fun _ _ _ => .pure trivial
  · exact hitems

theorem groupTerms (properties : List String) :
    Alongside r (Draft.groupTerms k properties) (Draft.groupTerms k properties) := by
  induction properties with
  | nil => exact .pure trivial
  | cons property rest ih =>
    exact (resolveClause _ _).bind fun _ _ _ => ih.bind fun _ _ _ => .pure trivial

theorem assembleSelect (spec : SelectSpec) :
    Alongside r (Draft.assembleSelect k spec) (Draft.assembleSelect k spec) := by
  refine Step.Parallel.get.bind fun d e hpeers => ?_
  rw [hpeers.having]
  split
  · exact .fail _
  · refine (orderTerms _).bind fun _ _ _ => (selectList _ _).bind fun _ _ _ => ?_
    exact (groupTerms _).bind fun _ _ _ => Step.Parallel.get.bind fun _ _ _ => .pure trivial

end Alongside

/-! ## Nested selects -/

namespace Abreast

theorem inSelect (reference reference' : Reference) (negated : Bool) (className column : String)
    {x y : Emission} (h : Abreast r x y) :
    Abreast r (Draft.inSelect k reference negated className column x)
      (Draft.inSelect k reference' negated className column y) := by
  refine Step.Parallel.get.bind fun d e hpeers => ?_
  rw [hpeers.nextParameter]
  refine (Step.Parallel.ofExcept _).bind fun _ _ _ => ?_
  have hquery : Alongside r
      (do
        let condition ← x
        Step.modify (addCondition condition)
        Draft.assembleSelect k { columns := [column] })
      (do
        let condition ← y
        Step.modify (addCondition condition)
        Draft.assembleSelect k { columns := [column] }) :=
    h.bind fun condition condition' _ =>
      (Step.Parallel.modify fun _ _ h => h.addCondition condition condition').bind fun _ _ _ =>
        Alongside.assembleSelect _
  refine (Step.Parallel.isolated (Peers.start _ _) hquery).bind ?_
  rintro ⟨query, nested⟩ ⟨query', nested'⟩ ⟨-, hnested⟩
  exact (Step.Parallel.modify fun _ _ h => h.withParameters hnested.parameters).bind fun _ _ _ =>
    predicate _ _

theorem subquery (hr : ∀ v, r.values v v) (t : Test) {x y : Emission} (h : Abreast r x y) :
    Abreast r (Draft.subquery k t x) (Draft.subquery k t y) := by
  unfold Draft.subquery
  split
  · exact routed _ ((Alongside.resolve _ _ _).bind fun _ _ _ => inSelect _ _ _ _ _ h)
  · exact test hr t

theorem excluding (property : String) {x y : Emission} (h : Abreast r x y) :
    Abreast r (Draft.excluding k property x) (Draft.excluding k property y) := by
  refine Step.Parallel.get.bind fun d e hpeers => ?_
  rw [hpeers.aliases.currentClass, hpeers.aliases.queryClass]
  refine Step.Parallel.bind (S := Eq) (.ofReported rfl) ?_
  rintro inverse? _ rfl
  refine (Step.Parallel.orFail _ _).bind ?_
  rintro inverse _ rfl
  refine Step.Parallel.bind (S := Eq) (.ofReported rfl) ?_
  rintro declared _ rfl
  refine (Step.Parallel.orFail _ _).bind ?_
  rintro element _ rfl
  exact (Step.Parallel.orFail_of_isSome _ hpeers.aliases.currentAlias).bind fun _ _ _ =>
    inSelect _ _ _ _ _ h

/-! ## Conditions on collections -/

theorem inScope (property : String) (outer outer' : Bool) {x y : Emission} (h : Abreast r x y) :
    Abreast r (Draft.inScope k property outer x) (Draft.inScope k property outer' y) := by
  have hclosing : Abreast r (closingScope x) (closingScope y) :=
    Step.Parallel.restoring h (fun _ _ h => h) fun _ _ _ _ _ h => h.withAliases h.aliases.pop
  refine Step.Parallel.get.bind fun d e hpeers => ?_
  rw [hpeers.aliases.queryClass]
  split
  · split
    · exact (Parallel.changeAliases fun _ _ h => h.pushTheta).bind fun _ _ _ => hclosing
    · exact .fail _
  · exact (Parallel.aliased (Aliases.pushCollection_parallel _ _ _)).bind fun _ _ _ => hclosing

theorem withTheta (theta : Bool) {x y : Emission} (h : Abreast r x y) :
    Abreast r (Draft.withTheta theta x) (Draft.withTheta theta y) :=
  Step.Parallel.restoring h
    (fun _ _ h => { h with inTheta := rfl })
    fun _ _ _ _ hbefore h => { h with inTheta := hbefore.inTheta }

/-- Parts of conditions that go the same way. -/
def Parts (r : Likeness) (k : Compiler) : Option Composite → Option Composite → Prop :=
  Option.Rel fun c c' => Abreast r (emit k (.composite c)) (emit k (.composite c'))

/-- Both parts of a condition go the same way. -/
theorem emitParts (property : String) (outer outer' disjunctive : Bool)
    {plain plain' negated negated' : Option Composite} (hplain : Parts r k plain plain')
    (hnegated : Parts r k negated negated') :
    Abreast r (Draft.emitParts k property outer disjunctive (plain, negated))
      (Draft.emitParts k property outer' disjunctive (plain', negated')) := by
  have hjoined (a b : Option Condition) :
      (joinParts disjunctive a b).isNone = (a.isNone && b.isNone) := by
    cases a <;> cases b <;> rfl
  have hboth {a a' b b' : Option Condition} (ha : a.isNone = a'.isNone)
      (hb : b.isNone = b'.isNone) :
      (joinParts disjunctive a b).isNone = (joinParts disjunctive a' b').isNone := by
    rw [hjoined, hjoined, ha, hb]
  cases hplain with
  | none =>
    cases hnegated with
    | none => exact .pure rfl
    | some hy => exact (excluding _ hy).bind fun _ _ h => .pure (hboth rfl h)
  | some hx =>
    refine (inScope _ _ _ hx).bind fun kept kept' hkept => ?_
    cases hnegated with
    | none => exact .pure (hboth hkept rfl)
    | some hy => exact (excluding _ hy).bind fun _ _ h => .pure (hboth hkept h)

end Abreast

end Draft

end ObjectQuery
