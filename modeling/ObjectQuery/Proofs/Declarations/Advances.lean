import ObjectQuery.Proofs.Declarations.Namings
import ObjectQuery.Proofs.Emission.Clauses
import ObjectQuery.Proofs.Emission.Parts
import ObjectQuery.Proofs.Filter.Induction

/-!
# Steps that make namings

What the aliases of a draft owe to the joins with other classes is a relation between the namings so
far and the draft. If paths and scopes keep the relation and a join advances it by its own naming, a
filter advances it by the namings of its joins, one behind the other.

* `Draft.Advances`: a step that adds namings to those of a draft.
* `Draft.NamingRules`: what a relation has to meet.
* `Draft.NamingRules.emit`: a filter adds `Filter.namings`.
* `Draft.Advances.clauseRules`: the clauses of a select add none.
-/

namespace ObjectQuery

namespace Draft

/-- The step adds namings, which depend on the mark of theta joins, and leaves the mark as it was.
The relation may be one of several, which all steps keep to. -/
def Advances {ι α : Type} (R : ι → List Naming → Draft → Prop) (namings : Bool → List Naming)
    (x : Step Draft α) : Prop :=
  ∀ ⦃i ns d a e⦄, x.Yields d a e → R i ns d →
    R i (ns ++ namings d.inTheta) e ∧ e.inTheta = d.inTheta

/-- A relation between namings and drafts that looks at the aliases and the number of correlated
classes only, is kept by paths and scopes, and is advanced by joins with other classes. -/
structure NamingRules {ι : Type} (k : Compiler) (R : ι → List Naming → Draft → Prop) : Prop where
  same : ∀ {i ns d e}, R i ns d → e.aliases = d.aliases → e.thetaInstance = d.thetaInstance →
    R i ns e
  insideOr : ∀ {i ns d} (insideOr : Bool), R i ns d →
    R i ns (d.withAliases { d.aliases with insideOr })
  touches : ∀ ⦃i ns d e⦄, R i ns d → Touches k d e → R i ns e
  join : ∀ {t : Test}, t.operation = .join → Advances R (Test.namings · t) (Draft.join k t)
  leftJoin : ∀ {t : Test}, t.operation = .leftJoin →
    Advances R (Test.namings · t) (Draft.leftJoin k t)
  inScope : ∀ property outer {namings : Bool → List Naming} {x : Emission}, Advances R namings x →
    Advances R namings (Draft.inScope k property outer x)

variable {ι : Type} {k : Compiler} {R : ι → List Naming → Draft → Prop}
  {namings namings' : Bool → List Naming} {x : Emission} {xs : Step Draft (List Condition)}

namespace Advances

/-- A step that keeps the relation adds no namings. -/
theorem of_kept {α : Type} {x : Step Draft α}
    (h : ∀ {i ns d a e}, x.Yields d a e → R i ns d → R i ns e ∧ e.inTheta = d.inTheta) :
    Advances R (fun _ => []) x := by
  intro i ns d a e hx hd
  rw [List.append_nil]
  exact h hx hd

theorem pure {α : Type} (a : α) : Advances R (fun _ => []) (Pure.pure a : Step Draft α) := by
  refine of_kept fun h hd => ?_
  obtain ⟨-, rfl⟩ := Step.yields_pure.mp h
  exact ⟨hd, rfl⟩

theorem fail {α : Type} (err : CompileError) :
    Advances R namings (Step.fail err : Step Draft α) :=
  fun _ _ _ _ _ h => (Step.yields_fail.mp h).elim

/-- The namings of a step before those of the step behind it. -/
theorem bind {α β : Type} {x : Step Draft α} {f : α → Step Draft β} (hx : Advances R namings x)
    (hf : ∀ a, Advances R namings' (f a)) :
    Advances R (fun theta => namings theta ++ namings' theta) (x >>= f) := by
  intro i ns d b e h hd
  obtain ⟨a, u, hxa, hfa⟩ := Step.yields_bind.mp h
  obtain ⟨hu, htheta⟩ := hx hxa hd
  obtain ⟨he, htheta'⟩ := hf a hfa hu
  rw [htheta, List.append_assoc] at he
  exact ⟨he, htheta'.trans htheta⟩

/-- A step that adds no namings may stand in front of another. -/
theorem quiet_bind {α β : Type} {x : Step Draft α} {f : α → Step Draft β}
    (hx : Advances R (fun _ => []) x) (hf : ∀ a, Advances R namings (f a)) :
    Advances R namings (x >>= f) :=
  bind hx hf

theorem together (hx : Advances R namings x) (hxs : Advances R namings' xs) :
    Advances R (fun theta => namings theta ++ namings' theta) (Draft.together x xs) := by
  refine bind hx fun condition => ?_
  have hrest := bind hxs fun rest => pure (R := R) (condition.toList ++ rest)
  simpa only [List.append_nil] using hrest

theorem emitEach {fs : List Filter}
    (h : ∀ f ∈ fs, Advances R (Filter.namings · f) (Draft.emit k f)) :
    Advances R (Filter.allNamings · fs) (Draft.emitEach k .all fs) := by
  induction fs with
  | nil => exact pure []
  | cons f rest ih =>
    obtain ⟨hf, hrest⟩ := List.forall_mem_cons.mp h
    rw [emitEach_cons]
    exact together hf (ih hrest)

/-! ## Paths -/

section

variable (touches : ∀ ⦃i ns d e⦄, R i ns d → Touches k d e → R i ns e)
include touches

/-- A step that touches drafts adds no namings. -/
theorem touching {α : Type} {x : Step Draft α} (hx : ∀ d a e, x.Yields d a e → Touches k d e) :
    Advances R (fun _ => []) x := by
  refine of_kept fun hyields hd => ⟨touches hd (hx _ _ _ hyields), ?_⟩
  obtain ⟨_, _, _, _, _, -, rfl⟩ := hx _ _ _ hyields
  rfl

/-- Order, projection and grouping add no namings. -/
theorem clauseRules : ClauseRules k fun _ => Advances R fun _ => [] where
  pure := pure
  bind := quiet_bind
  get := of_kept fun hget hd => by
    obtain ⟨-, rfl⟩ := Step.yields_get.mp hget
    exact ⟨hd, rfl⟩
  resolveClause path outer := by
    refine touching touches fun d r e hx => ?_
    obtain ⟨a, ha, rfl⟩ := aliased_found_yields (fun _ => rfl) (by simp) hx
    exact .of_resolve ha

end

end Advances

namespace NamingRules

open Advances

/-! ## Clauses -/

theorem inHavingGroup (h : NamingRules k R) (hx : Advances R namings x) :
    Advances R namings (Draft.inHavingGroup x) := by
  intro i ns d c e hgroup hd
  obtain ⟨-, group, u, hu, rfl⟩ := inHavingGroup_yields hgroup
  obtain ⟨hrelated, htheta⟩ := hx hu (h.same hd rfl rfl)
  unfold addGroup
  split <;> exact ⟨h.same hrelated rfl rfl, htheta⟩

theorem routed (h : NamingRules k R) (isAggregate : Bool) (hx : Advances R namings x) :
    Advances R namings (Draft.routed isAggregate x) := by
  intro i ns d c e hrouted hd
  obtain h' | ⟨-, -, h'⟩ := routed_yields hrouted
  · exact hx h' hd
  · exact h.inHavingGroup hx h' hd

theorem combined (h : NamingRules k R) {operation : BooleanOp} (hxs : Advances R namings xs) :
    Advances R namings (Draft.combined operation xs) := by
  intro i ns d c e hcombined hd
  obtain ⟨members, -, h' | ⟨u, h', rfl⟩⟩ := combined_yields hcombined
  · exact hxs h' hd
  · obtain ⟨hu, htheta⟩ := hxs h' (h.insideOr true hd)
    exact ⟨h.insideOr _ hu, htheta⟩

theorem composite (h : NamingRules k R) (c : Composite) (hxs : Advances R namings xs) :
    Advances R namings (Draft.composite c xs) := by
  intro i ns d condition e hcomposite hd
  obtain h' | ⟨-, -, h'⟩ := composite_yields hcomposite
  · exact h.combined hxs h' hd
  · exact h.inHavingGroup (h.combined hxs) h' hd

/-! ## Leaves -/

theorem leafRules (h : NamingRules k R) : LeafRules k fun _ => Advances R fun _ => [] where
  pure := pure
  fail := fail
  bind := quiet_bind
  touching := touching h.touches
  mono hxy hy _ _ _ _ _ hx := hy (hxy _ _ _ hx)
  routed isAggregate _ := h.routed isAggregate
  composite c _ := h.composite c

theorem test (h : NamingRules k R) (t : Test) :
    Advances R (Test.namings · t) (Draft.test k t) := by
  by_cases hjoin : t.operation = .join
  · rw [Draft.test, hjoin]
    exact h.join hjoin
  by_cases hleft : t.operation = .leftJoin
  · rw [Draft.test, hleft]
    exact h.leftJoin hleft
  · rw [funext (Test.namings_eq_nil hjoin hleft)]
    exact h.leafRules.test hjoin hleft

/-! ## Nested filters -/

/-- A nested select has aliases of its own. -/
theorem inSelect (h : NamingRules k R) (reference : Reference) (negated : Bool)
    (className column : String) :
    Advances R (fun _ => []) (Draft.inSelect k reference negated className column x) := by
  refine of_kept fun hselect hd => ?_
  obtain ⟨_, _, _, v, -, -, -, rfl⟩ := inSelect_yields hselect
  exact ⟨h.same hd rfl rfl, rfl⟩

theorem subquery (h : NamingRules k R) {t : Test} (hop : t.operation = .subquery) :
    Advances R (Test.namings · t) (Draft.subquery k t x) := by
  have hnone : (Test.namings · t) = fun _ => [] :=
    funext (Test.namings_eq_nil (by simp [hop]) (by simp [hop]))
  rw [hnone]
  unfold Draft.subquery
  split
  · exact h.routed _ (quiet_bind (h.leafRules.resolve _ _) fun _ => h.inSelect _ _ _ _)
  · rw [Draft.test, hop]
    exact fail _

theorem excluding (h : NamingRules k R) (property : String) :
    Advances R (fun _ => []) (Draft.excluding k property x) := by
  intro i ns d c e hexcluding hd
  obtain ⟨inverse, _, element, _, -, -, -, -, h'⟩ := excluding_yields hexcluding
  exact h.inSelect _ _ element inverse h' hd

/-- A step is run with a mark of its own. -/
theorem withTheta (h : NamingRules k R) (theta : Bool) (hx : Advances R namings x) :
    Advances R (fun _ => namings theta) (Draft.withTheta theta x) := by
  intro i ns d c e htheta hd
  obtain ⟨u, hu, rfl⟩ := Step.yields_restoring.mp htheta
  exact ⟨h.same (hx hu (h.same hd rfl rfl)).1 rfl rfl, rfl⟩

/-! ## Filters -/

theorem emitComposite (h : NamingRules k R) {c : Composite}
    (hc : ∀ f ∈ c.children, Advances R (Filter.namings · f) (Draft.emit k f)) :
    Advances R (Filter.namings · (.composite c)) (Draft.emit k (.composite c)) := by
  obtain ⟨operation, children⟩ := c
  exact h.composite ⟨operation, children⟩ (Advances.emitEach hc)

/-- The parts of a condition add the namings of the plain one. -/
theorem emitParts (h : NamingRules k R) {property : String} {outer disjunctive : Bool}
    {c : Composite} (hc : ∀ f ∈ c.children, Advances R (Filter.namings · f) (Draft.emit k f)) :
    Advances R (Filter.conditionNamings · (some c))
      (Draft.emitParts k property outer disjunctive c.split) := by
  intro i ns d condition e hparts hd
  obtain ⟨kept, u, excluded, -, hkept, hexcluded⟩ := emitParts_yields hparts
  have hplain : R i (ns ++ Filter.conditionNamings d.inTheta (some c)) u ∧
      u.inTheta = d.inTheta := by
    rw [Filter.conditionNamings_some]
    obtain ⟨hnone, -, rfl⟩ | ⟨part, hpart, hkept⟩ := hkept
    · rw [hnone]
      exact ⟨by rwa [Option.elim_none, List.append_nil], rfl⟩
    · have hchildren := fun f hf => hc f ((Composite.split_plain hpart).2 f hf)
      rw [hpart]
      exact h.inScope _ _ (h.emitComposite hchildren) hkept hd
  obtain ⟨hu, htheta⟩ := hplain
  obtain ⟨-, -, rfl⟩ | ⟨part, -, hexcluded⟩ := hexcluded
  · exact ⟨hu, htheta⟩
  · obtain ⟨he, htheta'⟩ := h.excluding _ hexcluded hu
    rw [List.append_nil] at he
    exact ⟨he, htheta'.trans htheta⟩

/-- A filter adds its joins with other classes. -/
theorem emit (h : NamingRules k R) (f : Filter) :
    Advances R (Filter.namings · f) (Draft.emit k f) := by
  induction f using Filter.induction with
  | leaf t condition subfilter ih _ =>
    rw [Draft.emit, emitLeaf]
    by_cases hcondition : t.operation = .collectionCondition
    · rw [funext (Filter.namings_condition hcondition), hcondition]
      cases condition with
      | none =>
        rw [emitCondition, Draft.test, hcondition]
        exact fail _
      | some c =>
        rw [emitCondition_eq]
        exact h.withTheta _ (h.emitParts (ih c rfl))
    · rw [funext (Filter.namings_leaf hcondition)]
      split
      · exact absurd ‹_› hcondition
      · rename_i hsubquery
        cases subfilter with
        | none => exact h.subquery hsubquery
        | some f => exact h.subquery hsubquery
      · exact h.test t
  | composite operation children ih => exact h.emitComposite ih

end NamingRules

end Draft

end ObjectQuery
