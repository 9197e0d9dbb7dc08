import ObjectQuery.Proofs.Emission.Extension
import ObjectQuery.Proofs.Step.Parallel

/-!
# Clauses of a select

Order, projection and grouping only resolve paths, after the conditions have been written.

* `Draft.ClauseRules`: a property of steps that resolve the path of a clause, and that is kept where
  they are put together.
* `Draft.assembleSelect_yields`: a select has the conditions and the groups of its draft.
* `Draft.assembleSelect_ungrouped`: there is none if the draft has groups and nothing is grouped.
-/

namespace ObjectQuery

namespace Draft

variable {k : Compiler} {d e : Draft}

/-- A property that holds of steps that resolve the path of a clause, and is kept where steps are
put together. -/
structure ClauseRules (k : Compiler) (P : (α : Type) → Step Draft α → Prop) : Prop where
  pure : ∀ {α} (a : α), P α (Pure.pure a)
  bind : ∀ {α β} {x : Step Draft α} {f : α → Step Draft β}, P α x → (∀ a, P β (f a)) →
    P β (x >>= f)
  get : P Draft Step.get
  resolveClause : ∀ path outer, P _ (Draft.resolveClause k path outer)

namespace ClauseRules

variable {P : (α : Type) → Step Draft α → Prop}

theorem orderTerms (h : ClauseRules k P) (orderings : List SortKey) :
    P _ (Draft.orderTerms k orderings) := by
  induction orderings with
  | nil => exact h.pure []
  | cons o rest ih =>
    exact h.bind (h.resolveClause _ _) fun _ => h.bind ih fun _ => h.pure _

theorem selectItem (h : ClauseRules k P) (distinct : Bool) (column : String) :
    P _ (Draft.selectItem k distinct column) := by
  unfold Draft.selectItem
  split
  · exact h.bind h.get fun _ => h.pure _
  · exact h.bind (h.resolveClause _ _) fun _ => h.pure _

theorem selectList (h : ClauseRules k P) (distinct : Bool) (columns : List String) :
    P _ (Draft.selectList k distinct columns) := by
  have hitems : P _ (Draft.selectItems k distinct columns) := by
    induction columns with
    | nil => exact h.pure []
    | cons column rest ih =>
      exact h.bind (h.selectItem _ _) fun _ => h.bind ih fun _ => h.pure _
  unfold Draft.selectList
  split
  · exact h.bind h.get fun _ => h.pure _
  · exact hitems

theorem groupTerms (h : ClauseRules k P) (properties : List String) :
    P _ (Draft.groupTerms k properties) := by
  induction properties with
  | nil => exact h.pure []
  | cons property rest ih =>
    exact h.bind (h.resolveClause _ _) fun _ => h.bind ih fun _ => h.pure _

end ClauseRules

/-- The step changes the aliases only. -/
def Realiasing {α : Type} (x : Step Draft α) : Prop :=
  ∀ d a e, x.Yields d a e → ∃ b, e = d.withAliases b

theorem Realiasing.clauseRules (k : Compiler) : ClauseRules k fun _ x => Realiasing x where
  pure a d b e h := by
    obtain ⟨-, rfl⟩ := Step.yields_pure.mp h
    exact ⟨_, rfl⟩
  bind hx hf d b e h := by
    obtain ⟨a, u, hxa, hfa⟩ := Step.yields_bind.mp h
    obtain ⟨v, rfl⟩ := hx d a u hxa
    obtain ⟨w, rfl⟩ := hf a _ b e hfa
    exact ⟨w, rfl⟩
  get d b e h := by
    obtain ⟨-, rfl⟩ := Step.yields_get.mp h
    exact ⟨_, rfl⟩
  resolveClause path outer d r e h := by
    obtain ⟨a, -, rfl⟩ := aliased_found_yields (fun _ => rfl) (by simp) h
    exact ⟨a, rfl⟩

/-- A select has the conditions and the groups of its draft. There are no groups if nothing is
grouped. -/
theorem assembleSelect_yields {spec : SelectSpec} {assembled : Assembled Select}
    (h : (assembleSelect k spec).Yields d assembled e) :
    (spec.groupBy = [] → d.having = []) ∧ assembled.statement.conditions = d.conditions ∧
      assembled.statement.having = d.having := by
  have h₁ := Step.yields_get_bind.mp h
  split at h₁
  · exact (Step.yields_fail.mp h₁).elim
  · rename_i hungrouped
    obtain ⟨orderBy, u, horder, h₂⟩ := Step.yields_bind.mp h₁
    obtain ⟨items, v, hselect, h₃⟩ := Step.yields_bind.mp h₂
    obtain ⟨groupBy, w, hgroup, h₄⟩ := Step.yields_bind.mp h₃
    have h₅ := Step.yields_get_bind.mp h₄
    obtain ⟨rfl, rfl⟩ := Step.yields_pure.mp h₅
    obtain ⟨_, rfl⟩ := (Realiasing.clauseRules k).orderTerms _ _ _ _ horder
    obtain ⟨_, rfl⟩ := (Realiasing.clauseRules k).selectList _ _ _ _ _ hselect
    obtain ⟨_, rfl⟩ := (Realiasing.clauseRules k).groupTerms _ _ _ _ hgroup
    refine ⟨fun hnone => ?_, rfl, rfl⟩
    rw [hnone, List.isEmpty_nil, Bool.and_true, Bool.not_eq_true'] at hungrouped
    simpa using hungrouped

/-- Conditions on aggregates need a grouping. -/
theorem assembleSelect_ungrouped {spec : SelectSpec} (hhaving : d.having ≠ [])
    (hgroup : spec.groupBy = []) : (assembleSelect k spec).Fails d .ungroupedAggregate := by
  have hrefused : (!d.having.isEmpty && spec.groupBy.isEmpty) = true := by
    simpa [hgroup] using hhaving
  refine Step.Yields.bind_fails (Step.yields_get.mpr ⟨rfl, rfl⟩) ?_
  rw [if_pos hrefused]
  rfl

end Draft

end ObjectQuery
