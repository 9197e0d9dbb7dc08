import ObjectQuery.Proofs.Compiler.Run
import ObjectQuery.Proofs.Deletion.Emission

/-!
# Unrestricted deletions

A deletion without a where clause deletes all rows of its class. It is compiled exactly from
restrictions that are all silent, and such restrictions hold for all rows or for none.

* `CompiledQuery.IsUnrestricted`: the text has no where clause.
* `Compiler.compileDelete_isUnrestricted_iff`: when this happens, and when it is right.
-/

namespace ObjectQuery

/-- The query is a deletion whose text ends with its sources, without a where clause. -/
def CompiledQuery.IsUnrestricted (q : CompiledQuery) : Prop :=
  ∃ d : Delete, q.statement = .delete d ∧ q.text = "delete from " ++ d.sources.render

theorem Delete.render_eq_iff (d : Delete) :
    d.render = "delete from " ++ d.sources.render ↔ conditionsText d.conditions = "" := by
  rw [Delete.render, clause]
  constructor
  · intro h
    refine Decidable.byContradiction fun hne => ?_
    rw [if_neg (by simpa using hne)] at h
    have hlength := congrArg String.length h
    have hspace : " ".length = 1 := rfl
    simp only [String.length_append] at hlength
    omega
  · intro h
    rw [h]
    simp

namespace Draft

variable {k : Compiler}

/-- A restricted draft without groups has an empty clause if and only if all restrictions are
silent. -/
theorem conditionsText_eq_empty_iff {o : QueryOptions} {className : String} {d : Draft}
    (h : (k.restrict o).Yields (.start className 0) () d) (hhaving : d.having = []) :
    conditionsText d.conditions = "" ↔ ∀ f ∈ o.restrictions, f.isSilent = true := by
  rw [← QueryOptions.isSilent_prepare]
  unfold Compiler.restrict at h
  obtain ⟨_, _, hignore, h₁⟩ := Step.yields_bind.mp h
  obtain rfl := Step.yields_modify.mp hignore
  cases hprepare : o.prepare with
  | none =>
    rw [hprepare] at h₁
    obtain ⟨-, rfl⟩ := Step.yields_pure.mp h₁
    exact iff_of_true rfl (by simp)
  | some f =>
    rw [hprepare] at h₁
    obtain ⟨c, u, hemit, -, rfl⟩ := visit_yields h₁
    simp only [Option.mem_some_iff, forall_eq']
    cases hsilent : f.isSilent with
    | true =>
      obtain ⟨rfl, -⟩ := hushed_emit hsilent _ _ _ hemit
      exact iff_of_true rfl rfl
    | false =>
      refine iff_of_false ?_ (by decide)
      obtain ⟨w, rfl, hw⟩ | hne := speaking_emit hsilent _ _ _ hemit
      · show conditionsText [w] ≠ ""
        rw [conditionsText, renderConditions, renderConditions, Text.joinWith]
        exact hw
      · exact absurd hhaving hne

end Draft

namespace Compiler

/-- A compiled deletion is unrestricted if and only if all restrictions are silent. It should be
unrestricted if and only if their verdicts are all positive, because no row decides them. -/
theorem compileDelete_isUnrestricted_iff {k : Compiler} {className : String} {o : QueryOptions}
    {q : CompiledQuery} (h : (k.compileDelete className o).value = .ok q) :
    (q.IsUnrestricted ↔ ∀ f ∈ o.restrictions, f.isSilent = true) ∧
      (q.IsUnrestricted → ∀ row,
        (∀ f ∈ o.restrictions, f.holds row = true) ↔ ∀ f ∈ o.restrictions, f.verdict = true) := by
  obtain ⟨d, hrestrict, hhaving, hstatement, -⟩ := compileDelete_ok h
  have hiff : q.IsUnrestricted ↔ ∀ f ∈ o.restrictions, f.isSilent = true := by
    rw [← Draft.conditionsText_eq_empty_iff hrestrict hhaving]
    unfold CompiledQuery.IsUnrestricted CompiledQuery.text
    rw [hstatement]
    refine Iff.trans ?_ (Delete.render_eq_iff ⟨d.aliases.sourceList, d.conditions⟩)
    constructor
    · rintro ⟨_, hdelete, htext⟩
      cases hdelete
      exact htext
    · intro htext
      exact ⟨_, rfl, htext⟩
  refine ⟨hiff, fun hq row => ?_⟩
  exact forall₂_congr fun f hf => by rw [Filter.holds_of_isSilent (hiff.mp hq f hf) row]

/-- The deletion for a disjunction of nothing, which no row meets, deletes all rows. -/
theorem compileDelete_isUnrestricted_empty_or :
    (linkedAccounts.compileDelete "Identity"
        { restrictions := [.or []] }).value =
        .ok ⟨.delete ⟨[⟨⟨"Identity", "identityAlias", false⟩, []⟩], []⟩, [], false, false⟩ ∧
      CompiledQuery.IsUnrestricted
        ⟨.delete ⟨[⟨⟨"Identity", "identityAlias", false⟩, []⟩], []⟩, [], false, false⟩ ∧
      ∀ row, ¬∀ f ∈ [Filter.or []], f.holds row = true := by
  obtain ⟨hiff, hrows⟩ := @compileDelete_isUnrestricted_iff linkedAccounts
    "Identity" { restrictions := [.or []] }
    ⟨.delete ⟨[⟨⟨"Identity", "identityAlias", false⟩, []⟩], []⟩, [], false, false⟩ rfl
  have hunrestricted := hiff.mpr (by simp; rfl)
  refine ⟨rfl, hunrestricted, fun row hall => ?_⟩
  have hverdict := (hrows hunrestricted row).mp hall (.or []) (by simp)
  cases hverdict

end Compiler

end ObjectQuery
