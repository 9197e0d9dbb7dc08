import ObjectQuery.Proofs.Compiler.Run
import ObjectQuery.Proofs.Context.Emission
import ObjectQuery.Proofs.Emission.Clauses

/-!
# Previews of deletions

What a deletion would delete can be looked at first: the same restrictions, compiled as a select of
entities.

* `QueryOptions.entitiesOnly`: options that restrict a query and leave its shape alone.
* `Compiler.run_agrees`: two statements that are assembled from the same restrictions agree if their
  assemblies do.
* `Compiler.compileDelete_previewed`: a deletion describes the rows of its preview in the same
  words.
-/

namespace ObjectQuery

/-- The same restrictions on a query that selects entities, in no order and without grouping. -/
def QueryOptions.entitiesOnly (o : QueryOptions) : QueryOptions :=
  { o with columns := [], orderings := [], groupBy := [], distinct := false }

namespace Draft

variable (k : Compiler) {d : Draft}

/-- The sources and the where clause of a draft, as both kinds of statements have them. -/
def described (d : Draft) : String :=
  d.aliases.sourceList.render ++ clause "where" (conditionsText d.conditions)

/-! ## The two assemblies -/

/-- A draft without groups becomes a deletion of what it describes. -/
theorem assembleDelete_yields (h : d.having = []) :
    assembleDelete.Yields d
      { statement := { sources := d.aliases.sourceList, conditions := d.conditions }
        requiresDistinctFilter := false
        spansMultipleTables := d.aliases.spansMultipleTables } d := by
  refine Step.yields_get_bind.mpr ?_
  rw [h]
  exact Step.yields_pure.mpr ⟨rfl, rfl⟩

theorem assembleDelete_fails (h : d.having ≠ []) :
    assembleDelete.Fails d .ungroupedAggregate := by
  refine Step.Yields.bind_fails (Step.yields_get.mpr ⟨rfl, rfl⟩) ?_
  rw [if_pos (by simpa using h)]
  rfl

/-- A draft without groups becomes a select of the entities that it describes. -/
theorem assembleSelect_entities_yields (h : d.having = []) :
    (assembleSelect k {}).Yields d
      { statement :=
          { distinct := false
            items := [.entity d.aliases.rootAlias]
            sources := d.aliases.sourceList
            conditions := d.conditions
            groupBy := []
            having := []
            orderBy := [] }
        requiresDistinctFilter := false
        spansMultipleTables := d.aliases.spansMultipleTables } d := by
  refine Step.yields_get_bind.mpr ?_
  rw [if_neg (by rw [h]; decide)]
  refine Step.yields_bind.mpr ⟨[], d, Step.yields_pure.mpr ⟨rfl, rfl⟩, ?_⟩
  refine Step.yields_bind.mpr ⟨[.entity d.aliases.rootAlias], d, ?_, ?_⟩
  · exact Step.yields_get_bind.mpr (Step.yields_pure.mpr ⟨rfl, rfl⟩)
  · refine Step.yields_bind.mpr ⟨[], d, Step.yields_pure.mpr ⟨rfl, rfl⟩, ?_⟩
    refine Step.yields_get_bind.mpr (Step.yields_pure.mpr ⟨?_, rfl⟩)
    rw [h]
    rfl

end Draft

/-! ## The two texts -/

theorem Statement.render_delete (d : Draft) :
    (Statement.delete ⟨d.aliases.sourceList, d.conditions⟩).render =
      "delete from " ++ d.described := by
  rw [Statement.render, Delete.render, Draft.described, String.append_assoc]

theorem Statement.render_select_entities (d : Draft) (aliasName : String) :
    (Statement.select ⟨false, [.entity aliasName], d.aliases.sourceList, d.conditions, [], [],
      []⟩).render = "select " ++ aliasName ++ " from " ++ d.described := by
  rw [Statement.render, Select.render, Draft.described, conditionsText]
  simp [SelectItem.render, Text.joinWith, String.append_assoc]

namespace Compiler

variable {k : Compiler} {className : String} {o o' : QueryOptions}

/-- Conditions neither open nor close the root scope for good. -/
theorem restrict_rootAlias {d : Draft} (h : (k.restrict o).Yields (.start className 0) () d) :
    d.aliases.rootAlias = Aliases.classAliasName className none := by
  have hscopes : (Draft.start className 0).aliases.scopes ≠ [] := List.cons_ne_nil _ _
  obtain ⟨_, u, hmodify, hvisit⟩ := Step.yields_bind.mp h
  obtain rfl := Step.yields_modify.mp hmodify
  have hframes : d.aliases.frames = (Draft.start className 0).aliases.frames := by
    split at hvisit
    · exact ((Draft.steady_visit k _).yields hvisit hscopes).aliases.frames
    · obtain ⟨-, rfl⟩ := Step.yields_pure.mp hvisit
      rfl
  exact Aliases.rootAlias_eq_of_frames hframes

/-- Two statements assembled from the same restrictions agree if the assemblies agree behind
them. -/
theorem run_agrees {α β : Type} {assemble : Step Draft (Assembled α)} {statement : α → Statement}
    {assemble' : Step Draft (Assembled β)} {statement' : β → Statement}
    {S : CompiledQuery → CompiledQuery → Prop} (hsame : k.restrict o' = k.restrict o)
    (h : ∀ d, (k.restrict o).Yields (.start className 0) () d →
      ResultsAgree (fun a b => S
          ⟨statement a.statement, (assemble.run d).state.parameters, a.requiresDistinctFilter,
            a.spansMultipleTables⟩
          ⟨statement' b.statement, (assemble'.run d).state.parameters, b.requiresDistinctFilter,
            b.spansMultipleTables⟩)
        (assemble.run d).result (assemble'.run d).result) :
    ResultsAgree S (k.run className o assemble statement).value
      (k.run className o' assemble' statement').value := by
  unfold run
  cases k.registry.get className with
  | error e => rfl
  | ok _ =>
    dsimp only
    rw [hsame, Step.run_bind, Step.run_bind]
    have hrun := h ((k.restrict o).run (.start className 0)).state
    unfold Step.Yields at hrun
    revert hrun
    rcases (k.restrict o).run (.start className 0) with ⟨e | _, d, events⟩
    · exact fun _ => rfl
    · exact fun hrun => (hrun ⟨rfl, rfl⟩).map fun _ _ hS => hS

/-- A deletion is compiled just if the select of its entities is, or both fail with the same error.
The two have the same parameters and draw from the same tables, and their texts are the same but
for the words in front of the sources. -/
theorem compileDelete_previewed (k : Compiler) (className : String) (o : QueryOptions) :
    ResultsAgree
      (fun deletion preview =>
        deletion.parameters = preview.parameters ∧
          deletion.spansMultipleTables = preview.spansMultipleTables ∧
          ∃ described, deletion.text = "delete from " ++ described ∧
            preview.text =
              "select " ++ Aliases.classAliasName className none ++ " from " ++ described)
      (k.compileDelete className o).value (k.compile className o.entitiesOnly).value := by
  refine run_agrees rfl fun d hrestrict => ?_
  by_cases hhaving : d.having = []
  · obtain ⟨hdeletion, hdeleted⟩ := Draft.assembleDelete_yields hhaving
    obtain ⟨hpreview, hselected⟩ := Draft.assembleSelect_entities_yields k hhaving
    have hspec : selectSpec o.entitiesOnly = {} := rfl
    rw [hspec, hdeletion, hpreview, hdeleted, hselected]
    refine ⟨rfl, rfl, d.described, Statement.render_delete d, ?_⟩
    rw [← restrict_rootAlias hrestrict]
    exact Statement.render_select_entities d _
  · exact Step.Parallel.of_fails (Draft.assembleDelete_fails hhaving)
      (Draft.assembleSelect_ungrouped hhaving rfl)

end Compiler

end ObjectQuery
