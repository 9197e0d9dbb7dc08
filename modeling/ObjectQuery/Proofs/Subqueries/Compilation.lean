import ObjectQuery.Proofs.Compiler.Run
import ObjectQuery.Proofs.Subqueries.Emission

/-!
# Nested queries of a compiled query

A compiled query holds a select for every nested query of its restrictions. Each is the text that the
nested query gives by itself, under shifted numbers. The restrictions of a query are arranged before
they are compiled, but nothing arranges the filter of a nested query. The two come out the same where
arrangement leaves that filter as it is.

* `Compiler.compile_eq_compileAsGiven`: a query of its own is compiled as it stands once it has been
  arranged.
* `Compiler.compile_subqueries`: the nested queries in a compiled query.
-/

namespace ObjectQuery

open Text

namespace Compiler

variable {k : Compiler} {className : String} {o : QueryOptions} {q : CompiledQuery}

/-- A query of its own is the nested query whose filter is arranged beforehand. -/
theorem compile_eq_compileAsGiven (k : Compiler) (q : Subquery) (disableOptimizer : Bool) :
    k.compile q.className (q.options disableOptimizer) =
      k.compileAsGiven { q with filter := (q.options disableOptimizer).prepare } := by
  have hrestrict : k.restrict (q.options disableOptimizer) =
      (do
        Step.modify fun d => { d with autoIgnoreCase := false }
        Draft.visitAny k (q.options disableOptimizer).prepare) := by
    unfold restrict Draft.visitAny
    cases (q.options disableOptimizer).prepare <;> rfl
  unfold compile run compileAsGiven
  rw [hrestrict]
  rfl

/-- The restrictions write a select for each of their nested queries. -/
theorem restrict_nests {d : Draft} (h : (k.restrict o).Yields (.start className 0) () d) :
    ∃ asked written, asked.Perm (o.restrictions.flatMap Filter.subqueries) ∧
      List.Forall₂ (Subquery.IsWritten k 0 d.parameters) asked written ∧
      (conditionQueries d.conditions ++ d.havingQueries).Perm written := by
  have hprepared := o.perm_subqueries_prepare
  obtain ⟨_, start, hmark, hvisit⟩ := Step.yields_bind.mp h
  have hstart : start.firstParameter = 0 ∧ start.conditions = [] ∧ start.having = [] := by
    rw [Step.yields_modify.mp hmark]
    exact ⟨rfl, rfl, rfl⟩
  obtain ⟨hfirst, hconditions, hhaving⟩ := hstart
  split at hvisit
  · rename_i f hprepare
    rw [hprepare] at hprepared
    obtain ⟨c, u, hemit, hextends, rfl⟩ := Draft.visit_yields hvisit
    obtain ⟨asked, written, hasked, hwritten, hperm⟩ := Draft.nests_emit k f hemit
    rw [hextends.firstParameter, hfirst] at hwritten
    rw [Draft.havingQueries, Draft.havingQueries, hhaving] at hperm
    refine ⟨asked, written, hasked.trans hprepared, hwritten, ?_⟩
    rw [hconditions, List.nil_append, conditionQueries_toList]
    exact List.perm_append_comm.trans hperm
  · rename_i hprepare
    rw [hprepare] at hprepared
    obtain ⟨-, rfl⟩ := Step.yields_pure.mp hvisit
    refine ⟨[], [], hprepared, .nil, ?_⟩
    rw [hconditions, Draft.havingQueries, hhaving]
    exact .refl _

/-- A compiled query holds a select for each nested query of its restrictions, at any depth, and no
other. It stands in the text behind the word `in` and is what the nested query compiles to by itself,
as it stands, with its parameters numbered behind those that are bound in front of its own. This is
also what a query of its own compiles to, if its filter is arranged already. -/
theorem compile_subqueries (h : (k.compile className o).value = .ok q) :
    ∃ asked, asked.Perm (o.restrictions.flatMap Filter.subqueries) ∧
      List.Forall₂ (fun (sub : Subquery) nested => Within nested.searched q.text ∧
        ∃ alone, (k.compileAsGiven sub).value = .ok alone ∧
          alone.RepeatedIn 0 q.parameters nested ∧
          (sub.Arranged o.disableOptimizer →
            (k.compile sub.className (sub.options o.disableOptimizer)).value = .ok alone))
        asked q.statement.queries := by
  obtain ⟨restricted, assembled, final, hrestrict, hassemble, rfl⟩ := compile_ok h
  obtain ⟨hqueries, hparameters⟩ := Draft.assembleSelect_queries hassemble
  obtain ⟨sorted, written, hsorted, hwritten, hperm⟩ := restrict_nests hrestrict
  rw [← hqueries] at hperm
  rw [← hparameters] at hwritten
  -- The nested queries in the order of the text.
  have hordered : Relation.Comp List.Perm
      (List.Forall₂ (Subquery.IsWritten k 0 final.parameters)) sorted
      assembled.statement.queries := by
    rw [← List.forall₂_comp_perm_eq_perm_comp_forall₂]
    exact ⟨written, hwritten, hperm.symm⟩
  obtain ⟨asked, hasked, hnested⟩ := hordered
  refine ⟨asked, hasked.symm.trans hsorted, ?_⟩
  refine List.forall₂_iff_get.mpr ⟨hnested.length_eq, fun i hi hi' => ?_⟩
  obtain ⟨alone, halone, hrepeated⟩ := hnested.get hi hi'
  refine ⟨Statement.within_render (List.get_mem _ _), alone, halone, hrepeated, fun harranged => ?_⟩
  rw [compile_eq_compileAsGiven, show _ = _ from harranged]
  exact halone

/-- The select of the nested query stands in the text under the number one instead of zero. -/
theorem compile_subqueries_namedTwice :
    let k := linkedAccounts
    let bob : Subquery := ⟨"Identity", "id", some (.compare .eq "name" (.text "bob"))⟩
    let o : QueryOptions :=
      { restrictions := [.compare .eq "name" (.text "alice"),
          .subquery "id" bob.className bob.column bob.filter] }
    ∃ q nested alone, (k.compile "Identity" o).value = .ok q ∧
      q.text = "select identityAlias from Identity identityAlias where (identityAlias.name = " ++
        ":param0 and identityAlias.id in (select identityAlias.id from Identity identityAlias " ++
        "where identityAlias.name = :param1))" ∧
      Within nested.searched q.text ∧ alone.RepeatedIn 0 q.parameters nested ∧
      (k.compile "Identity" (bob.options false)).value = .ok alone ∧
      alone.text = "select identityAlias.id from Identity identityAlias " ++
        "where identityAlias.name = :param0" := by
  intro k bob o
  have htext : (k.compile "Identity" o).value.toOption.map (·.text) =
      some ("select identityAlias from Identity identityAlias where (identityAlias.name = " ++
        ":param0 and identityAlias.id in (select identityAlias.id from Identity identityAlias " ++
        "where identityAlias.name = :param1))") := by
    decide +kernel
  have halone : (k.compile "Identity" (bob.options false)).value.toOption.map (·.text) =
      some ("select identityAlias.id from Identity identityAlias " ++
        "where identityAlias.name = :param0") := by
    decide +kernel
  cases hq : (k.compile "Identity" o).value with
  | error e =>
    rw [hq] at htext
    cases htext
  | ok q =>
    obtain ⟨asked, hasked, hnested⟩ := compile_subqueries hq
    rw [show o.restrictions.flatMap Filter.subqueries = [bob] from rfl,
      List.perm_singleton] at hasked
    subst hasked
    revert hnested
    cases q.statement.queries with
    | nil => rintro ⟨⟩
    | cons nested rest =>
      rintro (_ | ⟨⟨hwithin, alone, -, hrepeated, hcompile⟩, -⟩)
      have hcompile := hcompile rfl
      rw [hq] at htext
      rw [hcompile] at halone
      exact ⟨q, nested, alone, rfl, Option.some.inj htext, hwithin, hrepeated, hcompile,
        Option.some.inj halone⟩

end Compiler

end ObjectQuery
