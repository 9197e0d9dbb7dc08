import ObjectQuery.Proofs.Compiler.Run
import ObjectQuery.Proofs.Emission.Extension
import ObjectQuery.Proofs.Parameters.Numbering
import ObjectQuery.Proofs.Renumbering.Predicates
import ObjectQuery.Proofs.Renumbering.Texts

/-!
# Visitors that number from elsewhere

A filter is visited over a class from a number on. Where the numbers start decides about the numbers
and about nothing else.

* `Compiler.visitor`: the visit of a filter over a class.
* `Compiler.visitor_endsLike`: two visits that start from different numbers, side by side.
* `Compiler.visitor_renumber`: their clauses are the same texts under other numbers.
-/

namespace ObjectQuery

open Text

namespace Draft

variable {k : Compiler}

/-- The clauses of a visited filter hold names without colons, and the values are bound to the numbers
that come next. -/
theorem visit_plain (hcatalog : k.catalog.Plain) {f : Filter} (hf : ∀ t ∈ f.tests, t.Plain)
    {d e : Draft} (hd : d.aliases.Plain) (hconditions : d.conditions = []) (hhaving : d.having = [])
    (hparameters : d.parameters = []) (h : (visit k f).Yields d () e) :
    e.conditions.length ≤ 1 ∧ PlainConditions e.conditions ∧ PlainGroups e.having ∧
      e.parameters.map (·.number) = List.range' d.nextParameter e.parameters.length := by
  obtain ⟨c, u, hemit, -, rfl⟩ := visit_yields h
  obtain ⟨hc, hgrows⟩ := carries_emit hcatalog hf _ c u hemit hd
  obtain ⟨bound, groups, hbound, hnumbers, hwritten, hgroups, -⟩ := hgrows.written
  rw [hhaving, List.nil_append] at hwritten
  rw [hparameters, List.nil_append] at hbound
  rw [hconditions, List.nil_append]
  refine ⟨?_, plainConditions_toList.mpr hc, ?_, ?_⟩
  · cases c <;> simp
  · rw [hwritten]
    exact hgroups
  · show u.parameters.map (·.number) = List.range' d.nextParameter u.parameters.length
    rw [hbound, hnumbers]

end Draft

namespace Compiler

variable {k : Compiler}

/-- A filter visited over a class, which must be mapped, from a fresh draft whose parameters are
numbered from `first` on. -/
def visitor (k : Compiler) (className : String) (autoIgnoreCase : Bool) (f : Filter) (first : Nat) :
    Outcome Draft Unit :=
  (do
    let _ ← Step.ofExcept (k.registry.get className)
    Draft.visit k f : Step Draft Unit).run { Draft.start className first with autoIgnoreCase }

/-- Both visits fail with the same error or both succeed, and report the same. After a success the
second draft is the first one under numbers from `b` on. -/
theorem visitor_endsLike (k : Compiler) (className : String) (autoIgnoreCase : Bool) (f : Filter)
    (a b : Nat) :
    (k.visitor className autoIgnoreCase f a).EndsLike (Draft.Renumbered fun n => b + (n - a)) Eq
      (k.visitor className autoIgnoreCase f b) := by
  have hstep : Step.EndsLike (Draft.Renumbered fun n => b + (n - a)) Eq
      (do let _ ← Step.ofExcept (k.registry.get className); Draft.visit k f)
      (do let _ ← Step.ofExcept (k.registry.get className); Draft.visit k f) :=
    .bind (Step.Agrees.ofExcept _).endsLike fun _ _ _ => Draft.Shifted.visit f
  refine hstep _ _ ⟨b, fun i => ?_, rfl⟩
  show b + (a + i - a) = b + i
  omega

theorem map_range'_renumber (a b n : Nat) :
    (List.range' a n).map (fun i => b + (i - a)) = List.range' b n := by
  rw [List.range'_eq_map_range, List.range'_eq_map_range, List.map_map]
  refine List.map_congr_left fun i _ => ?_
  rw [Function.comp_apply, Nat.add_sub_cancel_left]

/-- Two visitors that number their parameters from `a` and from `b` on fail with the same error, or
end in the same joins and sources, the same values, and the same clauses but for the numbers of the
placeholders. The numbers in use are the ones from `a` and from `b` on, as many as there are
parameters: they are machine integers as long as the starts with the number of parameters stay within
their range. -/
theorem visitor_renumber (hcatalog : k.catalog.Plain) {className : String}
    (hclass : ColonFree className) {f : Filter} (hf : ∀ t ∈ f.tests, t.Plain)
    (autoIgnoreCase : Bool) (a b : Nat) :
    let x := k.visitor className autoIgnoreCase f a
    let y := k.visitor className autoIgnoreCase f b
    (∃ e, x.result = .error e ∧ y.result = .error e) ∨
      x.result = .ok () ∧ y.result = .ok () ∧
        y.state.aliases.joins = x.state.aliases.joins ∧
        y.state.aliases.sources = x.state.aliases.sources ∧
        x.state.parameters.map (·.number) = List.range' a x.state.parameters.length ∧
        y.state.parameters.map (·.number) = List.range' b x.state.parameters.length ∧
        y.state.parameters = x.state.parameters.map (·.renumber fun n => b + (n - a)) ∧
        conditionsText y.state.conditions =
          Text.renumber (fun n => b + (n - a)) (conditionsText x.state.conditions) ∧
        havingText y.state.having =
          Text.renumber (fun n => b + (n - a)) (havingText x.state.having) := by
  intro x y
  obtain ⟨hresult, hstates, -⟩ := k.visitor_endsLike className autoIgnoreCase f a b
  have hsame : x.result = y.result := hresult.eq
  cases hx : x.result with
  | error e => exact .inl ⟨e, rfl, hsame ▸ hx⟩
  | ok r =>
    right
    obtain ⟨first, -, hstate⟩ := hstates r hx
    change y.state = x.state.renumber _ first at hstate
    refine ⟨rfl, hsame ▸ hx, ?_⟩
    have hyields : (do
        let _ ← Step.ofExcept (k.registry.get className)
        Draft.visit k f : Step Draft Unit).Yields
        { Draft.start className a with autoIgnoreCase } () x.state := ⟨hx, rfl⟩
    obtain ⟨m, u, hmapped, hvisit⟩ := Step.yields_bind.mp hyields
    obtain ⟨-, rfl⟩ := Step.yields_ofExcept.mp hmapped
    obtain ⟨hlength, hconditions, hgroups, hnumbers⟩ :=
      Draft.visit_plain hcatalog hf (Aliases.Plain.start hclass) rfl rfl rfl hvisit
    have hwhere := renumbers_conditionsText (g := fun n => b + (n - a)) hlength
      (renumbersConditions _ hconditions)
    have hhaving := renumbers_havingText (g := fun n => b + (n - a)) (renumbersGroups _ hgroups)
    have hother : (x.state.parameters.map (·.renumber fun n => b + (n - a))).map (·.number) =
        List.range' b x.state.parameters.length := by
      have hmap : (x.state.parameters.map (·.renumber fun n => b + (n - a))).map (·.number) =
          (x.state.parameters.map (·.number)).map fun n => b + (n - a) := by
        rw [List.map_map, List.map_map]
        rfl
      rw [hmap, hnumbers]
      exact map_range'_renumber a b _
    rw [hstate]
    exact ⟨rfl, rfl, hnumbers, hother, rfl, hwhere.eq.symm, hhaving.eq.symm⟩

/-- Names of identities, one of them asked for in a nested query. -/
def namedTwice : Filter :=
  .and [.compare .eq "name" (.text "alice"),
    .subquery "id" "Identity" "id" (some (.compare .eq "name" (.text "bob")))]

/-- The nested query goes on from nine to ten, and from zero to one. -/
theorem visitor_renumber_fromNine :
    let k := linkedAccounts
    (k.catalog.Plain ∧ ColonFree "Identity" ∧ ∀ t ∈ namedTwice.tests, t.Plain) ∧
    conditionsText (k.visitor "Identity" false namedTwice 9).state.conditions =
      "(identityAlias.name = :param9 and identityAlias.id in (select identityAlias.id " ++
        "from Identity identityAlias where identityAlias.name = :param10))" ∧
    conditionsText (k.visitor "Identity" false namedTwice 0).state.conditions =
      Text.renumber (fun n => 0 + (n - 9))
        (conditionsText (k.visitor "Identity" false namedTwice 9).state.conditions) := by
  intro k
  have hcatalog : k.catalog.Plain := by decide +kernel
  have hclass : ColonFree "Identity" := by decide
  have htests : ∀ t ∈ namedTwice.tests, t.Plain := by decide
  have hok : (k.visitor "Identity" false namedTwice 9).result.toOption = some () := by
    decide +kernel
  refine ⟨⟨hcatalog, hclass, htests⟩, by decide +kernel, ?_⟩
  obtain ⟨e, he, -⟩ | ⟨-, -, -, -, -, -, -, hwhere, -⟩ :=
    visitor_renumber hcatalog hclass htests false 9 0
  · rw [he] at hok
    cases hok
  · exact hwhere

end Compiler

end ObjectQuery
