import ObjectQuery.Proofs.Compiler.Run
import ObjectQuery.Proofs.Emission.Extension
import ObjectQuery.Proofs.Parameters.Numbering

/-!
# The placement of parameters

* `QueryOptions.Plain`: the names in the options of a query have no colons.
* `CompiledQuery.IsNumbered`: the parameters are numbered from zero on, and the text has one
  placeholder for each and no others.
* `Compiler.isNumbered_compile`: so it is with every query that is compiled without colons.
-/

namespace ObjectQuery

open Text Step

/-- The names in the options of a query have no colons. -/
structure QueryOptions.Plain (o : QueryOptions) : Prop where
  restrictions : ∀ r ∈ o.restrictions, ∀ u ∈ r.tests, u.Plain
  columns : ∀ column ∈ o.columns, ColonFree column
  orderings : ∀ term ∈ o.orderings, ColonFree term.property
  groupBy : ∀ property ∈ o.groupBy, ColonFree property

/-- The parameters are numbered from zero on in the order in which they were bound, and the text has
one placeholder for each of them and no others. -/
structure CompiledQuery.IsNumbered (q : CompiledQuery) : Prop where
  names : q.parameters.map (·.name) = (List.range q.parameters.length).map parameterName
  placed : ∀ i < q.parameters.length, (placeholders q.text).count (parameterName i) = 1
  bound : ∀ name ∈ placeholders q.text, ∃ i < q.parameters.length, name = parameterName i

theorem parameterName_injective {i j : Nat} (h : parameterName i = parameterName j) : i = j := by
  have hchars := congrArg String.toList h
  simp only [parameterName, String.toList_append, String.toList_ofList] at hchars
  rw [← Digits.toNat_ofNat i, ← Digits.toNat_ofNat j, List.append_cancel_left hchars]

theorem count_parameterName {n i : Nat} (h : i < n) :
    ((List.range n).map parameterName).count (parameterName i) = 1 := by
  have hcount : ((List.range n).map parameterName).count (parameterName i) =
      (List.range n).count i := by
    rw [List.count, List.countP_map, List.count]
    refine List.countP_congr fun j _ => ?_
    simp only [Function.comp_apply, beq_iff_eq]
    exact ⟨parameterName_injective, congrArg parameterName⟩
  rw [hcount, List.count_range, if_pos h]

/-- A text that shows the bound parameters in some order makes the query numbered. -/
theorem CompiledQuery.isNumbered_of_shows {q : CompiledQuery} {ns : List Nat}
    (hnumbers : q.parameters.map (·.number) = List.range q.parameters.length)
    (hshows : Shows q.text ns) (hperm : ns.Perm (List.range q.parameters.length)) :
    q.IsNumbered := by
  have hplaceholders := hshows.placeholders_eq
  refine ⟨?_, fun i hi => ?_, fun name hname => ?_⟩
  · have hnames : q.parameters.map (·.name) = (q.parameters.map (·.number)).map parameterName := by
      rw [List.map_map]
      rfl
    rw [hnames, hnumbers]
  · rw [hplaceholders, (hperm.map parameterName).count_eq]
    exact count_parameterName hi
  · rw [hplaceholders] at hname
    obtain ⟨i, hi, rfl⟩ := List.mem_map.mp ((hperm.map parameterName).mem_iff.mp hname)
    exact ⟨i, List.mem_range.mp hi, rfl⟩

namespace Compiler

variable {k : Compiler} {className : String} {o : QueryOptions}

/-- The draft of a query with its restrictions: every parameter bound so far is written once, in the
only condition or in a group. -/
theorem restrict_written (hcatalog : k.catalog.Plain) (hclass : ColonFree className) (ho : o.Plain)
    {d : Draft} (h : (k.restrict o).Yields (.start className 0) () d) :
    d.aliases.Plain ∧ d.conditions.length ≤ 1 ∧ PlainConditions d.conditions ∧
      PlainGroups d.having ∧
      d.parameters.map (·.number) = List.range d.parameters.length ∧
      (conditionNumbers d.conditions ++ groupNumbers d.having).Perm
        (List.range d.parameters.length) := by
  obtain ⟨_, u, hignore, h₁⟩ := Step.yields_bind.mp h
  obtain rfl := Step.yields_modify.mp hignore
  have hstart := Aliases.Plain.start hclass
  split at h₁
  · rename_i f hf
    obtain ⟨c, u, hemit, -, rfl⟩ := Draft.visit_yields h₁
    have htests := QueryOptions.tests_prepare Test.Plain.inherited hf ho.restrictions
    obtain ⟨hc, hgrows⟩ := Draft.carries_emit hcatalog htests _ c u hemit hstart
    obtain ⟨bound, groups, hbound, hnumbers, hhaving, hgroups, hperm⟩ := hgrows.written
    have hparameters : u.parameters = bound := hbound
    have hgroupsOf : u.having = groups := hhaving
    have hzero : (Draft.nextParameter
        { Draft.start className 0 with autoIgnoreCase := o.ignoreCase }) = 0 := rfl
    rw [hzero, ← List.range_eq_range'] at hnumbers hperm
    rw [← hparameters] at hnumbers hperm
    rw [← hgroupsOf] at hgroups hperm
    refine ⟨hgrows.plain, ?_, plainConditions_toList.mpr hc, hgroups, hnumbers, ?_⟩
    · cases c <;> simp [Draft.start]
    · show (conditionNumbers c.toList ++ groupNumbers u.having).Perm _
      rw [conditionNumbers_toList]
      exact hperm
  · obtain ⟨-, rfl⟩ := Step.yields_pure.mp h₁
    exact ⟨hstart, Nat.zero_le _, trivial, trivial, rfl, .nil⟩

/-- The parameters of a query without colons, or of a deletion, are numbered from zero on, and each
has one placeholder in the text. -/
theorem isNumbered_compile (hcatalog : k.catalog.Plain) (hclass : ColonFree className)
    (ho : o.Plain) :
    (∀ q, (k.compile className o).value = .ok q → q.IsNumbered) ∧
      ∀ q, (k.compileDelete className o).value = .ok q → q.IsNumbered := by
  refine ⟨fun q hq => ?_, fun q hq => ?_⟩
  · obtain ⟨d, assembled, final, hrestrict, hassemble, rfl⟩ := compile_ok hq
    obtain ⟨hd, hlength, hconditions, hgroups, hnumbers, hperm⟩ :=
      restrict_written hcatalog hclass ho hrestrict
    obtain ⟨hparameters, hplain, hwritten⟩ := Draft.assembleSelect_plain
      ⟨ho.columns, ho.orderings, ho.groupBy⟩ hd hlength hconditions hgroups hassemble
    rw [← hparameters] at hnumbers hperm
    rw [← hwritten] at hperm
    exact CompiledQuery.isNumbered_of_shows hnumbers (assembled.statement.shows hplain) hperm
  · obtain ⟨d, hrestrict, hhaving, hstatement, hparameters⟩ := compileDelete_ok hq
    obtain ⟨hd, hlength, hconditions, -, hnumbers, hperm⟩ :=
      restrict_written hcatalog hclass ho hrestrict
    rw [hhaving, groupNumbers, List.append_nil] at hperm
    rw [← hparameters] at hnumbers hperm
    refine CompiledQuery.isNumbered_of_shows hnumbers ?_ hperm
    have hwhere := shows_conditionsText hlength (showsConditions _ hconditions)
    rw [CompiledQuery.text, hstatement]
    exact (shows_clause (by decide) hwhere).prepend
      (colonFree_append.mpr ⟨by decide, hd.sourceList⟩)

/-- A query with a parameter of its own, one in a nested query and two in a condition on a
collection, whose negated part becomes a nested query as well, and the deletion with the same
restrictions. -/
theorem isNumbered_compile_nested :
    let k := linkedAccounts
    let o : QueryOptions := { restrictions := [.compare .eq "name" (.text "alice"),
      .subquery "id" "Identity" "id" (some (.compare .eq "name" (.text "bob"))),
      .collectionCondition "links" (.or [.compare .eq "nativeIdentity" (.text "admin"),
        .compare .ne "nativeIdentity" (.text "guest")])] }
    (k.catalog.Plain ∧ ColonFree "Identity" ∧ o.Plain) ∧
      (∃ q, (k.compile "Identity" o).value = .ok q ∧ q.parameters.length = 4 ∧ q.IsNumbered) ∧
      ∃ q, (k.compileDelete "Identity" o).value = .ok q ∧ q.parameters.length = 4 ∧
        q.IsNumbered := by
  intro k o
  have hcatalog : k.catalog.Plain := by decide +kernel
  have hclass : ColonFree "Identity" := by decide
  have ho : o.Plain := ⟨by decide, by decide, by decide, by decide⟩
  have hok : ∀ r : Except CompileError CompiledQuery,
      r.toOption.map (·.parameters.length) = some 4 → ∃ q, r = .ok q ∧ q.parameters.length = 4 := by
    rintro (e | q) h
    · cases h
    · exact ⟨q, rfl, Option.some.inj h⟩
  obtain ⟨hselect, hdelete⟩ := isNumbered_compile hcatalog hclass ho
  obtain ⟨q, hq, hlength⟩ := hok (k.compile "Identity" o).value (by decide +kernel)
  obtain ⟨r, hr, hlength'⟩ := hok (k.compileDelete "Identity" o).value (by decide +kernel)
  exact ⟨⟨hcatalog, hclass, ho⟩, ⟨q, hq, hlength, hselect q hq⟩, ⟨r, hr, hlength', hdelete r hr⟩⟩

end Compiler

end ObjectQuery
