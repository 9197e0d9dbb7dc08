import Mathlib.Data.List.Nodup
import ObjectQuery.Proofs.Folding.Emission
import ObjectQuery.Proofs.Parameters.Placement
import ObjectQuery.Proofs.Scoping.Compilation

/-!
# Compiled statements fold both sides

Only `cased` writes `upper(`, for the left side of a comparison and for a term of an order, and only
where they ask for it.

* `Statement.predicates`, `Statement.orderTerms`: all the places of a statement where a property may
  be put into upper case.
* `CompiledQuery.FoldsBothSides`: a comparison puts its operands into upper case exactly if it puts
  its property into upper case, and never in a store that ignores case by itself.
* `Compiler.compile_foldsBothSides`: so it is in every compiled query and every deletion.
-/

namespace ObjectQuery

/-- The predicates of a statement, also those of the selects nested in it. -/
def Statement.predicates (s : Statement) : List Atom :=
  (match s with
    | select query => query.predicates
    | delete deletion => predicatesOf deletion.conditions) ++ s.nested.flatMap Select.predicates

/-- The terms of the orders in a statement, also those of the selects nested in it. -/
def Statement.orderTerms (s : Statement) : List OrderTerm :=
  (match s with
    | select query => query.orderBy
    | delete _ => []) ++ s.nested.flatMap (·.orderBy)

/-- A comparison binds the upper-case forms of its operands exactly if it puts its property into
upper case. In a store that ignores case by itself, nothing is put into upper case: no property that
is compared or ordered by, and no operand. -/
structure CompiledQuery.FoldsBothSides (k : Compiler) (o : QueryOptions) (q : CompiledQuery) :
    Prop where
  comparisons : ∀ p ∈ q.statement.predicates,
    p.Folds k o fun number value => q.valueOf? (parameterName number) = some value
  predicates : k.capabilities.caseInsensitive = true →
    ∀ p ∈ q.statement.predicates, p.isUpper = false
  orders : k.capabilities.caseInsensitive = true →
    ∀ t ∈ q.statement.orderTerms, t.upper = false
  operands : k.capabilities.caseInsensitive = true → ∀ p ∈ q.parameters,
    ∃ property mode operand, o.Asks property mode operand ∧
      p.value = (operand.written k.capabilities.reserved mode).1

namespace CompiledQuery

variable {k : Compiler} {o : QueryOptions} {q : CompiledQuery}

/-- A number that is bound once has the value it is bound to. -/
theorem valueOf?_of_mem (hnumbers : (q.parameters.map (·.number)).Nodup) {number : Nat}
    {value : Value} (hmem : ⟨number, value⟩ ∈ q.parameters) :
    q.valueOf? (parameterName number) = some value := by
  unfold valueOf?
  cases hfind : q.parameters.find? (·.name == parameterName number) with
  | none =>
    have hnone := List.find?_eq_none.mp hfind ⟨number, value⟩ hmem
    exact absurd (beq_self_eq_true (parameterName number)) hnone
  | some r =>
    have hname := List.find?_some hfind
    have hnumber : r.number = number := parameterName_injective (beq_iff_eq.mp hname)
    rw [List.inj_on_of_nodup_map hnumbers (List.mem_of_find?_eq_some hfind) hmem hnumber]
    rfl

/-- It is enough that all comparisons, the order, and the parameters are right. -/
theorem foldsBothSides_of (hnumbers : (q.parameters.map (·.number)).Nodup)
    (hoperands : ∀ p ∈ q.parameters, IsOperand k o p.value)
    (hpredicates : ∀ p ∈ q.statement.predicates, p.Agrees k o q.parameters)
    (horders : k.capabilities.caseInsensitive = true →
      ∀ t ∈ q.statement.orderTerms, t.upper = false) : q.FoldsBothSides k o where
  comparisons p hp :=
    (hpredicates p hp).folds.mono fun _ _ hmem => valueOf?_of_mem hnumbers hmem
  predicates hcase p hp := (hpredicates p hp).insensitive hcase
  orders := horders
  operands hcase p hp := by
    obtain ⟨property, mode, operand, upper, hasks, hvalue, hupper⟩ := hoperands p hp
    rw [hupper hcase] at hvalue
    exact ⟨property, mode, operand, hasks, hvalue⟩

end CompiledQuery

namespace Compiler

variable {k : Compiler} {className : String} {o : QueryOptions}

/-- The draft of a query with its restrictions: every parameter is bound for an operand, and all
comparisons fold both of their sides or none. -/
theorem restrict_folds {d : Draft} (h : (k.restrict o).Yields (.start className 0) () d) :
    (d.parameters.map (·.number)).Nodup ∧ (∀ p ∈ d.parameters, IsOperand k o p.value) ∧
      Folding k o d.parameters d.conditions ∧
      Folding k o d.parameters (d.having.flatMap Option.toList) := by
  obtain ⟨_, u, hignore, h₁⟩ := Step.yields_bind.mp h
  obtain rfl := Step.yields_modify.mp hignore
  split at h₁
  · rename_i f hf
    obtain ⟨c, u, hemit, -, rfl⟩ := Draft.visit_yields h₁
    obtain ⟨hgains, hc⟩ := Draft.faithful_emit (QueryOptions.stemsFrom_prepare hf) _ c u hemit
    obtain ⟨bound, hbound, hnumbers, hoperands⟩ := hgains.parameters
    obtain ⟨groups, hhaving, hgroups⟩ := hgains.having
    have hparameters : u.parameters = bound := hbound
    have hgroupsOf : u.having = groups := hhaving
    refine ⟨?_, ?_, hc, ?_⟩
    · show (u.parameters.map (·.number)).Nodup
      rw [hparameters, hnumbers]
      exact List.nodup_range'
    · show ∀ p ∈ u.parameters, _
      rw [hparameters]
      exact hoperands
    · show Folding k o u.parameters (u.having.flatMap Option.toList)
      rw [hgroupsOf]
      exact hgroups
  · obtain ⟨-, rfl⟩ := Step.yields_pure.mp h₁
    exact ⟨.nil, List.forall_mem_nil _, .nil, .nil⟩

/-- In every compiled query and every deletion, a comparison binds the upper-case forms of its
operands exactly if it puts its property into upper case, also in nested selects. A store that
ignores case by itself is asked for no upper case at all. -/
theorem compile_foldsBothSides (k : Compiler) (className : String) (o : QueryOptions) :
    (∀ q, (k.compile className o).value = .ok q → q.FoldsBothSides k o) ∧
      ∀ q, (k.compileDelete className o).value = .ok q → q.FoldsBothSides k o := by
  refine ⟨fun q hq => ?_, fun q hq => ?_⟩
  · obtain ⟨d, assembled, final, hrestrict, hassemble, rfl⟩ := compile_ok hq
    obtain ⟨hnumbers, hoperands, hconditions, hgroups⟩ := restrict_folds hrestrict
    obtain ⟨hparameters, horder⟩ := Draft.assembleSelect_folds hassemble
    obtain ⟨-, hconditionsOf, hgroupsOf⟩ := Draft.assembleSelect_yields hassemble
    rw [← hparameters] at hnumbers hoperands hconditions hgroups
    rw [← hconditionsOf] at hconditions
    rw [← hgroupsOf] at hgroups
    obtain ⟨hpredicates, hnested⟩ := hconditions.select hgroups
    refine CompiledQuery.foldsBothSides_of hnumbers hoperands
      (List.forall_mem_append.mpr ⟨hpredicates, ?_⟩)
      fun hcase => List.forall_mem_append.mpr ⟨?_, ?_⟩
    · exact List.forall_mem_flatMap.mpr fun n hn => (hnested n hn).predicates
    · intro t ht
      have hupper := List.mem_map_of_mem (f := (·.upper)) ht
      rw [horder] at hupper
      obtain ⟨key, -, hkey⟩ := List.mem_map.mp hupper
      rw [← hkey, hcase, Bool.not_true, Bool.and_false]
    · exact List.forall_mem_flatMap.mpr fun n hn => (hnested n hn).orderBy hcase
  · obtain ⟨d, hrestrict, -, hstatement, hparameters⟩ := compileDelete_ok hq
    obtain ⟨hnumbers, hoperands, hconditions, -⟩ := restrict_folds hrestrict
    rw [← hparameters] at hnumbers hoperands hconditions
    refine CompiledQuery.foldsBothSides_of hnumbers hoperands ?_ fun hcase => ?_
    · rw [hstatement]
      exact List.forall_mem_append.mpr ⟨hconditions.predicates,
        List.forall_mem_flatMap.mpr fun n hn => (hconditions.selects n hn).predicates⟩
    · rw [hstatement]
      exact List.forall_mem_append.mpr ⟨List.forall_mem_nil _,
        List.forall_mem_flatMap.mpr fun n hn => (hconditions.selects n hn).orderBy hcase⟩

/-- A pattern and the list of a nested select, which ignore case, and a text, which does not. -/
def namedInAnyCase : QueryOptions :=
  { restrictions :=
      [(Filter.like "name" (.text "a%b") .start).ignoringCase, .compare .eq "state" (.text "Open"),
        .subquery "manager" "Identity" "id"
          (some (Filter.inList "lastname" [.text "Smith", .text "Doe"]).ignoringCase)]
    orderings := [{ property := "name", ignoreCase := true }] }

/-- Both sides of what ignores case are put into upper case, but not in a store that ignores case by
itself. -/
theorem compile_foldsBothSides_namedInAnyCase :
    let k := linkedAccounts
    let l : Compiler := { k with capabilities := Capabilities.ofBackend .mysql }
    (∃ q, (k.compile "Identity" namedInAnyCase).value = .ok q ∧
      q.text = "select identityAlias from Identity identityAlias where (upper(identityAlias.name) " ++
        "like :param0 escape '@' and identityAlias.state = :param1 and identityAlias.manager in " ++
        "(select identityAlias.id from Identity identityAlias where " ++
        "upper(identityAlias.lastname) in (:param2, :param3))) order by upper(identityAlias.name)" ∧
      q.parameters.map (·.value.text?) =
        [some "A@%B%", some "Open", some "SMITH", some "DOE"] ∧
      q.FoldsBothSides k namedInAnyCase) ∧
    (∃ q, (l.compile "Identity" namedInAnyCase).value = .ok q ∧
      q.text = "select identityAlias from Identity identityAlias where (identityAlias.name " ++
        "like :param0 escape '@' and identityAlias.state = :param1 and identityAlias.manager in " ++
        "(select identityAlias.id from Identity identityAlias where " ++
        "identityAlias.lastname in (:param2, :param3))) order by identityAlias.name" ∧
      q.parameters.map (·.value.text?) =
        [some "a@%b%", some "Open", some "Smith", some "Doe"] ∧
      q.FoldsBothSides l namedInAnyCase) ∧
    ∃ q, (l.compileDelete "Identity" namedInAnyCase).value = .ok q ∧
      q.text = "delete from Identity identityAlias where (identityAlias.name " ++
        "like :param0 escape '@' and identityAlias.state = :param1 and identityAlias.manager in " ++
        "(select identityAlias.id from Identity identityAlias where " ++
        "identityAlias.lastname in (:param2, :param3)))" ∧
      q.parameters.map (·.value.text?) =
        [some "a@%b%", some "Open", some "Smith", some "Doe"] ∧
      q.FoldsBothSides l namedInAnyCase := by
  intro k l
  have hok : ∀ (r : Except CompileError CompiledQuery) (text : String)
      (values : List (Option String)) (P : CompiledQuery → Prop), (∀ q, r = .ok q → P q) →
      r.toOption.map (fun q => (q.text, q.parameters.map (·.value.text?))) = some (text, values) →
        ∃ q, r = .ok q ∧ q.text = text ∧ q.parameters.map (·.value.text?) = values ∧ P q := by
    rintro (e | q) text values P hP h
    · cases h
    · obtain ⟨htext, hvalues⟩ := Prod.mk.inj (Option.some.inj h)
      exact ⟨q, rfl, htext, hvalues, hP q rfl⟩
  obtain ⟨hselect, hdelete⟩ := compile_foldsBothSides l "Identity" namedInAnyCase
  exact ⟨hok _ _ _ _ (compile_foldsBothSides k "Identity" namedInAnyCase).1 (by decide +kernel),
    hok _ _ _ _ hselect (by decide +kernel), hok _ _ _ _ hdelete (by decide +kernel)⟩

end Compiler

end ObjectQuery
