import ObjectQuery.Proofs.Compiler.Run
import ObjectQuery.Proofs.Emission.Clauses
import ObjectQuery.Proofs.Negation.Signs

/-!
# Negative predicates in conditions on collections

A condition on a collection's elements is split by the signs of its children, and not of what is
below them. A negation below a plain child is therefore compared with the joined elements row by
row, and one below a negated child stands in the select whose owners are excluded.

* `Draft.shows_emit`: what a filter emits is negative just if `Filter.signs` says so.
* `Draft.emitCondition_signs`: the same of the two parts of a condition on a collection.
-/

namespace ObjectQuery

namespace Draft

variable {k : Compiler} {x : Emission} {xs : Step Draft (List Condition)} {s : Bool → Signs}
  {negative : Bool}

/-! ## Nested filters -/

/-- A nested select is one predicate, which is not negative itself. -/
theorem writesAtom_inSelect {reference : Reference} {negated : Bool} {className column : String} :
    WritesAtom false (inSelect k reference negated className column x) := by
  intro d c e h
  obtain ⟨_, _, _, _, -, -, rfl, rfl⟩ := inSelect_yields h
  exact ⟨rfl, rfl, _, rfl, rfl⟩

theorem writesAtom_excluding {property : String} :
    WritesAtom false (excluding k property x) := by
  intro d c e h
  obtain ⟨_, _, _, _, -, -, -, -, h'⟩ := excluding_yields h
  exact writesAtom_inSelect d c e h'

namespace Shows

theorem subquery {t : Test} (hop : t.operation = .subquery) :
    Shows Option.toList t.signs (Draft.subquery k t x) := by
  unfold Draft.subquery
  split
  · have hsigns : t.signs = fun inHaving => .routed inHaving t.isAggregate fun _ => .one false := by
      funext inHaving
      rw [Test.signs, Test.isNegated, hop]
      rfl
    rw [hsigns]
    refine routedAtom _ fun d c e h => ?_
    obtain ⟨r, u, hr, h₁⟩ := Step.yields_bind.mp h
    obtain ⟨a, -, rfl⟩ := resolve_yields hr
    exact writesAtom_inSelect (d.withAliases a) c e h₁
  · exact test (by rw [hop]; decide)

theorem inScope {property : String} {outer : Bool} (hx : Shows Option.toList s x) :
    Shows Option.toList s (Draft.inScope k property outer x) := by
  intro d c e h
  obtain ⟨a, u, -, hu, rfl⟩ := inScope_yields h
  obtain ⟨hinHaving, hstays, hgroups⟩ := hx _ _ _ hu
  exact ⟨hinHaving, hstays, hgroups⟩

theorem withTheta {theta : Bool} (hx : Shows Option.toList s x) :
    Shows Option.toList s (Draft.withTheta theta x) := by
  intro d c e h
  obtain ⟨u, hu, rfl⟩ := Step.yields_restoring.mp h
  obtain ⟨hinHaving, hstays, hgroups⟩ := hx _ _ _ hu
  exact ⟨hinHaving, hstays, hgroups⟩

theorem emitEach {fs : List Filter} (h : ∀ f ∈ fs, Shows Option.toList f.signs (Draft.emit k f)) :
    Shows id (Filter.signsOfAll fs) (Draft.emitEach k .all fs) := by
  induction fs with
  | nil => exact nil
  | cons f rest ih =>
    obtain ⟨hf, hrest⟩ := List.forall_mem_cons.mp h
    rw [emitEach_cons]
    exact hf.together (ih hrest)

theorem emitComposite {c : Composite}
    (h : ∀ f ∈ c.children, Shows Option.toList f.signs (Draft.emit k f)) :
    Shows Option.toList (Filter.composite c).signs (Draft.emit k (.composite c)) := by
  obtain ⟨operation, children⟩ := c
  refine (emitEach h).composite ⟨operation, children⟩ fun hnil => ?_
  rw [show children = [] from hnil]
  rfl

/-- The two parts of a condition are written one behind the other, the second as one predicate. -/
theorem emitParts {property : String} {outer disjunctive : Bool} {c : Composite}
    (h : ∀ f ∈ c.children, Shows Option.toList f.signs (Draft.emit k f)) :
    Shows Option.toList (Filter.conditionSigns (some c))
      (Draft.emitParts k property outer disjunctive c.split) := by
  intro d condition e hx
  obtain ⟨kept, u, excluded, rfl, hkept, hexcluded⟩ := emitParts_yields hx
  have hplain : WritesSigns (c.split.1.elim .nothing fun plain =>
      (Filter.composite plain).signs d.inHaving) d kept.toList u := by
    obtain ⟨hnone, rfl, rfl⟩ | ⟨plain, hsome, hscope⟩ := hkept
    · rw [hnone]
      exact ⟨rfl, rfl, [], (List.append_nil _).symm, fun _ => rfl, rfl⟩
    · rw [hsome]
      exact (emitComposite fun f hf => h f ((Composite.split_plain hsome).2 f hf)).inScope d kept u
        hscope
  have hnegated : e.inHaving = u.inHaving ∧ e.having = u.having ∧
      excluded.toList.isEmpty = !c.split.2.isSome ∧ anyNegative excluded.toList = false := by
    obtain ⟨hnone, rfl, rfl⟩ | ⟨negated, hsome, hselect⟩ := hexcluded
    · rw [hnone]
      exact ⟨rfl, rfl, rfl, rfl⟩
    · obtain ⟨hinHaving, hhaving, p, rfl, hp⟩ := writesAtom_excluding u excluded e hselect
      rw [hsome]
      exact ⟨hinHaving, hhaving, rfl, (anyNegative_singleton _).trans hp⟩
  obtain ⟨hinHaving, hstays, left, hgroups, hleft, hnegative⟩ := hplain
  obtain ⟨hinHaving', hhaving, hstays', hnegative'⟩ := hnegated
  rw [Filter.conditionSigns_some]
  refine ⟨hinHaving'.trans hinHaving, ?_, left, ?_, hleft, ?_⟩
  · dsimp only [Signs.both]
    rw [Bool.not_or, ← hstays, ← hstays']
    cases kept <;> cases excluded <;> rfl
  · rw [groups, hhaving]
    exact hgroups
  · dsimp only [Signs.both]
    rw [anyNegative_append] at hnegative ⊢
    rw [anyNegative_joinParts, hnegative', Bool.or_false, Bool.or_false, hnegative]

end Shows

/-- What a filter emits is negative just if its signs say so. -/
theorem shows_emit (k : Compiler) (f : Filter) : Shows Option.toList f.signs (emit k f) := by
  induction f using Filter.induction with
  | leaf t condition subfilter ihc ihs =>
    have hleaf (hop : t.operation ≠ .collectionCondition) :
        (Filter.leaf ⟨t, condition, subfilter⟩).signs = t.signs := by
      funext inHaving
      rw [Filter.signs]
      split
      · contradiction
      · rfl
    rw [emit, emitLeaf]
    split
    · rename_i hop
      have hsigns : (Filter.leaf ⟨t, condition, subfilter⟩).signs =
          Filter.conditionSigns condition := by
        funext inHaving
        rw [Filter.signs, hop]
      rw [hsigns]
      rcases condition with _ | c
      · rw [emitCondition, test, hop]
        exact .fail _
      · rw [emitCondition_eq]
        exact (Shows.emitParts (ihc c rfl)).withTheta
    · rename_i hop
      rw [hleaf (by rw [hop]; decide)]
      cases subfilter <;> exact .subquery hop
    · rename_i hcondition _
      rw [hleaf hcondition]
      exact .test hcondition
  | composite operation children ih => exact .emitComposite ih

/-- The select that excludes the owners of a condition's negated part has no groups, and its
conditions are negative just if the signs of that part say so. -/
theorem excluding_signs {property : String} {f : Filter} {d e : Draft}
    {condition : Option Condition}
    (h : (excluding k property (emit k f)).Yields d condition e) :
    ∃ reference query, condition = some (.atom (.inSelect reference true query)) ∧
      query.having = [] ∧ anyNegative query.conditions = (f.signs false).negative := by
  obtain ⟨inverse, _, element, aliasName, -, -, -, -, hselect⟩ := excluding_yields h
  obtain ⟨emitted, u, query, v, hemit, hassemble, rfl, -⟩ := inSelect_yields hselect
  obtain ⟨hnone, hconditions, hhaving⟩ := assembleSelect_yields hassemble
  obtain ⟨-, -, left, hgroups, -, hnegative⟩ := shows_emit k f _ _ _ hemit
  have hungrouped : u.having = [] := hnone rfl
  have hleft : left = [] := by
    rw [groups, hungrouped] at hgroups
    exact (List.append_eq_nil_iff.mp hgroups.symm).2
  refine ⟨_, query.statement, rfl, hhaving.trans hungrouped, ?_⟩
  rw [hconditions, addCondition, (emit_extends hemit).conditions]
  rw [hleft, List.append_nil] at hnegative
  exact hnegative

/-- A condition on a collection's elements is written in two parts. Its plain part, with the groups
of the having clause that it leaves, compares negatively with the joined elements just if the plain
children do so below them. Its negated part excludes owners by a select over the positive form,
which compares negatively just if that form does. -/
theorem emitCondition_signs (k : Compiler) {t : Test} {c : Composite} {subfilter : Option Filter}
    (hcondition : t.operation = .collectionCondition) {d e : Draft} {condition : Option Condition}
    (h : (emit k (.leaf ⟨t, some c, subfilter⟩)).Yields d condition e) :
    ∃ kept left excluded, condition = joinParts (c.operation == .or) kept excluded ∧
      e.groups = d.groups ++ left ∧
      (c.split.1 = none ∧ kept = none ∧ left = [] ∨
        ∃ plain, c.split.1 = some plain ∧ anyNegative (kept.toList ++ left) =
          ((Filter.composite plain).signs d.inHaving).negative) ∧
      (c.split.2 = none ∧ excluded = none ∨
        ∃ positive reference query, c.split.2 = some positive ∧
          excluded = some (.atom (.inSelect reference true query)) ∧ query.having = [] ∧
          anyNegative query.conditions = ((Filter.composite positive).signs false).negative) := by
  rw [emit, emitLeaf, hcondition] at h
  dsimp only at h
  rw [emitCondition_eq] at h
  obtain ⟨v, hparts, rfl⟩ := Step.yields_restoring.mp h
  obtain ⟨kept, u, excluded, rfl, hkept, hexcluded⟩ := emitParts_yields hparts
  have hnegated : v.groups = u.groups ∧ (c.split.2 = none ∧ excluded = none ∨
      ∃ positive reference query, c.split.2 = some positive ∧
        excluded = some (.atom (.inSelect reference true query)) ∧ query.having = [] ∧
        anyNegative query.conditions = ((Filter.composite positive).signs false).negative) := by
    obtain ⟨hnone, rfl, rfl⟩ | ⟨positive, hsome, hselect⟩ := hexcluded
    · exact ⟨rfl, .inl ⟨hnone, rfl⟩⟩
    · obtain ⟨-, hhaving, -⟩ := writesAtom_excluding u excluded v hselect
      obtain ⟨reference, query, hquery, hsigns⟩ := excluding_signs hselect
      exact ⟨congrArg (List.filterMap id) hhaving,
        .inr ⟨positive, reference, query, hsome, hquery, hsigns⟩⟩
  obtain ⟨hnone, rfl, rfl⟩ | ⟨plain, hsome, hscope⟩ := hkept
  · exact ⟨none, [], excluded, rfl, hnegated.1.trans (List.append_nil _).symm,
      .inl ⟨hnone, rfl, rfl⟩, hnegated.2⟩
  · obtain ⟨-, -, left, hgroups, -, hnegative⟩ :=
      (shows_emit k (.composite plain)).inScope _ _ _ hscope
    exact ⟨kept, left, excluded, rfl, hnegated.1.trans hgroups, .inr ⟨plain, hsome, hnegative⟩,
      hnegated.2⟩

/-- A condition on links that holds a negative comparison in a conjunction of its own. -/
def nestedInequality : Composite :=
  ⟨.and, [.and [.compare .ne "nativeIdentity" (.text "jdoe")]]⟩

/-- The inequality is not excluded but compared with the joined links one by one. -/
theorem emitCondition_signs_nestedInequality :
    let t : Test := { property := "links", operation := .collectionCondition }
    let f : Filter := .leaf ⟨t, some nestedInequality, none⟩
    (∃ condition e, (emit Compiler.linkedAccounts f).Yields (.start "Identity" 0) condition e ∧
        anyNegative (condition.toList ++ e.groups) = true) ∧
      (Compiler.linkedAccounts.compileFilter "Identity" f).value.toOption.map (·.text) =
        some ("select identityAlias from Identity identityAlias inner join identityAlias.links " ++
          "identity_linksAlias0 where ((identity_linksAlias0.nativeIdentity != :param0))") := by
  intro t f
  refine ⟨?_, by decide +kernel⟩
  obtain ⟨condition, e, hrun⟩ : ∃ condition e,
      (emit Compiler.linkedAccounts f).Yields (.start "Identity" 0) condition e := by
    have hok : ((emit Compiler.linkedAccounts f).run (.start "Identity" 0)).result.isOk = true := by
      decide +kernel
    cases hresult : ((emit Compiler.linkedAccounts f).run (.start "Identity" 0)).result with
    | error err =>
      rw [hresult] at hok
      cases hok
    | ok condition => exact ⟨condition, _, hresult, rfl⟩
  refine ⟨condition, e, hrun, ?_⟩
  obtain ⟨kept, left, excluded, rfl, hgroups, hplain, hnegated⟩ :=
    emitCondition_signs Compiler.linkedAccounts (rfl : t.operation = .collectionCondition) hrun
  obtain rfl : excluded = none := by
    obtain ⟨-, hnone⟩ | ⟨_, _, _, hsome, -⟩ := hnegated
    · exact hnone
    · cases hsome
  obtain ⟨hnone, -⟩ | ⟨plain, hsome, hsigns⟩ := hplain
  · cases hnone
  · cases hsome
    have hkept : joinParts (nestedInequality.operation == .or) kept none = kept := by
      cases kept <;> rfl
    rw [hkept, hgroups]
    exact hsigns

end Draft

end ObjectQuery
