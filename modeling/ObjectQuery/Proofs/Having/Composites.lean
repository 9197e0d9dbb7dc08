import ObjectQuery.Proofs.Compiler.Run
import ObjectQuery.Proofs.Having.Groups

/-!
# Disjunctions and negations in the having clause

A disjunction or negation cannot be divided between the where clause and the having clause.

* `Draft.emit_composite_mixed`: it is refused if it compares aggregates beside other things.
* `Draft.emit_composite_yields`: else its members stand in one place, apart from the groups that
  conditions on collections leave.
* `Draft.emitCondition_parts`: the same of the condition on a collection itself, whose negated part
  is never a group.
* `Draft.emit_composite_placement`: all of this. Aggregates below conditions on collections are not
  looked for, so a composite may be divided after all: just if `Filter.leavesGroup` says so of a
  child that is no aggregate itself.
-/

namespace ObjectQuery

namespace Draft

variable {k : Compiler} {c : Composite} {d e : Draft} {condition : Option Condition}

/-- Outside of the having clause, aggregates beside other comparisons are refused in disjunctions
and negations. -/
theorem emit_composite_mixed (k : Compiler) (hop : c.operation ≠ .and) (hd : d.inHaving = false)
    (honly : Filter.areAggregateOnly c.children = false)
    (hmixed : Filter.anyHasAggregate c.children = true) :
    (emit k (.composite c)).run d = ⟨.error .mixedAggregate, d, []⟩ := by
  have hchoice : (c.operation != .and && Filter.anyHasAggregate c.children) = true := by
    rw [hmixed, Bool.and_true]
    exact bne_iff_ne.mpr hop
  obtain ⟨operation, children⟩ := c
  rw [emit, emitComposite, composite, routedComposite, Step.run_bind]
  show Outcome.andThen ⟨.ok d, d, []⟩ _ = _
  unfold Outcome.andThen
  dsimp only
  rw [if_neg (by simp [hd]), if_neg (by simp [honly]), if_pos hchoice]
  rfl

/-- The members that a connective combines, with the draft that they are emitted from. -/
theorem combined_members {operation : BooleanOp} {xs : Step Draft (List Condition)}
    (h : (combined operation xs).Yields d condition e) :
    ∃ u members v, xs.Yields u members v ∧ u.inHaving = d.inHaving ∧
      condition = combine operation members := by
  obtain ⟨members, hcombine, h' | ⟨v, h', -⟩⟩ := combined_yields h
  · exact ⟨d, members, e, h', rfl, hcombine⟩
  · exact ⟨_, members, v, h', rfl, hcombine⟩

theorem places_members (k : Compiler) (operation : BooleanOp) (children : List Filter) :
    Places Option.isNone (Filter.areSilent children) (Filter.anyLeavesGroup children)
      (combined operation (emitEach k .all children)) :=
  (places_emitEach fun f _ => places_emit k f).combined

/-- Outside of the having clause, members that compare aggregates only leave a group there, or
nothing if there are none. -/
theorem aggregateOnly_members {operation : BooleanOp} {children : List Filter}
    (hd : d.inHaving = false)
    (h : (if children.isEmpty then combined operation (emitEach k .all children)
      else inHavingGroup (combined operation (emitEach k .all children))).Yields d condition e) :
    ∃ u members v, (emitEach k .all children).Yields u members v ∧ u.inHaving = true ∧
      condition = none ∧ e.groups = d.groups ++ (combine operation members).toList := by
  have hplaces := places_members k operation children
  by_cases hempty : children = []
  · subst hempty
    obtain ⟨u, members, v, hmembers, -, rfl⟩ := combined_members h
    obtain ⟨rfl, -⟩ := Step.yields_pure.mp hmembers
    obtain ⟨left, hgroups, hleft⟩ := hplaces.outside h hd
    have hnone : combine operation [] = none := by cases operation <;> rfl
    refine ⟨{ d with inHaving := true }, [], _, Step.yields_pure.mpr ⟨rfl, rfl⟩, rfl, hnone, ?_⟩
    rw [hgroups, List.isEmpty_iff.mp hleft, hnone]
    rfl
  · rw [if_neg (by simpa using hempty)] at h
    obtain ⟨rfl, group, w, hgroup, rfl⟩ := inHavingGroup_yields h
    obtain ⟨u, members, v, hmembers, hu, rfl⟩ := combined_members hgroup
    have hhaving : w.having = d.having := (hplaces.within hgroup rfl).1
    refine ⟨u, members, v, hmembers, hu, rfl, ?_⟩
    rw [groups_addGroup, groups, hhaving, groups]

/-- Where the members of an emitted composite stand. -/
theorem emit_composite_yields (hop : c.operation ≠ .and)
    (h : (emit k (.composite c)).Yields d condition e) :
    ∃ u members v, (emitEach k .all c.children).Yields u members v ∧
      if d.inHaving then
        u.inHaving = true ∧ condition = combine c.operation members ∧ e.groups = d.groups
      else if Filter.areAggregateOnly c.children then
        u.inHaving = true ∧ condition = none ∧
          e.groups = d.groups ++ (combine c.operation members).toList
      else
        u.inHaving = false ∧ condition = combine c.operation members ∧
          Filter.anyHasAggregate c.children = false ∧
          ∃ left, e.groups = d.groups ++ left ∧
            left.isEmpty = !Filter.anyLeavesGroup c.children := by
  obtain ⟨operation, children⟩ := c
  have hplaces := places_members k operation children
  have h₁ := Step.yields_get_bind.mp h
  dsimp only at h₁ ⊢
  by_cases hd : d.inHaving = true
  · rw [if_pos hd] at h₁
    obtain ⟨u, members, v, hmembers, hu, rfl⟩ := combined_members h₁
    refine ⟨u, members, v, hmembers, ?_⟩
    rw [if_pos hd]
    exact ⟨hu.trans hd, rfl, congrArg (List.filterMap id) (hplaces.within h₁ hd).1⟩
  · rw [if_neg hd] at h₁
    simp only [if_neg hd]
    rw [Bool.not_eq_true] at hd
    by_cases honly : Filter.areAggregateOnly children = true
    · rw [if_pos honly] at h₁
      simp only [if_pos honly]
      exact aggregateOnly_members hd h₁
    · rw [if_neg honly] at h₁
      simp only [if_neg honly]
      split at h₁
      · exact (Step.yields_fail.mp h₁).elim
      · rename_i hmixed
        obtain ⟨u, members, v, hmembers, hu, rfl⟩ := combined_members h₁
        have hplain : Filter.anyHasAggregate children = false := by simpa [hop] using hmixed
        exact ⟨u, members, v, hmembers, hu.trans hd, rfl, hplain, hplaces.outside h₁ hd⟩

/-- How the parts of the condition on a collection are written: the plain part as a composite of its
own, and the negated part as a select in place, whose owners are excluded. -/
theorem emitCondition_parts {t : Test} {subfilter : Option Filter}
    (hcondition : t.operation = .collectionCondition)
    (h : (emit k (.leaf ⟨t, some c, subfilter⟩)).Yields d condition e) :
    ∃ kept excluded, condition = joinParts (c.operation == .or) kept excluded ∧
      (c.split.1 = none ∧ kept = none ∧ e.groups = d.groups ∨
        ∃ plain a u, c.split.1 = some plain ∧ (emit k (.composite plain)).Yields a kept u ∧
          a.inHaving = d.inHaving ∧ a.groups = d.groups ∧ e.groups = u.groups) ∧
      (c.split.2 = none ∧ excluded = none ∨
        ∃ negated reference query, c.split.2 = some negated ∧
          excluded = some (.atom (.inSelect reference true query))) := by
  rw [emit, emitLeaf, hcondition] at h
  dsimp only at h
  rw [emitCondition_eq] at h
  obtain ⟨v, hparts, rfl⟩ := Step.yields_restoring.mp h
  obtain ⟨kept, w, excluded, rfl, hkept, hexcluded⟩ := emitParts_yields hparts
  have hnegated : v.groups = w.groups ∧ (c.split.2 = none ∧ excluded = none ∨
      ∃ negated reference query, c.split.2 = some negated ∧
        excluded = some (.atom (.inSelect reference true query))) := by
    obtain ⟨hnone, rfl, rfl⟩ | ⟨negated, hsome, hselect⟩ := hexcluded
    · exact ⟨rfl, .inl ⟨hnone, rfl⟩⟩
    · obtain ⟨_, _, _, _, -, -, -, -, hselect⟩ := excluding_yields hselect
      obtain ⟨_, _, query, _, -, -, rfl, rfl⟩ := inSelect_yields hselect
      exact ⟨rfl, .inr ⟨negated, _, query.statement, hsome, rfl⟩⟩
  refine ⟨kept, excluded, rfl, ?_, hnegated.2⟩
  obtain ⟨hnone, rfl, rfl⟩ | ⟨plain, hsome, hscope⟩ := hkept
  · exact .inl ⟨hnone, rfl, hnegated.1⟩
  · obtain ⟨a, u, -, hplain, rfl⟩ := inScope_yields hscope
    exact .inr ⟨plain, _, u, hsome, hplain, rfl, rfl, hnegated.1⟩

/-- A disjunction or negation is written in one place: as a group of the having clause if one is
being written or if it compares aggregates only, and else in the clause that is being written, if no
aggregate stands beside other comparisons. With aggregates beside them it is refused. Aggregates in
conditions on collections are not looked for, and are all that may leave groups behind. The
condition on a collection is written by its parts, each as a whole. -/
theorem emit_composite_placement (k : Compiler) {c : Composite} (hop : c.operation ≠ .and)
    (d : Draft) :
    (d.inHaving = false → Filter.areAggregateOnly c.children = false →
        Filter.anyHasAggregate c.children = true →
        (emit k (.composite c)).run d = ⟨.error .mixedAggregate, d, []⟩) ∧
      (∀ condition e, (emit k (.composite c)).Yields d condition e →
        ∃ u members v, (emitEach k .all c.children).Yields u members v ∧
          if d.inHaving then
            u.inHaving = true ∧ condition = combine c.operation members ∧ e.groups = d.groups
          else if Filter.areAggregateOnly c.children then
            u.inHaving = true ∧ condition = none ∧
              e.groups = d.groups ++ (combine c.operation members).toList
          else
            u.inHaving = false ∧ condition = combine c.operation members ∧
              Filter.anyHasAggregate c.children = false ∧
              ∃ left, e.groups = d.groups ++ left ∧
                left.isEmpty = !Filter.anyLeavesGroup c.children) ∧
      ∀ t subfilter condition e, t.operation = .collectionCondition →
        (emit k (.leaf ⟨t, some c, subfilter⟩)).Yields d condition e →
        ∃ kept excluded, condition = joinParts (c.operation == .or) kept excluded ∧
          (c.split.1 = none ∧ kept = none ∧ e.groups = d.groups ∨
            ∃ plain a u, c.split.1 = some plain ∧ (emit k (.composite plain)).Yields a kept u ∧
              a.inHaving = d.inHaving ∧ a.groups = d.groups ∧ e.groups = u.groups) ∧
          (c.split.2 = none ∧ excluded = none ∨
            ∃ negated reference query, c.split.2 = some negated ∧
              excluded = some (.atom (.inSelect reference true query))) :=
  ⟨emit_composite_mixed k hop, fun _ _ => emit_composite_yields hop,
    fun _ _ _ _ => emitCondition_parts⟩

/-- Identities that are called Al, or that have a link with more than five permissions. -/
def namedOrPermitted : Composite :=
  ⟨.or, [.collectionCondition "links" (.compare .gt "count(permissions)" (.int 5)),
    .compare .eq "name" (.text "Al")]⟩

/-- The disjunction leaves the count in the having clause and keeps the name in the where clause. -/
theorem emit_composite_placement_namedOrPermitted :
    namedOrPermitted.operation ≠ .and ∧
      (∀ condition e,
        (emit Compiler.linkedAccounts (.composite namedOrPermitted)).Yields (.start "Identity" 0)
          condition e →
        ∃ u members v,
          (emitEach Compiler.linkedAccounts .all namedOrPermitted.children).Yields u members v ∧
          u.inHaving = false ∧ condition = combine .or members ∧ e.groups ≠ []) ∧
      (Compiler.linkedAccounts.compile "Identity"
          { groupBy := ["name"], restrictions := [.composite namedOrPermitted] }).value.toOption.map
        (·.text) = some ("select identityAlias from Identity identityAlias left outer join " ++
          "identityAlias.links identity_linksAlias0 left outer join " ++
          "identity_linksAlias0.permissions identity_links_permissionsAlias0 " ++
          "where (identityAlias.name = :param0) group by identityAlias.name " ++
          "having (count(identity_links_permissionsAlias0) > :param1)") := by
  have hop : namedOrPermitted.operation ≠ .and := by decide
  refine ⟨hop, fun condition e h => ?_, by decide +kernel⟩
  obtain ⟨u, members, v, hmembers, hplace⟩ :=
    (emit_composite_placement Compiler.linkedAccounts hop (.start "Identity" 0)).2.1 condition e h
  obtain ⟨hu, hcondition, -, left, hgroups, hleft⟩ := hplace
  refine ⟨u, members, v, hmembers, hu, hcondition, ?_⟩
  rw [hgroups]
  rintro hnil
  rw [List.append_eq_nil_iff] at hnil
  rw [hnil.2] at hleft
  exact absurd hleft (by decide)

end Draft

end ObjectQuery
