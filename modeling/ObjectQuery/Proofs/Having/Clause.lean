import ObjectQuery.Proofs.Having.Composites
import ObjectQuery.Proofs.Having.Parts
import ObjectQuery.Proofs.Having.Readable
import ObjectQuery.Proofs.Step.Endings

/-!
# The having clause

What the having clause of a filter says, and when it is an expression at all.

* `Condition.predicates`: the predicates of a condition.
* `Draft.leaves_predicates`: the predicates of a group are those that the leaves of its part leave
  within the having clause.
* `Draft.visit_having`: the clause is the conjunction of the groups of the parts of the filter.
  Blank groups are dropped at its beginning, but any other one takes the operand of a connective
  away.
-/

namespace ObjectQuery

open Expression

/-! ## Predicates -/

mutual

/-- The predicates of a condition, in the order in which they are written. -/
def Condition.predicates : Condition → List Atom
  | .atom predicate => [predicate]
  | .chain members => predicatesOf members
  | .group _ members => predicatesOf members
  | .negation condition => condition.predicates
  | .unfinished _ members => predicatesOf members

/-- The predicates of several conditions. -/
def predicatesOf : List Condition → List Atom
  | [] => []
  | c :: rest => c.predicates ++ predicatesOf rest

end

/-- The predicates of a group, of which a blank one has none. -/
def groupPredicates : Option Condition → List Atom
  | none => []
  | some c => c.predicates

theorem predicatesOf_append (cs ds : List Condition) :
    predicatesOf (cs ++ ds) = predicatesOf cs ++ predicatesOf ds := by
  induction cs with
  | nil => rfl
  | cons c rest ih => rw [List.cons_append, predicatesOf, ih, predicatesOf, List.append_assoc]

theorem predicatesOf_toList (c : Option Condition) : predicatesOf c.toList = groupPredicates c := by
  cases c with
  | none => rfl
  | some c => exact List.append_nil _

/-- Blank groups have no predicates. -/
theorem flatMap_groupPredicates_dropWhile (groups : List (Option Condition)) :
    (groups.dropWhile (·.isNone)).flatMap groupPredicates = groups.flatMap groupPredicates := by
  induction groups with
  | nil => rfl
  | cons group rest ih =>
    cases group with
    | none => exact ih
    | some c => rfl

theorem forall₂_dropWhile {α β : Type} {R : α → β → Prop} {p : α → Bool} {q : β → Bool}
    (hpq : ∀ a b, R a b → p a = q b) {as : List α} {bs : List β} (h : List.Forall₂ R as bs) :
    List.Forall₂ R (as.dropWhile p) (bs.dropWhile q) := by
  induction h with
  | nil => exact .nil
  | @cons a b as bs hab hrest ih =>
    rw [List.dropWhile_cons, List.dropWhile_cons, hpq a b hab]
    split
    · exact ih
    · exact .cons hab hrest

theorem any_of_forall₂ {α β : Type} {R : α → β → Prop} {p : α → Bool} {q : β → Bool}
    (hpq : ∀ a b, R a b → p a = q b) {as : List α} {bs : List β} (h : List.Forall₂ R as bs) :
    as.any p = bs.any q := by
  induction h with
  | nil => rfl
  | @cons a b as bs hab hrest ih => rw [List.any_cons, List.any_cons, hpq a b hab, ih]

namespace Draft

variable {k : Compiler}

theorem groupPredicates_combine (operation : BooleanOp) (members : List Condition) :
    groupPredicates (combine operation members) = predicatesOf members := by
  cases operation <;> cases members <;> rfl

/-! ## The predicates of a part -/

/-- Within the having clause, the filter leaves the predicates that its leaves leave there on the
same way. -/
def Collects (k : Compiler) (f : Filter) : Prop :=
  ∀ d e group, LeavesGroup k d e f group → ∃ pieces : List (Option Condition),
    List.Forall₂ (fun l piece => LeavesGroup k d e (.leaf l) piece) f.leaves pieces ∧
      groupPredicates group = pieces.flatMap groupPredicates

theorem collects_emitEach {fs : List Filter} (h : ∀ f ∈ fs, Collects k f) {d e : Draft}
    {members : List Condition} (hd : d.inHaving = true)
    (hmembers : (emitEach k .all fs).Yields d members e) : ∃ pieces : List (Option Condition),
      List.Forall₂ (fun l piece => LeavesGroup k d e (.leaf l) piece) (Filter.leavesOf fs) pieces ∧
        predicatesOf members = pieces.flatMap groupPredicates := by
  induction fs generalizing d members with
  | nil =>
    obtain ⟨rfl, -⟩ := Step.yields_pure.mp hmembers
    exact ⟨[], .nil, rfl⟩
  | cons f rest ih =>
    obtain ⟨hf, hrest⟩ := List.forall_mem_cons.mp h
    rw [emitEach_cons] at hmembers
    obtain ⟨c, u, conditions, hc, hconditions, rfl⟩ := together_yields hmembers
    obtain ⟨pieces, hpieces, hpredicates⟩ := hf d u c ⟨d, u, hd, .refl d, hc, .refl u⟩
    obtain ⟨others, hothers, hpredicates'⟩ :=
      ih hrest (((places_emit k f).inHaving hc).trans hd) hconditions
    have hbefore : d.Underlies u := ((underlies k).emit f).yields hc
    have hafter : u.Underlies e := ((underlies k).emitEach .all rest).yields hconditions
    have hfirst := hpieces.imp fun _ _ h => h.along (.refl d) hafter
    have hsecond := hothers.imp fun _ _ h => h.along hbefore (.refl e)
    refine ⟨pieces ++ others, List.rel_append hfirst hsecond, ?_⟩
    rw [predicatesOf_append, predicatesOf_toList, hpredicates, hpredicates', List.flatMap_append]

theorem collects (k : Compiler) (f : Filter) : Collects k f := by
  induction f using Filter.induction with
  | leaf t condition subfilter ihc ihs =>
    intro d e group hgroup
    exact ⟨[group], .cons hgroup .nil, (List.append_nil _).symm⟩
  | composite operation children ih =>
    rintro d e group ⟨u, v, hu, hbefore, hyields, hafter⟩
    have h₁ := Step.yields_get_bind.mp hyields
    rw [if_pos hu] at h₁
    obtain ⟨members, u', v', rfl, hmembers, hfirst, hstart, hlast, -⟩ := combined_course h₁
    have hmarked := hstart.inHaving.trans hu
    obtain ⟨pieces, hpieces, hpredicates⟩ := collects_emitEach ih hmarked hmembers
    have hway := hpieces.imp fun _ _ h => h.along (hbefore.trans hfirst) (hlast.trans hafter)
    exact ⟨pieces, hway, (groupPredicates_combine operation members).trans hpredicates⟩

/-- The groups of several parts have the predicates of the leaves of the parts. -/
theorem leaves_predicates {d e : Draft} {parts : List Filter} {groups : List (Option Condition)}
    (h : List.Forall₂ (LeavesGroup k d e) parts groups) : ∃ pieces : List (Option Condition),
      List.Forall₂ (fun l piece => LeavesGroup k d e (.leaf l) piece) (Filter.leavesOf parts) pieces ∧
        groups.flatMap groupPredicates = pieces.flatMap groupPredicates := by
  induction h with
  | nil => exact ⟨[], .nil, rfl⟩
  | @cons f group parts groups hgroup hrest ih =>
    obtain ⟨pieces, hpieces, hpredicates⟩ := collects k f d e group hgroup
    obtain ⟨others, hothers, hpredicates'⟩ := ih
    refine ⟨pieces ++ others, List.rel_append hpieces hothers, ?_⟩
    rw [List.flatMap_cons, hpredicates, hpredicates', List.flatMap_append]

/-! ## The clause -/

theorem LeavesGroup.isSilent {d e : Draft} {f : Filter} {group : Option Condition}
    (h : LeavesGroup k d e f group) : f.isSilent = group.isNone := by
  obtain ⟨u, v, hu, -, hyields, -⟩ := h
  exact ((places_emit k f).within hyields hu).2.symm

theorem LeavesGroup.readable {d e : Draft} {parts : List Filter} {groups : List (Option Condition)}
    (h : List.Forall₂ (LeavesGroup k d e) parts groups) : AreReadable (groups.filterMap id) := by
  induction h with
  | nil => exact trivial
  | @cons f group parts groups hgroup hrest ih =>
    obtain ⟨u, v, -, -, hyields, -⟩ := hgroup
    have hreadable := legible_emit k f u group v hyields
    cases group with
    | none => exact ih
    | some c => exact ⟨hreadable c rfl, ih⟩

/-- From a draft without a having clause, a filter leaves the groups of its parts, without the blank
ones at the beginning, each of them emitted in the course of the visit. The predicates of the clause
are those that the leaves of the parts leave, which are all aggregates, and no aggregate is compared
elsewhere. The clause is the conjunction of the groups, but no expression if one of the groups behind
the first one is blank. -/
theorem visit_having {f : Filter} {d e : Draft} (hhaving : d.having = []) (hd : d.inHaving = false)
    (h : (visit k f).Yields d () e) :
    List.Forall₂ (LeavesGroup k d e) (f.havingParts.dropWhile (·.isSilent)) e.having ∧
      (∃ pieces : List (Option Condition),
        List.Forall₂ (fun l piece => LeavesGroup k d e (.leaf l) piece)
          (Filter.leavesOf f.havingParts) pieces ∧
        e.having.flatMap groupPredicates = pieces.flatMap groupPredicates) ∧
      (∀ l ∈ Filter.leavesOf f.havingParts, l.test.isAggregate = true) ∧
      (∀ l ∈ f.reached, l.test.isAggregate = true → l.test.operation ≠ .join →
        l.test.operation ≠ .leftJoin → ∃ part ∈ f.havingParts, l ∈ part.reached) ∧
      tokensText (havingTokens e.having) = havingText e.having ∧
      (e.having ≠ [] → ∀ truth, read truth (havingTokens e.having) =
        if (f.havingParts.dropWhile (·.isSilent)).any (·.isSilent) then none
        else some (groupsHold truth e.having)) := by
  obtain ⟨c, u, hemit, -, he⟩ := visit_yields h
  obtain ⟨groups, hleft, hgathered⟩ := gathers_emit k f d c u hemit hd
  have hclause : e.having = groups.dropWhile (·.isNone) := by
    rw [he, ← foldl_appendGroup_nil, ← hhaving]
    exact hgathered
  have hafter : u.Underlies e := by
    rw [he]
    exact { Underlies.refl u with }
  have hgroups := hleft.imp fun _ _ h => h.along (.refl d) hafter
  have hsilent : ∀ part group, LeavesGroup k d e part group → part.isSilent = group.isNone :=
    fun _ _ => LeavesGroup.isSilent
  have hparts : List.Forall₂ (LeavesGroup k d e) (f.havingParts.dropWhile (·.isSilent))
      (groups.dropWhile (·.isNone)) := forall₂_dropWhile hsilent hgroups
  obtain ⟨pieces, hpieces, hpredicates⟩ := leaves_predicates hgroups
  rw [hclause]
  refine ⟨hparts, ⟨pieces, hpieces, ?_⟩, fun l hl => ?_, fun l hl haggregate hjoin hleft => ?_,
    tokensText_havingTokens _, fun hne truth => ?_⟩
  · rw [flatMap_groupPredicates_dropWhile, hpredicates]
  · obtain ⟨part, hpart, hl⟩ := Filter.mem_leavesOf.mp hl
    exact Filter.isAggregate_of_mem_leaves (Filter.isAggregateOnly_havingParts f part hpart) l hl
  · exact Filter.mem_reached_havingParts haggregate hjoin hleft f hl
  · rw [read_havingTokens truth hne (LeavesGroup.readable hparts),
      any_of_forall₂ hsilent hparts]

/-- Identities called Al with more than five links, whose number is asked to have no values. -/
def blankGroup : Filter :=
  .and [.compare .gt "count(links)" (.int 5), .compare .containsAll "count(links)" (.list []),
    .compare .eq "name" (.text "Al")]

/-- The connective behind the first group stands in front of nothing. -/
theorem visit_having_blankGroup :
    (∃ e, (visit Compiler.linkedAccounts blankGroup).Yields (.start "Identity" 0) () e ∧
      ∀ truth, read truth (havingTokens e.having) = none) ∧
    (Compiler.linkedAccounts.compile "Identity" { groupBy := ["name"], restrictions := [blankGroup] }
      ).value.toOption.map (·.text) =
        some ("select identityAlias from Identity identityAlias inner join identityAlias.links " ++
          "identity_linksAlias0 where (identityAlias.name = :param1) group by identityAlias.name " ++
          "having count(identity_linksAlias0) > :param0 and ") := by
  refine ⟨?_, by decide +kernel⟩
  have hok : ((visit .linkedAccounts blankGroup).run (.start "Identity" 0)).result.toOption =
      some () := by
    decide +kernel
  have hyields := Step.yields_of_toOption hok
  obtain ⟨hgroups, -, -, -, -, hread⟩ := visit_having rfl rfl hyields
  refine ⟨_, hyields, fun truth => ?_⟩
  rw [hread, if_pos (by decide +kernel)]
  intro hnil
  rw [hnil] at hgroups
  have hnone := List.forall₂_nil_right_iff.mp hgroups
  exact absurd (congrArg List.length hnone) (by decide +kernel)

end Draft

end ObjectQuery
