import ObjectQuery.Proofs.Compiler.Run
import ObjectQuery.Proofs.Emission.Clauses
import ObjectQuery.Proofs.Lists.Slices

/-!
# The sizes of lists

A store accepts lists of parameters up to a limit only. Filters keep it, and what they emit has the
lists that their tests are for.

* `Statement.listSizes`: the lengths of all lists of parameters in a statement.
* `Draft.Limiting`: a step that writes lists of certain lengths only.
* `Draft.limiting_emit`: a filter whose tests are for such lists emits such lists.
* `Compiler.compile_listSizes`: the lists of a compiled query are no longer than the limit, except
  for groups of equalities that the optimizer has collapsed.
-/

namespace ObjectQuery

/-! ## Lists in statements -/

mutual

/-- The lengths of the lists of parameters in a predicate, also in the select nested in it. -/
def Atom.listSizes : Atom → List Nat
  | .membership _ parameters => [parameters.length]
  | .inSelect _ _ query => query.listSizes
  | .comparison .. | .nullCheck .. | .emptyCheck _ | .never | .correlated _ => []

/-- The lengths of the lists of parameters in a condition. -/
def Condition.listSizes : Condition → List Nat
  | .atom predicate => predicate.listSizes
  | .chain members | .group _ members => conditionListSizes members
  | .negation condition => condition.listSizes
  | .unfinished _ members => conditionListSizes members

/-- The lengths of the lists of parameters in a select. -/
def Select.listSizes : Select → List Nat
  | ⟨_, _, _, conditions, _, having, _⟩ => conditionListSizes conditions ++ groupListSizes having

/-- The lengths of the lists of parameters in several conditions. -/
def conditionListSizes : List Condition → List Nat
  | [] => []
  | c :: rest => c.listSizes ++ conditionListSizes rest

/-- The lengths of the lists of parameters in a group that may hold nothing. -/
def groupSizes : Option Condition → List Nat
  | none => []
  | some c => c.listSizes

/-- The lengths of the lists of parameters in several groups. -/
def groupListSizes : List (Option Condition) → List Nat
  | [] => []
  | g :: rest => groupSizes g ++ groupListSizes rest

end

/-- The lengths of the lists of parameters in a statement, also in the selects nested in it. -/
def Statement.listSizes : Statement → List Nat
  | select query => query.listSizes
  | delete deletion => conditionListSizes deletion.conditions

theorem conditionListSizes_append (cs ds : List Condition) :
    conditionListSizes (cs ++ ds) = conditionListSizes cs ++ conditionListSizes ds := by
  induction cs with
  | nil => rfl
  | cons c rest ih =>
    rw [List.cons_append, conditionListSizes, ih, conditionListSizes, List.append_assoc]

theorem groupListSizes_append (gs hs : List (Option Condition)) :
    groupListSizes (gs ++ hs) = groupListSizes gs ++ groupListSizes hs := by
  induction gs with
  | nil => rfl
  | cons g rest ih => rw [List.cons_append, groupListSizes, ih, groupListSizes, List.append_assoc]

theorem conditionListSizes_toList (c : Option Condition) :
    conditionListSizes c.toList = groupSizes c := by
  cases c with
  | none => rfl
  | some c => exact List.append_nil _

/-- A connective has the lists of its members. -/
theorem groupSizes_combine (operation : BooleanOp) (members : List Condition) :
    groupSizes (Draft.combine operation members) = conditionListSizes members := by
  cases members <;> cases operation <;> rfl

theorem groupSizes_joinParts (disjunctive : Bool) (kept excluded : Option Condition) :
    groupSizes (Draft.joinParts disjunctive kept excluded) =
      groupSizes kept ++ groupSizes excluded := by
  cases kept with
  | none => rfl
  | some a =>
    cases excluded with
    | none => exact (List.append_nil _).symm
    | some b => exact congrArg (a.listSizes ++ ·) (List.append_nil _)

namespace Draft

variable {S : Nat → Prop} {k : Compiler} {d e : Draft}

/-- The lists of the draft have lengths that meet `S`. -/
structure Limited (S : Nat → Prop) (d : Draft) : Prop where
  conditions : ∀ size ∈ conditionListSizes d.conditions, S size
  having : ∀ size ∈ groupListSizes d.having, S size

theorem limited_start (S : Nat → Prop) (className : String) (first : Nat) :
    (Draft.start className first).Limited S :=
  ⟨List.forall_mem_nil _, List.forall_mem_nil _⟩

/-- A draft with the conditions and the groups of another. -/
structure SameClauses (d e : Draft) : Prop where
  conditions : e.conditions = d.conditions
  having : e.having = d.having

theorem SameClauses.limited (h : d.SameClauses e) (hd : d.Limited S) : e.Limited S :=
  ⟨h.conditions ▸ hd.conditions, h.having ▸ hd.having⟩

theorem Limited.addCondition (hd : d.Limited S) {c : Option Condition}
    (hc : ∀ size ∈ groupSizes c, S size) : (d.addCondition c).Limited S := by
  refine ⟨?_, hd.having⟩
  show ∀ size ∈ conditionListSizes (d.conditions ++ c.toList), _
  rw [conditionListSizes_append, conditionListSizes_toList]
  exact List.forall_mem_append.mpr ⟨hd.conditions, hc⟩

theorem Limited.addGroup (hd : d.Limited S) {group : Option Condition}
    (hgroup : ∀ size ∈ groupSizes group, S size) : (d.addGroup group).Limited S := by
  unfold Draft.addGroup
  split
  · exact hd
  · refine ⟨hd.conditions, ?_⟩
    show ∀ size ∈ groupListSizes (d.having ++ [group]), _
    rw [groupListSizes_append]
    exact List.forall_mem_append.mpr ⟨hd.having, by simpa [groupListSizes] using hgroup⟩

/-! ## Steps -/

/-- The lists in the draft and in the condition that the emission leaves have lengths that
meet `S`. -/
abbrev Limiting (S : Nat → Prop) (x : Emission) : Prop :=
  Step.Maintains (Limited S) (fun c => ∀ size ∈ groupSizes c, S size) x

/-- Likewise for a step that leaves several conditions. -/
abbrev LimitingAll (S : Nat → Prop) (xs : Step Draft (List Condition)) : Prop :=
  Step.Maintains (Limited S) (fun cs => ∀ size ∈ conditionListSizes cs, S size) xs

theorem limiting_none (S : Nat → Prop) : Limiting S (pure none) := .pure (List.forall_mem_nil _)

section

variable {x : Emission} {xs : Step Draft (List Condition)}

theorem limiting_together (hx : Limiting S x) (hxs : LimitingAll S xs) :
    LimitingAll S (together x xs) := by
  refine hx.bind fun c hc => hxs.bind fun cs hcs => .pure ?_
  rw [conditionListSizes_append, conditionListSizes_toList]
  exact List.forall_mem_append.mpr ⟨hc, hcs⟩

theorem limiting_inHavingGroup (hx : Limiting S x) : Limiting S (inHavingGroup x) := by
  intro d c e h hd
  obtain ⟨rfl, group, u, hu, rfl⟩ := inHavingGroup_yields h
  obtain ⟨hlimited, hgroup⟩ := hx _ group u hu ⟨hd.conditions, hd.having⟩
  have hrestored : Limited S { u with inHaving := d.inHaving } :=
    ⟨hlimited.conditions, hlimited.having⟩
  exact ⟨hrestored.addGroup hgroup, List.forall_mem_nil _⟩

theorem limiting_routed (isAggregate : Bool) (hx : Limiting S x) :
    Limiting S (routed isAggregate x) := by
  intro d c e h hd
  obtain h' | ⟨-, -, h'⟩ := routed_yields h
  · exact hx d c e h' hd
  · exact limiting_inHavingGroup hx d c e h' hd

theorem limiting_composite (c : Composite) (hxs : LimitingAll S xs) :
    Limiting S (composite c xs) := by
  have hcombined : Limiting S (combined c.operation xs) := by
    intro d condition e h hd
    obtain ⟨members, rfl, hrun⟩ := combined_yields h
    have hsizes (hmembers : ∀ size ∈ conditionListSizes members, S size) :
        ∀ size ∈ groupSizes (combine c.operation members), S size := by
      rwa [groupSizes_combine]
    obtain h' | ⟨u, h', rfl⟩ := hrun
    · obtain ⟨he, hmembers⟩ := hxs d members e h' hd
      exact ⟨he, hsizes hmembers⟩
    · obtain ⟨hu, hmembers⟩ := hxs _ members u h' ⟨hd.conditions, hd.having⟩
      exact ⟨⟨hu.conditions, hu.having⟩, hsizes hmembers⟩
  intro d condition e h hd
  obtain h' | ⟨-, -, h'⟩ := composite_yields h
  · exact hcombined d condition e h' hd
  · exact limiting_inHavingGroup hcombined d condition e h' hd

end

/-! ## Leaves -/

/-- A predicate made of what a step leaves that writes no clause. -/
theorem limiting_atom {α : Type} {x : Step Draft α} {f : α → Atom}
    (hx : ∀ d a e, x.Yields d a e → d.SameClauses e ∧ ∀ size ∈ (f a).listSizes, S size) :
    Limiting S (x >>= fun a => predicate (f a)) := by
  intro d c e h hd
  obtain ⟨a, u, ha, h₁⟩ := Step.yields_bind.mp h
  obtain ⟨rfl, rfl⟩ := predicate_yields.mp h₁
  obtain ⟨hsame, hsizes⟩ := hx d a _ ha
  exact ⟨hsame.limited hd, hsizes⟩

theorem sameClauses_plainComparison {t : Test} {v : Value} {operator : String} {ownJoins : Bool}
    {p : Atom} (h : (plainComparison k t v operator ownJoins).Yields d p e) :
    d.SameClauses e ∧ ∀ size ∈ p.listSizes, S size := by
  obtain ⟨_, _, _, -, rfl, rfl⟩ := plainComparison_yields h
  exact ⟨⟨rfl, rfl⟩, List.forall_mem_nil _⟩

theorem limiting_comparison (t : Test) (v : Value) (operator : String) :
    Limiting S (comparison k t v operator) :=
  limiting_routed _ (limiting_atom fun _ _ _ => sameClauses_plainComparison)

theorem limiting_nullCheck (t : Test) (isNull : Bool) : Limiting S (nullCheck k t isNull) := by
  refine limiting_routed _ (limiting_atom fun d r e h => ⟨?_, List.forall_mem_nil _⟩)
  obtain ⟨a, -, rfl⟩ := resolve_yields h
  exact ⟨rfl, rfl⟩

theorem limiting_emptyCheck (t : Test) : Limiting S (emptyCheck k t) := by
  refine limiting_routed _ (limiting_atom fun d r e h => ⟨?_, List.forall_mem_nil _⟩)
  obtain ⟨a, -, rfl⟩ := resolveCollection_yields h
  exact ⟨rfl, rfl⟩

theorem limiting_equality (t : Test) (v : Value) (equal : Bool) :
    Limiting S (equality k t v equal) := by
  unfold equality
  split
  · exact limiting_nullCheck t equal
  · exact limiting_comparison t v _

theorem limiting_equalities (t : Test) (values : List Value) :
    LimitingAll S (equalities k t values) := by
  induction values with
  | nil => exact .pure (List.forall_mem_nil _)
  | cons v rest ih => exact limiting_together (limiting_equality _ v true) ih

/-- The one place where a list is written. It has a parameter for each of its values. -/
theorem limiting_membership {t : Test} (hlist : S t.value.elements.length) :
    Limiting S (membership k t) := by
  unfold membership
  dsimp only
  split
  · split
    · exact limiting_equality _ _ true
    · exact limiting_composite _ (limiting_equalities t _)
  · refine limiting_routed _ (limiting_atom fun d p e h => ?_)
    obtain ⟨-, rfl, rfl⟩ | ⟨-, _, _, _, _, -, rfl, rfl⟩ := plainMembership_yields h
    · exact ⟨⟨rfl, rfl⟩, List.forall_mem_nil _⟩
    · refine ⟨⟨rfl, rfl⟩, List.forall_mem_singleton.mpr ?_⟩
      rwa [List.length_range']

theorem limiting_separateComparisons (t : Test) (values : List Value) :
    LimitingAll S (separateComparisons k t values) := by
  induction values with
  | nil => exact .pure (List.forall_mem_nil _)
  | cons v rest ih =>
    refine Step.Maintains.bind (P := fun p => ∀ size ∈ p.listSizes, S size)
      (fun d p e h hd => ?_) fun p hp => ih.bind fun cs hcs => .pure ?_
    · obtain ⟨hsame, hsizes⟩ := sameClauses_plainComparison h
      exact ⟨hsame.limited hd, hsizes⟩
    · exact List.forall_mem_append.mpr ⟨hp, hcs⟩

theorem limiting_containsAll (t : Test) : Limiting S (containsAll k t) := by
  intro d c e h hd
  obtain ⟨v, -, h'⟩ | ⟨-, h'⟩ := containsAll_yields h
  · exact limiting_equality t v true d c e h' hd
  · refine limiting_routed t.isAggregate ((limiting_separateComparisons t _).bind
      fun cs hcs => .pure ?_) d c e h' hd
    cases cs with
    | nil => exact List.forall_mem_nil _
    | cons c rest => exact hcs

theorem sameClauses_correlation {t : Test} {other : String} {condition : Correlation}
    (h : (correlation k t other).Yields d condition e) : d.SameClauses e := by
  obtain ⟨_, _, _, _, _, -, -, -, rfl⟩ := correlation_yields h
  exact ⟨rfl, rfl⟩

theorem limiting_join (t : Test) : Limiting S (join k t) := by
  intro d c e h hd
  obtain ⟨_, condition, -, -, rfl, ⟨-, _, _, _, _, -, -, -, rfl⟩ | ⟨-, hcondition⟩⟩ := join_yields h
  · exact ⟨⟨hd.conditions, hd.having⟩, List.forall_mem_nil _⟩
  · have hsame := sameClauses_correlation hcondition
    exact ⟨hsame.limited ⟨hd.conditions, hd.having⟩, List.forall_mem_nil _⟩

theorem limiting_leftJoin (t : Test) : Limiting S (leftJoin k t) := by
  intro d c e h hd
  obtain ⟨rfl, _, _, u, -, -, hcondition, rfl⟩ := leftJoin_yields h
  have hu : u.Limited S := (sameClauses_correlation hcondition).limited ⟨hd.conditions, hd.having⟩
  exact ⟨⟨hu.conditions, hu.having⟩, List.forall_mem_nil _⟩

theorem limiting_test {t : Test} (ht : t.Limits S) : Limiting S (test k t) := by
  unfold test
  cases hop : t.operation with
  | eq | ne => exact limiting_equality t _ _
  | lt | gt | le | ge | like => exact limiting_comparison t _ _
  | inList => exact limiting_membership (ht hop)
  | containsAll => exact limiting_containsAll t
  | isNull | notNull => exact limiting_nullCheck t _
  | isEmpty => exact limiting_emptyCheck t
  | join => exact limiting_join t
  | leftJoin => exact limiting_leftJoin t
  | collectionCondition | subquery => exact .fail _

/-! ## Nested filters -/

/-- A select has the lists of its draft. -/
theorem Limited.assembleSelect (hd : d.Limited S) {spec : SelectSpec} {assembled : Assembled Select}
    (h : (assembleSelect k spec).Yields d assembled e) :
    ∀ size ∈ assembled.statement.listSizes, S size := by
  obtain ⟨-, hconditions, hhaving⟩ := assembleSelect_yields h
  have hsizes : assembled.statement.listSizes =
      conditionListSizes d.conditions ++ groupListSizes d.having := by
    rw [← hconditions, ← hhaving]
    cases assembled.statement
    rfl
  rw [hsizes]
  exact List.forall_mem_append.mpr ⟨hd.conditions, hd.having⟩

section

variable {x : Emission}

/-- A nested select has a draft of its own. -/
theorem limiting_inSelect (reference : Reference) (negated : Bool) (className column : String)
    (hx : Limiting S x) : Limiting S (inSelect k reference negated className column x) := by
  intro d c e h hd
  obtain ⟨condition, u, query, v, hbody, hquery, rfl, rfl⟩ := inSelect_yields h
  obtain ⟨hu, hcondition⟩ := hx _ condition u hbody (limited_start S className _)
  exact ⟨⟨hd.conditions, hd.having⟩, (hu.addCondition hcondition).assembleSelect hquery⟩

theorem limiting_subquery {t : Test} (ht : t.Limits S) (hx : Limiting S x) :
    Limiting S (subquery k t x) := by
  intro d c e h hd
  obtain h' | ⟨className, column, -, -, h'⟩ := subquery_yields h
  · exact limiting_test ht d c e h' hd
  · refine limiting_routed _ (fun d c e h hd => ?_) d c e h' hd
    obtain ⟨reference, u, hresolve, h₁⟩ := Step.yields_bind.mp h
    obtain ⟨a, -, rfl⟩ := resolve_yields hresolve
    exact limiting_inSelect reference false className column hx _ c e h₁
      ⟨hd.conditions, hd.having⟩

theorem limiting_excluding (property : String) (hx : Limiting S x) :
    Limiting S (excluding k property x) := by
  intro d c e h hd
  obtain ⟨inverse, _, element, aliasName, -, -, -, -, h'⟩ := excluding_yields h
  exact limiting_inSelect _ true element inverse hx d c e h' hd

theorem limiting_inScope (property : String) (outer : Bool) (hx : Limiting S x) :
    Limiting S (inScope k property outer x) := by
  intro d c e h hd
  obtain ⟨a, u, -, hu, rfl⟩ := inScope_yields h
  obtain ⟨hlimited, hc⟩ := hx _ c u hu ⟨hd.conditions, hd.having⟩
  exact ⟨⟨hlimited.conditions, hlimited.having⟩, hc⟩

theorem limiting_elementCondition (property : String) (c : Composite)
    {plain negated : Step Draft (List Condition)} (hplain : LimitingAll S plain)
    (hnegated : LimitingAll S negated) :
    Limiting S (elementCondition k property c plain negated) := by
  intro d condition e h hd
  obtain ⟨kept, u, excluded, v, outer, hkept, hexcluded, rfl, rfl⟩ := elementCondition_yields h
  have hkeptPart : Limiting S (keptPart k property outer c.split.1 plain) := by
    unfold keptPart
    split
    · exact limiting_inScope property outer (limiting_composite _ hplain)
    · exact limiting_none S
  have hexcludedPart : Limiting S (excludedPart k property c.split.2 negated) := by
    unfold excludedPart
    split
    · exact limiting_excluding property (limiting_composite _ hnegated)
    · exact limiting_none S
  obtain ⟨hu, ha⟩ := hkeptPart _ kept u hkept ⟨hd.conditions, hd.having⟩
  obtain ⟨hv, hb⟩ := hexcludedPart u excluded v hexcluded hu
  refine ⟨⟨hv.conditions, hv.having⟩, ?_⟩
  show ∀ size ∈ groupSizes (joinParts _ kept excluded), S size
  rw [groupSizes_joinParts]
  exact List.forall_mem_append.mpr ⟨ha, hb⟩

end

theorem limiting_closure (k : Compiler) (S : Nat → Prop) :
    Closure k (Test.Limits S) (Limiting S) (LimitingAll S) where
  nothing := limiting_none S
  test _ ht := limiting_test ht
  nil := .pure (List.forall_mem_nil _)
  together := limiting_together
  composite c _ hxs := limiting_composite c hxs
  elementCondition t c _ _ _ hxs hus := limiting_elementCondition t.property c hxs hus
  subquery _ _ ht hx := limiting_subquery ht hx

/-- A filter whose tests are for lists with certain lengths emits such lists only. -/
theorem limiting_emit {f : Filter} (hf : ∀ t ∈ f.tests, t.Limits S) : Limiting S (emit k f) :=
  (limiting_closure k S).emit_of_invertible (Test.invertible_limits S) hf

end Draft

namespace Compiler

variable {k : Compiler} {className : String} {o : QueryOptions}

theorem restrict_limited (ho : ∀ f ∈ o.restrictions, f.Constructed) {d : Draft}
    (h : (k.restrict o).Yields (.start className 0) () d) : d.Limited o.HasListSize := by
  obtain ⟨_, u, hignore, h₁⟩ := Step.yields_bind.mp h
  obtain rfl := Step.yields_modify.mp hignore
  split at h₁
  · rename_i f hf
    obtain ⟨c, u, hemit, h₂⟩ := Step.yields_bind.mp (Step.yields_onFailure.mp h₁)
    obtain rfl := Step.yields_modify.mp h₂
    obtain ⟨hu, hc⟩ := Draft.limiting_emit (QueryOptions.limits_prepare ho hf) _ c u hemit
      ⟨List.forall_mem_nil _, List.forall_mem_nil _⟩
    exact hu.addCondition hc
  · obtain ⟨-, rfl⟩ := Step.yields_pure.mp h₁
    exact ⟨List.forall_mem_nil _, List.forall_mem_nil _⟩

/-- Membership in a list is membership in one of its slices, none of which is longer than the limit.
Where restrictions are put together from such filters, no list of the compiled query is longer
either, unless it is what the optimizer makes of a group of equalities inside a condition: that has
as many values as the group has members. -/
theorem compile_listSizes (ho : ∀ f ∈ o.restrictions, f.Constructed) :
    (∀ property values, ∃ parts : List (List Value), parts.flatten = values ∧
      (∀ part ∈ parts, part.length ≤ maxListSize) ∧
      ((parts = [values] ∧
          Filter.inList property values = .leaf (Filter.memberOf property values)) ∨
        (maxListSize < values.length ∧ Filter.inList property values =
          .or (parts.map fun part => .leaf (Filter.memberOf property part))))) ∧
    (∀ q, (k.compile className o).value = .ok q → ∀ size ∈ q.statement.listSizes,
      o.HasListSize size) ∧
    ∀ q, (k.compileDelete className o).value = .ok q → ∀ size ∈ q.statement.listSizes,
      o.HasListSize size := by
  refine ⟨Filter.exists_slices_inList, fun q hq => ?_, fun q hq => ?_⟩
  · obtain ⟨d, assembled, final, hrestrict, hassemble, rfl⟩ := compile_ok hq
    exact (restrict_limited ho hrestrict).assembleSelect hassemble
  · obtain ⟨d, hrestrict, -, hstatement, -⟩ := compileDelete_ok hq
    rw [hstatement]
    exact (restrict_limited ho hrestrict).conditions

/-- A query for identities with a link that has one of as many native identities. -/
def anyOfLinks (count : Nat) : QueryOptions :=
  { restrictions :=
      [.collectionCondition "links" (.or ((List.range count).map fun i =>
        .compare .eq "nativeIdentity" (.int (.ofNat i))))] }

theorem constructed_anyOfLinks (count : Nat) :
    ∀ f ∈ (anyOfLinks count).restrictions, f.Constructed := by
  refine List.forall_mem_singleton.mpr (.collectionCondition "links" (.or ?_))
  exact List.forall_mem_map.mpr fun i _ => .compare "nativeIdentity" (.int (.ofNat i)) (by decide)

/-- The optimizer makes a list that is longer than the limit. -/
theorem compile_listSizes_anyOfLinks :
    (∀ f ∈ (anyOfLinks 101).restrictions, f.Constructed) ∧
      ∃ q, (linkedAccounts.compile "Identity" (anyOfLinks 101)).value = .ok q ∧
        q.statement.listSizes = [101] ∧ maxListSize < 101 ∧ (anyOfLinks 101).HasListSize 101 := by
  have ho := constructed_anyOfLinks 101
  have hsizes : (linkedAccounts.compile "Identity" (anyOfLinks 101)).value.toOption.map
      (·.statement.listSizes) = some [101] := by decide +kernel
  refine ⟨ho, ?_⟩
  have hlisted : ∀ q, (linkedAccounts.compile "Identity" (anyOfLinks 101)).value = .ok q →
      ∀ size ∈ q.statement.listSizes, (anyOfLinks 101).HasListSize size :=
    (compile_listSizes ho).2.1
  revert hsizes hlisted
  cases (linkedAccounts.compile "Identity" (anyOfLinks 101)).value with
  | error e => intro h; cases h
  | ok q =>
    intro h hlisted
    have hq : q.statement.listSizes = [101] := Option.some.inj h
    exact ⟨q, rfl, hq, by decide, hlisted q rfl 101 (hq ▸ List.mem_singleton_self _)⟩

end Compiler

end ObjectQuery
