import ObjectQuery.Proofs.Emission.Parts
import ObjectQuery.Proofs.Emission.Steps

/-!
# Where a visit makes joins

The joins that a visit makes, in order, each with the place where it makes it. Nested selects make
joins of their own, which are not among them.

* `JoinSite`: the composites around a join, and the condition whose scope it opens.
* `JoinSite.AsksOuter`: whether a join that is made there is an outer one.
* `Draft.entering`, `Draft.opening`: the drafts in which the members of a composite and the plain
  part of a condition on a collection are emitted.
* `Draft.openingJoins`: the joins for a collection, of which the last one opens a scope.
* `Draft.sitedJoins`: the joins that a filter makes.
* `Filter.scopedConditions`: the conditions on collections for whose elements it opens a scope.
-/

namespace ObjectQuery

/-- Where a join is made. -/
structure JoinSite where
  /-- The connectives of the composites around it in the same visit, innermost first. -/
  around : List BooleanOp
  /-- The collection, with the condition on its elements, if the join opens their scope. -/
  scopeOf : Option (String × Composite) := none

/-- Under a disjunction of the visit, and for the elements of a collection if the condition on them
is a disjunction of several conditions. -/
def JoinSite.AsksOuter (s : JoinSite) : Prop :=
  .or ∈ s.around ∨
    ∃ property c, s.scopeOf = some (property, c) ∧ c.operation = .or ∧ 1 < c.children.length

/-- Whether a leaf stands for a disjunction: it compares with one entity after the other. -/
def Test.listsEntities (t : Test) : Bool :=
  t.operation == .inList && t.value.hasEntities && 1 < t.value.elements.length

/-- The plain part of a condition holds the children that are not negated. -/
theorem Composite.eq_of_split_plain {c part : Composite} (h : c.split.1 = some part) :
    part = ⟨c.operation, c.plainChildren⟩ := by
  unfold split at h
  split at h
  · cases h
  · dsimp only at h
    split at h
    · cases h
    · exact (Option.some.inj h).symm

namespace Draft

/-- The joins that the second draft has behind those of the first one. -/
def addedJoins (d e : Draft) : List Join := e.aliases.joins.drop d.aliases.joins.length

/-! ## Members of composites -/

/-- The draft in which joins stand under a connective. -/
def underConnective (operation : BooleanOp) (d : Draft) : Draft :=
  match operation with
  | .or => d.withAliases { d.aliases with insideOr := true }
  | .and | .not => d

/-- The draft in which the members of a composite are emitted. -/
def entering (c : Composite) (d : Draft) : Draft :=
  let grouping := Filter.areAggregateOnly c.children && !c.children.isEmpty
  (if grouping then { d with inHaving := true } else d).underConnective c.operation

variable {k : Compiler} {d e : Draft} {r : Option Condition} {x : Emission}

theorem underConnective_aliases (operation : BooleanOp) (d : Draft) :
    (d.underConnective operation).aliases =
      { d.aliases with insideOr := d.aliases.insideOr || operation == .or } := by
  have hkept : (d.aliases.insideOr || false) = d.aliases.insideOr := Bool.or_false _
  cases operation with
  | and | not => exact congrArg (fun insideOr => { d.aliases with insideOr }) hkept.symm
  | or => exact congrArg (fun insideOr => { d.aliases with insideOr }) (Bool.or_true _).symm

theorem entering_aliases (c : Composite) (d : Draft) :
    (d.entering c).aliases =
      { d.aliases with insideOr := d.aliases.insideOr || c.operation == .or } := by
  unfold entering
  rw [underConnective_aliases]
  split <;> rfl

theorem combined_underConnective {operation : BooleanOp} {xs : Step Draft (List Condition)}
    (h : (combined operation xs).Yields d r e) :
    ∃ members u, xs.Yields (d.underConnective operation) members u ∧
      e.aliases.joins = u.aliases.joins := by
  cases operation with
  | and | not =>
    obtain ⟨members, _, hxs, h₁⟩ := Step.yields_bind.mp h
    obtain ⟨-, rfl⟩ := Step.yields_pure.mp h₁
    exact ⟨members, e, hxs, rfl⟩
  | or =>
    obtain ⟨u, hor, rfl⟩ := insideOr_yields h
    obtain ⟨members, _, hxs, h₁⟩ := Step.yields_bind.mp hor
    obtain ⟨-, rfl⟩ := Step.yields_pure.mp h₁
    exact ⟨members, u, hxs, rfl⟩

/-- The members of a composite are emitted in the draft that enters it, and make its joins. -/
theorem composite_entering {c : Composite} {xs : Step Draft (List Condition)}
    (h : (composite c xs).Yields d r e) :
    ∃ members u, xs.Yields (d.entering c) members u ∧ e.aliases.joins = u.aliases.joins := by
  have h₁ := Step.yields_get_bind.mp h
  unfold entering
  dsimp only
  by_cases hgrouping : (Filter.areAggregateOnly c.children && !c.children.isEmpty) = true
  · rw [if_pos hgrouping]
    rw [Bool.and_eq_true, Bool.not_eq_true'] at hgrouping
    cases hhaving : d.inHaving with
    | true =>
      rw [if_pos hhaving] at h₁
      have hsame : { d with inHaving := true } = d := by
        rw [← hhaving]
      rw [hsame]
      exact combined_underConnective h₁
    | false =>
      rw [if_neg (by simp [hhaving]), if_pos hgrouping.1, hgrouping.2] at h₁
      obtain ⟨-, group, u, hu, rfl⟩ := inHavingGroup_yields h₁
      obtain ⟨members, v, hv, hjoins⟩ := combined_underConnective hu
      refine ⟨members, v, hv, ?_⟩
      unfold addGroup
      split <;> exact hjoins
  · rw [if_neg hgrouping]
    split at h₁
    · exact combined_underConnective h₁
    · split at h₁
      · rename_i honly
        rw [honly, Bool.true_and, Bool.not_eq_true', Bool.not_eq_false] at hgrouping
        rw [if_pos hgrouping] at h₁
        exact combined_underConnective h₁
      · split at h₁
        · exact (Step.yields_fail.mp h₁).elim
        · exact combined_underConnective h₁

/-! ## Plain parts of conditions -/

/-- The kind of the join with a collection whose elements meet a condition. -/
def scopeJoinType (c : Composite) (d : Draft) : JoinType :=
  d.aliases.joinTypeFor (c.operation == .or && 1 < c.children.length)

/-- The draft in which the plain part of a condition is emitted: in the scope of the collection's
elements, or of the class that the condition names. -/
def opening (k : Compiler) (property : String) (c : Composite) (d : Draft) : Draft :=
  { d with
    inTheta := namesClass property
    aliases :=
      if namesClass property then d.aliases.pushTheta
      else
        ((Aliases.pushCollection k.catalog property (d.scopeJoinType c)).run d.aliases).state }

/-- The plain part is emitted in the draft that opens the scope, and the scope is closed behind
it. -/
theorem inScope_opened {property : String} {c : Composite}
    (h : (inScope k property (c.operation == .or && 1 < c.children.length) x).Yields
      { d with inTheta := namesClass property } r e) :
    ∃ u, x.Yields (d.opening k property c) r u ∧ e = u.withAliases u.aliases.pop ∧
      (namesClass property = true ∧ (d.opening k property c).aliases = d.aliases.pushTheta ∨
        namesClass property = false ∧ ∃ aliasName,
          (Aliases.pushCollection k.catalog property (d.scopeJoinType c)).Yields d.aliases aliasName
            (d.opening k property c).aliases) := by
  have h₁ := Step.yields_get_bind.mp h
  unfold opening
  cases hclass : namesClass property with
  | true =>
    rw [if_pos hclass, hclass] at h₁
    split at h₁
    · obtain ⟨_, _, hpush, h₂⟩ := Step.yields_bind.mp h₁
      obtain ⟨-, rfl⟩ := changeAliases_yields.mp hpush
      obtain ⟨u, hx, rfl⟩ := Step.yields_restoring.mp h₂
      exact ⟨u, hx, rfl, .inl ⟨rfl, rfl⟩⟩
    · exact (Step.yields_fail.mp h₁).elim
  | false =>
    rw [if_neg (by simp [hclass]), hclass] at h₁
    obtain ⟨aliasName, _, hpush, h₂⟩ := Step.yields_bind.mp h₁
    obtain ⟨a, hcollection, rfl⟩ := aliased_yields.mp hpush
    obtain ⟨u, hx, rfl⟩ := Step.yields_restoring.mp h₂
    obtain ⟨hresult, rfl⟩ := hcollection
    exact ⟨u, hx, rfl, .inr ⟨rfl, aliasName, hresult, rfl⟩⟩

/-! ## Joins and their sites -/

/-- The joins that open the scope of a collection's elements: those of the associations on the way,
and that of the collection, which gives the scope its alias. -/
def openingJoins (k : Compiler) (around : List BooleanOp) (property : String) (c : Composite)
    (d : Draft) : List (JoinSite × Join) :=
  let opened := d.opening k property c
  (d.addedJoins opened).map fun j =>
    (⟨around, if opened.aliases.currentAlias = some j.aliasName then some (property, c) else none⟩,
      j)

mutual

/-- The joins that a filter makes inside composites, from a draft on. -/
def sitedJoins (k : Compiler) (around : List BooleanOp) : Filter → Draft → List (JoinSite × Join)
  | .leaf l, d => sitedJoinsOfLeaf k around l d
  | .composite c, d => sitedJoinsOfComposite k around c d

/-- The joins of a composite are made inside one composite more. -/
def sitedJoinsOfComposite (k : Compiler) (around : List BooleanOp) :
    Composite → Draft → List (JoinSite × Join)
  | ⟨operation, children⟩, d =>
    sitedJoinsOfEach k (operation :: around) false children (d.entering ⟨operation, children⟩)

/-- The joins that a leaf makes for its paths, or for the condition on a collection's elements. -/
def sitedJoinsOfLeaf (k : Compiler) (around : List BooleanOp) :
    Leaf → Draft → List (JoinSite × Join)
  | ⟨t, condition, subfilter⟩, d =>
    match t.operation with
    | .collectionCondition => sitedJoinsOfCondition k around t.property condition d
    | _ =>
      let left := ((emitLeaf k ⟨t, condition, subfilter⟩).run d).state
      (d.addedJoins left).map (⟨if t.listsEntities then .or :: around else around, none⟩, ·)

/-- A condition on a collection's elements makes joins for its plain part only. -/
def sitedJoinsOfCondition (k : Compiler) (around : List BooleanOp) (property : String) :
    Option Composite → Draft → List (JoinSite × Join)
  | none, _ => []
  | some ⟨operation, children⟩, d =>
    match (Composite.split ⟨operation, children⟩).1 with
    | none => []
    | some part =>
      openingJoins k around property ⟨operation, children⟩ d ++
        sitedJoinsOfEach k (operation :: around) true children
          ((d.opening k property ⟨operation, children⟩).entering part)

/-- The joins of several filters, one behind the other, or of those that are not negated. -/
def sitedJoinsOfEach (k : Compiler) (around : List BooleanOp) (plainOnly : Bool) :
    List Filter → Draft → List (JoinSite × Join)
  | [], _ => []
  | f :: rest, d =>
    if plainOnly && f.isNegated then sitedJoinsOfEach k around plainOnly rest d
    else
      sitedJoins k around f d ++
        sitedJoinsOfEach k around plainOnly rest ((emit k f).run d).state

end

theorem sitedJoinsOfEach_plain (k : Compiler) (around : List BooleanOp) (fs : List Filter)
    (d : Draft) : sitedJoinsOfEach k around true fs d =
      sitedJoinsOfEach k around false (fs.filter (!·.isNegated)) d := by
  induction fs generalizing d with
  | nil => rfl
  | cons f rest ih =>
    rw [sitedJoinsOfEach, Bool.true_and]
    by_cases hf : f.isNegated = true
    · rw [if_pos hf, List.filter_cons_of_neg (by simp [hf]), ih]
    · rw [if_neg hf, List.filter_cons_of_pos (by simp [hf]), ih, sitedJoinsOfEach, Bool.false_and,
        if_neg Bool.false_ne_true]

end Draft

namespace Filter

mutual

/-- The conditions on collections for whose elements a visit of the filter opens a scope, outer ones
first. Those that name a class open a scope of another kind. -/
def scopedConditions : Filter → List (String × Composite)
  | .leaf l => scopedConditionsOfLeaf l
  | .composite c => scopedConditionsOfComposite c

/-- Those of the children of a composite. -/
def scopedConditionsOfComposite : Composite → List (String × Composite)
  | ⟨_, children⟩ => scopedConditionsOfEach false children

/-- Those of a leaf: its own condition and those in the plain part of it. -/
def scopedConditionsOfLeaf : Leaf → List (String × Composite)
  | ⟨t, condition, _⟩ =>
    match t.operation with
    | .collectionCondition => scopedConditionsOfCondition t.property condition
    | _ => []

/-- Those of a condition. Its negated part is left to a nested select. -/
def scopedConditionsOfCondition (property : String) : Option Composite → List (String × Composite)
  | none => []
  | some ⟨operation, children⟩ =>
    match (Composite.split ⟨operation, children⟩).1 with
    | none => []
    | some _ =>
      (if Draft.namesClass property then [] else [(property, ⟨operation, children⟩)]) ++
        scopedConditionsOfEach true children

/-- Those of several filters, or of those that are not negated. -/
def scopedConditionsOfEach (plainOnly : Bool) : List Filter → List (String × Composite)
  | [] => []
  | f :: rest =>
    if plainOnly && f.isNegated then scopedConditionsOfEach plainOnly rest
    else scopedConditions f ++ scopedConditionsOfEach plainOnly rest

end

theorem scopedConditionsOfEach_plain (fs : List Filter) :
    scopedConditionsOfEach true fs = scopedConditionsOfEach false (fs.filter (!·.isNegated)) := by
  induction fs with
  | nil => rfl
  | cons f rest ih =>
    rw [scopedConditionsOfEach, Bool.true_and]
    by_cases hf : f.isNegated = true
    · rw [if_pos hf, List.filter_cons_of_neg (by simp [hf]), ih]
    · rw [if_neg hf, List.filter_cons_of_pos (by simp [hf]), ih, scopedConditionsOfEach,
        Bool.false_and, if_neg Bool.false_ne_true]

end Filter

end ObjectQuery
