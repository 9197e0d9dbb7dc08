import ObjectQuery.Proofs.Reading.Emission

/-!
# Readable conditions and groups

Whatever a filter emits, in whichever clause, is a condition without gaps. What may have gaps is the
having clause as a whole, as its groups are separated before it is known whether they hold anything.

* `Draft.Legible`: an emission that leaves nothing or a readable condition.
  `Draft.legible_emit`: every filter is emitted so.
* `havingTokens`: the tokens of a having clause. Their text is the text of the clause.
* `read_havingTokens`: they are read as the conjunction of the groups, unless one is blank, and then
  they are no expression.
-/

namespace ObjectQuery

open Expression

namespace Draft

variable {k : Compiler} {x : Emission} {xs : Step Draft (List Condition)}

/-! ## Readable emissions -/

/-- The emission leaves nothing or a readable condition. -/
def Legible (x : Emission) : Prop := ∀ d c e, x.Yields d c e → ∀ w ∈ c, w.IsReadable

/-- The step leaves readable conditions. -/
def LegibleEach (xs : Step Draft (List Condition)) : Prop :=
  ∀ d cs e, xs.Yields d cs e → AreReadable cs

namespace Legible

theorem bind {α : Type} {y : Step Draft α} {f : α → Emission} (hf : ∀ a, Legible (f a)) :
    Legible (y >>= f) := by
  intro d c e h
  obtain ⟨a, u, -, h₁⟩ := Step.yields_bind.mp h
  exact hf a u c e h₁

theorem none : Legible (pure none) := by
  intro d c e h
  obtain ⟨rfl, rfl⟩ := Step.yields_pure.mp h
  rintro w ⟨⟩

theorem fail (err : CompileError) : Legible (Step.fail err) := by
  intro d c e h
  exact (Step.yields_fail.mp h).elim

theorem predicate (p : Atom) : Legible (Draft.predicate p) := by
  intro d c e h
  obtain ⟨rfl, rfl⟩ := predicate_yields.mp h
  rintro w ⟨⟩
  exact trivial

theorem inHavingGroup (x : Emission) : Legible (Draft.inHavingGroup x) := by
  intro d c e h
  obtain ⟨rfl, -⟩ := inHavingGroup_yields h
  rintro w ⟨⟩

theorem routed (isAggregate : Bool) (hx : Legible x) : Legible (Draft.routed isAggregate x) := by
  intro d c e h
  obtain h' | ⟨-, -, h'⟩ := routed_yields h
  · exact hx d c e h'
  · exact inHavingGroup x d c e h'

theorem combined (operation : BooleanOp) (hxs : LegibleEach xs) :
    Legible (Draft.combined operation xs) := by
  have hcombine : ∀ members, AreReadable members → ∀ w ∈ combine operation members,
      w.IsReadable := by
    intro members hmembers w hw
    by_cases hnil : members = []
    · subst hnil
      cases operation <;> cases hw
    · obtain ⟨w', hw', hreadable, -⟩ := meaning_combine operation hnil hmembers
      rw [hw'] at hw
      cases hw
      exact hreadable
  intro d c e h
  obtain ⟨members, rfl, h' | ⟨u, h', -⟩⟩ := combined_yields h
  · exact hcombine members (hxs _ _ _ h')
  · exact hcombine members (hxs _ _ _ h')

theorem composite (c : Composite) (hxs : LegibleEach xs) : Legible (Draft.composite c xs) := by
  intro d condition e h
  obtain h' | ⟨-, -, h'⟩ := composite_yields h
  · exact combined c.operation hxs d condition e h'
  · exact inHavingGroup _ d condition e h'

theorem together (hx : Legible x) (hxs : LegibleEach xs) : LegibleEach (Draft.together x xs) := by
  intro d cs e h
  obtain ⟨condition, u, rest, hcondition, hrest, rfl⟩ := together_yields h
  have hfirst := hx _ _ _ hcondition
  refine areReadable_append.mpr ⟨?_, hxs _ _ _ hrest⟩
  cases condition with
  | none => exact trivial
  | some w => exact ⟨hfirst w rfl, trivial⟩

theorem nil : LegibleEach (pure []) := by
  intro d cs e h
  obtain ⟨rfl, rfl⟩ := Step.yields_pure.mp h
  exact trivial

/-! ## Leaves -/

theorem comparison (t : Test) (v : Value) (operator : String) :
    Legible (Draft.comparison k t v operator) :=
  routed _ (bind predicate)

theorem nullCheck (t : Test) (isNull : Bool) : Legible (Draft.nullCheck k t isNull) :=
  routed _ (bind fun _ => predicate _)

theorem equality (t : Test) (v : Value) (equal : Bool) : Legible (Draft.equality k t v equal) := by
  unfold Draft.equality
  split
  · exact nullCheck t equal
  · exact comparison t v _

theorem equalities (t : Test) (values : List Value) :
    LegibleEach (Draft.equalities k t values) := by
  induction values with
  | nil => exact nil
  | cons v rest ih => exact together (equality _ v true) ih

theorem membership (t : Test) : Legible (Draft.membership k t) := by
  unfold Draft.membership
  dsimp only
  split
  · split
    · exact equality _ _ true
    · exact composite _ (equalities t _)
  · exact routed _ (bind predicate)

theorem separateComparisons (t : Test) (values : List Value) :
    LegibleEach (Draft.separateComparisons k t values) := by
  induction values with
  | nil => exact nil
  | cons v rest ih =>
    intro d cs e h
    obtain ⟨p, u, -, h₁⟩ := Step.yields_bind.mp h
    obtain ⟨conditions, w, hrest, h₂⟩ := Step.yields_bind.mp h₁
    obtain ⟨rfl, rfl⟩ := Step.yields_pure.mp h₂
    exact ⟨trivial, ih _ _ _ hrest⟩

/-- A chain of no comparisons is left out. -/
theorem containsAll (t : Test) : Legible (Draft.containsAll k t) := by
  intro d c e h
  obtain ⟨v, -, h'⟩ | ⟨-, h'⟩ := containsAll_yields h
  · exact equality t v true d c e h'
  · refine routed t.isAggregate (fun d c e h => ?_) d c e h'
    obtain ⟨members, u, hmembers, h₁⟩ := Step.yields_bind.mp h
    obtain ⟨rfl, rfl⟩ := Step.yields_pure.mp h₁
    have hreadable := separateComparisons t _ _ _ _ hmembers
    unfold chained
    split
    · rintro w ⟨⟩
    · rename_i hne
      rintro w ⟨⟩
      exact ⟨by simpa using hne, hreadable⟩

theorem join (t : Test) : Legible (Draft.join k t) := by
  intro d c e h
  obtain ⟨_, _, -, -, rfl, -⟩ := join_yields h
  rintro w ⟨⟩
  exact trivial

theorem leftJoin (t : Test) : Legible (Draft.leftJoin k t) := by
  intro d c e h
  obtain ⟨rfl, -⟩ := leftJoin_yields h
  rintro w ⟨⟩

theorem test (t : Test) : Legible (Draft.test k t) := by
  unfold Draft.test
  cases t.operation with
  | eq | ne => exact equality t _ _
  | lt | gt | le | ge | like => exact comparison t _ _
  | inList => exact membership t
  | isNull | notNull => exact nullCheck t _
  | isEmpty => exact routed _ (bind fun _ => predicate _)
  | containsAll => exact containsAll t
  | join => exact join t
  | leftJoin => exact leftJoin t
  | collectionCondition | subquery => exact fail _

/-! ## Nested filters -/

theorem inSelect (reference : Reference) (negated : Bool) (className column : String) :
    Legible (Draft.inSelect k reference negated className column x) := by
  intro d c e h
  obtain ⟨_, _, _, _, -, -, rfl, -⟩ := inSelect_yields h
  rintro w ⟨⟩
  exact trivial

theorem subquery (t : Test) : Legible (Draft.subquery k t x) := by
  intro d c e h
  obtain h' | ⟨className, column, -, -, h'⟩ := subquery_yields h
  · exact test t d c e h'
  · exact routed _ (bind fun _ => inSelect _ _ _ _) d c e h'

theorem excludedPart (property : String) (part : Option Composite) :
    Legible (Draft.excludedPart k property part xs) := by
  cases part with
  | none => exact none
  | some part =>
    intro d c e h
    obtain ⟨_, _, _, _, -, -, -, -, h'⟩ := excluding_yields h
    exact inSelect _ _ _ _ d c e h'

theorem keptPart (property : String) (outer : Bool) (part : Option Composite)
    (hxs : LegibleEach xs) : Legible (Draft.keptPart k property outer part xs) := by
  cases part with
  | none => exact none
  | some part =>
    intro d c e h
    obtain ⟨a, u, -, hu, -⟩ := inScope_yields h
    exact composite part hxs _ c u hu

theorem elementCondition (property : String) (c : Composite)
    {plain negated : Step Draft (List Condition)} (hplain : LegibleEach plain) :
    Legible (Draft.elementCondition k property c plain negated) := by
  intro d condition e h
  obtain ⟨kept, u, excluded, v, outer, hkept, hexcluded, rfl, -⟩ := elementCondition_yields h
  have hkept := keptPart property outer _ hplain _ _ _ hkept
  have hexcluded := excludedPart property _ _ _ _ hexcluded
  match kept, excluded with
  | some a, some b =>
    rintro w ⟨⟩
    exact ⟨List.cons_ne_nil _ _, hkept a rfl, hexcluded b rfl, trivial⟩
  | some a, .none => exact hkept
  | .none, excluded => exact hexcluded

theorem closure (k : Compiler) : Closure k (fun _ => True) Legible LegibleEach where
  nothing := none
  test t _ := test t
  nil := nil
  together := together
  composite c _ hxs := composite c hxs
  elementCondition t c _ _ _ hxs _ := elementCondition t.property c hxs
  subquery t _ _ _ := subquery t

end Legible

/-- Whatever a filter emits is readable. -/
theorem legible_emit (k : Compiler) (f : Filter) : Legible (emit k f) :=
  (Legible.closure k).emit ⟨fun _ _ _ _ => trivial, fun _ _ _ _ _ => trivial⟩ fun _ _ => trivial

end Draft

/-! ## Having clauses as expressions -/

/-- The tokens of a group, of which a blank one has none. -/
def groupTokens : Option Condition → List Token
  | none => []
  | some c => c.tokens

/-- The tokens of the groups of a having clause. -/
def havingTokens : List (Option Condition) → List Token
  | [] => []
  | [group] => groupTokens group
  | group :: rest => groupTokens group ++ .and :: havingTokens rest

theorem tokensText_groupTokens (group : Option Condition) :
    tokensText (groupTokens group) = renderGroup group := by
  cases group with
  | none => rfl
  | some c => exact c.tokensText_tokens

/-- The text of the tokens is the text of the clause. -/
theorem tokensText_havingTokens (groups : List (Option Condition)) :
    tokensText (havingTokens groups) = havingText groups := by
  induction groups with
  | nil => rfl
  | cons group rest ih =>
    cases rest with
    | nil => exact tokensText_groupTokens group
    | cons second rest =>
      rw [havingTokens, tokensText_append, tokensText, tokensText_groupTokens, ih]
      · rw [← String.append_assoc]
        rfl
      · simp

/-- Whether all groups hold, of which a blank one says nothing. -/
def groupsHold (truth : Atom → Bool) (groups : List (Option Condition)) : Bool :=
  Condition.allHold truth (groups.filterMap id)

theorem havingTokens_map_some (conditions : List Condition) :
    havingTokens (conditions.map some) = tokensBetween [.and] conditions := by
  induction conditions with
  | nil => rfl
  | cons c rest ih =>
    cases rest with
    | nil => rfl
    | cons second rest =>
      rw [List.map_cons, List.map_cons, havingTokens, tokensBetween, ← List.map_cons, ih]
      · rfl
      · simp
      · simp

theorem eq_map_some {groups : List (Option Condition)} (h : none ∉ groups) :
    groups = (groups.filterMap id).map some := by
  induction groups with
  | nil => rfl
  | cons group rest ih =>
    obtain ⟨hgroup, hrest⟩ : none ≠ group ∧ none ∉ rest := by simpa using h
    cases group with
    | none => exact absurd rfl hgroup
    | some c => exact congrArg (some c :: ·) (ih hrest)

/-- Behind the connective in front of a blank group an operand is missing. -/
theorem run_havingTokens_blank (truth : Atom → Bool) {groups : List (Option Condition)}
    (hblank : none ∈ groups) (hreadable : AreReadable (groups.filterMap id)) {F : Frame}
    (hF : F.negated = false) :
    ∀ t ∈ run truth ⟨F, [], false⟩ (havingTokens groups), t.complete = false := by
  induction groups generalizing F with
  | nil => exact absurd hblank List.not_mem_nil
  | cons group rest ih =>
    cases group with
    | none =>
      cases rest with
      | nil =>
        rintro t ⟨⟩
        rfl
      | cons second rest => rintro t ⟨⟩
    | some c =>
      have hrest : none ∈ rest := by simpa using hblank
      obtain ⟨hc, hreadable⟩ : c.IsReadable ∧ AreReadable (rest.filterMap id) := hreadable
      match rest, List.ne_nil_of_mem hrest with
      | second :: rest, _ =>
        have hstep : run truth ⟨F, [], false⟩ (havingTokens (some c :: second :: rest)) =
            run truth ⟨F.take (c.holds truth), [], false⟩ (havingTokens (second :: rest)) :=
          c.run_tokens truth hc F [] _ fun _ => hF
        rw [hstep]
        exact ih hrest hreadable rfl

/-- The groups are read as their conjunction, but if one of them is blank, the clause is no
expression. -/
theorem read_havingTokens (truth : Atom → Bool) {groups : List (Option Condition)}
    (hne : groups ≠ []) (hreadable : AreReadable (groups.filterMap id)) :
    read truth (havingTokens groups) =
      if groups.any (·.isNone) then none else some (groupsHold truth groups) := by
  by_cases hblank : none ∈ groups
  · have hrun := run_havingTokens_blank truth hblank hreadable (F := {}) rfl
    rw [if_pos (List.any_eq_true.mpr ⟨none, hblank, rfl⟩), Expression.read]
    split
    · rename_i F hread
      exact absurd (hrun _ hread) (by simp)
    · rfl
  · have hall := eq_map_some hblank
    have hany : ¬groups.any (·.isNone) = true := by
      rw [List.any_eq_true]
      rintro ⟨group, hgroup, hnone⟩
      rw [Option.isNone_iff_eq_none.mp hnone] at hgroup
      exact hblank hgroup
    rw [if_neg hany, hall, havingTokens_map_some]
    have hconditions : groups.filterMap id ≠ [] := by
      intro hnil
      rw [hnil] at hall
      exact hne hall
    have hrun := run_tokens_all truth _ hconditions hreadable {} [] [] rfl
    rw [List.append_nil] at hrun
    rw [Expression.read, hrun, groupsHold]
    simp [run, Frame.value, Frame.take]

end ObjectQuery
