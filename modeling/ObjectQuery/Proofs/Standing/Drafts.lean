import ObjectQuery.Proofs.Matching.Drafts
import ObjectQuery.Proofs.Standing.Aliases

/-!
# Drafts of the same standing

Two runs of a compilation that make different joins and write different conditions, and still
resolve the same paths and bind the same number of values.

* `Draft.Peers`: drafts that agree in all that the success of a step depends on.
* `Draft.Abreast`: two emissions that go the same way from such drafts.
* The lemmas put such steps together.
-/

namespace ObjectQuery

namespace Draft

/-- Drafts in which the same paths resolve, whose parameters may stand for each other, and which
both have groups of conditions on aggregates or both have none. -/
structure Peers (r : Likeness) (d e : Draft) : Prop where
  firstParameter : d.firstParameter = e.firstParameter
  aliases : d.aliases.SameStanding e.aliases
  having : d.having.isEmpty = e.having.isEmpty
  inHaving : d.inHaving = e.inHaving
  inTheta : d.inTheta = e.inTheta
  autoIgnoreCase : d.autoIgnoreCase = e.autoIgnoreCase
  parameters : List.Forall₂ r.Parameters d.parameters e.parameters

/-- The steps go the same way from peers. -/
abbrev Parallel {α β : Type} (r : Likeness) (S : α → β → Prop) (x : Step Draft α)
    (y : Step Draft β) : Prop :=
  Step.Parallel (Peers r) S x y

/-- The steps succeed alike, whatever they give. -/
abbrev Alongside {α β : Type} (r : Likeness) (x : Step Draft α) (y : Step Draft β) : Prop :=
  Parallel r (fun _ _ => True) x y

/-- The emissions go the same way and both leave a condition or none. -/
abbrev Abreast (r : Likeness) (x y : Emission) : Prop :=
  Parallel r (fun c c' => c.isNone = c'.isNone) x y

/-- Steps that emit several conditions go the same way and both leave some condition or none. -/
abbrev AllAbreast (r : Likeness) (xs ys : Step Draft (List Condition)) : Prop :=
  Parallel r (fun cs cs' => cs.isEmpty = cs'.isEmpty) xs ys

variable {r : Likeness} {α β : Type} {d e : Draft}

theorem isEmpty_append_group (groups : List (Option Condition)) (group : Option Condition) :
    (groups ++ [group]).isEmpty = false := by
  cases groups <;> rfl

namespace Peers

/-- Fresh drafts have no parameters. -/
theorem start (queryClass : String) (first : Nat) :
    Peers r (.start queryClass first) (.start queryClass first) :=
  ⟨rfl, rfl, rfl, rfl, rfl, rfl, .nil⟩

theorem nextParameter (h : Peers r d e) : d.nextParameter = e.nextParameter := by
  unfold Draft.nextParameter
  rw [h.firstParameter, h.parameters.length_eq]

theorem withAliases (h : Peers r d e) {a b : Aliases} (hab : a.SameStanding b) :
    Peers r { d with aliases := a } { e with aliases := b } :=
  { h with aliases := hab }

theorem withParameters (h : Peers r d e) {ps qs : List Parameter}
    (hparameters : List.Forall₂ r.Parameters ps qs) :
    Peers r { d with parameters := d.parameters ++ ps }
      { e with parameters := e.parameters ++ qs } :=
  { h with parameters := List.rel_append h.parameters hparameters }

theorem addGroup (h : Peers r d e) {group group' : Option Condition}
    (hgroup : group.isNone = group'.isNone) : Peers r (d.addGroup group) (e.addGroup group') := by
  unfold Draft.addGroup
  rw [h.having, hgroup]
  split
  · exact h
  · refine { h with having := ?_ }
    rw [isEmpty_append_group, isEmpty_append_group]

theorem addCondition (h : Peers r d e) (condition condition' : Option Condition) :
    Peers r (d.addCondition condition) (e.addCondition condition') :=
  { h with }

end Peers

/-! ## Aliases and parameters -/

namespace Parallel

theorem aliased {S : α → β → Prop} {x : Step Aliases α} {y : Step Aliases β}
    (h : Aliases.Parallel S x y) : Parallel r S (Draft.aliased x) (Draft.aliased y) :=
  Step.Parallel.zoom h (fun _ _ h => h.aliases) fun _ _ _ _ h hab => h.withAliases hab

theorem changeAliases {f : Aliases → α × Aliases} {g : Aliases → β × Aliases}
    (h : ∀ a b, a.SameStanding b → (f a).2.SameStanding (g b).2) :
    Alongside r (Draft.changeAliases f) (Draft.changeAliases g) := by
  refine Step.Parallel.get.bind fun d e hpeers => ?_
  refine (Step.Parallel.modify fun _ _ h' => ?_).bind fun _ _ _ => .pure trivial
  exact h'.withAliases (h _ _ hpeers.aliases)

theorem bindValue {v w : Value} (hvalue : r.values v w) :
    Alongside r (Draft.bind v) (Draft.bind w) := by
  refine Step.Parallel.get.bind fun d e _ => ?_
  refine (Step.Parallel.modify fun _ _ h => ?_).bind fun _ _ _ => .pure trivial
  exact h.withParameters (.cons ⟨h.nextParameter.symm, hvalue⟩ .nil)

theorem bindAll {vs ws : List Value} (h : List.Forall₂ r.values vs ws) :
    Alongside r (Draft.bindAll vs) (Draft.bindAll ws) := by
  induction h with
  | nil => exact .pure trivial
  | cons hvalue _ ih =>
    exact (bindValue hvalue).bind fun _ _ _ => ih.bind fun _ _ _ => .pure trivial

end Parallel

/-! ## Clauses -/

namespace Abreast

theorem predicate (p q : Atom) : Abreast r (Draft.predicate p) (Draft.predicate q) := .pure rfl

theorem inHavingGroup {x y : Emission} (h : Abreast r x y) :
    Abreast r (Draft.inHavingGroup x) (Draft.inHavingGroup y) := by
  have hgroup : Abreast r
      (Step.restoring (fun d => { d with inHaving := true })
        (fun before d => { d with inHaving := before.inHaving }) x)
      (Step.restoring (fun d => { d with inHaving := true })
        (fun before d => { d with inHaving := before.inHaving }) y) :=
    Step.Parallel.restoring h
      (fun _ _ h => { h with inHaving := rfl })
      fun _ _ _ _ hbefore h => { h with inHaving := hbefore.inHaving }
  refine hgroup.bind fun group group' hnone => ?_
  exact (Step.Parallel.modify fun _ _ h => h.addGroup hnone).bind fun _ _ _ => .pure rfl

theorem routed (isAggregate : Bool) {x y : Emission} (h : Abreast r x y) :
    Abreast r (Draft.routed isAggregate x) (Draft.routed isAggregate y) := by
  refine Step.Parallel.get.bind fun d e hpeers => ?_
  rw [hpeers.inHaving]
  split
  · exact h.inHavingGroup
  · exact h

theorem insideOr {x y : Emission} (h : Abreast r x y) :
    Abreast r (Draft.insideOr x) (Draft.insideOr y) :=
  Step.Parallel.restoring h (fun _ _ h => h.withAliases h.aliases)
    fun _ _ _ _ _ h => h.withAliases h.aliases

theorem combined (operation : BooleanOp) {xs ys : Step Draft (List Condition)}
    (h : AllAbreast r xs ys) :
    Abreast r (Draft.combined operation xs) (Draft.combined operation ys) := by
  have hgrouped (disjunctive : Bool) {cs cs' : List Condition} (hempty : cs.isEmpty = cs'.isEmpty) :
      (grouped disjunctive cs).isNone = (grouped disjunctive cs').isNone := by
    unfold grouped
    rw [hempty]
    split <;> rfl
  cases operation with
  | and => exact Step.Parallel.bind h fun _ _ hempty => .pure (hgrouped false hempty)
  | or => exact insideOr (Step.Parallel.bind h fun _ _ hempty => .pure (hgrouped true hempty))
  | not =>
    refine Step.Parallel.bind h fun _ _ hempty => .pure ?_
    rw [Option.isNone_map, Option.isNone_map]
    exact hgrouped false hempty

theorem composite {c c' : Composite} (hc : Matches.RoutedAlike c c')
    {xs ys : Step Draft (List Condition)} (h : AllAbreast r xs ys) :
    Abreast r (Draft.composite c xs) (Draft.composite c' ys) := by
  unfold Draft.composite
  rw [hc.operation]
  have hx := combined c.operation h
  refine Step.Parallel.get.bind fun d e hpeers => ?_
  rw [hpeers.inHaving, hc.operation, hc.isEmpty, hc.areAggregateOnly, hc.anyHasAggregate]
  split
  · exact hx
  · split
    · split
      · exact hx
      · exact hx.inHavingGroup
    · split
      · exact .fail _
      · exact hx

theorem together {x y : Emission} {xs ys : Step Draft (List Condition)} (hx : Abreast r x y)
    (hxs : AllAbreast r xs ys) : AllAbreast r (Draft.together x xs) (Draft.together y ys) := by
  refine hx.bind fun condition condition' hnone => hxs.bind fun cs cs' hempty => .pure ?_
  cases condition <;> cases condition'
  case none.none => exact hempty
  case some.some => rfl
  all_goals cases hnone

end Abreast

end Draft

end ObjectQuery
