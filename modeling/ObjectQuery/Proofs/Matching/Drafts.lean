import Mathlib.Data.List.Forall2
import ObjectQuery.Proofs.Emission.Induction
import ObjectQuery.Proofs.Step.Agreement

/-!
# Steps on drafts that are alike

Two runs of a compilation side by side.

* `Draft.Likeness`: what may differ in drafts that count as alike: the values of parameters and the
  wish of a query to ignore case. `Draft.Alike`: such drafts.
* `Draft.Matches`: two steps that go the same way from such drafts.
* The lemmas match the ways to build a step. None of them looks at the value of a parameter.
-/

namespace ObjectQuery

namespace Draft

/-- What may differ in drafts that count as alike. -/
structure Likeness where
  /-- The values that may stand for each other in parameters. -/
  values : Value → Value → Prop
  /-- The wishes to ignore case that may stand for each other. -/
  wishes : Bool → Bool → Prop

/-- Nothing may differ. -/
def Likeness.same : Likeness := ⟨Eq, Eq⟩

/-- Parameters with the same number, whose values may stand for each other. -/
def Likeness.Parameters (r : Likeness) (p q : Parameter) : Prop :=
  q.number = p.number ∧ r.values p.value q.value

/-- The drafts differ in the values of their parameters and in the wish to ignore case only. -/
def Alike (r : Likeness) (d e : Draft) : Prop :=
  ∃ parameters autoIgnoreCase, List.Forall₂ r.Parameters d.parameters parameters ∧
    r.wishes d.autoIgnoreCase autoIgnoreCase ∧ e = { d with parameters, autoIgnoreCase }

/-- From drafts that are alike both steps go the same way. -/
abbrev Matches {α : Type} (r : Likeness) (x y : Step Draft α) : Prop :=
  Step.Agrees (Alike r) Eq x y

/-- A change of a draft that has nothing to do with what drafts may differ in. -/
structure Indifferent (f : Draft → Draft) : Prop where
  commutes : ∀ d parameters autoIgnoreCase, f { d with parameters, autoIgnoreCase } =
    { f d with parameters, autoIgnoreCase }
  parameters : ∀ d, (f d).parameters = d.parameters
  autoIgnoreCase : ∀ d, (f d).autoIgnoreCase = d.autoIgnoreCase

variable {k : Compiler} {r : Likeness} {α β : Type}

theorem Likeness.Parameters.same {ps qs : List Parameter}
    (h : List.Forall₂ Likeness.same.Parameters ps qs) : qs = ps := by
  induction h with
  | nil => rfl
  | cons hp _ ih =>
    rename_i p q _ _ _
    obtain ⟨hnumber, hvalue⟩ := hp
    rw [ih, show q = p from by cases p; cases q; cases hnumber; cases hvalue; rfl]

theorem Likeness.Parameters.map_number {ps qs : List Parameter}
    (h : List.Forall₂ r.Parameters ps qs) : qs.map (·.number) = ps.map (·.number) := by
  induction h with
  | nil => rfl
  | cons hp _ ih => rw [List.map_cons, List.map_cons, hp.1, ih]

theorem alike_same {d e : Draft} : d.Alike .same e ↔ d = e := by
  constructor
  · rintro ⟨parameters, _, hparameters, rfl, rfl⟩
    rw [Likeness.Parameters.same hparameters]
  · rintro rfl
    exact ⟨d.parameters, _, List.forall₂_same.mpr fun _ _ => ⟨rfl, rfl⟩, rfl, rfl⟩

theorem Alike.nextParameter {d e : Draft} (h : d.Alike r e) : d.nextParameter = e.nextParameter := by
  obtain ⟨parameters, _, hparameters, -, rfl⟩ := h
  show d.firstParameter + d.parameters.length = d.firstParameter + parameters.length
  rw [hparameters.length_eq]

/-- Fresh drafts are alike, as no wish to ignore case has been set in them. -/
theorem Alike.start (h : r.wishes false false) (queryClass : String) (first : Nat) :
    (Draft.start queryClass first).Alike r (.start queryClass first) :=
  ⟨[], false, .nil, h, rfl⟩

theorem Indifferent.alike {f : Draft → Draft} (hf : Indifferent f) {d e : Draft} (h : d.Alike r e) :
    (f d).Alike r (f e) := by
  obtain ⟨parameters, wish, hparameters, hwish, rfl⟩ := h
  exact ⟨parameters, wish, by rwa [hf.parameters], by rwa [hf.autoIgnoreCase], hf.commutes d _ _⟩

/-! ## General rules -/

namespace Matches

theorem pure (a : α) : Matches r (Pure.pure a : Step Draft α) (Pure.pure a) := Step.Agrees.pure rfl

theorem bind {x y : Step Draft α} {f g : α → Step Draft β} (hx : Matches r x y)
    (hf : ∀ a, Matches r (f a) (g a)) : Matches r (x >>= f) (y >>= g) := by
  refine Step.Agrees.bind hx ?_
  rintro a _ rfl
  exact hf a

/-- Every step matches itself from drafts that do not differ. -/
theorem refl (x : Step Draft α) : Matches .same x x := by
  intro d e h
  obtain rfl := alike_same.mp h
  refine ⟨?_, alike_same.mpr rfl, rfl⟩
  cases (x.run d).result <;> rfl

/-- The state is read. -/
theorem get_bind {f g : Draft → Step Draft α} (h : ∀ d e, d.Alike r e → Matches r (f d) (g e)) :
    Matches r (Step.get >>= f) (Step.get >>= g) :=
  Step.Agrees.bind Step.Agrees.get h

theorem fail (e : CompileError) : Matches r (Step.fail e : Step Draft α) (Step.fail e) :=
  Step.Agrees.fail e

/-- A failure whose error names something of the draft in which drafts do not differ. -/
theorem get_fail {err : Draft → CompileError}
    (h : ∀ d parameters autoIgnoreCase, err { d with parameters, autoIgnoreCase } = err d) :
    Matches r (Step.get >>= fun d => Step.fail (err d) : Step Draft α)
      (Step.get >>= fun d => Step.fail (err d)) := by
  refine get_bind ?_
  rintro d _ ⟨parameters, wish, -, -, rfl⟩
  rw [h d parameters wish]
  exact fail _

theorem ofReported (x : Reported α) :
    Matches r (Step.ofReported x : Step Draft α) (.ofReported x) :=
  Step.Agrees.ofReported x

theorem orFail (e : CompileError) (o : Option α) :
    Matches r (Step.orFail e o : Step Draft α) (.orFail e o) :=
  Step.Agrees.orFail e o

theorem ofExcept (result : Except CompileError α) :
    Matches r (Step.ofExcept result : Step Draft α) (.ofExcept result) :=
  Step.Agrees.ofExcept result

theorem modify {f : Draft → Draft} (hf : Indifferent f) :
    Matches r (Step.modify f) (Step.modify f) :=
  Step.Agrees.modify fun _ _ h => hf.alike h

/-- A change before a step and its undoing after it. -/
theorem restoring {before : Draft → Draft} {after : Draft → Draft → Draft} {x y : Step Draft α}
    (hx : Matches r x y) (hbefore : Indifferent before) (hafter : ∀ d, Indifferent (after d))
    (hundone : ∀ d parameters autoIgnoreCase, after { d with parameters, autoIgnoreCase } = after d) :
    Matches r (Step.restoring before after x) (Step.restoring before after y) := by
  refine Step.Agrees.restoring hx (fun _ _ h => hbefore.alike h) ?_
  rintro d _ d' e' ⟨parameters, wish, -, -, rfl⟩ h
  rw [hundone d parameters wish]
  exact (hafter d).alike h

theorem aliased (x : Step Aliases α) : Matches r (Draft.aliased x) (Draft.aliased x) := by
  refine Step.Agrees.zoom x ?_ ?_
  · rintro d _ ⟨parameters, wish, -, -, rfl⟩
    rfl
  · rintro a d _ ⟨parameters, wish, hparameters, hwish, rfl⟩
    exact ⟨parameters, wish, hparameters, hwish, rfl⟩

theorem changeAliases (f : Aliases → α × Aliases) :
    Matches r (Draft.changeAliases f) (Draft.changeAliases f) := by
  refine get_bind ?_
  rintro d _ ⟨parameters, wish, -, -, rfl⟩
  exact bind (modify ⟨fun _ _ _ => rfl, fun _ => rfl, fun _ => rfl⟩) fun _ => pure _

/-! ## Parameters -/

theorem bindValue {v w : Value} (hvalue : r.values v w) :
    Matches r (Draft.bind v) (Draft.bind w) := by
  refine get_bind fun d e h => ?_
  rw [h.nextParameter]
  refine Step.Agrees.bind (Step.Agrees.modify ?_) fun _ _ _ => pure _
  intro d e h
  have hnext := h.nextParameter
  obtain ⟨parameters, wish, hparameters, hwish, rfl⟩ := h
  exact ⟨_, wish, List.rel_append hparameters (.cons ⟨hnext.symm, hvalue⟩ .nil), hwish, rfl⟩

theorem bindAll {vs ws : List Value} (h : List.Forall₂ r.values vs ws) :
    Matches r (Draft.bindAll vs) (Draft.bindAll ws) := by
  induction h with
  | nil => exact pure []
  | cons hvalue _ ih =>
    exact bind (bindValue hvalue) fun number => bind ih fun numbers => pure _

/-! ## Clauses -/

theorem predicate (a : Atom) : Matches r (Draft.predicate a) (Draft.predicate a) := pure _

theorem indifferent_addGroup (group : Option Condition) : Indifferent (·.addGroup group) := by
  refine ⟨fun d _ _ => ?_, fun d => ?_, fun d => ?_⟩ <;> (unfold addGroup; split <;> rfl)

theorem inHavingGroup {x y : Emission} (hx : Matches r x y) :
    Matches r (Draft.inHavingGroup x) (Draft.inHavingGroup y) := by
  refine bind (restoring hx ⟨fun _ _ _ => rfl, fun _ => rfl, fun _ => rfl⟩
    (fun _ => ⟨fun _ _ _ => rfl, fun _ => rfl, fun _ => rfl⟩) fun _ _ _ => rfl) fun group => ?_
  exact bind (modify (indifferent_addGroup group)) fun _ => pure _

theorem routed (isAggregate : Bool) {x y : Emission} (hx : Matches r x y) :
    Matches r (Draft.routed isAggregate x) (Draft.routed isAggregate y) := by
  refine get_bind ?_
  rintro d _ ⟨parameters, wish, -, -, rfl⟩
  dsimp only
  split
  · exact inHavingGroup hx
  · exact hx

theorem insideOr {x y : Emission} (hx : Matches r x y) :
    Matches r (Draft.insideOr x) (Draft.insideOr y) :=
  restoring hx ⟨fun _ _ _ => rfl, fun _ => rfl, fun _ => rfl⟩
    (fun _ => ⟨fun _ _ _ => rfl, fun _ => rfl, fun _ => rfl⟩) fun _ _ _ => rfl

theorem combined (operation : BooleanOp) {xs ys : Step Draft (List Condition)}
    (h : Matches r xs ys) : Matches r (Draft.combined operation xs) (Draft.combined operation ys) := by
  cases operation with
  | and => exact bind h fun _ => pure _
  | or => exact insideOr (bind h fun _ => pure _)
  | not => exact bind h fun _ => pure _

/-- Composites that are routed alike. -/
structure RoutedAlike (c c' : Composite) : Prop where
  operation : c'.operation = c.operation
  isEmpty : c'.children.isEmpty = c.children.isEmpty
  areAggregateOnly : Filter.areAggregateOnly c'.children = Filter.areAggregateOnly c.children
  anyHasAggregate : Filter.anyHasAggregate c'.children = Filter.anyHasAggregate c.children

theorem composite {c c' : Composite} (hc : RoutedAlike c c') {xs ys : Step Draft (List Condition)}
    (h : Matches r xs ys) : Matches r (Draft.composite c xs) (Draft.composite c' ys) := by
  unfold Draft.composite
  rw [hc.operation]
  have hx := combined c.operation h
  refine get_bind ?_
  rintro d _ ⟨parameters, wish, -, -, rfl⟩
  dsimp only
  rw [hc.operation, hc.isEmpty, hc.areAggregateOnly, hc.anyHasAggregate]
  split
  · exact hx
  · split
    · split
      · exact hx
      · exact inHavingGroup hx
    · split
      · exact fail _
      · exact hx

end Matches

end Draft

end ObjectQuery
