import ObjectQuery.Proofs.Reading.Expression
import ObjectQuery.Proofs.Reading.Meaning

/-!
# Emissions with a meaning

* `Condition.meaning`: what a condition says.
* `Draft.States`: an emission that leaves a readable condition with a certain meaning, and nothing
  for the having clause.
* `Draft.states_composite`, `Draft.statesEach_together`: such emissions under a connective.
-/

namespace ObjectQuery

/-! ## Meanings -/

/-- The meaning of a condition. -/
def Condition.meaning (c : Condition) : Meaning := fun truth => c.holds truth

theorem Condition.allHold_eq (truth : Atom → Bool) (cs : List Condition) :
    allHold truth cs = (cs.map meaning).all fun m => m truth := by
  induction cs with
  | nil => rfl
  | cons c rest ih =>
    rw [allHold, ih]
    rfl

theorem Condition.anyHolds_eq (truth : Atom → Bool) (cs : List Condition) :
    anyHolds truth cs = (cs.map meaning).any fun m => m truth := by
  induction cs with
  | nil => rfl
  | cons c rest ih =>
    rw [anyHolds, ih]
    rfl

theorem Condition.meaning_chain (cs : List Condition) :
    (Condition.chain cs).meaning = .all (cs.map meaning) := by
  funext truth
  exact allHold_eq truth cs

theorem Condition.meaning_group (disjunctive : Bool) (cs : List Condition) :
    (Condition.group disjunctive cs).meaning =
      if disjunctive then .any (cs.map meaning) else .all (cs.map meaning) := by
  cases disjunctive with
  | false =>
    funext truth
    exact allHold_eq truth cs
  | true =>
    funext truth
    exact anyHolds_eq truth cs

theorem Meaning.any_singleton (m : Meaning) : any [m] = m := by
  funext truth
  exact Bool.or_false _

theorem areReadable_append {cs ds : List Condition} :
    AreReadable (cs ++ ds) ↔ AreReadable cs ∧ AreReadable ds := by
  induction cs with
  | nil => exact ⟨fun h => ⟨trivial, h⟩, And.right⟩
  | cons c rest ih => rw [List.cons_append, AreReadable, ih, AreReadable, and_assoc]

namespace Draft

variable {k : Compiler} {x : Emission} {xs : Step Draft (List Condition)}
  {M : Draft → Place → Meaning → Prop}

/-! ## Emissions with a meaning -/

/-- The emission leaves a readable condition, and nothing for the having clause. The meaning of the
condition meets `M` at the place where it is emitted, in every draft that keeps what has been
gathered so far. -/
def States (x : Emission) (M : Draft → Place → Meaning → Prop) : Prop :=
  ∀ d c e, d.aliases.scopes ≠ [] → x.Yields d c e → e.having = d.having ∧
    ∃ w, c = some w ∧ w.IsReadable ∧ ∀ z, e.Underlies z → M z d.aliases.place w.meaning

/-- The step emits readable conditions whose meanings meet `N`. -/
def StatesEach (xs : Step Draft (List Condition)) (N : Draft → Place → List Meaning → Prop) :
    Prop :=
  ∀ d cs e, d.aliases.scopes ≠ [] → xs.Yields d cs e → e.having = d.having ∧ AreReadable cs ∧
    ∀ z, e.Underlies z → N z d.aliases.place (cs.map Condition.meaning)

/-- The step gives a predicate that meets `P`. -/
def Writes (x : Step Draft Atom) (P : Draft → Place → Atom → Prop) : Prop :=
  ∀ d p e, x.Yields d p e → e.having = d.having ∧ ∀ z, e.Underlies z → P z d.aliases.place p

theorem States.mono {M' : Draft → Place → Meaning → Prop} (h : States x M)
    (hM : ∀ z s m, M z s m → M' z s m) : States x M' := by
  intro d c e hd hx
  obtain ⟨hhaving, w, rfl, hw, hmeaning⟩ := h d c e hd hx
  exact ⟨hhaving, w, rfl, hw, fun z hz => hM z _ _ (hmeaning z hz)⟩

theorem states_fail (err : CompileError) : States (.fail err) M := by
  intro d c e _ h
  exact (Step.yields_fail.mp h).elim

theorem states_predicate {P : Draft → Place → Atom → Prop} {step : Step Draft Atom}
    (h : Writes step P) :
    States (step >>= predicate) fun z s m => ∃ p, P z s p ∧ m = .predicate p := by
  intro d c e _ hx
  obtain ⟨p, u, hp, h₁⟩ := Step.yields_bind.mp hx
  obtain ⟨rfl, rfl⟩ := predicate_yields.mp h₁
  obtain ⟨hhaving, hP⟩ := h d p _ hp
  exact ⟨hhaving, _, rfl, trivial, fun z hz => ⟨p, hP z hz, rfl⟩⟩

theorem states_routed {isAggregate : Bool} (h : isAggregate = false) (hx : States x M) :
    States (routed isAggregate x) M := by
  intro d c e hd hy
  obtain h' | ⟨haggregate, -, -⟩ := routed_yields hy
  · exact hx d c e hd h'
  · rw [h] at haggregate
    cases haggregate

theorem meaning_combine (operation : BooleanOp) {members : List Condition} (hne : members ≠ [])
    (h : AreReadable members) :
    ∃ w, combine operation members = some w ∧ w.IsReadable ∧
      w.meaning = .under operation (members.map Condition.meaning) := by
  have hgroup : ∀ b : Bool, grouped b members = some (.group b members) := by
    intro b
    exact if_neg (by simpa using hne)
  have hreadable : ∀ b : Bool, (Condition.group b members).IsReadable := fun b => ⟨hne, h⟩
  cases operation with
  | and => exact ⟨_, hgroup false, hreadable false, Condition.meaning_group false members⟩
  | or => exact ⟨_, hgroup true, hreadable true, Condition.meaning_group true members⟩
  | not =>
    refine ⟨.negation (.group false members), ?_, ⟨rfl, hreadable false⟩, ?_⟩
    · rw [combine, hgroup]
      rfl
    · funext truth
      have hall := congrFun (Condition.meaning_group false members) truth
      exact congrArg (!·) hall

/-- A composite states what its members state under its connective. -/
theorem states_composite (c : Composite) {N : Draft → Place → List Meaning → Prop}
    (hplain : Filter.areAggregateOnly c.children = false) (hxs : StatesEach xs N)
    (hne : ∀ z s ms, N z s ms → ms ≠ []) :
    States (composite c xs) fun z s m => ∃ ms, N z s ms ∧ m = .under c.operation ms := by
  have hcombine : ∀ members z s, AreReadable members → N z s (members.map Condition.meaning) →
      ∃ w, combine c.operation members = some w ∧ w.IsReadable ∧
        w.meaning = .under c.operation (members.map Condition.meaning) := by
    intro members z s hreadable hN
    refine meaning_combine c.operation ?_ hreadable
    intro hnil
    exact hne z s _ hN (by rw [hnil, List.map_nil])
  intro d condition e hd h
  obtain h' | ⟨honly, -, -⟩ := composite_yields h
  · obtain ⟨members, u, v, rfl, hmembers, hbefore, hu, hafter, hlast⟩ := combined_course h'
    have hplace : u.aliases.place = d.aliases.place := by
      rw [Aliases.place, Aliases.frames, hbefore.aliases.queryClass, hu.scopes]
      rfl
    obtain ⟨hhaving, hreadable, hN⟩ := hxs _ _ _ (hu.scopes ▸ hd) hmembers
    rw [hplace] at hN
    obtain ⟨w, hw, hwreadable, hwmeaning⟩ := hcombine members _ _ hreadable (hN v (.refl v))
    refine ⟨(hlast.trans hhaving).trans hu.having, w, hw, hwreadable, fun z hz => ?_⟩
    exact ⟨_, hN z (hafter.trans hz), hwmeaning⟩
  · rw [hplain] at honly
    cases honly

theorem statesEach_nil {α : Type} {R : Draft → Place → α → Meaning → Prop} :
    StatesEach (pure []) fun z s ms => List.Forall₂ (R z s) [] ms := by
  intro d cs e _ h
  obtain ⟨rfl, rfl⟩ := Step.yields_pure.mp h
  exact ⟨rfl, trivial, fun _ _ => .nil⟩

/-- Conditions that are emitted one after the other are emitted at one place, as each of them leaves
the scopes as it found them. -/
theorem statesEach_together {α : Type} {R : Draft → Place → α → Meaning → Prop} {a : α}
    {rest : List α} (hx : States x fun z s m => R z s a m)
    (hxs : StatesEach xs fun z s ms => List.Forall₂ (R z s) rest ms)
    (hsteady : Steady x) (hgathered : Step.Leads Underlies Underlies xs) :
    StatesEach (together x xs) fun z s ms => List.Forall₂ (R z s) (a :: rest) ms := by
  intro d cs e hd h
  obtain ⟨condition, u, conditions, hcondition, hconditions, rfl⟩ := together_yields h
  obtain ⟨hhaving, w, rfl, hw, hmeaning⟩ := hx _ _ _ hd hcondition
  have hresumes : d.Resumes u := hsteady.yields hcondition hd
  have hafter : u.Underlies e := hgathered.yields hconditions
  obtain ⟨hhaving', hreadable, hmeanings⟩ :=
    hxs _ _ _ (hresumes.aliases.scopes_ne_nil hd) hconditions
  rw [hresumes.aliases.place] at hmeanings
  refine ⟨hhaving'.trans hhaving, areReadable_append.mpr ⟨⟨hw, trivial⟩, hreadable⟩,
    fun z hz => ?_⟩
  exact .cons (hmeaning z (hafter.trans hz)) (hmeanings z hz)

end Draft

end ObjectQuery
