import ObjectQuery.Step

/-!
# Agreement of two steps

`Step.Agrees R S x y`: from states related by `R` the steps `x` and `y` go the same way. Both
succeed with values related by `S` or both fail with the same error, they report the same events,
and the states that they leave are related by `R` again, also after a failure. The rules take the
steps apart side by side.

`Step.EndsLike R S x y`: likewise, but nothing is said of the states after a failure.
-/

namespace ObjectQuery

variable {σ τ α β γ δ : Type}

/-- Both results are values related by `S`, or both are the same failure. -/
def ResultsAgree (S : α → β → Prop) : Except CompileError α → Except CompileError β → Prop
  | .ok a, .ok b => S a b
  | .error e, .error f => e = f
  | _, _ => False

theorem ResultsAgree.eq {r r' : Except CompileError α} (h : ResultsAgree Eq r r') : r = r' := by
  match r, r', h with
  | .ok _, .ok _, rfl => rfl
  | .error _, .error _, rfl => rfl

/-- Two outcomes agree up to the relations between their states and their values. -/
structure Outcome.Agrees (R : σ → τ → Prop) (S : α → β → Prop) (o : Outcome σ α)
    (p : Outcome τ β) : Prop where
  result : ResultsAgree S o.result p.result
  state : R o.state p.state
  events : o.events = p.events

namespace Step

/-- Two steps agree from all states related by `R`. -/
def Agrees (R : σ → τ → Prop) (S : α → β → Prop) (x : Step σ α) (y : Step τ β) : Prop :=
  ∀ s t, R s t → (x.run s).Agrees R S (y.run t)

namespace Agrees

variable {R : σ → τ → Prop} {S : α → β → Prop} {T : γ → δ → Prop}

theorem pure {a : α} {b : β} (h : S a b) :
    Agrees R S (Pure.pure a : Step σ α) (Pure.pure b : Step τ β) :=
  fun _ _ hR => ⟨h, hR, rfl⟩

theorem bind {x : Step σ α} {y : Step τ β} {f : α → Step σ γ} {g : β → Step τ δ}
    (hx : Agrees R S x y) (hf : ∀ a b, S a b → Agrees R T (f a) (g b)) :
    Agrees R T (x >>= f) (y >>= g) := by
  intro s t hR
  obtain ⟨hr, hs, he⟩ := hx s t hR
  rw [run_bind, run_bind]
  revert hr hs he
  rcases x.run s with ⟨e | a, s', events⟩ <;> rcases y.run t with ⟨e' | b, t', events'⟩
  · intro hr hs he
    exact ⟨hr, hs, he⟩
  · intro hr
    exact hr.elim
  · intro hr
    exact hr.elim
  · intro hr hs he
    obtain ⟨hr', hs', he'⟩ := hf a b hr s' t' hs
    refine ⟨hr', hs', ?_⟩
    show events ++ _ = events' ++ _
    rw [show events = events' from he]
    exact congrArg _ he'

theorem fail (e : CompileError) : Agrees R S (Step.fail e : Step σ α) (Step.fail e : Step τ β) :=
  fun _ _ hR => ⟨rfl, hR, rfl⟩

theorem get : Agrees R R (Step.get : Step σ σ) (Step.get : Step τ τ) :=
  fun _ _ hR => ⟨hR, hR, rfl⟩

theorem modify {f : σ → σ} {g : τ → τ} (h : ∀ s t, R s t → R (f s) (g t)) :
    Agrees R Eq (Step.modify f) (Step.modify g) :=
  fun s t hR => ⟨rfl, h s t hR, rfl⟩

theorem ofReported (x : Reported α) :
    Agrees R Eq (Step.ofReported x : Step σ α) (Step.ofReported x : Step τ α) :=
  fun _ _ hR => ⟨rfl, hR, rfl⟩

theorem orFail (e : CompileError) (o : Option α) :
    Agrees R Eq (Step.orFail e o : Step σ α) (Step.orFail e o : Step τ α) := by
  cases o with
  | none => exact fail e
  | some a => exact pure rfl

theorem ofExcept (r : Except CompileError α) :
    Agrees R Eq (Step.ofExcept r : Step σ α) (Step.ofExcept r : Step τ α) := by
  cases r with
  | error e => exact fail e
  | ok a => exact pure rfl

theorem restoring {before : σ → σ} {after : σ → σ → σ} {before' : τ → τ} {after' : τ → τ → τ}
    {x : Step σ α} {y : Step τ β} (hx : Agrees R S x y)
    (hbefore : ∀ s t, R s t → R (before s) (before' t))
    (hafter : ∀ s t s' t', R s t → R s' t' → R (after s s') (after' t t')) :
    Agrees R S (Step.restoring before after x) (Step.restoring before' after' y) := by
  intro s t hR
  obtain ⟨hr, hs, he⟩ := hx _ _ (hbefore s t hR)
  exact ⟨hr, hafter _ _ _ _ hR hs, he⟩

/-- The same step on parts of the states that are equal. -/
theorem zoom {ρ : Type} {part : σ → ρ} {put : ρ → σ → σ} {part' : τ → ρ} {put' : ρ → τ → τ}
    (x : Step ρ α) (hpart : ∀ s t, R s t → part s = part' t)
    (hput : ∀ r s t, R s t → R (put r s) (put' r t)) :
    Agrees R Eq (Step.zoom part put x) (Step.zoom part' put' x) := by
  intro s t hR
  show Outcome.Agrees R Eq ⟨(x.run (part s)).result, put (x.run (part s)).state s, _⟩
    ⟨(x.run (part' t)).result, put' (x.run (part' t)).state t, _⟩
  rw [hpart s t hR]
  refine ⟨?_, hput _ s t hR, rfl⟩
  show ResultsAgree Eq (x.run (part' t)).result (x.run (part' t)).result
  cases (x.run (part' t)).result with
  | error e => rfl
  | ok a => rfl

/-- Steps from states of their own, given with the states that they leave. -/
theorem isolated {ρ : Type} {start start' : ρ} {Q : ρ → ρ → Prop} {x : Step ρ α} {y : Step ρ β}
    (hstart : Q start start') (hx : Agrees Q S x y) :
    Agrees R (fun r r' => S r.1 r'.1 ∧ Q r.2 r'.2) (Step.isolated start x : Step σ (α × ρ))
      (Step.isolated start' y : Step τ (β × ρ)) := by
  intro s t hR
  obtain ⟨hr, hs, he⟩ := hx _ _ hstart
  refine ⟨?_, hR, he⟩
  show ResultsAgree _ ((x.run start).result.map fun a => (a, (x.run start).state))
    ((y.run start').result.map fun b => (b, (y.run start').state))
  revert hr hs
  rcases x.run start with ⟨e | a, s', events⟩ <;> rcases y.run start' with ⟨e' | b, t', events'⟩
  · intro hr _
    exact hr
  · intro hr
    exact hr.elim
  · intro hr
    exact hr.elim
  · intro hr hs
    exact ⟨hr, hs⟩

end Agrees

end Step

/-! ## Agreement but for failures -/

/-- Two outcomes agree, except for the states that they leave after a failure. -/
structure Outcome.EndsLike (R : σ → τ → Prop) (S : α → β → Prop) (o : Outcome σ α)
    (p : Outcome τ β) : Prop where
  result : ResultsAgree S o.result p.result
  state : ∀ a, o.result = .ok a → R o.state p.state
  events : o.events = p.events

namespace Step

/-- Two steps agree from all states related by `R`, except for what they leave after a failure. -/
def EndsLike (R : σ → τ → Prop) (S : α → β → Prop) (x : Step σ α) (y : Step τ β) : Prop :=
  ∀ s t, R s t → (x.run s).EndsLike R S (y.run t)

variable {R : σ → τ → Prop} {S : α → β → Prop} {T : γ → δ → Prop}

theorem Agrees.endsLike {x : Step σ α} {y : Step τ β} (h : Agrees R S x y) : EndsLike R S x y :=
  fun s t hR => have hrun := h s t hR; ⟨hrun.result, fun _ _ => hrun.state, hrun.events⟩

namespace EndsLike

theorem bind {x : Step σ α} {y : Step τ β} {f : α → Step σ γ} {g : β → Step τ δ}
    (hx : EndsLike R S x y) (hf : ∀ a b, S a b → EndsLike R T (f a) (g b)) :
    EndsLike R T (x >>= f) (y >>= g) := by
  intro s t hR
  obtain ⟨hr, hs, he⟩ := hx s t hR
  rw [run_bind, run_bind]
  revert hr hs he
  rcases x.run s with ⟨e | a, s', events⟩ <;> rcases y.run t with ⟨e' | b, t', events'⟩
  · intro hr _ he
    exact ⟨hr, (fun _ h => nomatch h), he⟩
  · intro hr
    exact hr.elim
  · intro hr
    exact hr.elim
  · intro hr hs he
    obtain ⟨hr', hs', he'⟩ := hf a b hr s' t' (hs a rfl)
    refine ⟨hr', hs', ?_⟩
    show events ++ _ = events' ++ _
    rw [show events = events' from he]
    exact congrArg _ he'

/-- States may be mended in any way after a failure. -/
theorem onFailure {mend : σ → σ → σ} {mend' : τ → τ → τ} {x : Step σ α} {y : Step τ β}
    (hx : EndsLike R S x y) : EndsLike R S (Step.onFailure mend x) (Step.onFailure mend' y) := by
  intro s t hR
  have hrun := hx s t hR
  rw [run_onFailure, run_onFailure]
  revert hrun
  rcases x.run s with ⟨e | a, s', events⟩ <;> rcases y.run t with ⟨e' | b, t', events'⟩
  · exact fun h => ⟨h.result, (fun _ h => nomatch h), h.events⟩
  · exact fun h => h.result.elim
  · exact fun h => h.result.elim
  · exact id

end EndsLike

end Step

end ObjectQuery
