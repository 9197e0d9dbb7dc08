import ObjectQuery.Proofs.Step.Agreement
import ObjectQuery.Proofs.Step.Run

/-!
# Steps in parallel

`Step.Fails x s e`: from the state `s` the step `x` fails with `e`.

`Step.Parallel R S x y`: from states related by `R` the steps `x` and `y` both fail with the same
error, or both succeed with values related by `S` and leave states related by `R`. The two may
report different events, and nothing is said of the states after a failure.
-/

namespace ObjectQuery

variable {σ τ α β γ δ : Type}

theorem ResultsAgree.imp {S S' : α → β → Prop} {r : Except CompileError α}
    {r' : Except CompileError β} (h : ResultsAgree S r r') (himp : ∀ a b, S a b → S' a b) :
    ResultsAgree S' r r' := by
  match r, r', h with
  | .ok a, .ok b, hab => exact himp a b hab
  | .error _, .error _, rfl => rfl

theorem ResultsAgree.map {S : α → β → Prop} {T : γ → δ → Prop} {f : α → γ} {g : β → δ}
    {r : Except CompileError α} {r' : Except CompileError β} (h : ResultsAgree S r r')
    (hmap : ∀ a b, S a b → T (f a) (g b)) : ResultsAgree T (r.map f) (r'.map g) := by
  match r, r', h with
  | .ok a, .ok b, hab => exact hmap a b hab
  | .error _, .error _, rfl => rfl

namespace Step

/-! ## Failures -/

/-- From the state `s` the step fails with `e`. -/
def Fails (x : Step σ α) (s : σ) (e : CompileError) : Prop := (x.run s).result = .error e

theorem yields_or_fails (x : Step σ α) (s : σ) : (∃ a t, x.Yields s a t) ∨ ∃ e, x.Fails s e := by
  cases hresult : (x.run s).result with
  | error e => exact .inr ⟨e, hresult⟩
  | ok a => exact .inl ⟨a, _, hresult, rfl⟩

section

variable {x : Step σ α} {f : α → Step σ β} {s t : σ} {a : α} {e : CompileError}

theorem Fails.bind (h : x.Fails s e) : (x >>= f).Fails s e := by
  unfold Fails at h ⊢
  rw [run_bind]
  revert h
  rcases x.run s with ⟨_ | a, s', events⟩ <;> rintro ⟨⟩
  rfl

theorem Yields.bind_fails (hx : x.Yields s a t) (hf : (f a).Fails t e) : (x >>= f).Fails s e := by
  obtain ⟨hresult, rfl⟩ := hx
  unfold Fails at hf ⊢
  rw [run_bind]
  revert hf hresult
  rcases x.run s with ⟨_ | a', s', events⟩ <;> rintro ⟨⟩ hf
  exact hf

end

/-! ## Parallel steps -/

/-- Both steps fail alike, or succeed with related values and leave related states. -/
def Parallel (R : σ → τ → Prop) (S : α → β → Prop) (x : Step σ α) (y : Step τ β) : Prop :=
  ∀ s t, R s t → ResultsAgree (fun a b => S a b ∧ R (x.run s).state (y.run t).state)
    (x.run s).result (y.run t).result

namespace Parallel

variable {R : σ → τ → Prop} {S : α → β → Prop} {T : γ → δ → Prop} {x : Step σ α} {y : Step τ β}

theorem mono {S' : α → β → Prop} (h : Parallel R S x y) (hS : ∀ a b, S a b → S' a b) :
    Parallel R S' x y :=
  fun s t hR => (h s t hR).imp fun a b ⟨hab, hs⟩ => ⟨hS a b hab, hs⟩

/-- Where the one step succeeds, the other does so. -/
theorem yields (h : Parallel R S x y) {s s' : σ} {t : τ} {a : α} (hR : R s t)
    (hx : x.Yields s a s') : ∃ b t', y.Yields t b t' ∧ S a b ∧ R s' t' := by
  obtain ⟨hresult, rfl⟩ := hx
  have hrun := h s t hR
  rw [hresult] at hrun
  cases hy : (y.run t).result with
  | error e =>
    rw [hy] at hrun
    exact hrun.elim
  | ok b =>
    rw [hy] at hrun
    exact ⟨b, _, ⟨hy, rfl⟩, hrun⟩

/-- Where the one step fails, the other does so with the same error. -/
theorem fails (h : Parallel R S x y) {s : σ} {t : τ} {e : CompileError} (hR : R s t)
    (hx : x.Fails s e) : y.Fails t e := by
  have hrun := h s t hR
  unfold Fails at hx ⊢
  rw [hx] at hrun
  cases hy : (y.run t).result with
  | error e' =>
    rw [hy] at hrun
    exact congrArg _ hrun.symm
  | ok b =>
    rw [hy] at hrun
    exact hrun.elim

theorem of_fails {s : σ} {t : τ} {e : CompileError} (hx : x.Fails s e) (hy : y.Fails t e) :
    ResultsAgree S (x.run s).result (y.run t).result := by
  unfold Fails at hx hy
  rw [hx, hy]
  rfl

theorem of_yields {s s' : σ} {t t' : τ} {a : α} {b : β} (hx : x.Yields s a s')
    (hy : y.Yields t b t') (hab : S a b) (hR : R s' t') :
    ResultsAgree (fun a b => S a b ∧ R (x.run s).state (y.run t).state) (x.run s).result
      (y.run t).result := by
  obtain ⟨hx, rfl⟩ := hx
  obtain ⟨hy, rfl⟩ := hy
  rw [hx, hy]
  exact ⟨hab, hR⟩

theorem pure {a : α} {b : β} (h : S a b) :
    Parallel R S (Pure.pure a : Step σ α) (Pure.pure b : Step τ β) :=
  fun _ _ hR => ⟨h, hR⟩

theorem bind {f : α → Step σ γ} {g : β → Step τ δ} (hx : Parallel R S x y)
    (hf : ∀ a b, S a b → Parallel R T (f a) (g b)) : Parallel R T (x >>= f) (y >>= g) := by
  intro s t hR
  have hrun := hx s t hR
  rw [run_bind, run_bind]
  revert hrun
  rcases x.run s with ⟨e | a, s', events⟩ <;> rcases y.run t with ⟨e' | b, t', events'⟩
  case ok.ok =>
    rintro ⟨hab, hs⟩
    exact hf a b hab s' t' hs
  case error.error => exact id
  all_goals exact False.elim

theorem fail (e : CompileError) : Parallel R S (Step.fail e : Step σ α) (Step.fail e : Step τ β) :=
  fun _ _ _ => rfl

theorem get : Parallel R R (Step.get : Step σ σ) (Step.get : Step τ τ) := fun _ _ hR => ⟨hR, hR⟩

theorem modify {f : σ → σ} {g : τ → τ} (h : ∀ s t, R s t → R (f s) (g t)) :
    Parallel R Eq (Step.modify f) (Step.modify g) :=
  fun s t hR => ⟨rfl, h s t hR⟩

theorem ofReported {v : Reported α} {w : Reported β} (h : S v.value w.value) :
    Parallel R S (Step.ofReported v : Step σ α) (Step.ofReported w : Step τ β) :=
  fun _ _ hR => ⟨h, hR⟩

theorem orFail (e : CompileError) (o : Option α) :
    Parallel R Eq (Step.orFail e o : Step σ α) (Step.orFail e o : Step τ α) := by
  cases o with
  | none => exact fail e
  | some a => exact pure rfl

/-- Options that are both present or both missing. -/
theorem orFail_of_isSome (e : CompileError) {o : Option α} {p : Option β}
    (h : o.isSome = p.isSome) :
    Parallel R (fun _ _ => True) (Step.orFail e o : Step σ α) (Step.orFail e p : Step τ β) := by
  cases o <;> cases p
  case none.none => exact fail e
  case some.some => exact pure trivial
  all_goals cases h

theorem ofExcept (r : Except CompileError α) :
    Parallel R Eq (Step.ofExcept r : Step σ α) (Step.ofExcept r : Step τ α) := by
  cases r with
  | error e => exact fail e
  | ok a => exact pure rfl

theorem restoring {before : σ → σ} {after : σ → σ → σ} {before' : τ → τ} {after' : τ → τ → τ}
    (hx : Parallel R S x y) (hbefore : ∀ s t, R s t → R (before s) (before' t))
    (hafter : ∀ s t s' t', R s t → R s' t' → R (after s s') (after' t t')) :
    Parallel R S (Step.restoring before after x) (Step.restoring before' after' y) :=
  fun s t hR => (hx _ _ (hbefore s t hR)).imp fun _ _ ⟨hab, hs⟩ => ⟨hab, hafter _ _ _ _ hR hs⟩

/-- States may be mended in any way after a failure. -/
theorem onFailure {mend : σ → σ → σ} {mend' : τ → τ → τ} (hx : Parallel R S x y) :
    Parallel R S (Step.onFailure mend x) (Step.onFailure mend' y) := by
  intro s t hR
  have hrun := hx s t hR
  rw [run_onFailure, run_onFailure]
  revert hrun
  rcases x.run s with ⟨e | a, s', events⟩ <;> rcases y.run t with ⟨e' | b, t', events'⟩ <;>
    exact id

/-- Steps on parts of the states. -/
theorem zoom {ρ ρ' : Type} {Q : ρ → ρ' → Prop} {x : Step ρ α} {y : Step ρ' β} {part : σ → ρ}
    {put : ρ → σ → σ} {part' : τ → ρ'} {put' : ρ' → τ → τ} (hx : Parallel Q S x y)
    (hpart : ∀ s t, R s t → Q (part s) (part' t))
    (hput : ∀ s t r r', R s t → Q r r' → R (put r s) (put' r' t)) :
    Parallel R S (Step.zoom part put x) (Step.zoom part' put' y) :=
  fun s t hR => (hx _ _ (hpart s t hR)).imp fun _ _ ⟨hab, hs⟩ => ⟨hab, hput _ _ _ _ hR hs⟩

/-- Steps from states of their own, given with the states that they leave. -/
theorem isolated {ρ ρ' : Type} {Q : ρ → ρ' → Prop} {start : ρ} {start' : ρ'} {x : Step ρ α}
    {y : Step ρ' β} (hstart : Q start start') (hx : Parallel Q S x y) :
    Parallel R (fun r r' => S r.1 r'.1 ∧ Q r.2 r'.2) (Step.isolated start x : Step σ (α × ρ))
      (Step.isolated start' y : Step τ (β × ρ')) :=
  fun _ _ hR => (hx _ _ hstart).map fun _ _ hab => ⟨hab, hR⟩

end Parallel

end Step

end ObjectQuery
