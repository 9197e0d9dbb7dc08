import ObjectQuery.Proofs.Step.Parallel

/-!
# How a step can fail

`Step.FailsWith P x`: whenever the step `x` fails, its error meets `P`. The rules follow the ways to
build a step.
-/

namespace ObjectQuery

namespace Step

variable {σ τ α β : Type}

/-- Every error of the step meets `P`. -/
def FailsWith (P : CompileError → Prop) (x : Step σ α) : Prop := ∀ s e, x.Fails s e → P e

theorem Yields.not_fails {x : Step σ α} {s t : σ} {a : α} {e : CompileError} (h : x.Yields s a t) :
    ¬x.Fails s e := by
  intro hfails
  cases h.1.symm.trans hfails

theorem not_fails_of_isSome {x : Step σ α} {s : σ} (h : (x.run s).result.toOption.isSome = true)
    (e : CompileError) : ¬x.Fails s e := by
  intro hfails
  rw [show (x.run s).result = .error e from hfails] at h
  cases h

/-- A step in two parts fails in the first of them or behind it. -/
theorem fails_bind {x : Step σ α} {f : α → Step σ β} {s : σ} {e : CompileError} :
    (x >>= f).Fails s e ↔ x.Fails s e ∨ ∃ a t, x.Yields s a t ∧ (f a).Fails t e := by
  constructor
  · intro h
    rcases yields_or_fails x s with ⟨a, t, hx⟩ | ⟨e', hx⟩
    · rcases yields_or_fails (f a) t with ⟨b, u, hf⟩ | ⟨e', hf⟩
      · have hboth := (yields_bind.mpr ⟨a, t, hx, hf⟩).1
        rw [show ((x >>= f).run s).result = .error e from h] at hboth
        cases hboth
      · have hboth := hx.bind_fails hf
        rw [Fails, show ((x >>= f).run s).result = .error e from h] at hboth
        cases hboth
        exact .inr ⟨a, t, hx, hf⟩
    · have hfirst : (x >>= f).Fails s e' := hx.bind
      rw [Fails, show ((x >>= f).run s).result = .error e from h] at hfirst
      cases hfirst
      exact .inl hx
  · rintro (h | ⟨a, t, hx, hf⟩)
    · exact h.bind
    · exact hx.bind_fails hf

namespace FailsWith

variable {P : CompileError → Prop} {x : Step σ α}

theorem pure (a : α) : FailsWith P (Pure.pure a : Step σ α) := by
  rintro s e ⟨⟩

theorem fail {e : CompileError} (h : P e) : FailsWith P (Step.fail e : Step σ α) := by
  rintro s _ ⟨⟩
  exact h

theorem get : FailsWith P (Step.get : Step σ σ) := by
  rintro s e ⟨⟩

theorem modify (f : σ → σ) : FailsWith P (Step.modify f) := by
  rintro s e ⟨⟩

theorem ofReported (v : Reported α) : FailsWith P (Step.ofReported v : Step σ α) := by
  rintro s e ⟨⟩

theorem bind {f : α → Step σ β} (hx : FailsWith P x) (hf : ∀ a, FailsWith P (f a)) :
    FailsWith P (x >>= f) := by
  intro s e h
  rcases fails_bind.mp h with hx' | ⟨a, t, -, hf'⟩
  · exact hx s e hx'
  · exact hf a t e hf'

theorem zoom {part : τ → σ} {put : σ → τ → τ} (hx : FailsWith P x) :
    FailsWith P (Step.zoom part put x) :=
  fun t e h => hx (part t) e h

end FailsWith

end Step

end ObjectQuery
