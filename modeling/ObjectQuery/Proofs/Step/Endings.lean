import ObjectQuery.Proofs.Step.Run

/-!
# How a step ends

`Step.Ends F S x s`: from the state `s` the step `x` either succeeds, and its result and the state
that it leaves meet `S`, or fails and leaves a state that meets `F`. A failure keeps the changes made
before it, so an invariant of the states has to be shown of both.

The rules follow the ways to build a step.
-/

namespace ObjectQuery

namespace Step

variable {σ α β : Type}

/-- A run that succeeds ends in a result and a state that meet `S`, and one that fails in a state
that meets `F`. -/
def Ends (F : σ → Prop) (S : α → σ → Prop) (x : Step σ α) (s : σ) : Prop :=
  match (x.run s).result with
  | .ok a => S a (x.run s).state
  | .error _ => F (x.run s).state

/-- A run that is known by its result. -/
theorem yields_of_toOption {x : Step σ α} {s : σ} {a : α}
    (h : (x.run s).result.toOption = some a) : x.Yields s a (x.run s).state := by
  refine ⟨?_, rfl⟩
  cases hresult : (x.run s).result with
  | ok b =>
    rw [hresult] at h
    rw [Option.some.inj h]
  | error e =>
    rw [hresult] at h
    cases h

namespace Ends

variable {F F' : σ → Prop} {S S' : α → σ → Prop} {T : β → σ → Prop} {x : Step σ α} {s : σ}

theorem mono (h : x.Ends F S s) (hF : ∀ t, F t → F' t) (hS : ∀ a t, S a t → S' a t) :
    x.Ends F' S' s := by
  unfold Ends at h ⊢
  split at h
  · exact hS _ _ h
  · exact hF _ h

/-- What a successful run ends in. -/
theorem yields (h : x.Ends F S s) {a : α} {t : σ} (hx : x.Yields s a t) : S a t := by
  obtain ⟨hresult, rfl⟩ := hx
  unfold Ends at h
  rwa [hresult] at h

/-- What holds in both cases holds of the state that is left. -/
theorem state {P : σ → Prop} (h : x.Ends P (fun _ => P) s) : P (x.run s).state := by
  unfold Ends at h
  split at h <;> exact h

theorem pure {a : α} (h : S a s) : (Pure.pure a : Step σ α).Ends F S s := h

theorem fail {e : CompileError} (h : F s) : (Step.fail e : Step σ α).Ends F S s := h

/-- A step that reads the state goes on from the same state. -/
theorem get_bind {f : σ → Step σ α} (h : (f s).Ends F S s) : (Step.get >>= f).Ends F S s := by
  unfold Ends at h ⊢
  rw [run_bind]
  exact h

/-- A step that reports something goes on with the value. -/
theorem ofReported_bind {r : Reported β} {f : β → Step σ α} (h : (f r.value).Ends F S s) :
    (Step.ofReported r >>= f).Ends F S s := by
  unfold Ends at h ⊢
  rw [run_bind]
  exact h

/-- A step that puts a state in place of another goes on from that one. -/
theorem put_bind {t : σ} {f : Unit → Step σ α} (h : (f ()).Ends F S t) :
    ((Step.modify fun _ => t) >>= f).Ends F S s := by
  unfold Ends at h ⊢
  rw [run_bind]
  exact h

/-- A step goes on where the one before it has succeeded. -/
theorem bind {f : α → Step σ β} (hx : x.Ends F S s) (hf : ∀ a t, S a t → (f a).Ends F T t) :
    (x >>= f).Ends F T s := by
  unfold Ends at hx ⊢
  rw [run_bind]
  revert hx
  rcases x.run s with ⟨e | a, t, events⟩
  · exact id
  · intro ht
    exact hf a t ht

/-- A state that is changed before a step and mended after it. -/
theorem restoring {before : σ → σ} {after : σ → σ → σ} (hx : x.Ends F S (before s))
    (hF : ∀ u, F u → F' (after s u)) (hS : ∀ a u, S a u → S' a (after s u)) :
    (Step.restoring before after x).Ends F' S' s := by
  have hafter : x.Ends (fun u => F' (after s u)) (fun a u => S' a (after s u)) (before s) :=
    hx.mono hF hS
  exact hafter

end Ends

end Step

end ObjectQuery
