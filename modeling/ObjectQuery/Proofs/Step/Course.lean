import Mathlib.Order.Defs.Unbundled
import ObjectQuery.Proofs.Step.Run

/-!
# The course of a step

`Step.Leaves F S x s`: from the state `s` the step `x` leaves a state that meets `S` if it succeeds,
and one that meets `F` if it fails.

`Step.Leads F S x`: likewise from every state, for relations between a state and the one that is
left. The rules compose both, one for each way to build a step. Where `F` and `S` are one preorder,
a step leads along it as soon as its parts do.
-/

namespace ObjectQuery

namespace Step

variable {σ τ α β : Type}

/-- The state that a run leaves meets `S` after a success and `F` after a failure. -/
def Leaves (F S : σ → Prop) (x : Step σ α) (s : σ) : Prop :=
  match (x.run s).result with
  | .ok _ => S (x.run s).state
  | .error _ => F (x.run s).state

/-- Runs that succeed take the state along `S`, and runs that fail take it along `F`. -/
def Leads (F S : σ → σ → Prop) (x : Step σ α) : Prop := ∀ s, x.Leaves (F s) (S s) s

namespace Leaves

variable {F S F' S' : σ → Prop} {x : Step σ α} {s : σ}

theorem mono (h : x.Leaves F S s) (hF : ∀ t, F t → F' t) (hS : ∀ t, S t → S' t) :
    x.Leaves F' S' s := by
  unfold Leaves at h ⊢
  split at h
  · exact hS _ h
  · exact hF _ h

/-- What holds in both cases holds of the state that is left. -/
theorem state (h : x.Leaves S S s) : S (x.run s).state := by
  unfold Leaves at h
  split at h <;> exact h

theorem of_state (h : S (x.run s).state) : x.Leaves S S s := by
  unfold Leaves
  split <;> exact h

theorem pure {a : α} (h : S s) : (Pure.pure a : Step σ α).Leaves F S s := h

theorem fail {e : CompileError} (h : F s) : (Step.fail e : Step σ α).Leaves F S s := h

/-- A state that is put in place of another. -/
theorem put {t : σ} {a : α} (h : S t) :
    (do Step.modify fun _ => t; Pure.pure a : Step σ α).Leaves F S s := h

/-- A step that reads the state goes on from the same state. -/
theorem get_bind {f : σ → Step σ β} (h : (f s).Leaves F S s) :
    (Step.get >>= f).Leaves F S s := by
  unfold Leaves at h ⊢
  rw [run_bind]
  exact h

/-- A step goes on where the one before it has succeeded. -/
theorem bind {f : α → Step σ β} (hx : x.Leaves F' S s)
    (hf : ∀ a t, S t → (f a).Leaves F' S' t) : (x >>= f).Leaves F' S' s := by
  unfold Leaves at hx ⊢
  rw [run_bind]
  revert hx
  rcases x.run s with ⟨e | a, t, events⟩
  · exact id
  · intro ht
    exact hf a t ht

/-- A step on a part of the state. -/
theorem zoom {part : τ → σ} {put : σ → τ → τ} {G T : τ → Prop} {t : τ}
    (hx : x.Leaves F S (part t)) (hF : ∀ u, F u → G (put u t)) (hS : ∀ u, S u → T (put u t)) :
    (Step.zoom part put x).Leaves G T t := by
  have hput : x.Leaves (fun u => G (put u t)) (fun u => T (put u t)) (part t) := hx.mono hF hS
  exact hput

/-- A state that is changed before a step and mended after it. -/
theorem restoring {before : σ → σ} {after : σ → σ → σ} (hx : x.Leaves F S (before s))
    (hF : ∀ u, F u → F' (after s u)) (hS : ∀ u, S u → S' (after s u)) :
    (Step.restoring before after x).Leaves F' S' s := by
  have hafter : x.Leaves (fun u => F' (after s u)) (fun u => S' (after s u)) (before s) :=
    hx.mono hF hS
  exact hafter

/-- A state that is mended after a failure. -/
theorem onFailure {mend : σ → σ → σ} (hx : x.Leaves F S s) (hF : ∀ u, F u → F' (mend s u)) :
    (Step.onFailure mend x).Leaves F' S s := by
  unfold Leaves at hx ⊢
  rw [run_onFailure]
  revert hx
  rcases x.run s with ⟨e | a, u, events⟩
  · exact hF u
  · exact id

/-- A step on a state of its own leaves the state alone. -/
theorem isolated {start : τ} {x : Step τ α} (hF : F s) (hS : S s) :
    (Step.isolated start x : Step σ (α × τ)).Leaves F S s := by
  unfold Leaves
  split
  · exact hS
  · exact hF

end Leaves

namespace Leads

/-- Where a step succeeds, its state goes along the second relation. -/
theorem yields {F S : σ → σ → Prop} {x : Step σ α} (h : Leads F S x) {s t : σ} {a : α}
    (hx : x.Yields s a t) : S s t := by
  obtain ⟨hresult, rfl⟩ := hx
  have hs := h s
  unfold Leaves at hs
  rwa [hresult] at hs

theorem modify {F S : σ → σ → Prop} {f : σ → σ} (h : ∀ s, S s (f s)) :
    Leads F S (Step.modify f) := h

/-! ## Preorders -/

variable {R : σ → σ → Prop} [IsPreorder σ R] {x : Step σ α}

theorem pure (a : α) : Leads R R (Pure.pure a : Step σ α) := fun s => .pure (Std.Refl.refl s)

theorem fail (e : CompileError) : Leads R R (Step.fail e : Step σ α) :=
  fun s => .fail (Std.Refl.refl s)

theorem get : Leads R R (Step.get : Step σ σ) := fun s => Std.Refl.refl s

theorem ofReported (x : Reported α) : Leads R R (Step.ofReported x : Step σ α) :=
  fun s => Std.Refl.refl s

theorem orFail (e : CompileError) (o : Option α) : Leads R R (Step.orFail e o : Step σ α) := by
  cases o with
  | none => exact fail e
  | some a => exact pure a

theorem ofExcept (r : Except CompileError α) : Leads R R (Step.ofExcept r : Step σ α) := by
  cases r with
  | error e => exact fail e
  | ok a => exact pure a

theorem isolated {start : τ} {x : Step τ α} : Leads R R (Step.isolated start x : Step σ (α × τ)) :=
  fun s => .isolated (Std.Refl.refl s) (Std.Refl.refl s)

/-- A step that may fail otherwise goes on in a step that leads along the preorder. -/
theorem bind {f : α → Step σ β} (hx : Leads R R x) (hf : ∀ a, Leads R R (f a)) :
    Leads R R (x >>= f) := fun s =>
  (hx s).bind fun a t ht =>
    (hf a t).mono (fun _ hu => IsTrans.trans _ _ _ ht hu) fun _ hu => IsTrans.trans _ _ _ ht hu

end Leads

end Step

end ObjectQuery
