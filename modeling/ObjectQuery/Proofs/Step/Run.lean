import ObjectQuery.Step

/-!
# Runs of steps

`Step.Yields x s a t`: from the state `s` the step `x` succeeds with `a` and leaves the state `t`.
The `yields_*` lemmas take a successful run apart, one for each way to build a step, so that a proof
about a step follows the lines of its definition.

`Step.Maintains I P x`: from states that meet the invariant `I` the step `x` only leaves states that
meet it, with results that meet `P`.
-/

namespace ObjectQuery

namespace Step

variable {σ τ α β : Type}

/-- From the state `s` the step succeeds with `a` and leaves the state `t`. -/
def Yields (x : Step σ α) (s : σ) (a : α) (t : σ) : Prop :=
  (x.run s).result = .ok a ∧ (x.run s).state = t

@[simp] theorem yields_pure {a b : α} {s t : σ} :
    (pure a : Step σ α).Yields s b t ↔ b = a ∧ t = s := by
  constructor
  · rintro ⟨h, rfl⟩
    cases h
    exact ⟨rfl, rfl⟩
  · rintro ⟨rfl, rfl⟩
    exact ⟨rfl, rfl⟩

@[simp] theorem yields_bind {x : Step σ α} {f : α → Step σ β} {s u : σ} {b : β} :
    (x >>= f).Yields s b u ↔ ∃ a t, x.Yields s a t ∧ (f a).Yields t b u := by
  unfold Yields
  rw [run_bind]
  rcases x.run s with ⟨e | a, t, events⟩
  · constructor
    · rintro ⟨h, -⟩
      cases h
    · rintro ⟨a, t', ⟨h, -⟩, -⟩
      cases h
  · constructor
    · intro h
      exact ⟨a, t, ⟨rfl, rfl⟩, h⟩
    · rintro ⟨a', t', ⟨ha, ht⟩, h⟩
      cases ha
      cases ht
      exact h

@[simp] theorem yields_map {x : Step σ α} {f : α → β} {s t : σ} {b : β} :
    (f <$> x).Yields s b t ↔ ∃ a, x.Yields s a t ∧ b = f a := by
  rw [map_eq_pure_bind, yields_bind]
  constructor
  · rintro ⟨a, u, hx, hb⟩
    obtain ⟨rfl, rfl⟩ := yields_pure.mp hb
    exact ⟨a, hx, rfl⟩
  · rintro ⟨a, hx, rfl⟩
    exact ⟨a, t, hx, yields_pure.mpr ⟨rfl, rfl⟩⟩

@[simp] theorem yields_fail {e : CompileError} {a : α} {s t : σ} :
    (fail e : Step σ α).Yields s a t ↔ False := by
  constructor
  · rintro ⟨h, -⟩
    cases h
  · exact False.elim

@[simp] theorem yields_get {s a t : σ} : (get : Step σ σ).Yields s a t ↔ a = s ∧ t = s := by
  constructor
  · rintro ⟨h, rfl⟩
    cases h
    exact ⟨rfl, rfl⟩
  · rintro ⟨rfl, rfl⟩
    exact ⟨rfl, rfl⟩

/-- A step that reads the state goes on from the same state. -/
theorem yields_get_bind {f : σ → Step σ β} {s t : σ} {b : β} :
    ((get : Step σ σ) >>= f).Yields s b t ↔ (f s).Yields s b t :=
  Iff.rfl

@[simp] theorem yields_modify {f : σ → σ} {s t : σ} {a : Unit} :
    (modify f).Yields s a t ↔ t = f s := by
  constructor
  · rintro ⟨-, rfl⟩
    rfl
  · rintro rfl
    exact ⟨rfl, rfl⟩

@[simp] theorem yields_ofReported {x : Reported α} {s t : σ} {a : α} :
    (ofReported x : Step σ α).Yields s a t ↔ a = x.value ∧ t = s := by
  constructor
  · rintro ⟨h, rfl⟩
    cases h
    exact ⟨rfl, rfl⟩
  · rintro ⟨rfl, rfl⟩
    exact ⟨rfl, rfl⟩

@[simp] theorem yields_orFail {e : CompileError} {o : Option α} {s t : σ} {a : α} :
    (orFail e o : Step σ α).Yields s a t ↔ o = some a ∧ t = s := by
  cases o with
  | none => simp [orFail]
  | some b => simp [orFail, eq_comm]

@[simp] theorem yields_ofExcept {r : Except CompileError α} {s t : σ} {a : α} :
    (ofExcept r : Step σ α).Yields s a t ↔ r = .ok a ∧ t = s := by
  cases r with
  | error e => simp [ofExcept]
  | ok b => simp [ofExcept, eq_comm]

@[simp] theorem yields_restoring {before : σ → σ} {after : σ → σ → σ} {x : Step σ α} {s t : σ}
    {a : α} :
    (restoring before after x).Yields s a t ↔
      ∃ u, x.Yields (before s) a u ∧ t = after s u := by
  constructor
  · rintro ⟨h, rfl⟩
    exact ⟨_, ⟨h, rfl⟩, rfl⟩
  · rintro ⟨u, ⟨h, rfl⟩, rfl⟩
    exact ⟨h, rfl⟩

@[simp] theorem yields_onFailure {mend : σ → σ → σ} {x : Step σ α} {s t : σ} {a : α} :
    (onFailure mend x).Yields s a t ↔ x.Yields s a t := by
  unfold Yields
  rw [run_onFailure]
  rcases x.run s with ⟨e | b, u, events⟩
  · constructor
    · rintro ⟨h, -⟩
      cases h
    · rintro ⟨h, -⟩
      cases h
  · exact Iff.rfl

@[simp] theorem yields_zoom {part : σ → τ} {put : τ → σ → σ} {x : Step τ α} {s t : σ} {a : α} :
    (zoom part put x).Yields s a t ↔ ∃ u, x.Yields (part s) a u ∧ t = put u s := by
  constructor
  · rintro ⟨h, rfl⟩
    exact ⟨_, ⟨h, rfl⟩, rfl⟩
  · rintro ⟨u, ⟨h, rfl⟩, rfl⟩
    exact ⟨h, rfl⟩

@[simp] theorem yields_isolated {start : τ} {x : Step τ α} {s t : σ} {r : α × τ} :
    (isolated start x : Step σ (α × τ)).Yields s r t ↔ x.Yields start r.1 r.2 ∧ t = s := by
  unfold Yields
  show ((x.run start).result.map fun a => (a, (x.run start).state)) = .ok r ∧ s = t ↔ _
  rcases x.run start with ⟨e | a, u, events⟩
  · constructor
    · rintro ⟨h, -⟩
      cases h
    · rintro ⟨⟨h, -⟩, -⟩
      cases h
  · constructor
    · rintro ⟨h, rfl⟩
      cases h
      exact ⟨⟨rfl, rfl⟩, rfl⟩
    · rintro ⟨⟨h, hu⟩, rfl⟩
      cases h
      cases hu
      exact ⟨rfl, rfl⟩

/-! ## Invariants -/

/-- A successful run of the step keeps the invariant and gives a result that meets `P`. -/
def Maintains (I : σ → Prop) (P : α → Prop) (x : Step σ α) : Prop :=
  ∀ s a t, x.Yields s a t → I s → I t ∧ P a

namespace Maintains

variable {I : σ → Prop} {P : α → Prop} {Q : β → Prop}

theorem pure {a : α} (h : P a) : Maintains I P (Pure.pure a : Step σ α) := by
  intro s b t hx hs
  obtain ⟨rfl, rfl⟩ := yields_pure.mp hx
  exact ⟨hs, h⟩

theorem bind {x : Step σ α} {f : α → Step σ β} (hx : Maintains I P x)
    (hf : ∀ a, P a → Maintains I Q (f a)) : Maintains I Q (x >>= f) := by
  intro s b t h hs
  obtain ⟨a, u, hxa, hfa⟩ := yields_bind.mp h
  obtain ⟨hu, ha⟩ := hx s a u hxa hs
  exact hf a ha u b t hfa hu

theorem fail (e : CompileError) : Maintains I P (Step.fail e : Step σ α) := by
  intro s a t h
  exact (yields_fail.mp h).elim

theorem get : Maintains I I (Step.get : Step σ σ) := by
  intro s a t h hs
  obtain ⟨rfl, rfl⟩ := yields_get.mp h
  exact ⟨hs, hs⟩

/-- A state may be put in place of another if it meets the invariant. -/
theorem put {u : σ} (h : I u) : Maintains I (fun _ => True) (Step.modify fun _ => u) := by
  intro s a t hx _
  obtain rfl := yields_modify.mp hx
  exact ⟨h, trivial⟩

theorem ofReported (x : Reported α) : Maintains I (fun _ => True) (Step.ofReported x) := by
  intro s a t h hs
  obtain ⟨-, rfl⟩ := yields_ofReported.mp h
  exact ⟨hs, trivial⟩

end Maintains

end Step

end ObjectQuery
