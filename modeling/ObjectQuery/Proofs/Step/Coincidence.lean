import ObjectQuery.Proofs.Step.Run

/-!
# Steps that coincide

`Step.Coincides I J x y`: from states that meet `I` the steps `x` and `y` have the same successful
runs, and these leave states that meet `J`. Where one of the steps fails so does the other, but the
errors, the reports and the states after a failure may differ.
-/

namespace ObjectQuery

namespace Step

variable {σ α β : Type}

/-- From states that meet `I` both steps have the same successful runs, which leave states that meet
`J`. -/
def Coincides (I J : σ → Prop) (x y : Step σ α) : Prop :=
  ∀ ⦃s⦄, I s → ∀ a t, (x.Yields s a t ↔ y.Yields s a t) ∧ (x.Yields s a t → J t)

namespace Coincides

variable {I J K : σ → Prop} {x y : Step σ α}

/-- A step coincides with itself. -/
theorem refl (h : ∀ s a t, x.Yields s a t → I s → J t) : Coincides I J x x :=
  fun s hs a t => ⟨Iff.rfl, fun hx => h s a t hx hs⟩

/-- Nothing has to hold of the states that are left. -/
theorem same (x : Step σ α) : Coincides I (fun _ => True) x x := refl fun _ _ _ _ _ => trivial

/-- What is known of one of the steps holds of both. -/
theorem leaving (h : Coincides I J x y) (hx : ∀ s a t, x.Yields s a t → I s → K t) :
    Coincides I K x y :=
  fun s hs a t => ⟨(h hs a t).1, fun hxa => hx s a t hxa hs⟩

theorem pure (a : α) : Coincides I I (Pure.pure a : Step σ α) (Pure.pure a) := by
  refine refl fun s b t h hs => ?_
  rwa [(yields_pure.mp h).2]

/-- Failures coincide, whatever their errors are. -/
theorem fail (e e' : CompileError) : Coincides I J (Step.fail e : Step σ α) (Step.fail e') :=
  fun _ _ _ _ => ⟨by rw [yields_fail, yields_fail], fun h => (yields_fail.mp h).elim⟩

theorem bind {f g : α → Step σ β} (hx : Coincides I J x y) (hf : ∀ a, Coincides J K (f a) (g a)) :
    Coincides I K (x >>= f) (y >>= g) := by
  intro s hs b u
  rw [yields_bind, yields_bind]
  constructor
  · refine exists_congr fun a => exists_congr fun t => ?_
    rw [(hx hs a t).1]
    refine and_congr_right fun hy => (hf a ?_ b u).1
    exact (hx hs a t).2 ((hx hs a t).1.mpr hy)
  · rintro ⟨a, t, hxa, hfa⟩
    exact (hf a ((hx hs a t).2 hxa) b u).2 hfa

/-- The state is read, which meets `I`. -/
theorem get_bind {f g : σ → Step σ β} (h : ∀ s, I s → Coincides I J (f s) (g s)) :
    Coincides I J (Step.get >>= f) (Step.get >>= g) := by
  intro s hs b t
  rw [yields_get_bind, yields_get_bind]
  exact h s hs hs b t

theorem modify {f : σ → σ} (h : ∀ s, I s → J (f s)) :
    Coincides I J (Step.modify f) (Step.modify f) := by
  refine refl fun s a t hx hs => ?_
  rw [yields_modify.mp hx]
  exact h s hs

theorem ofReported {v w : Reported α} (h : v.value = w.value) :
    Coincides I I (Step.ofReported v : Step σ α) (Step.ofReported w) := by
  intro s hs a t
  rw [yields_ofReported, yields_ofReported, h]
  refine ⟨Iff.rfl, ?_⟩
  rintro ⟨-, rfl⟩
  exact hs

theorem orFail (e e' : CompileError) (o : Option α) :
    Coincides I I (Step.orFail e o : Step σ α) (Step.orFail e' o) := by
  cases o with
  | none => exact fail e e'
  | some a => exact pure a

theorem restoring {I' J' : σ → Prop} {before : σ → σ} {after : σ → σ → σ}
    (hx : Coincides I' J' x y) (hbefore : ∀ s, I s → I' (before s))
    (hafter : ∀ s t, I s → J' t → J (after s t)) :
    Coincides I J (Step.restoring before after x) (Step.restoring before after y) := by
  intro s hs a t
  rw [yields_restoring, yields_restoring]
  have hrun := hx (hbefore s hs) a
  constructor
  · exact exists_congr fun u => and_congr_left fun _ => (hrun u).1
  · rintro ⟨u, hu, rfl⟩
    exact hafter s u hs ((hrun u).2 hu)

/-- Only failures are mended. -/
theorem onFailure {mend mend' : σ → σ → σ} (hx : Coincides I J x y) :
    Coincides I J (Step.onFailure mend x) (Step.onFailure mend' y) := by
  intro s hs a t
  rw [yields_onFailure, yields_onFailure]
  exact hx hs a t

end Coincides

end Step

end ObjectQuery
