import ObjectQuery.Reported

/-!
# Steps of a compilation

* `Step`: reads and updates a state, reports events and may fail. A failure keeps the updates and
  reports made before it.
* `Step.restoring`: puts a part of the state back after a step, also after a failure.
* `Step.onFailure`: mends the state after a failure.
* `Step.zoom`: a step on a part of the state. `Step.isolated`: a step on a state of its own.
-/

namespace ObjectQuery

/-- The outcome of a step: its result, the state it leaves and the events it reports. -/
structure Outcome (σ α : Type) where
  result : Except CompileError α
  state : σ
  events : List Event

/-- A step of a compilation over states `σ`. -/
def Step (σ α : Type) := σ → Outcome σ α

variable {σ τ α β : Type}

/-- Goes on from an outcome with another step, if there is no failure. -/
def Outcome.andThen (o : Outcome σ α) (f : α → Step σ β) : Outcome σ β :=
  match o with
  | ⟨.ok a, s, events⟩ =>
    let next := f a s
    ⟨next.result, next.state, events ++ next.events⟩
  | ⟨.error e, s, events⟩ => ⟨.error e, s, events⟩

/-- Mends the state that a failure leaves. -/
def Outcome.mended (mend : σ → σ) : Outcome σ α → Outcome σ α
  | ⟨.ok a, s, events⟩ => ⟨.ok a, s, events⟩
  | ⟨.error e, s, events⟩ => ⟨.error e, mend s, events⟩

namespace Step

/-- Runs a step from a state. -/
def run (x : Step σ α) (s : σ) : Outcome σ α := x s

instance : Monad (Step σ) where
  pure a := fun s => ⟨.ok a, s, []⟩
  bind x f := fun s => (x s).andThen f

@[simp] theorem run_pure (a : α) (s : σ) : (pure a : Step σ α).run s = ⟨.ok a, s, []⟩ := rfl

@[simp] theorem run_bind (x : Step σ α) (f : α → Step σ β) (s : σ) :
    (x >>= f).run s = (x.run s).andThen f := rfl

instance : LawfulMonad (Step σ) :=
  LawfulMonad.mk' (Step σ)
    (fun x => by
      funext s
      show (x s).andThen _ = x s
      rcases x s with ⟨_ | a, t, events⟩
      · rfl
      · show (⟨.ok a, t, events ++ []⟩ : Outcome _ _) = _
        rw [List.append_nil])
    (fun _ _ => rfl)
    (fun x f g => by
      funext s
      show ((x s).andThen f).andThen g = (x s).andThen fun a => f a >>= g
      rcases x s with ⟨_ | a, t, events⟩
      · rfl
      · show Outcome.andThen ⟨(f a t).result, (f a t).state, events ++ (f a t).events⟩ g =
          ⟨((f a t).andThen g).result, ((f a t).andThen g).state,
            events ++ ((f a t).andThen g).events⟩
        rcases f a t with ⟨_ | _, _, _⟩ <;> simp [Outcome.andThen])

/-- Fails. -/
def fail (e : CompileError) : Step σ α := fun s => ⟨.error e, s, []⟩

/-- The state. -/
def get : Step σ σ := fun s => ⟨.ok s, s, []⟩

/-- Changes the state. -/
def modify (f : σ → σ) : Step σ Unit := fun s => ⟨.ok (), f s, []⟩

/-- A value with reports, as a step that leaves the state alone. -/
def ofReported (x : Reported α) : Step σ α := fun s => ⟨.ok x.value, s, x.events⟩

/-- The value, or a failure where there is none. -/
def orFail (e : CompileError) : Option α → Step σ α
  | some a => pure a
  | none => fail e

/-- The value of a result, or its failure. -/
def ofExcept : Except CompileError α → Step σ α
  | .ok a => pure a
  | .error e => fail e

/-- Runs a step from a changed state and mends the state it leaves, also after a failure: `after`
takes the state from before and the one that the step leaves. -/
def restoring (before : σ → σ) (after : σ → σ → σ) (x : Step σ α) : Step σ α := fun s =>
  let o := x (before s)
  { o with state := after s o.state }

/-- Runs a step and mends the state that a failure leaves: `mend` takes the state from before and
the one that the step leaves. -/
def onFailure (mend : σ → σ → σ) (x : Step σ α) : Step σ α := fun s => (x s).mended (mend s)

@[simp] theorem run_onFailure (mend : σ → σ → σ) (x : Step σ α) (s : σ) :
    (onFailure mend x).run s = (x.run s).mended (mend s) := rfl

/-- Runs a step on a part of the state. -/
def zoom (part : σ → τ) (put : τ → σ → σ) (x : Step τ α) : Step σ α := fun s =>
  let o := x (part s)
  ⟨o.result, put o.state s, o.events⟩

/-- Runs a step from a state of its own and gives the result with the state it leaves. -/
def isolated (start : τ) (x : Step τ α) : Step σ (α × τ) := fun s =>
  let o := x start
  ⟨o.result.map fun a => (a, o.state), s, o.events⟩

end Step

end ObjectQuery
