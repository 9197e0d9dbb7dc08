import ObjectQuery.Event

/-!
# Values with reports

* `Reported`: a value with the events reported on the way to it, in order. The events never depend
  on who reads them, so `Reported.value` is all that matters for a result.
-/

namespace ObjectQuery

/-- A value with the events reported on the way to it. -/
structure Reported (α : Type) where
  value : α
  events : List Event
  deriving Repr, Inhabited

namespace Reported

instance : Monad Reported where
  pure a := ⟨a, []⟩
  bind x f := ⟨(f x.value).value, x.events ++ (f x.value).events⟩

/-- Reports events. -/
def report (events : List Event) : Reported Unit := ⟨(), events⟩

variable {α β : Type}

@[simp] theorem value_pure (a : α) : (pure a : Reported α).value = a := rfl

@[simp] theorem value_bind (x : Reported α) (f : α → Reported β) :
    (x >>= f).value = (f x.value).value := rfl

@[simp] theorem events_pure (a : α) : (pure a : Reported α).events = [] := rfl

@[simp] theorem events_bind (x : Reported α) (f : α → Reported β) :
    (x >>= f).events = x.events ++ (f x.value).events := rfl

instance : LawfulMonad Reported :=
  LawfulMonad.mk' Reported
    (fun x => by
      show (⟨x.value, x.events ++ []⟩ : Reported _) = x
      rw [List.append_nil])
    (fun _ _ => rfl)
    (fun x f g => by
      show (⟨_, _⟩ : Reported _) = ⟨_, _⟩
      simp [List.append_assoc])

end Reported

end ObjectQuery
