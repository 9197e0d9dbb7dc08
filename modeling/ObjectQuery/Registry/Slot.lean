import ObjectQuery.Registry

/-!
# The installed registry

A slot holds the registry that a process has installed, if any.

* `Slot.install`, `Slot.reset`: fill and empty the slot.
* `Slot.getOrBuild`: the installed registry, or one that is built and installed. If another one is
  installed while it is built, that one is kept.
-/

namespace ObjectQuery

/-- The registry that a process has installed, if any. -/
structure Slot where
  installed : Option Registry := none
  deriving Repr, Inhabited

namespace Slot

/-- Installs a registry in place of any before. -/
def install (_ : Slot) (r : Registry) : Slot := ⟨some r⟩

/-- Removes the installed registry. -/
def reset (_ : Slot) : Slot := ⟨none⟩

/-- The installed registry and the slot afterwards. `build` gives a new registry and may itself
change the slot; it is asked only if the slot is empty. -/
def getOrBuild (s : Slot) (build : Slot → Reported (Registry × Slot)) :
    Reported (Registry × Slot) :=
  match s.installed with
  | some r => pure (r, s)
  | none => do
    let (built, s) ← build s
    match s.installed with
    | some r => pure (r, s)
    | none => pure (built, s.install built)

end Slot

end ObjectQuery
