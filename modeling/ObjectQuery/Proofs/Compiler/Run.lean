import ObjectQuery.Compiler
import ObjectQuery.Proofs.Step.Run

/-!
# Successful compilations

* `Compiler.run_mapped`: the query class is mapped.
* `Compiler.run_ok`, `Compiler.compile_ok`, `Compiler.compileDelete_ok`: the run behind a compiled
  query.
* `Compiler.ofCatalog`: a compiler over the registry of a catalog. `Compiler.linkedAccounts`: one
  that knows identities and their links.
-/

namespace ObjectQuery

namespace Compiler

variable {k : Compiler} {className : String} {o : QueryOptions} {q : CompiledQuery}

/-- Queries are compiled over mapped classes only. -/
theorem run_mapped {α : Type} {assemble : Step Draft (Assembled α)} {statement : α → Statement}
    (h : (k.run className o assemble statement).value = .ok q) :
    ∃ m, k.registry.find? className = some m := by
  unfold run Registry.get at h
  cases hfind : k.registry.find? className with
  | none =>
    rw [hfind] at h
    cases h
  | some m => exact ⟨m, rfl⟩

/-- A compiled query comes from a run that restricts a fresh draft and assembles a statement. -/
theorem run_ok {α : Type} {assemble : Step Draft (Assembled α)} {statement : α → Statement}
    (h : (k.run className o assemble statement).value = .ok q) :
    ∃ restricted assembled final, (k.restrict o).Yields (.start className 0) () restricted ∧
      assemble.Yields restricted assembled final ∧
      q = { statement := statement assembled.statement
            parameters := final.parameters
            requiresDistinctFilter := assembled.requiresDistinctFilter
            spansMultipleTables := assembled.spansMultipleTables } := by
  unfold run at h
  split at h
  · cases h
  · dsimp only at h
    cases hresult : ((do k.restrict o; assemble : Step Draft _).run (.start className 0)).result with
    | error e =>
      rw [hresult] at h
      cases h
    | ok assembled =>
      rw [hresult] at h
      cases h
      obtain ⟨_, restricted, hrestrict, hassemble⟩ := Step.yields_bind.mp ⟨hresult, rfl⟩
      exact ⟨restricted, assembled, _, hrestrict, hassemble, rfl⟩

theorem compile_ok (h : (k.compile className o).value = .ok q) :
    ∃ restricted assembled final, (k.restrict o).Yields (.start className 0) () restricted ∧
      (Draft.assembleSelect k (selectSpec o)).Yields restricted assembled final ∧
      q = { statement := .select assembled.statement
            parameters := final.parameters
            requiresDistinctFilter := assembled.requiresDistinctFilter
            spansMultipleTables := assembled.spansMultipleTables } :=
  run_ok h

theorem compileDelete_ok (h : (k.compileDelete className o).value = .ok q) :
    ∃ restricted, (k.restrict o).Yields (.start className 0) () restricted ∧
      restricted.having = [] ∧
      q.statement = .delete ⟨restricted.aliases.sourceList, restricted.conditions⟩ ∧
      q.parameters = restricted.parameters := by
  obtain ⟨restricted, assembled, final, hrestrict, hassemble, rfl⟩ := run_ok h
  have hdelete := Step.yields_get_bind.mp hassemble
  refine ⟨_, hrestrict, ?_⟩
  split at hdelete
  · exact (Step.yields_fail.mp hdelete).elim
  · rename_i hhaving
    obtain ⟨rfl, rfl⟩ := Step.yields_pure.mp hdelete
    exact ⟨by simpa using hhaving, rfl, rfl⟩

/-- The compiler over the registry that is built for a catalog, for a store that minds case. -/
def ofCatalog (c : Catalog) : Compiler :=
  { registry := (Registry.build c).value, capabilities := Capabilities.ofBackend .postgres }

/-- Identities with a manager, groups, and links to accounts, which have permissions. -/
def linkedAccounts : Compiler :=
  ofCatalog
    { entities :=
        [{ name := "Identity", table := "spt_identity"
           properties :=
             [{ name := "id" }, { name := "name" }, { name := "firstname" }, { name := "lastname" },
              { name := "state" }, { name := "created" },
              { name := "manager", kind := .manyToOne "Identity" },
              { name := "groups", kind := .scalarCollection },
              { name := "links", kind := .oneToMany "Link" (some "identity") }] },
         { name := "Link", table := "spt_link"
           properties :=
             [{ name := "nativeIdentity" }, { name := "identity", kind := .manyToOne "Identity" },
              { name := "permissions", kind := .oneToMany "Permission" none }] },
         { name := "Permission", table := "spt_permission", properties := [{ name := "right" }] }] }

end Compiler

end ObjectQuery
