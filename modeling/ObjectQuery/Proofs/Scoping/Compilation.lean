import ObjectQuery.Proofs.Compiler.Run
import ObjectQuery.Proofs.Declarations.Compilation
import ObjectQuery.Proofs.Scoping.Emission

/-!
# Compiled statements are scoped

* `Statement.Scoped`, `Statement.nested`: what a statement and the selects nested in it declare.
* `Statement.Closes`: a statement that is scoped, also in its nested selects, and lists the joins of
  the run that has compiled it.
* `Compiler.compile_closes`: every compiled query and every deletion does.
-/

namespace ObjectQuery

/-- The statement declares every alias that it refers to, and joins behind the aliases joined
from. -/
def Statement.Scoped : Statement → Prop
  | select query => query.Scoped
  | delete deletion => deletion.Scoped

/-- The selects nested in a statement, at any depth. -/
def Statement.nested : Statement → List Select
  | select query => query.nested
  | delete deletion => conditionSelects deletion.conditions

/-- The statement and the selects nested in it declare what they refer to. It lists all joins in the
aliases, and each nested select lists all joins of its own run. -/
structure Statement.Closes (k : Compiler) (a : Aliases) (s : Statement) : Prop where
  isScoped : s.Scoped
  nested : ∀ n ∈ s.nested, n.Scoped ∧ n.ListsJoins k
  joins : ∀ j, j ∈ s.sources.joins ↔ j ∈ a.joins

namespace Compiler

variable {k : Compiler} {className : String} {o : QueryOptions}

/-- The restrictions of a query leave a sound draft. -/
theorem restrict_sound {restricted : Draft}
    (h : (k.restrict o).Yields (.start className 0) () restricted) : restricted.Sound k := by
  have hstart : Draft.Sound k { Draft.start className 0 with autoIgnoreCase := o.ignoreCase } :=
    ⟨.start className, by rintro _ ⟨⟩, by rintro _ ⟨⟩⟩
  obtain ⟨_, d, hmodify, h₁⟩ := Step.yields_bind.mp h
  obtain rfl := Step.yields_modify.mp hmodify
  split at h₁
  · exact Draft.visit_sound h₁ hstart
  · obtain ⟨-, rfl⟩ := Step.yields_pure.mp h₁
    exact hstart

/-- A compiled statement declares every alias that it refers to and joins no association in front of
the alias that it is joined from. So does every select nested in it. No join is left out. -/
theorem compile_closes (k : Compiler) (className : String) (o : QueryOptions) :
    (∀ q, (k.compile className o).value = .ok q →
      q.statement.Closes k
        (k.finalAliases className o (Draft.assembleSelect k (selectSpec o)))) ∧
    ∀ q, (k.compileDelete className o).value = .ok q →
      q.statement.Closes k (k.finalAliases className o Draft.assembleDelete) := by
  constructor
  · intro q h
    obtain ⟨restricted, assembled, final, hrestrict, hassemble, rfl⟩ := compile_ok h
    obtain ⟨hfinal, hscoped, hnested, hsources⟩ :=
      Draft.assembleSelect_sound hassemble (restrict_sound hrestrict)
    rw [finalAliases_eq hrestrict hassemble]
    refine ⟨hscoped, fun n hn => ⟨(hnested n hn).isScoped, (hnested n hn).listsJoins⟩, fun j => ?_⟩
    show j ∈ assembled.statement.sources.joins ↔ _
    rw [hsources]
    exact Aliases.mem_joins_sourceList hfinal.orderly hfinal.rooted
  · intro q h
    obtain ⟨restricted, assembled, final, hrestrict, hassemble, rfl⟩ := run_ok h
    have hsound := restrict_sound hrestrict
    rw [finalAliases_eq hrestrict hassemble]
    have hdelete := Step.yields_get_bind.mp hassemble
    split at hdelete
    · exact (Step.yields_fail.mp hdelete).elim
    · obtain ⟨rfl, rfl⟩ := Step.yields_pure.mp hdelete
      have hdeclared := hsound.aliases.declared_sourceList
      refine ⟨⟨List.append_subset.mpr ⟨?_, ?_⟩, hsound.aliases.inOrder⟩,
        fun n hn => ?_, fun j => ?_⟩
      · exact List.Subset.trans hsound.aliases.mentioned_sourceList hdeclared
      · exact List.Subset.trans hsound.conditions_subset hdeclared
      · have hn := hsound.selects.1 n hn
        exact ⟨hn.isScoped, hn.listsJoins⟩
      · exact Aliases.mem_joins_sourceList hsound.aliases.orderly hsound.aliases.rooted

/-- Identities with links to applications, which have owners. -/
def identitiesAndOwners : Catalog :=
  { entities :=
      [{ name := "Identity", table := "spt_identity"
         properties :=
           [{ name := "name" }, { name := "links", kind := .oneToMany "Link" (some "identity") }] },
       { name := "Link", table := "spt_link"
         properties := [{ name := "identity", kind := .manyToOne "Identity" },
                        { name := "application", kind := .manyToOne "Application" }] },
       { name := "Application", table := "spt_application"
         properties := [{ name := "name" }, { name := "owner", kind := .manyToOne "Identity" }] }] }

/-- Identities joined with the applications of their owners, but for those with other links. -/
def joinedAndExcluded : QueryOptions :=
  { restrictions :=
      [.join .leftJoin "name" "Application.owner.name",
       .collectionCondition "links" (.compare .ne "application.name" (.text "x"))] }

/-- A condition of a join refers to a join behind it, and a nested select joins on its own. -/
theorem compile_closes_joinedAndExcluded :
    let k : Compiler :=
      { registry := (Registry.build identitiesAndOwners).value
        capabilities := Capabilities.ofBackend .mysql }
    ∃ q, (k.compile "Identity" joinedAndExcluded).value = .ok q ∧
      q.text = "select identityAlias from Identity identityAlias left outer join Application " ++
        "applicationAlias on identityAlias.name = application_ownerAlias0.name inner join " ++
        "applicationAlias.owner application_ownerAlias0 where (identityAlias not in (select " ++
        "linkAlias.identity from Link linkAlias left outer join linkAlias.application " ++
        "link_applicationAlias0 where (link_applicationAlias0.name = :param0)))" ∧
      q.statement.Closes k (k.finalAliases "Identity" joinedAndExcluded
        (Draft.assembleSelect k (selectSpec joinedAndExcluded))) := by
  intro k
  have htext : (k.compile "Identity" joinedAndExcluded).value.toOption.map (·.text) =
      some ("select identityAlias from Identity identityAlias left outer join Application " ++
        "applicationAlias on identityAlias.name = application_ownerAlias0.name inner join " ++
        "applicationAlias.owner application_ownerAlias0 where (identityAlias not in (select " ++
        "linkAlias.identity from Link linkAlias left outer join linkAlias.application " ++
        "link_applicationAlias0 where (link_applicationAlias0.name = :param0)))") := by
    decide +kernel
  cases hq : (k.compile "Identity" joinedAndExcluded).value with
  | error e =>
    rw [hq] at htext
    cases htext
  | ok q =>
    rw [hq] at htext
    exact ⟨q, rfl, Option.some.inj htext, (compile_closes k "Identity" joinedAndExcluded).1 q hq⟩

end Compiler

end ObjectQuery
