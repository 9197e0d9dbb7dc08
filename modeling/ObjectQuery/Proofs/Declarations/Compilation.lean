import ObjectQuery.Proofs.Compiler.Registry
import ObjectQuery.Proofs.Compiler.Run
import ObjectQuery.Proofs.Declarations.Rendering
import ObjectQuery.Proofs.Emission.Extension

/-!
# The declarations of a compiled query

* `Catalog.Unambiguous`: catalogs whose classes can be told apart by the aliases named after them.
* `Aliases.Declares`: a statement that declares every source and every join.
* `Compiler.compile_declares`: so does every compiled query. The aliases are distinct, and every
  join is declared once, if the namings of the query fit. They need not, as an outer join takes the
  alias that its class has already.
-/

namespace ObjectQuery

/-- The classes of a catalog can be told apart by the aliases named after them, and these from the
aliases of joined associations: no class name has an underscore, and no two class names differ in
the case of their first letter only. -/
structure Catalog.Unambiguous (c : Catalog) : Prop where
  underscores : ∀ e ∈ c.entities, '_' ∉ e.name.toList
  initials : ∀ e ∈ c.entities, ∀ e' ∈ c.entities,
    Text.lowerFirst e.name = Text.lowerFirst e'.name → e.name = e'.name

instance (c : Catalog) : Decidable c.Unambiguous :=
  decidable_of_iff ((∀ e ∈ c.entities, '_' ∉ e.name.toList) ∧
      ∀ e ∈ c.entities, ∀ e' ∈ c.entities,
        Text.lowerFirst e.name = Text.lowerFirst e'.name → e.name = e'.name)
    ⟨fun ⟨hunderscores, hinitials⟩ => ⟨hunderscores, hinitials⟩,
      fun h => ⟨h.underscores, h.initials⟩⟩

theorem Catalog.Unambiguous.isDistinct {c : Catalog} (h : c.Unambiguous) : c.Distinct := by
  intro C C' hC hC' heq
  obtain ⟨e, he, rfl⟩ := exists_of_isKnown hC
  obtain ⟨e', he', rfl⟩ := exists_of_isKnown hC'
  exact h.initials e he e' he' heq

theorem Catalog.Unambiguous.underscore_not_mem {c : Catalog} (h : c.Unambiguous) {C : String}
    (hC : c.isKnown C = true) : '_' ∉ C.toList := by
  obtain ⟨e, he, rfl⟩ := exists_of_isKnown hC
  exact h.underscores e he

/-- The joins with other classes that a query makes, after its own class. -/
def QueryOptions.namings (className : String) (o : QueryOptions) : List Naming :=
  .listed className :: o.prepare.elim [] (Filter.namings false)

namespace Aliases

/-- The query class is listed first. -/
theorem start_records {c : Catalog} {className : String} (hknown : c.isKnown className = true) :
    (start className).Records c [.listed className] 0 := by
  refine ⟨List.forall_mem_singleton.mpr hknown,
    ⟨fun C => ?named, fun C => ?listed, ?names, ?distinct⟩, start_orderly className,
    start_rooted className⟩
  case named =>
    rw [start_eq]
    by_cases hC : className = C <;> simp [classAlias?, Dictionary.find?, Naming.className, hC]
  case listed =>
    rw [start_eq]
    simp [eq_comm (a := C)]
  case names =>
    intro x hx
    obtain rfl := List.mem_singleton.mp hx
    exact ⟨className, none, rfl, ⟨_, List.mem_singleton.mpr rfl, rfl⟩, by rintro _ ⟨⟩⟩
  case distinct =>
    rw [start_eq]
    simp [classesDeclared, Naming.areFit, Naming.fitsAfter]

end Aliases

/-- What a statement draws from. -/
def Statement.sources : Statement → SourceList
  | select query => query.sources
  | delete deletion => deletion.sources

/-- The sources of a statement are written behind a keyword of their own. -/
theorem Statement.render_sources (s : Statement) :
    ∃ before after, s.render = before ++ "from " ++ s.sources.render ++ after := by
  cases s with
  | select query =>
    obtain ⟨distinct, items, sources, conditions, groupBy, having, orderBy⟩ := query
    have hfrom : " from " = " " ++ "from " := by decide
    refine ⟨"select " ++ ((if distinct then "distinct " else "") ++
      (Text.joinWith ", " (items.map SelectItem.render) ++ " ")), ?_⟩
    apply Exists.intro
    rw [Statement.render, Select.render, hfrom]
    simp only [String.append_assoc]
    rfl
  | delete deletion =>
    have hfrom : "delete from " = "delete " ++ "from " := by decide
    refine ⟨"delete ", clause "where" (conditionsText deletion.conditions), ?_⟩
    rw [Statement.render, Delete.render, hfrom]
    rfl

/-- The statement lists every source of the aliases once, and every join at least once. The aliases
are distinct if the namings fit, and then every join is listed once, too. -/
structure Aliases.Declares (a : Aliases) (ns : List Naming) (s : Statement) : Prop where
  text : ∃ before after, s.render = before ++ "from " ++ a.sourceList.render ++ after
  sources : (a.sourceList.map (·.source)).Perm a.sources
  joins : ∀ j, j ∈ a.sourceList.joins ↔ j ∈ a.joins
  distinct : a.declared.Nodup ↔ Naming.areFit [] ns = true
  once : Naming.areFit [] ns = true → a.sourceList.joins.Perm a.joins

/-- Aliases with a record are declared by the statement that lists them. -/
theorem Aliases.Records.declares {a : Aliases} {c : Catalog} {ns : List Naming} {instances : Nat}
    (h : a.Records c ns instances) (hc : c.Unambiguous) {s : Statement}
    (hs : s.sources = a.sourceList) : a.Declares ns s where
  text := hs ▸ s.render_sources
  sources := a.sources_sourceList
  joins _ := h.mem_joins_sourceList
  distinct := h.nodup_declared fun _ => hc.underscore_not_mem
  once hfit := h.joins_sourceList (h.history.distinct.mpr hfit)

namespace Compiler

variable {k : Compiler} {className : String} {o : QueryOptions}

/-- The aliases that a compilation leaves. -/
def finalAliases {α : Type} (k : Compiler) (className : String) (o : QueryOptions)
    (assemble : Step Draft (Assembled α)) : Aliases :=
  ((do k.restrict o; assemble : Step Draft _).run (.start className 0)).state.aliases

theorem finalAliases_eq {α : Type} {assemble : Step Draft (Assembled α)} {restricted final : Draft}
    {assembled : Assembled α} (hrestrict : (k.restrict o).Yields (.start className 0) () restricted)
    (hassemble : assemble.Yields restricted assembled final) :
    k.finalAliases className o assemble = final.aliases :=
  congrArg Draft.aliases (Step.yields_bind.mpr ⟨(), restricted, hrestrict, hassemble⟩).2

/-- The restrictions of a query make its namings. -/
theorem restrict_records (hk : k.catalog.Distinct) (hknown : k.catalog.isKnown className = true)
    {restricted : Draft} (h : (k.restrict o).Yields (.start className 0) () restricted) :
    restricted.Records k (o.namings className) := by
  have hstart := Aliases.start_records (c := k.catalog) hknown
  obtain ⟨_, d, hmodify, h₁⟩ := Step.yields_bind.mp h
  obtain rfl := Step.yields_modify.mp hmodify
  unfold QueryOptions.namings
  split at h₁
  · rename_i f hf
    obtain ⟨condition, u, hemit, -, rfl⟩ := Draft.visit_yields h₁
    rw [hf]
    exact (Draft.adds_emit hk f _ _ _ _ hemit hstart).1
  · rename_i hnone
    obtain ⟨-, rfl⟩ := Step.yields_pure.mp h₁
    rw [hnone]
    exact hstart

/-- A query is compiled to a statement that declares the aliases of its run. -/
theorem run_declares {c : Catalog} (hc : c.Unambiguous) (hk : k.registry.Covers c) {α : Type}
    {assemble : Step Draft (Assembled α)} {statement : α → Statement} {q : CompiledQuery}
    (hassemble : ∀ {ns d assembled e}, assemble.Yields d assembled e → d.Records k ns →
      e.Records k ns ∧ (statement assembled.statement).sources = e.aliases.sourceList)
    (h : (k.run className o assemble statement).value = .ok q) :
    (k.finalAliases className o assemble).Declares (o.namings className) q.statement := by
  have hcatalog : k.catalog = c := hk.catalog
  obtain ⟨m, hmapped⟩ := run_mapped h
  have hknown : k.catalog.isKnown className = true := by
    rw [hcatalog]
    exact hk.known className m hmapped
  obtain ⟨restricted, assembled, final, hrestrict, hyields, rfl⟩ := run_ok h
  have hrecords := restrict_records (by rw [hcatalog]; exact hc.isDistinct) hknown hrestrict
  obtain ⟨hfinal, hsources⟩ := hassemble hyields hrecords
  rw [finalAliases_eq hrestrict hyields]
  exact Aliases.Records.declares hfinal (by rwa [hcatalog]) hsources

/-- Compiled queries and deletions over an unambiguous catalog declare the aliases of their run. -/
theorem compile_declares {c : Catalog} (hc : c.Unambiguous) (capabilities : DatabaseCapabilities)
    (className : String) (o : QueryOptions) :
    let k : Compiler := { registry := (Registry.build c).value, capabilities }
    (∀ q, (k.compile className o).value = .ok q →
      (k.finalAliases className o (Draft.assembleSelect k (selectSpec o))).Declares
        (o.namings className) q.statement) ∧
    (∀ q, (k.compileDelete className o).value = .ok q →
      (k.finalAliases className o Draft.assembleDelete).Declares
        (o.namings className) q.statement) := by
  have hcovers := Registry.covers_build c
  refine ⟨fun q h => run_declares hc hcovers ?_ h, fun q h => run_declares hc hcovers ?_ h⟩
  · exact Draft.assembleSelect_records
  · exact Draft.assembleDelete_records

/-- Identities and the applications that are called like them. -/
def identitiesAndApplications : Catalog :=
  { entities :=
      [{ name := "Identity", table := "spt_identity"
         properties := [{ name := "name" }, { name := "firstname" }] },
       { name := "Application", table := "spt_application", properties := [{ name := "name" }] }] }

/-- Applications that are joined by either name. -/
def joinedTwice : QueryOptions :=
  { restrictions :=
      [.join .leftJoin "name" "Application.name", .join .leftJoin "firstname" "Application.name"] }

/-- Two outer joins with a class share an alias. -/
theorem compile_declares_joinedTwice :
    identitiesAndApplications.Unambiguous ∧
      let k := ofCatalog identitiesAndApplications
      ∃ q, (k.compile "Identity" joinedTwice).value = .ok q ∧
        q.text = "select identityAlias from Identity identityAlias left outer join Application " ++
          "applicationAlias on identityAlias.name = applicationAlias.name left outer join " ++
          "Application applicationAlias on identityAlias.firstname = applicationAlias.name" ∧
        ¬(k.finalAliases "Identity" joinedTwice
          (Draft.assembleSelect k (selectSpec joinedTwice))).declared.Nodup := by
  have hc : identitiesAndApplications.Unambiguous := by decide +kernel
  refine ⟨hc, ?_⟩
  intro k
  have htext : (k.compile "Identity" joinedTwice).value.toOption.map (·.text) =
      some ("select identityAlias from Identity identityAlias left outer join Application " ++
        "applicationAlias on identityAlias.name = applicationAlias.name left outer join " ++
        "Application applicationAlias on identityAlias.firstname = applicationAlias.name") := by
    decide +kernel
  cases hq : (k.compile "Identity" joinedTwice).value with
  | error e =>
    rw [hq] at htext
    cases htext
  | ok q =>
    rw [hq] at htext
    have hdeclares :=
      (compile_declares hc (Capabilities.ofBackend .postgres) "Identity" joinedTwice).1 q hq
    exact ⟨q, rfl, Option.some.inj htext, mt hdeclares.distinct.mp (by decide +kernel)⟩

end Compiler

end ObjectQuery
