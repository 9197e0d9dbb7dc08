import ObjectQuery.Proofs.Compiler.Run
import ObjectQuery.Proofs.Qualified.Predicates

/-!
# Compiling filters with the name of the query class in front of properties

* `Draft.Concurs.emit`: both ways of writing a filter emit the same at home.
* `Compiler.run_eq_ok_iff`: when a query is compiled, in terms of the runs of its steps.
* `Compiler.compileFilter_qualify`: both ways of writing a filter compile to the same query.
-/

namespace ObjectQuery

open Step

namespace Draft

variable {k : Compiler} {C : String} {f g : Filter}

namespace Concurs

/-- A filter without conditions on classes leads home. -/
theorem emit_self (hf : f.IsThetaFree) : Concurs C (Draft.emit k f) (Draft.emit k f) :=
  .refl (AtHome.kept (steady_emit k f) ((Reflects.namingRules k).emit f) (hf.not_mem_namings C))

theorem emitEach {fs gs : List Filter}
    (h : List.Forall₂ (fun f g => Concurs C (Draft.emit k g) (Draft.emit k f)) fs gs) :
    Concurs C (Draft.emitEach k .all gs) (Draft.emitEach k .all fs) := by
  induction h with
  | nil => exact .pure []
  | cons hf _ ih =>
    rw [emitEach_cons, emitEach_cons]
    exact together hf ih

/-- Both ways of writing a filter emit the same. -/
theorem emit (hhome : Home k C) (h : Filter.Qualified k.catalog C f g) (hf : f.IsThetaFree) :
    Concurs C (Draft.emit k g) (Draft.emit k f) := by
  induction f using Filter.induction generalizing g with
  | leaf t condition subfilter =>
    cases h with
    | same => exact emit_self hf
    | leaf _ _ h =>
      obtain ⟨-, hcondition, -⟩ := Filter.tests_leaf.mp hf
      have hoperation := congrArg Test.operation h.eq
      rw [Draft.emit, Draft.emit, emitLeaf, emitLeaf, hoperation]
      dsimp only
      split
      · exact emitCondition hhome h fun c hc part hpart =>
          Filter.IsThetaFree.not_mem_namings_plain (hcondition c hc) hpart C
      · cases subfilter with
        | none => exact subquery hhome h _
        | some f => exact subquery hhome h _
      · exact test hhome h
  | composite operation children ih =>
    obtain ⟨children', rfl, hchildren⟩ := h.composite_left
    refine composite (Filter.Qualified.routedAlike hhome.qualifier operation hchildren)
      (emitEach (Filter.Qualified.each (fun f hmem g hfg => ?_) hchildren))
    exact ih f hmem hfg (Filter.tests_composite.mp hf f hmem)

theorem visit (hhome : Home k C) (h : Filter.Qualified k.catalog C f g) (hf : f.IsThetaFree) :
    Concurs C (Draft.visit k g) (Draft.visit k f) :=
  .onFailure (.bind (emit hhome h hf) fun _ => .modify fun _ hd => hd.same rfl rfl rfl)

end Concurs

end Draft

namespace Compiler

variable {k : Compiler} {C : String} {o : QueryOptions} {f g : Filter}

/-- A query is compiled just if its class is mapped and its steps succeed, whose values and state it
is made of. -/
theorem run_eq_ok_iff {α : Type} {assemble : Step Draft (Assembled α)} {statement : α → Statement}
    {q : CompiledQuery} :
    (k.run C o assemble statement).value = .ok q ↔ (∃ m, k.registry.find? C = some m) ∧
      ∃ assembled final, (do k.restrict o; assemble : Step Draft _).Yields (.start C 0) assembled final ∧
        q = { statement := statement assembled.statement
              parameters := final.parameters
              requiresDistinctFilter := assembled.requiresDistinctFilter
              spansMultipleTables := assembled.spansMultipleTables } := by
  constructor
  · intro h
    obtain ⟨restricted, assembled, final, hrestrict, hassemble, hq⟩ := run_ok h
    exact ⟨run_mapped h, assembled, final, yields_bind.mpr ⟨(), restricted, hrestrict, hassemble⟩, hq⟩
  · rintro ⟨⟨m, hfind⟩, assembled, final, ⟨hresult, rfl⟩, rfl⟩
    unfold run Registry.get
    rw [hfind]
    dsimp only
    rw [hresult]
    rfl

/-- The restriction by a filter alone. -/
theorem restrict_qualified (hhome : Draft.Home k C) (h : Filter.Qualified k.catalog C f g)
    (hf : f.IsThetaFree) :
    Draft.Concurs C (k.restrict { restrictions := [g] }) (k.restrict { restrictions := [f] }) := by
  refine .bind (.modify fun _ hd => hd.same rfl rfl rfl) fun _ => ?_
  refine Draft.Concurs.visit hhome h.foldDoubleNegation.reorder.optimize ?_
  exact QueryOptions.tests_prepare Filter.inherited_thetaFree (o := { restrictions := [f] }) rfl
    (List.forall_mem_singleton.mpr hf)

/-- A filter may be written with the name of the query class in front of the properties of any of
its leaves. -/
theorem compileFilter_qualify (c : Catalog) (capabilities : DatabaseCapabilities)
    (hclass : Path.IsQualifier C) (hf : f.IsThetaFree) (h : Filter.Qualified c C f g) :
    let k : Compiler := { registry := (Registry.build c).value, capabilities }
    (k.compileFilter C g).value.toOption = (k.compileFilter C f).value.toOption := by
  intro k
  have hcatalog : k.catalog = c := (Registry.covers_build c).catalog
  rw [← hcatalog] at h
  have hsame : ∀ q, (k.compileFilter C g).value = .ok q ↔ (k.compileFilter C f).value = .ok q := by
    intro q
    rw [compileFilter, compileFilter, compile, compile, run_eq_ok_iff, run_eq_ok_iff]
    refine and_congr_right fun ⟨m, hfind⟩ => ?_
    have hdescribes : m.Describes k.catalog C := by
      rw [hcatalog]
      exact Registry.describes_build c C m hfind
    have hrestrict := restrict_qualified ⟨hclass, m, hfind, hdescribes⟩ h hf
    have hruns := hrestrict.bind fun _ => .same (Draft.assembleSelect k (selectSpec {}))
    exact exists_congr fun assembled => exists_congr fun final => and_congr_left fun _ =>
      (hruns (.start C 0) assembled final).1
  cases hg : (k.compileFilter C g).value with
  | ok q => rw [(hsame q).mp hg]
  | error e =>
    cases hf : (k.compileFilter C f).value with
    | ok q =>
      rw [(hsame q).mpr hf] at hg
      cases hg
    | error e' => rfl

/-- Identities with their managers and links. -/
def identitiesWithLinks : Catalog :=
  { entities :=
      [{ name := "Identity", table := "spt_identity"
         properties :=
           [{ name := "name" }, { name := "manager", kind := .manyToOne "Identity" },
            { name := "links", kind := .oneToMany "Link" (some "identity") }] },
       { name := "Link", table := "spt_link"
         properties :=
           [{ name := "application" }, { name := "identity", kind := .manyToOne "Identity" }] }] }

/-- A name, the name of the manager, and an application of a link. -/
def linkedNames (name manager links : String) : Filter :=
  .and [.compare .eq name (.text "a"), .compare .ne manager (.text "b"),
    .collectionCondition links (.compare .eq "application" (.text "c"))]

/-- The first and the last leaf are written with the name of the class, the second one without. -/
theorem compileFilter_qualify_linkedNames :
    let c := identitiesWithLinks
    let k := ofCatalog c
    let f := linkedNames "name" "manager.name" "links"
    let g := linkedNames "Identity.name" "manager.name" "Identity.links"
    Path.IsQualifier "Identity" ∧ f.IsThetaFree ∧ Filter.Qualified c "Identity" f g ∧
      (k.compileFilter "Identity" g).value.toOption =
        (k.compileFilter "Identity" f).value.toOption ∧
      (k.compileFilter "Identity" f).value.toOption.map (·.text) =
        some ("select identityAlias from Identity identityAlias inner join identityAlias.manager " ++
          "identity_managerAlias0 inner join identityAlias.links identity_linksAlias0 where " ++
          "(identityAlias.name = :param0 and upper(identity_managerAlias0.name) != :param1 " ++
          "and (identity_linksAlias0.application = :param2))") := by
  intro c k f g
  have hclass : Path.IsQualifier "Identity" := ⟨by decide, by decide, by decide⟩
  have hf : f.IsThetaFree := by unfold Filter.IsThetaFree; decide
  have hname : Path.IsOwn c "Identity" "name" :=
    ⟨by decide, by decide, "name", by decide, by decide, by decide⟩
  have hlinks : Path.IsOwn c "Identity" "links" :=
    ⟨by decide, by decide, "links", by decide, by decide, by decide⟩
  have hqualified : Filter.Qualified c "Identity" f g :=
    .composite .and (.cons (.leaf none none ⟨hname, rfl⟩) (.cons (.same _)
      (.cons (.leaf _ none ⟨hlinks, rfl⟩) .nil)))
  exact ⟨hclass, hf, hqualified, compileFilter_qualify c _ hclass hf hqualified, by decide +kernel⟩

/-- A class with a bracket in its name. -/
def bracketedClass : Catalog :=
  { entities := [{ name := "F(", table := "f", properties := [{ name := "name" }] }] }

/-- A class whose name is declared by the last one of 32 superclasses. -/
def deepChain : Catalog :=
  { entities := (List.range 33).map fun i =>
      { name := String.ofList (List.replicate (i + 1) 'C')
        table := "c"
        isAbstract := 0 < i
        superclass := if i < 32 then some (String.ofList (List.replicate (i + 2) 'C')) else none
        properties := if i < 32 then [] else [{ name := "name" }] } }

/-- With a bracket in its name, the class makes an aggregate of a property. A superclass that is too
far away declares the property for none of the lookups, and a convention about names applies to one
of the two ways of writing it. -/
theorem compileFilter_qualify_limits :
    let k := ofCatalog
    let text (c : Catalog) (className property : String) :=
      ((k c).compileFilter className (.compare .eq property (.text "a"))).value.toOption.map
        (·.text)
    (Text.startsUpper "F(" = true ∧ Text.hasChar '.' "F(" = false ∧
      (bracketedClass.property? "F(" "name").isSome = true ∧
      text bracketedClass "F(" "name" =
        some "select f(Alias from F( f(Alias where f(Alias.name = :param0" ∧
      text bracketedClass "F(" "F(.name" = none) ∧
    Text.startsUpper "C" = true ∧ Text.hasChar '.' "C" = false ∧
      (deepChain.chain 33 (deepChain.entity? "C")).any
        (fun e => (e.ownProperty? "name").isSome) = true ∧
      text deepChain "C" "name" = some "select cAlias from C cAlias where cAlias.name = :param0" ∧
      text deepChain "C" "C.name" =
        some "select cAlias from C cAlias where upper(cAlias.name) = :param0" := by
  decide +kernel

end Compiler

end ObjectQuery
