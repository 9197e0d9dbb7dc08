import ObjectQuery.Proofs.Compiler.Run
import ObjectQuery.Proofs.Emission.Parts
import ObjectQuery.Proofs.Exclusion.NestedSelects

/-!
# Owners that are excluded by back references

The negated part of a condition on a collection's elements excludes owners: the elements that its
positive form accepts refer back to them. The property of the elements that does so is declared with
the collection, and the collection is the one that the path is taken for in the innermost scope.

* `Draft.Excludes`: how the owners of a collection are excluded.
* `Draft.excluding_excludes`: a negated part excludes the owners of the collection that is looked
  up.
* `Draft.emitCondition_excludes`: that is the collection of the plain part, for paths that name a
  property of the innermost scope.
-/

namespace ObjectQuery

open Step

namespace Draft

variable {k : Compiler} {d : Draft}

/-- From the draft `d` the step `x` excludes the owners of a collection by the elements that a
filter accepts. Without a back reference it fails. With one it is a select of the back reference
over the elements, and fails only if their class is not mapped or the select itself fails, which is
up to the filter if the back reference is a property. -/
structure Excludes (k : Compiler) (m : Collection) (f : Filter) (x : Emission) (d : Draft) :
    Prop where
  missing : k.catalog.inverse? m.ownerClass m.property = none →
    x.Fails d (.missingBackReference m.ownerClass m.property)
  unmapped : ∀ {target inverse}, m.RefersBack k.catalog target inverse →
    k.registry.find? target = none → x.Fails d (.metadataNotFound target)
  selects : ∀ {target inverse}, m.RefersBack k.catalog target inverse →
    (k.registry.find? target).isSome = true →
    (∃ query e, (nestedSelect k inverse (emit k f)).Yields (.start target d.nextParameter) query e ∧
      (Path.IsProperty k.catalog target inverse → query.statement.Gives target inverse) ∧
      x.Yields d (some (.atom (.inSelect (.ofAlias m.ownerAlias) true query.statement)))
        { d with parameters := d.parameters ++ e.parameters }) ∨
    ∃ err, (nestedSelect k inverse (emit k f)).Fails (.start target d.nextParameter) err ∧
      (Path.IsProperty k.catalog target inverse →
        (emit k f).Fails (.start target d.nextParameter) err ∨
        ∃ condition u, (emit k f).Yields (.start target d.nextParameter) condition u ∧
          u.having ≠ [] ∧ err = .ungroupedAggregate) ∧
      x.Fails d err

/-- With a back reference, what the negated part emits is its select. -/
theorem excluding_goesOn {path : String} {m : Collection} (h : d.aliases.written? path = some m)
    {target inverse : String} (hback : m.RefersBack k.catalog target inverse) (body : Emission) :
    (excluding k path body).GoesOn d
      (inSelect k (.ofAlias m.ownerAlias) true target inverse body) d := by
  have hinverse := Collection.inverse?_eq_some.mpr ⟨target, hback⟩
  have htarget : (k.catalog.property? m.ownerClass m.property).bind (·.kind.target) =
      some target := by
    obtain ⟨p, hp, hkind⟩ := hback
    rw [hp, Option.bind_some, hkind]
    rfl
  obtain ⟨aliasName, halias, rfl⟩ := Option.map_eq_some_iff.mp h
  unfold excluding
  refine (GoesOn.get _ d).trans ?_
  refine (Yields.goesOn (yields_ofReported.mpr ⟨rfl, rfl⟩)).trans ?_
  refine (Yields.goesOn (yields_orFail.mpr ⟨hinverse, rfl⟩)).trans ?_
  refine (Yields.goesOn (yields_ofReported.mpr ⟨rfl, rfl⟩)).trans ?_
  refine (Yields.goesOn (yields_orFail.mpr ⟨htarget, rfl⟩)).trans ?_
  exact Yields.goesOn (yields_orFail.mpr ⟨halias, rfl⟩)

/-- The negated part excludes the owners of the collection that its path is taken for. -/
theorem excluding_excludes {path : String} {m : Collection} (h : d.aliases.written? path = some m)
    (f : Filter) : Excludes k m f (excluding k path (emit k f)) d where
  missing hinverse := by
    obtain ⟨aliasName, halias, rfl⟩ := Option.map_eq_some_iff.mp h
    unfold excluding
    refine (GoesOn.get _ d).fails ?_
    refine Yields.bind_fails (yields_ofReported.mpr ⟨rfl, rfl⟩) (Fails.bind ?_)
    show Fails (orFail _ (k.catalog.inverse? _ _)) d _
    rw [hinverse]
    rfl
  unmapped hback hunmapped := by
    refine (excluding_goesOn h hback _).fails (inSelect_fails ?_)
    rw [Registry.get, hunmapped]
  selects {target inverse} hback hmapped := by
    obtain ⟨mapping, hmapping⟩ := Option.isSome_iff_exists.mp hmapped
    have hget : k.registry.get target = .ok mapping := by rw [Registry.get, hmapping]
    have hgoes := excluding_goesOn h hback (emit k f)
    obtain ⟨query, e, hquery, hyields⟩ | ⟨err, hfails, hfails'⟩ := inSelect_course (d := d) hget
    · exact .inl ⟨query, e, hquery, fun hi => (nestedSelect_of_isProperty hi).1 query e hquery,
        hgoes.yields hyields⟩
    · exact .inr ⟨err, hfails, fun hi => (nestedSelect_of_isProperty hi).2 err hfails,
        hgoes.fails hfails'⟩

/-! ## Both parts of a condition -/

/-- The plain part of a condition, in the scope of the collection's elements. -/
def plainPart (k : Compiler) (property : String) (c : Composite) : Emission :=
  match c.split.1 with
  | some part => inScope k property (c.operation == .or && 1 < c.children.length)
      (emit k (.composite part))
  | none => pure none

theorem steady_plainPart (k : Compiler) (property : String) (c : Composite) :
    Steady (plainPart k property c) := by
  unfold plainPart
  split
  · exact (continues k).inScope _ _ (steady_emit k _)
  · exact .pure none

/-- The negated part is emitted behind the plain one. -/
theorem emit_of_negated {t : Test} {c positive : Composite} {subfilter : Option Filter}
    (hcondition : t.operation = .collectionCondition) (hpositive : c.split.2 = some positive) :
    emit k (.leaf ⟨t, some c, subfilter⟩) = withTheta (namesClass t.property) (do
      let kept ← plainPart k t.property c
      let excluded ← excluding k t.property (emit k (.composite positive))
      pure (joinParts (c.operation == .or) kept excluded)) := by
  rw [emit, emitLeaf, hcondition]
  dsimp only
  rw [emitCondition_eq, plainPart]
  rcases hsplit : c.split with ⟨plain, negated⟩
  rw [hsplit] at hpositive
  cases hpositive
  cases plain <;> rfl

/-- A path that opens the scope of a collection's elements leads to a collection, and the negated
part of the condition excludes its owners if the path names a property of the innermost scope. In
general it excludes the owners of the collection that the path is taken for there. What becomes of
the negated part becomes of the whole condition. -/
theorem emitCondition_excludes (t : Test) (c : Composite) (subfilter : Option Filter)
    {positive : Composite} {joinType : JoinType} {aliasName : String} {b : Aliases}
    (hcondition : t.operation = .collectionCondition) (hclass : namesClass t.property = false)
    (hpositive : c.split.2 = some positive)
    (hpush : (Aliases.pushCollection k.catalog t.property joinType).Yields d.aliases aliasName b) :
    ∃ m target inverse, b.JoinsLast k.catalog m target inverse ∧
      ∀ kept u, (plainPart k t.property c).Yields { d with inTheta := false } kept u →
        let x := excluding k t.property (emit k (.composite positive))
        let whole := emit k (.leaf ⟨t, some c, subfilter⟩)
        (∀ name, d.aliases.Names k.catalog name t.property →
          Excludes k m (.composite positive) x u) ∧
        (∀ n, d.aliases.written? t.property = some n → Excludes k n (.composite positive) x u) ∧
        (∀ excluded e, x.Yields u excluded e →
          whole.Yields d (joinParts (c.operation == .or) kept excluded)
            { e with inTheta := d.inTheta }) ∧
        ∀ err, x.Fails u err → whole.Fails d err := by
  obtain ⟨hne, m, target, inverse, hlast, hsingle⟩ := Aliases.pushCollection_joinsLast hpush
  refine ⟨m, target, inverse, hlast, fun kept u hkept => ?_⟩
  intro x whole
  have hexcludes (n : Collection) (hn : d.aliases.written? t.property = some n) :
      Excludes k n (.composite positive) x u := by
    have hresumes : Resumes { d with inTheta := false } u :=
      (steady_plainPart k t.property c).yields hkept (Aliases.scopes_ne_nil_of_written hn)
    exact excluding_excludes ((hresumes.aliases.written _).trans hn) _
  have hwhole : whole = withTheta false (do
      let kept ← plainPart k t.property c
      let excluded ← x
      pure (joinParts (c.operation == .or) kept excluded)) :=
    hclass ▸ emit_of_negated hcondition hpositive
  refine ⟨fun name hname => hexcludes m (hname.written hclass hsingle hne), hexcludes,
    fun excluded e hx => ?_, fun err hx => ?_⟩
  · rw [hwhole]
    refine yields_restoring.mpr ⟨e, hkept.goesOn.yields ?_, rfl⟩
    exact hx.goesOn.yields (yields_pure.mpr ⟨rfl, rfl⟩)
  · rw [hwhole]
    have hfails := hkept.bind_fails (f := fun kept => do
      let excluded ← x
      pure (joinParts (c.operation == .or) kept excluded)) hx.bind
    exact hfails

/-- A condition on links of which none is called jdoe. -/
def noneCalled : Composite := ⟨.and, [.compare .ne "nativeIdentity" (.text "jdoe")]⟩

/-- Identities without such a link are found by the back reference of the links. Those whose manager
has none are not, though the links of the manager can be joined. -/
theorem emitCondition_excludes_noneCalled :
    let k := Compiler.linkedAccounts
    let d := Draft.start "Identity" 0
    let on := fun path => ({ property := path, operation := .collectionCondition } : Test)
    d.aliases.Names k.catalog "links" "Identity.links" ∧
      (∃ query e, (emit k (.leaf ⟨on "Identity.links", some noneCalled, none⟩)).Yields d
        (some (.atom (.inSelect (.ofAlias "identityAlias") true query))) e ∧
        query.Gives "Link" "identity") ∧
      (∃ aliasName b, (Aliases.pushCollection k.catalog "manager.links" .inner).Yields d.aliases
        aliasName b) ∧
      (emit k (.leaf ⟨on "manager.links", some noneCalled, none⟩)).Fails d
        (.missingBackReference "Identity" "manager.links") := by
  intro k d on
  have hpush (path : String) (h : ((Aliases.pushCollection k.catalog path .inner).run
      d.aliases).result.toOption.isSome = true) : ∃ aliasName b,
      (Aliases.pushCollection k.catalog path .inner).Yields d.aliases aliasName b := by
    obtain hyields | ⟨err, hfails⟩ := yields_or_fails
      (Aliases.pushCollection k.catalog path .inner) d.aliases
    · exact hyields
    · exact (not_fails_of_isSome h err hfails).elim
  obtain ⟨_, _, hlinks⟩ := hpush "Identity.links" (by decide +kernel)
  obtain ⟨_, _, hmanager⟩ := hpush "manager.links" (by decide +kernel)
  refine ⟨.behindClass (by decide) (by decide +kernel) rfl rfl, ?_, ⟨_, _, hmanager⟩, ?_⟩
  · obtain ⟨_, _, _, -, hparts⟩ := emitCondition_excludes (on "Identity.links") noneCalled none rfl
      (by decide) rfl hlinks
    obtain ⟨-, hexcludes, hwhole, -⟩ := hparts none { d with inTheta := false } ⟨rfl, rfl⟩
    have hselects := (hexcludes ⟨"Identity", "links", "identityAlias"⟩ (by decide +kernel)).selects
      ⟨_, rfl, rfl⟩ (by decide +kernel)
    obtain ⟨query, e, -, hgives, hyields⟩ | ⟨err, hfails, -⟩ := hselects
    · refine ⟨query.statement, _, hwhole _ _ hyields, hgives ?_⟩
      exact { noBracket := by decide, notRows := by decide
              first := ⟨"identity", by decide, by decide +kernel, by decide⟩
              noPoint := by decide, single := by decide }
    · exact (not_fails_of_isSome (by decide +kernel) err hfails).elim
  · obtain ⟨_, _, _, -, hparts⟩ := emitCondition_excludes (on "manager.links") noneCalled none rfl
      (by decide) rfl hmanager
    obtain ⟨-, hexcludes, -, hwhole⟩ := hparts none { d with inTheta := false } ⟨rfl, rfl⟩
    have hmissing := (hexcludes ⟨"Identity", "manager.links", "identityAlias"⟩
      (by decide +kernel)).missing (by decide +kernel)
    exact hwhole _ hmissing

end Draft

end ObjectQuery
