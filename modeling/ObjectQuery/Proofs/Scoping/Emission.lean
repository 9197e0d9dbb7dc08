import ObjectQuery.Proofs.Emission.Parts
import ObjectQuery.Proofs.Filter.Induction
import ObjectQuery.Proofs.Scoping.Leaves

/-!
# The aliases that a filter refers to

A nested select is compiled in a draft of its own, and everything else in the draft whose sources
are listed at the end.

* `Draft.assembleSelect_sound`: a sound draft is assembled to a select that declares what it refers
  to.
* `Draft.Refers.inSelect`, `Draft.Refers.inScope`, ...: the rules for nested filters.
* `Draft.refers_emit`, `Draft.visit_sound`: what filters emit refers to declared aliases.
-/

namespace ObjectQuery

namespace Draft

variable {k : Compiler} {d e : Draft}

namespace Refers

/-! ## Assembling -/

theorem resolveClause (path : String) (outer : Bool) :
    Refers k Refers.Reference (Draft.resolveClause k path outer) := by
  refine of_aliases (steady_resolveClause k _ _) fun hx ha => ?_
  obtain ⟨a, hr, rfl⟩ := aliased_found_yields (fun _ => rfl) (by simp) hx
  obtain ⟨hb, hdeclared⟩ := ha.resolve hr
  exact ⟨a, rfl, hb, reference_of_found hdeclared⟩

/-- The alias of the query class is declared. -/
theorem get : Refers k (fun D d => d.aliases.rootAlias ∈ D) (Step.get : Step Draft Draft) := by
  intro d a e hx hd
  obtain ⟨rfl, rfl⟩ := Step.yields_get.mp hx
  exact ⟨hd, .refl _, hd.aliases.rootAlias⟩

theorem orderTerms (orderings : List SortKey) :
    Refers k (fun D terms => terms.flatMap (fun t : OrderTerm => t.reference.aliasNames) ⊆ D)
      (Draft.orderTerms k orderings) := by
  induction orderings with
  | nil => exact pure List.nil_subset
  | cons o rest ih =>
    refine (resolveClause _ _).bind Rising.reference fun _ => ih.bind (Rising.subset _)
      fun _ => pure fun D hrest hr => ?_
    rw [List.flatMap_cons]
    exact List.append_subset.mpr ⟨hr, hrest⟩

theorem selectItem (distinct : Bool) (column : String) :
    Refers k (fun D item => item.aliasNames ⊆ D) (Draft.selectItem k distinct column) := by
  unfold Draft.selectItem
  split
  · exact get.bind (fun hD h => hD h) fun _ => pure fun _ hroot =>
      List.cons_subset.mpr ⟨hroot, List.nil_subset _⟩
  · exact (resolveClause _ _).bind Rising.reference fun _ => pure fun _ hr => hr

theorem selectList (distinct : Bool) (columns : List String) :
    Refers k (fun D items => items.flatMap SelectItem.aliasNames ⊆ D)
      (Draft.selectList k distinct columns) := by
  have hitems : Refers k (fun D items => items.flatMap SelectItem.aliasNames ⊆ D)
      (Draft.selectItems k distinct columns) := by
    induction columns with
    | nil => exact pure List.nil_subset
    | cons column rest ih =>
      refine (selectItem _ _).bind (Rising.subset _) fun _ => ih.bind (Rising.subset _)
        fun _ => pure fun D hrest hitem => ?_
      rw [List.flatMap_cons]
      exact List.append_subset.mpr ⟨hitem, hrest⟩
  unfold Draft.selectList
  split
  · exact get.bind (fun hD h => hD h) fun _ => pure fun _ hroot =>
      List.cons_subset.mpr ⟨hroot, List.nil_subset _⟩
  · exact hitems

theorem groupTerms (properties : List String) :
    Refers k (fun D references => references.flatMap Reference.aliasNames ⊆ D)
      (Draft.groupTerms k properties) := by
  induction properties with
  | nil => exact pure List.nil_subset
  | cons property rest ih =>
    refine (resolveClause _ _).bind Rising.reference fun _ => ih.bind (Rising.subset _)
      fun _ => pure fun D hrest hr => ?_
    rw [List.flatMap_cons]
    exact List.append_subset.mpr ⟨hr, hrest⟩

end Refers

/-- Conditions within the declared aliases refer to aliases that the sources list. -/
theorem Sound.conditions_subset (h : d.Sound k) :
    d.conditions.flatMap Condition.aliasNames ⊆ d.aliases.declared := by
  intro x hx
  obtain ⟨c, hc, hx⟩ := List.mem_flatMap.mp hx
  exact (h.conditions c hc).aliasNames hx

theorem Sound.having_subset (h : d.Sound k) :
    d.having.flatMap (·.elim [] Condition.aliasNames) ⊆ d.aliases.declared := by
  intro x hx
  obtain ⟨g, hg, hx⟩ := List.mem_flatMap.mp hx
  cases g with
  | none => exact absurd hx List.not_mem_nil
  | some c => exact (h.having _ hg c rfl).aliasNames hx

theorem Sound.selects (h : d.Sound k) :
    (∀ s ∈ conditionSelects d.conditions, s.Sound k) ∧
      ∀ s ∈ groupSelects d.having, s.Sound k := by
  rw [conditionSelects_eq, groupSelects_eq]
  refine ⟨fun s hs => ?_, fun s hs => ?_⟩
  · obtain ⟨c, hc, hs⟩ := List.mem_flatMap.mp hs
    exact (h.conditions c hc).selects s hs
  · obtain ⟨g, hg, hs⟩ := List.mem_flatMap.mp hs
    cases g with
    | none => exact absurd hs List.not_mem_nil
    | some c => exact (h.having _ hg c rfl).selects s hs

/-- A sound draft is assembled to a select that declares what it refers to. -/
theorem assembleSelect_sound {spec : SelectSpec} {assembled : Assembled Select}
    (h : (assembleSelect k spec).Yields d assembled e) (hd : d.Sound k) :
    e.aliases.Sound ∧ assembled.statement.Scoped ∧
      (∀ s ∈ assembled.statement.nested, s.Sound k) ∧
      assembled.statement.sources = e.aliases.sourceList := by
  have h₁ := Step.yields_get_bind.mp h
  split at h₁
  · exact (Step.yields_fail.mp h₁).elim
  · obtain ⟨orderBy, u, horder, h₂⟩ := Step.yields_bind.mp h₁
    obtain ⟨items, v, hselect, h₃⟩ := Step.yields_bind.mp h₂
    obtain ⟨groupBy, w, hgroup, h₄⟩ := Step.yields_bind.mp h₃
    have h₅ := Step.yields_get_bind.mp h₄
    obtain ⟨rfl, rfl⟩ := Step.yields_pure.mp h₅
    obtain ⟨hu, -, hordered⟩ := Refers.orderTerms _ _ _ _ horder hd
    obtain ⟨hv, hgrows, hitems⟩ := Refers.selectList _ _ _ _ _ hselect hu
    obtain ⟨hw, hgrows', hgrouped⟩ := Refers.groupTerms _ _ _ _ hgroup hv
    have hdeclared := hw.aliases.declared_sourceList
    have hselects := hw.selects
    refine ⟨hw.aliases, ⟨List.Subset.trans ?_ hdeclared, hw.aliases.inOrder⟩,
      List.forall_mem_append.mpr hselects, rfl⟩
    refine List.append_subset.mpr ⟨List.append_subset.mpr ⟨List.append_subset.mpr
      ⟨List.append_subset.mpr ⟨List.append_subset.mpr ⟨?_, ?_⟩, ?_⟩, ?_⟩, ?_⟩, ?_⟩
    · exact List.Subset.trans hitems hgrows'.aliases.declared
    · exact hw.aliases.mentioned_sourceList
    · exact hw.conditions_subset
    · exact hgrouped
    · exact hw.having_subset
    · exact List.Subset.trans hordered
        (List.Subset.trans hgrows.aliases.declared hgrows'.aliases.declared)

/-! ## Nested filters -/

/-- What a filter emits, if there is one. -/
def emitAny (k : Compiler) (filter : Option Filter) : Emission :=
  filter.elim (pure none) (emit k)

/-- To visit a filter is to add what it emits. -/
theorem visitAny_yields {filter : Option Filter} {c : Option Condition}
    (h : (emitAny k filter).Yields d c e) : (visitAny k filter).Yields d () (e.addCondition c) := by
  cases filter with
  | none =>
    obtain ⟨rfl, rfl⟩ := Step.yields_pure.mp h
    exact Step.yields_pure.mpr ⟨rfl, by rw [addCondition]; simp⟩
  | some f =>
    exact Step.yields_onFailure.mpr (Step.yields_bind.mpr ⟨c, e, h, Step.yields_modify.mpr rfl⟩)

theorem Sound.addCondition (h : e.Sound k) {c : Option Condition}
    (hc : Refers.Clause k e.aliases.declared c) : (e.addCondition c).Sound k :=
  ⟨h.aliases, List.forall_mem_append.mpr ⟨h.conditions, fun x hx => hc x (Option.mem_toList.mp hx)⟩,
    h.having⟩

namespace Refers

/-- A nested select is compiled in a draft of its own. -/
theorem inSelect {filter : Option Filter} (hx : Refers k (Clause k) (emitAny k filter))
    {reference : ObjectQuery.Reference} (negated : Bool) (className column : String) :
    Refers k (fun D c => Reference D reference → Clause k D c)
      (Draft.inSelect k reference negated className column (emitAny k filter)) := by
  intro d c e h hd
  have hresumes : d.Resumes e :=
    ((continues k).inSelect _ _ _ _).yields h hd.aliases.rooted.scopes
  obtain ⟨condition, u, query, v, hemit, hassemble, rfl, rfl⟩ := inSelect_yields h
  obtain ⟨hu, -, hcondition⟩ := hx _ _ _ hemit (.start className d.nextParameter)
  obtain ⟨hv, hscoped, hnested, hsources⟩ :=
    assembleSelect_sound hassemble (hu.addCondition hcondition)
  refine ⟨⟨hd.aliases, hd.conditions, hd.having⟩, hresumes, fun hreference => ?_⟩
  rintro _ ⟨⟩
  refine ⟨hreference, List.forall_mem_cons.mpr ⟨⟨hscoped, ?_⟩, hnested⟩⟩
  refine ⟨className, d.nextParameter, filter, _, query, v,
    Step.yields_bind.mpr ⟨(), _, visitAny_yields hemit, hassemble⟩, rfl, fun j => ?_⟩
  rw [hsources]
  exact Aliases.mem_joins_sourceList hv.orderly hv.rooted

theorem subquery (t : Test) (filter : Option Filter) (hx : Refers k (Clause k) (emitAny k filter)) :
    Refers k (Clause k) (Draft.subquery k t (emitAny k filter)) := by
  unfold Draft.subquery
  split
  · exact routed _ ((resolve _ _).bind Rising.reference fun _ =>
      (inSelect hx _ _ _).mono fun _ _ h => h)
  · exact test t

/-- The owners that are excluded go through the alias of the innermost scope. -/
theorem excluding (property : String) (filter : Option Filter)
    (hx : Refers k (Clause k) (emitAny k filter)) :
    Refers k (Clause k) (Draft.excluding k property (emitAny k filter)) := by
  intro d c e h hd
  obtain ⟨inverse, _, element, aliasName, -, -, -, halias, h'⟩ := excluding_yields h
  obtain ⟨he, hresumes, hc⟩ := inSelect hx _ _ _ _ _ _ h' hd
  refine ⟨he, hresumes, hc (List.cons_subset.mpr ⟨?_, List.nil_subset _⟩)⟩
  exact hresumes.aliases.declared (hd.aliases.currentAlias aliasName halias)

theorem withTheta (theta : Bool) {x : Emission} (hx : Refers k (Clause k) x) :
    Refers k (Clause k) (Draft.withTheta theta x) := by
  intro d c e h hd
  obtain ⟨u, hu, rfl⟩ := Step.yields_restoring.mp h
  obtain ⟨he, hresumes, hc⟩ := hx _ _ _ hu ⟨hd.aliases, hd.conditions, hd.having⟩
  exact ⟨⟨he.aliases, he.conditions, he.having⟩, ⟨hresumes.aliases, hresumes.firstParameter,
    hresumes.inHaving, rfl, hresumes.autoIgnoreCase, hresumes.conditions, hresumes.having,
    hresumes.parameters⟩, hc⟩

/-- What is emitted in a scope of its own stays within the declared aliases when it is closed. -/
theorem inScope (property : String) (outer : Bool) {x : Emission} (hx : Refers k (Clause k) x) :
    Refers k (Clause k) (Draft.inScope k property outer x) := by
  intro d c e h hd
  obtain ⟨a, u, hpush, hu, rfl⟩ := inScope_yields h
  obtain ⟨hopens, ha⟩ : d.aliases.Opens a ∧ a.Sound := by
    refine ⟨hpush.opens, ?_⟩
    cases hpush with
    | theta => exact hd.aliases.pushTheta
    | collection _ hcollection => exact hd.aliases.pushCollection hcollection
  have hopened : d.aliases.declared ⊆ a.declared := by
    obtain ⟨v, scope, hv, rfl⟩ := hopens
    exact hv.declared
  obtain ⟨he, hresumes, hc⟩ := hx _ _ _ hu (hd.withAliases ha hopened)
  have hback := hopens.pop hresumes.aliases hd.aliases.rooted.scopes
  have hsame := u.aliases.declared_pop
  refine ⟨he.withAliases (he.aliases.pop hopens hresumes.aliases hd.aliases.rooted.scopes)
    (hsame ▸ List.Subset.refl _), ?_, fun x hx => (hc x hx).mono (hsame ▸ List.Subset.refl _)⟩
  exact ⟨hback, hresumes.firstParameter, hresumes.inHaving, hresumes.inTheta,
    hresumes.autoIgnoreCase, hresumes.conditions, hresumes.having, hresumes.parameters⟩

/-! ## The recursion -/

theorem emitEach {fs : List Filter} (h : ∀ f ∈ fs, Refers k (Clause k) (Draft.emit k f)) :
    Refers k (Clauses k) (Draft.emitEach k .all fs) := by
  induction fs with
  | nil => exact pure fun _ _ hc => absurd hc List.not_mem_nil
  | cons f rest ih =>
    obtain ⟨hf, hrest⟩ := List.forall_mem_cons.mp h
    rw [emitEach_cons]
    exact together hf (ih hrest)

theorem emitComposite {c : Composite} (h : ∀ f ∈ c.children, Refers k (Clause k) (Draft.emit k f)) :
    Refers k (Clause k) (Draft.emit k (.composite c)) := by
  obtain ⟨operation, children⟩ := c
  exact composite ⟨operation, children⟩ (emitEach h)

/-- The plain part of a condition is emitted in a scope, the negated one in a nested select. -/
theorem emitParts {property : String} {outer disjunctive : Bool} {c : Composite}
    (h : ∀ f ∈ c.children,
      Refers k (Clause k) (Draft.emit k f) ∧ Refers k (Clause k) (Draft.emit k f.invert)) :
    Refers k (Clause k) (Draft.emitParts k property outer disjunctive c.split) := by
  intro d condition e hx hd
  obtain ⟨kept, u, excluded, rfl, hkept, hexcluded⟩ := emitParts_yields hx
  have hplain : u.Sound k ∧ d.Resumes u ∧ Clause k u.aliases.declared kept := by
    obtain ⟨-, rfl, rfl⟩ | ⟨part, hpart, hkept⟩ := hkept
    · exact ⟨hd, .refl _, by rintro _ ⟨⟩⟩
    · exact inScope _ _ (emitComposite fun f hf => (h f ((Composite.split_plain hpart).2 f hf)).1)
        _ _ _ hkept hd
  obtain ⟨hu, hresumes, hkept⟩ := hplain
  have hnegated : e.Sound k ∧ u.Resumes e ∧ Clause k e.aliases.declared excluded := by
    obtain ⟨-, rfl, rfl⟩ | ⟨part, hpart, hexcluded⟩ := hexcluded
    · exact ⟨hu, .refl _, by rintro _ ⟨⟩⟩
    · refine excluding property (some (.composite part)) (emitComposite fun f hf => ?_)
        _ _ _ hexcluded hu
      obtain ⟨g, hg, rfl | rfl⟩ := Composite.split_negated hpart f hf
      · exact (h f hg).1
      · exact (h g hg).2
  obtain ⟨he, hresumes', hexcluded⟩ := hnegated
  refine ⟨he, hresumes.trans hresumes', ?_⟩
  have hkept := Rising.clause hresumes'.aliases.declared hkept
  rcases kept with _ | a <;> rcases excluded with _ | b
  · rintro _ ⟨⟩
  · exact hexcluded
  · exact hkept
  · rintro _ ⟨⟩
    exact .group (List.forall_mem_cons.mpr ⟨hkept a rfl, List.forall_mem_singleton.mpr
      (hexcluded b rfl)⟩)

/-- A leaf without other filters. -/
theorem emitLeaf (t : Test) : Refers k (Clause k) (Draft.emitLeaf k ⟨t, none, none⟩) := by
  rw [Draft.emitLeaf]
  split
  · exact test t
  · exact subquery t none (pure fun _ => by rintro _ ⟨⟩)
  · exact test t

end Refers

/-- What a filter emits refers to declared aliases, and so does what its positive form emits. -/
theorem refers_emit_both (k : Compiler) (f : Filter) :
    Refers k (Refers.Clause k) (emit k f) ∧ Refers k (Refers.Clause k) (emit k f.invert) := by
  induction f using Filter.induction with
  | leaf t condition subfilter ihc ihs =>
    have hleaf : Refers k (Refers.Clause k) (emitLeaf k ⟨t, condition, subfilter⟩) := by
      rw [emitLeaf]
      split
      · cases condition with
        | none => exact .test t
        | some c =>
          rw [emitCondition_eq]
          exact .withTheta _ (.emitParts (ihc c rfl))
      · cases subfilter with
        | none => exact .subquery t none (.pure fun _ => by rintro _ ⟨⟩)
        | some f => exact .subquery t (some f) (ihs f rfl).1
      · exact .test t
    refine ⟨hleaf, ?_⟩
    rw [Filter.invert, Filter.invertLeaf, emit]
    split
    · exact .emitLeaf _
    · exact hleaf
  | composite operation children ih =>
    have hchildren := fun f hf => (ih f hf).1
    refine ⟨.emitComposite hchildren, ?_⟩
    rcases children with _ | ⟨only, _ | ⟨second, rest⟩⟩
    · exact .emitComposite (c := ⟨.and, []⟩) hchildren
    · exact hchildren only (List.mem_singleton.mpr rfl)
    · exact .emitComposite (c := ⟨.and, only :: second :: rest⟩) hchildren

theorem refers_emit (k : Compiler) (f : Filter) : Refers k (Refers.Clause k) (emit k f) :=
  (refers_emit_both k f).1

/-- A filter that is visited leaves a sound draft. -/
theorem visit_sound {f : Filter} (h : (visit k f).Yields d () e) (hd : d.Sound k) : e.Sound k := by
  obtain ⟨c, u, hemit, h₁⟩ := Step.yields_bind.mp (Step.yields_onFailure.mp h)
  obtain rfl := Step.yields_modify.mp h₁
  obtain ⟨hu, -, hc⟩ := refers_emit k f _ _ _ hemit hd
  exact hu.addCondition hc

end Draft

end ObjectQuery
