import ObjectQuery.Proofs.Parameters.Aliases
import ObjectQuery.Proofs.Parameters.Rendering

/-!
# Assembling statements without colons

Projection, grouping and order bring no parameters into a statement, only names of the query.

* `SelectSpec.Plain`: the names of a select's shape have no colons.
* `Draft.assembleSelect_plain`: the select that a draft without colons becomes has none, and holds
  the parameters of the draft's clauses.
-/

namespace ObjectQuery

open Text Step

/-- The names of a select's shape have no colons. -/
structure SelectSpec.Plain (s : SelectSpec) : Prop where
  columns : ∀ column ∈ s.columns, ColonFree column
  orderings : ∀ o ∈ s.orderings, ColonFree o.property
  groupBy : ∀ property ∈ s.groupBy, ColonFree property

theorem SelectSpec.colonFree_addOrderColumns {columns : List String} {orderings : List SortKey}
    (hcolumns : ∀ column ∈ columns, ColonFree column)
    (horderings : ∀ o ∈ orderings, ColonFree o.property) :
    ∀ column ∈ addOrderColumns columns orderings, ColonFree column := by
  induction orderings generalizing columns with
  | nil => exact hcolumns
  | cons o rest ih =>
    obtain ⟨ho, hrest⟩ := List.forall_mem_cons.mp horderings
    refine ih ?_ hrest
    split
    · exact hcolumns
    · exact List.forall_mem_append.mpr ⟨hcolumns, List.forall_mem_singleton.mpr ho⟩

theorem SelectSpec.Plain.projection {s : SelectSpec} (h : s.Plain) :
    ∀ column ∈ s.projection, ColonFree column := by
  have hordered := colonFree_addOrderColumns h.columns h.orderings
  unfold SelectSpec.projection
  split
  · exact h.columns
  · split
    · split
      · exact h.columns
      · exact hordered
    · exact hordered

namespace Draft

variable {k : Compiler} {d : Draft}

/-- The drafts that differ from another in their aliases only, which have no colons. -/
def Realiased (d e : Draft) : Prop := ∃ a : Aliases, a.Plain ∧ e = d.withAliases a

theorem Realiased.refl (hd : d.aliases.Plain) : d.Realiased d := ⟨d.aliases, hd, rfl⟩

theorem Realiased.plain {e : Draft} (h : d.Realiased e) : e.aliases.Plain := by
  obtain ⟨a, ha, rfl⟩ := h
  exact ha

theorem maintains_aliased {α : Type} {P : α → Prop} {x : Step Aliases α} (hx : Aliases.Keeps P x) :
    Maintains d.Realiased P (aliased x) := by
  rintro _ r e h ⟨a, ha, rfl⟩
  obtain ⟨b, hb, rfl⟩ := aliased_yields.mp h
  obtain ⟨hplain, hr⟩ := hx a r b hb ha
  exact ⟨⟨b, hplain, rfl⟩, hr⟩

theorem maintains_resolveClause {path : String} (h : ColonFree path) (outer : Bool) :
    Maintains d.Realiased (fun r => ColonFree r.render) (resolveClause k path outer) := by
  refine (maintains_aliased (Aliases.keeps_resolve h _)).bind fun r hr => ?_
  split
  · exact Maintains.pure (hr _ rfl)
  · exact Maintains.get.bind fun _ _ => Maintains.fail _

theorem maintains_orderTerms {orderings : List SortKey}
    (h : ∀ o ∈ orderings, ColonFree o.property) :
    Maintains d.Realiased (fun terms => ∀ t ∈ terms, ColonFree t.render)
      (orderTerms k orderings) := by
  induction orderings with
  | nil => exact Maintains.pure (by simp)
  | cons o rest ih =>
    obtain ⟨ho, hrest⟩ := List.forall_mem_cons.mp h
    refine (maintains_resolveClause ho true).bind fun reference hreference => ?_
    refine (ih hrest).bind fun terms hterms => ?_
    refine Maintains.pure (List.forall_mem_cons.mpr ⟨?_, hterms⟩)
    have hcased := colonFree_cased hreference (o.ignoreCase && !k.capabilities.caseInsensitive)
    unfold OrderTerm.render
    split
    · exact hcased
    · exact colonFree_append.mpr ⟨hcased, by decide⟩

theorem maintains_selectItem (distinct : Bool) {column : String} (h : ColonFree column) :
    Maintains d.Realiased (fun item => ColonFree item.render) (selectItem k distinct column) := by
  unfold selectItem
  split
  · refine Maintains.get.bind fun e he => Maintains.pure ?_
    refine colonFree_append.mpr
      ⟨colonFree_append.mpr ⟨colonFree_append.mpr ⟨by decide, ?_⟩, he.plain.rootAlias⟩, by decide⟩
    split <;> decide
  · exact (maintains_resolveClause h _).bind fun reference hreference => Maintains.pure hreference

theorem maintains_selectList (distinct : Bool) {columns : List String}
    (h : ∀ column ∈ columns, ColonFree column) :
    Maintains d.Realiased (fun items => ∀ item ∈ items, ColonFree item.render)
      (selectList k distinct columns) := by
  have hitems : Maintains d.Realiased (fun items => ∀ item ∈ items, ColonFree item.render)
      (selectItems k distinct columns) := by
    induction columns with
    | nil => exact Maintains.pure (by simp)
    | cons column rest ih =>
      obtain ⟨hcolumn, hrest⟩ := List.forall_mem_cons.mp h
      refine (maintains_selectItem distinct hcolumn).bind fun item hitem => ?_
      refine (ih hrest).bind fun items hitems => ?_
      exact Maintains.pure (List.forall_mem_cons.mpr ⟨hitem, hitems⟩)
  unfold selectList
  split
  · refine Maintains.get.bind fun e he => Maintains.pure ?_
    exact List.forall_mem_singleton.mpr he.plain.rootAlias
  · exact hitems

theorem maintains_groupTerms {properties : List String}
    (h : ∀ property ∈ properties, ColonFree property) :
    Maintains d.Realiased
      (fun references => (∀ r ∈ references, ColonFree r.render) ∧
        references.length = properties.length)
      (groupTerms k properties) := by
  induction properties with
  | nil => exact Maintains.pure (by simp)
  | cons property rest ih =>
    obtain ⟨hproperty, hrest⟩ := List.forall_mem_cons.mp h
    refine (maintains_resolveClause hproperty false).bind fun reference hreference => ?_
    refine (ih hrest).bind fun references hreferences => ?_
    refine Maintains.pure ⟨List.forall_mem_cons.mpr ⟨hreference, hreferences.1⟩, ?_⟩
    rw [List.length_cons, hreferences.2, List.length_cons]

/-- The select of a draft without colons has none either, and holds the parameters of the draft's
clauses: the having clause is only left out where the draft has nothing for it. -/
theorem assembleSelect_plain {spec : SelectSpec} (hspec : spec.Plain) (hd : d.aliases.Plain)
    (hlength : d.conditions.length ≤ 1) (hconditions : PlainConditions d.conditions)
    (hhaving : PlainGroups d.having) {e : Draft} {assembled : Assembled Select}
    (h : (assembleSelect k spec).Yields d assembled e) :
    e.parameters = d.parameters ∧ assembled.statement.Plain ∧
      assembled.statement.numbers = conditionNumbers d.conditions ++ groupNumbers d.having := by
  have h₁ := Step.yields_get_bind.mp h
  split at h₁
  · exact (Step.yields_fail.mp h₁).elim
  · rename_i hungrouped
    obtain ⟨orderBy, u, horder, h₂⟩ := Step.yields_bind.mp h₁
    obtain ⟨hu, horderBy⟩ := maintains_orderTerms hspec.orderings _ _ _ horder (.refl hd)
    obtain ⟨items, v, hselect, h₃⟩ := Step.yields_bind.mp h₂
    obtain ⟨hv, hitems⟩ := maintains_selectList _ hspec.projection _ _ _ hselect hu
    obtain ⟨groupBy, w, hgroup, h₄⟩ := Step.yields_bind.mp h₃
    obtain ⟨hw, hgroupBy, hgrouped⟩ := maintains_groupTerms hspec.groupBy _ _ _ hgroup hv
    have h₅ := Step.yields_get_bind.mp h₄
    obtain ⟨rfl, rfl⟩ := Step.yields_pure.mp h₅
    obtain ⟨a, ha, rfl⟩ := hw
    refine ⟨rfl, ⟨hitems, ha.sourceList, hlength, hconditions, hgroupBy, hhaving, horderBy⟩, ?_⟩
    have hboth : conditionNumbers d.conditions ++
        (if groupBy.isEmpty then [] else groupNumbers d.having) =
        conditionNumbers d.conditions ++ groupNumbers d.having := by
      split
      · rename_i hempty
        rw [List.isEmpty_iff.mp hempty, List.length_nil] at hgrouped
        have hnone : d.having = [] := by
          simpa [List.eq_nil_of_length_eq_zero hgrouped.symm] using hungrouped
        rw [hnone, groupNumbers]
      · rfl
    exact hboth

end Draft

end ObjectQuery
