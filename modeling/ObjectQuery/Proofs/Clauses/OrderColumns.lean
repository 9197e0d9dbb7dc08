import Mathlib.Data.List.Forall2
import ObjectQuery.Proofs.Clauses.Joins
import ObjectQuery.Proofs.Emission.Clauses
import ObjectQuery.Proofs.InnerJoins.Compilation
import ObjectQuery.Proofs.Paths.Again
import ObjectQuery.Proofs.Step.Failures

/-!
# Selects without duplicates

A store accepts a select without duplicates only if it selects what it orders by. Its projection is
therefore extended by the properties of the order. Each of them has been resolved for the order
before, so it is resolved to the same reference for the projection.

* `SelectSpec.mem_projection`: a projection without duplicates holds the properties of the order.
* `Draft.resolveClause_again`: a path of a clause is resolved to the same reference again.
* `Select.render_eq`: where the select list and the order stand in the text of a select.
* `Draft.assembleSelect_distinct`: when a select carries the keyword, and what it selects then.
* `Draft.assembleSelect_unselected`: where the order is not selected although the keyword is there.
-/

namespace ObjectQuery

open Step

namespace SelectSpec

/-- Whether the projection is a single count of distinct values. -/
def countsOnly (s : SelectSpec) : Bool :=
  match s.columns with
  | [only] => countsDistinct only
  | _ => false

theorem mem_addOrderColumns_of_mem {column : String} (orderings : List SortKey) :
    ∀ columns : List String, column ∈ columns → column ∈ addOrderColumns columns orderings := by
  induction orderings with
  | nil => exact fun columns hcolumn => hcolumn
  | cons o rest ih =>
    intro columns hcolumn
    refine ih _ ?_
    split
    · exact hcolumn
    · exact List.mem_append_left _ hcolumn

theorem property_mem_addOrderColumns {orderings : List SortKey} {o : SortKey} (ho : o ∈ orderings)
    (columns : List String) : o.property ∈ addOrderColumns columns orderings := by
  induction orderings generalizing columns with
  | nil => cases ho
  | cons first rest ih =>
    rcases List.mem_cons.mp ho with rfl | ho
    · refine mem_addOrderColumns_of_mem rest _ ?_
      split
      · rename_i hcontains
        exact List.contains_iff_mem.mp hcontains
      · exact List.mem_append_right _ (List.mem_singleton_self _)
    · exact ih ho _

/-- A projection without duplicates holds the properties of the order, unless it is a single count
of distinct values. -/
theorem mem_projection {s : SelectSpec} (hdistinct : s.distinct = true) (hcolumns : s.columns ≠ [])
    (hcounts : s.countsOnly = false) {o : SortKey} (ho : o ∈ s.orderings) :
    o.property ∈ s.projection := by
  unfold projection
  rw [if_neg (by simp [hdistinct, hcolumns])]
  unfold countsOnly at hcounts
  split
  · rename_i only hsingle
    rw [hsingle] at hcounts
    rw [if_neg (ne_true_of_eq_false hcounts)]
    exact property_mem_addOrderColumns ho _
  · exact property_mem_addOrderColumns ho _

theorem projection_ne_nil {s : SelectSpec} (hcolumns : s.columns ≠ []) : s.projection ≠ [] := by
  obtain ⟨column, hcolumn⟩ := List.exists_mem_of_ne_nil _ hcolumns
  have hextended : column ∈ addOrderColumns s.columns s.orderings :=
    mem_addOrderColumns_of_mem _ _ hcolumn
  unfold projection
  split
  · exact hcolumns
  · split
    · split
      · exact hcolumns
      · exact List.ne_nil_of_mem hextended
    · exact List.ne_nil_of_mem hextended

theorem projection_of_countsOnly {s : SelectSpec} (hcounts : s.countsOnly = true) :
    s.projection = s.columns ∧ s.columns.length = 1 := by
  unfold countsOnly at hcounts
  split at hcounts
  · rename_i only hsingle
    rw [projection, hsingle]
    simp [hcounts]
  · cases hcounts

end SelectSpec

namespace Draft

variable {k : Compiler} {d e u : Draft} {path : String} {outer outer' : Bool} {r : Reference}

/-! ## Paths of clauses -/

/-- The paths of clauses forget nothing. -/
theorem recalls_clauseRules (k : Compiler) : ClauseRules k fun _ x =>
    ∀ d a e, x.Yields d a e → d.aliases.Recalls e.aliases where
  pure a d b e h := by
    obtain ⟨-, rfl⟩ := yields_pure.mp h
    exact .refl _
  bind hx hf d b e h := by
    obtain ⟨a, u, hxa, hfa⟩ := yields_bind.mp h
    exact (hx d a u hxa).trans (hf a u b e hfa)
  get d b e h := by
    obtain ⟨-, rfl⟩ := yields_get.mp h
    exact .refl _
  resolveClause path outer d r e h := by
    obtain ⟨a, ha, rfl⟩ := aliased_found_yields (fun _ => rfl) (by simp) h
    exact (Aliases.recalls_walk.resolve path _).yields ha

/-- A path of a clause is resolved to the same reference again, whatever joins it asks for. -/
theorem resolveClause_again (hd : d.aliases.scopes ≠ [])
    (h : (resolveClause k path outer).Yields d r e) (hu : e.aliases.Recalls u.aliases) :
    (resolveClause k path outer').Yields u r u := by
  obtain ⟨a, ha, rfl⟩ := aliased_found_yields (fun _ => rfl) (by simp) h
  have hagain : Aliases.Again (Aliases.resolve k.catalog path { outer })
      (Aliases.resolve k.catalog path { outer := outer' }) := by
    refine Aliases.resolve_again ?_ ?_ ?_ path <;> rfl
  have haliased : (aliased (Aliases.resolve k.catalog path { outer := outer' })).Yields u
      (some r) u := aliased_yields.mpr ⟨_, hagain.yields hd ha hu, rfl⟩
  unfold resolveClause
  exact yields_bind.mpr ⟨some r, u, haliased, yields_pure.mpr ⟨rfl, rfl⟩⟩

/-- The path has been resolved to the reference, and the joins made for it are still known. -/
def Settled (k : Compiler) (path : String) (r : Reference) (u : Draft) : Prop :=
  ∀ v outer, u.aliases.Recalls v.aliases → (resolveClause k path outer).Yields v r v

/-- The term has the direction of the ordering, and the reference that its property is resolved to
from then on. -/
structure Orders (k : Compiler) (u : Draft) (o : SortKey) (t : OrderTerm) : Prop where
  upper : t.upper = (o.ignoreCase && !k.capabilities.caseInsensitive)
  ascending : t.ascending = o.ascending
  settled : Settled k o.property t.reference u

theorem Orders.expression_eq {o : SortKey} {t : OrderTerm} (h : Orders k u o t)
    (hcase : o.ignoreCase = true → k.capabilities.caseInsensitive = true) :
    t.expression = t.reference.render := by
  have hplain : t.upper = false := by
    rw [h.upper]
    cases hignore : o.ignoreCase with
    | false => rfl
    | true => rw [hcase hignore]; rfl
  rw [OrderTerm.expression, hplain]
  rfl

theorem orderTerms_orders {orderings : List SortKey} {terms : List OrderTerm}
    (hd : d.aliases.scopes ≠ []) (h : (orderTerms k orderings).Yields d terms e) :
    List.Forall₂ (Orders k e) orderings terms := by
  induction orderings generalizing d terms with
  | nil =>
    obtain ⟨rfl, -⟩ := yields_pure.mp h
    exact .nil
  | cons o rest ih =>
    obtain ⟨r, u, hresolve, h₁⟩ := yields_bind.mp h
    obtain ⟨others, v, hrest, h₂⟩ := yields_bind.mp h₁
    obtain ⟨rfl, rfl⟩ := yields_pure.mp h₂
    have hu : u.aliases.scopes ≠ [] :=
      ((recalls_clauseRules k).resolveClause _ _ _ _ _ hresolve).scopes_ne_nil hd
    have hkept := (recalls_clauseRules k).orderTerms _ _ _ _ hrest
    refine .cons ⟨rfl, rfl, fun w outer hw => ?_⟩ (ih hu hrest)
    exact resolveClause_again hd hresolve (hkept.trans hw)

/-- A select list has an item for each column, and holds their references. -/
theorem selectItems_settled {columns : List String} {distinct : Bool} {items : List SelectItem}
    (h : (selectItems k distinct columns).Yields d items e) :
    items.length = columns.length ∧ ∀ path r, path ∈ columns →
      SelectSpec.countsRows path = false → Settled k path r d → .reference r ∈ items := by
  induction columns generalizing d items with
  | nil =>
    obtain ⟨rfl, -⟩ := yields_pure.mp h
    exact ⟨rfl, fun path r hpath => by cases hpath⟩
  | cons column rest ih =>
    obtain ⟨item, u, hitem, h₁⟩ := yields_bind.mp h
    obtain ⟨others, v, hrest, h₂⟩ := yields_bind.mp h₁
    obtain ⟨rfl, rfl⟩ := yields_pure.mp h₂
    obtain ⟨hlength, hothers⟩ := ih hrest
    have hkept := (recalls_clauseRules k).selectItem _ _ _ _ _ hitem
    refine ⟨congrArg (· + 1) hlength, fun path r hpath hrows hsettled => ?_⟩
    rcases List.mem_cons.mp hpath with rfl | hpath
    · rw [selectItem_of_not_countsRows hrows] at hitem
      obtain ⟨r', w, hresolve, h₃⟩ := yields_bind.mp hitem
      obtain ⟨rfl, rfl⟩ := yields_pure.mp h₃
      obtain rfl : r' = r := by
        have hr := (hsettled d (!SelectSpec.countsDistinct path) (.refl _)).1
        rw [hresolve.1] at hr
        exact Except.ok.inj hr
      exact List.mem_cons_self
    · exact List.mem_cons_of_mem _
        (hothers path r hpath hrows fun w outer hw => hsettled w outer (hkept.trans hw))

/-- What a select orders by is selected where the properties of the order are columns, as far as the
order neither puts a property into upper case nor counts rows. -/
theorem selectItems_ordered {columns : List String} {distinct : Bool} {items : List SelectItem}
    {orderings : List SortKey} {terms : List OrderTerm}
    (h : (selectItems k distinct columns).Yields d items e)
    (hterms : List.Forall₂ (Orders k d) orderings terms)
    (hmem : ∀ o ∈ orderings, o.property ∈ columns) :
    List.Forall₂ (fun o t => t.ascending = o.ascending ∧
      ((o.ignoreCase = true → k.capabilities.caseInsensitive = true) →
        SelectSpec.countsRows o.property = false →
        t.expression ∈ items.map SelectItem.render)) orderings terms := by
  refine ((List.forall₂_and_left _ _).mpr ⟨hmem, hterms⟩).imp ?_
  rintro o t ⟨hcolumn, horders⟩
  refine ⟨horders.ascending, fun hcase hrows => ?_⟩
  have hselected : .reference t.reference ∈ items :=
    (selectItems_settled h).2 _ _ hcolumn hrows horders.settled
  exact List.mem_map.mpr ⟨_, hselected, (horders.expression_eq hcase).symm⟩

end Draft

/-! ## Texts of selects -/

namespace Select

/-- The text of the select list. -/
def listText (s : Select) : String := Text.joinWith ", " (s.items.map SelectItem.render)

/-- The text of the order, with its keyword. -/
def orderText (s : Select) : String :=
  if s.orderBy.isEmpty then ""
  else " order by " ++ Text.joinWith ", " (s.orderBy.map OrderTerm.render)

/-- The select list stands behind the keywords, and the order at the end. -/
theorem render_eq (s : Select) :
    ∃ middle, s.render = "select " ++ (if s.distinct then "distinct " else "") ++ s.listText ++
      " from " ++ middle ++ s.orderText := by
  obtain ⟨distinct, items, sources, conditions, groupBy, having, orderBy⟩ := s
  refine ⟨sources.render ++ clause "where" (Text.joinWith "" (renderConditions conditions)) ++
    (if groupBy.isEmpty then ""
      else " group by " ++ Text.joinWith ", " (groupBy.map Reference.render) ++
        clause "having" (Text.joinWith " and " (renderGroups having))), ?_⟩
  rw [Select.render, listText, orderText]
  simp only [String.append_assoc]

end Select

namespace Draft

variable {k : Compiler} {d e : Draft}

/-- A select with a projection that asks for no duplicates carries the keyword if its projection
allows it, and asks for a filter of duplicates otherwise. Where it carries the keyword, what it
orders by is selected literally, as far as the order neither puts a property into upper case nor
counts rows; a single count of distinct values is selected alone. -/
theorem assembleSelect_distinct {spec : SelectSpec} {assembled : Assembled Select}
    (hscopes : d.aliases.scopes ≠ []) (hcolumns : spec.columns ≠ [])
    (hdistinct : spec.distinct = true) (h : (assembleSelect k spec).Yields d assembled e) :
    let s := assembled.statement
    (k.capabilities.canUseDistinct spec.projection = true ∧
      assembled.requiresDistinctFilter = false ∧
      (∃ middle, s.render =
        "select distinct " ++ s.listText ++ " from " ++ middle ++ s.orderText) ∧
      (spec.countsOnly = true → s.items.length = 1) ∧
      (spec.countsOnly = false → List.Forall₂ (fun o t => t.ascending = o.ascending ∧
        ((o.ignoreCase = true → k.capabilities.caseInsensitive = true) →
          SelectSpec.countsRows o.property = false →
          t.expression ∈ s.items.map SelectItem.render)) spec.orderings s.orderBy)) ∨
    (k.capabilities.canUseDistinct spec.projection = false ∧
      assembled.requiresDistinctFilter = true ∧
      ∃ middle, s.render = "select " ++ s.listText ++ " from " ++ middle ++ s.orderText) := by
  have h₁ := yields_get_bind.mp h
  split at h₁
  · exact (yields_fail.mp h₁).elim
  · obtain ⟨orderBy, u, horder, h₂⟩ := yields_bind.mp h₁
    obtain ⟨items, v, hselect, h₃⟩ := yields_bind.mp h₂
    obtain ⟨groupBy, w, hgroup, h₄⟩ := yields_bind.mp h₃
    have h₅ := yields_get_bind.mp h₄
    obtain ⟨rfl, rfl⟩ := yields_pure.mp h₅
    dsimp only
    rw [hdistinct, Bool.true_and] at hselect ⊢
    cases husable : k.capabilities.canUseDistinct spec.projection with
    | false => exact .inr ⟨rfl, rfl, Select.render_eq _⟩
    | true =>
      have hlist : (selectItems k true spec.projection).Yields u items v := by
        have hprojection : spec.projection ≠ [] := SelectSpec.projection_ne_nil hcolumns
        rw [husable, selectList, if_neg (by simp [hprojection])] at hselect
        exact hselect
      refine .inl ⟨rfl, rfl, Select.render_eq _, fun hcounts => ?_, fun hcounts => ?_⟩
      · obtain ⟨hsame, hone⟩ := SelectSpec.projection_of_countsOnly hcounts
        rw [(selectItems_settled hlist).1, hsame, hone]
      · exact selectItems_ordered hlist (orderTerms_orders hscopes horder)
          fun o => SelectSpec.mem_projection hdistinct hcolumns hcounts

/-- The names of the managers of identities, by the name of the identity and then by the last
name of the manager, highest first. -/
def managerNames : SelectSpec :=
  { columns := ["manager.name"]
    distinct := true
    orderings := [{ property := "name" }, { property := "manager.lastname", ascending := false }] }

/-- Both properties of the order are selected as well. -/
theorem assembleSelect_distinct_managerNames :
    ∃ assembled e, (assembleSelect Compiler.linkedAccounts managerNames).Yields
        (.start "Identity" 0) assembled e ∧
      assembled.statement.render =
        "select distinct identity_managerAlias0.name, identityAlias.name, " ++
          "identity_managerAlias0.lastname from Identity identityAlias left outer join " ++
          "identityAlias.manager identity_managerAlias0 order by identityAlias.name, " ++
          "identity_managerAlias0.lastname desc" ∧
      List.Forall₂ (fun o t => t.ascending = o.ascending ∧
          t.expression ∈ assembled.statement.items.map SelectItem.render)
        managerNames.orderings assembled.statement.orderBy := by
  have htext : ((assembleSelect Compiler.linkedAccounts managerNames).run
      (.start "Identity" 0)).result.toOption.map (·.statement.render) =
        some ("select distinct identity_managerAlias0.name, identityAlias.name, " ++
          "identity_managerAlias0.lastname from Identity identityAlias left outer join " ++
          "identityAlias.manager identity_managerAlias0 order by identityAlias.name, " ++
          "identity_managerAlias0.lastname desc") := by
    decide +kernel
  obtain ⟨assembled, hresult, hrender⟩ := Option.map_eq_some_iff.mp htext
  have hyields := yields_of_toOption hresult
  refine ⟨assembled, _, hyields, hrender, ?_⟩
  have hplain : ∀ o ∈ managerNames.orderings,
      o.ignoreCase = false ∧ SelectSpec.countsRows o.property = false := by decide +kernel
  obtain ⟨-, -, -, -, hlists⟩ | ⟨hunusable, -⟩ :=
    assembleSelect_distinct (by decide) (by decide) rfl hyields
  · refine ((List.forall₂_and_left _ _).mpr ⟨hplain, hlists (by decide +kernel)⟩).imp ?_
    rintro o t ⟨⟨hcase, hrows⟩, hascending, hselected⟩
    exact ⟨hascending, hselected (by simp [hcase]) hrows⟩
  · exact absurd hunusable (by decide +kernel)

/-- The select that is assembled for identities has a text that says that it is without duplicates,
and orders by an expression that it does not select. -/
def OrdersUnselected (spec : SelectSpec) (text : String) : Prop :=
  ∃ assembled e, (assembleSelect Compiler.linkedAccounts spec).Yields (.start "Identity" 0)
      assembled e ∧
    assembled.statement.render = "select distinct " ++ text ∧
    ∃ t ∈ assembled.statement.orderBy,
      t.expression ∉ assembled.statement.items.map SelectItem.render

theorem ordersUnselected_of_run {spec : SelectSpec} {text : String} (items : List String)
    (term : String)
    (h : ((assembleSelect Compiler.linkedAccounts spec).run
      (.start "Identity" 0)).result.toOption.map (fun assembled =>
        (assembled.statement.render, assembled.statement.items.map SelectItem.render,
          assembled.statement.orderBy.map OrderTerm.expression)) =
      some ("select distinct " ++ text, items, [term]))
    (hterm : term ∉ items) : OrdersUnselected spec text := by
  obtain ⟨assembled, hresult, hshown⟩ := Option.map_eq_some_iff.mp h
  obtain ⟨hrender, hshown⟩ := Prod.mk.inj hshown
  obtain ⟨hitems, horder⟩ := Prod.mk.inj hshown
  obtain ⟨t, horder, hexpression⟩ := List.map_eq_singleton_iff.mp horder
  refine ⟨assembled, _, yields_of_toOption hresult, hrender, t, ?_, ?_⟩
  · rw [horder]
    exact List.mem_singleton_self t
  · rwa [hexpression, hitems]

/-- A single count of distinct values is selected alone, what is put into upper case is selected as it
is, and a count of rows is selected as a count of entities. None of them is what the select orders
by. -/
theorem assembleSelect_unselected :
    OrdersUnselected
        { columns := ["count(distinct manager.name)"], distinct := true,
          orderings := [{ property := "name" }] }
        ("count(distinct identity_managerAlias0.name) from Identity identityAlias inner join " ++
          "identityAlias.manager identity_managerAlias0 order by identityAlias.name") ∧
      OrdersUnselected
        { columns := ["name"], distinct := true,
          orderings := [{ property := "name", ignoreCase := true }] }
        "identityAlias.name from Identity identityAlias order by upper(identityAlias.name)" ∧
      OrdersUnselected
        { columns := ["name"], groupBy := ["name"], distinct := true,
          orderings := [{ property := "count(*)" }] }
        ("identityAlias.name, count(distinct identityAlias) from Identity identityAlias " ++
          "group by identityAlias.name order by count(*)") := by
  exact ⟨ordersUnselected_of_run ["count(distinct identity_managerAlias0.name)"]
      "identityAlias.name" (by decide +kernel) (by decide),
    ordersUnselected_of_run ["identityAlias.name"] "upper(identityAlias.name)" (by decide +kernel)
      (by decide),
    ordersUnselected_of_run ["identityAlias.name", "count(distinct identityAlias)"] "count(*)"
      (by decide +kernel) (by decide)⟩

end Draft

end ObjectQuery
