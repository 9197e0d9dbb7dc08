import ObjectQuery.Proofs.Declarations.Compilation
import ObjectQuery.Proofs.Emission.Clauses
import ObjectQuery.Proofs.Filter.Parts
import ObjectQuery.Proofs.InnerJoins.Trails

/-!
# Inner joins and the rows that they drop

An inner join drops the rows that lack its association. A filter of comparisons gives rise to one
only by a comparison outside all disjunctions, but a comparison in a negated conjunction counts as
such, although its negation leaves a choice like a disjunction.

* `Filter.Comparing`: filters of comparisons with values, with the properties that they compare
  outside disjunctions.
* `Draft.emit_surveyed`: the inner joins that such a filter makes.
* `Compiler.compile_inner_joins`: which inner joins a compiled query has, and when they drop no row
  that its filter accepts.
-/

namespace ObjectQuery

/-- Whether a comparison orders or equates two values. -/
def LogicalOp.isComparison : LogicalOp → Bool
  | eq | ne | lt | gt | le | ge => true
  | _ => false

/-- Whether a test compares a property of a row with a value. -/
def Test.comparesValue (t : Test) : Bool :=
  t.operation.isComparison && !t.value.isNull && !t.isAggregate

namespace Filter

/-- All leaves compare properties with values, and those outside disjunctions compare properties
that meet `S`. -/
inductive Comparing (S : String → Prop) : Bool → Filter → Prop
  | leaf {insideOr : Bool} {l : Leaf} : l.test.comparesValue = true →
      (insideOr = false → S l.test.property) → Comparing S insideOr (.leaf l)
  | composite {insideOr : Bool} {operation : BooleanOp} {children : List Filter} :
      (∀ f ∈ children, Comparing S (insideOr || operation == .or) f) →
      Comparing S insideOr (.composite ⟨operation, children⟩)

namespace Comparing

variable {S : String → Prop} {insideOr : Bool} {operation : BooleanOp} {children : List Filter}
  {f : Filter}

theorem of_composite (h : Comparing S insideOr (.composite ⟨operation, children⟩)) :
    ∀ f ∈ children, Comparing S (insideOr || operation == .or) f := by
  cases h with
  | composite h => exact h

theorem of_or (h : Comparing S insideOr (.composite ⟨.or, children⟩)) :
    ∀ f ∈ children, Comparing S true f := by
  simpa using h.of_composite

/-- The children of other composites stand where these stand. -/
theorem of_ne_or (h : Comparing S insideOr (.composite ⟨operation, children⟩))
    (hne : operation ≠ .or) : ∀ f ∈ children, Comparing S insideOr f := by
  simpa [beq_eq_false_iff_ne.mpr hne] using h.of_composite

theorem of_leaves (f : Filter) : ∀ {insideOr}, (∀ l ∈ f.leaves, l.test.comparesValue = true) →
    (insideOr = false → ∀ t ∈ f.outsideTests, S t.property) → Comparing S insideOr f := by
  induction f using Filter.induction with
  | leaf t condition subfilter =>
    intro insideOr hleaves houtside
    exact .leaf (hleaves _ (List.mem_singleton.mpr rfl))
      fun h => houtside h t (List.mem_singleton.mpr rfl)
  | composite operation children ih =>
    intro insideOr hleaves houtside
    refine .composite fun f hf => ih f hf (fun l hl => hleaves l (mem_leavesOf.mpr ⟨f, hf, hl⟩)) ?_
    intro hinside t ht
    rw [Bool.or_eq_false_iff] at hinside
    have hmem : t ∈ allOutsideTests children := mem_allOutsideTests.mpr ⟨f, hf, ht⟩
    cases operation with
    | or => exact absurd hinside.2 (by decide)
    | and | not => exact houtside hinside.1 t hmem

/-! ## Arrangement -/

theorem map {g : Filter → Filter} {fs : List Filter}
    (ih : ∀ f ∈ fs, Comparing S insideOr f → Comparing S insideOr (g f))
    (h : ∀ f ∈ fs, Comparing S insideOr f) : ∀ f ∈ fs.map g, Comparing S insideOr f :=
  List.forall_mem_map.mpr fun f hf => ih f hf (h f hf)

theorem invertLeaf {l : Leaf} (h : Comparing S insideOr (.leaf l)) :
    Comparing S insideOr (.leaf (invertLeaf l)) := by
  cases h with
  | leaf hvalue hS =>
    unfold Filter.invertLeaf
    split
    · rename_i inverse hinverse
      refine .leaf ?_ hS
      rw [Test.comparesValue, Bool.and_eq_true, Bool.and_eq_true] at hvalue ⊢
      refine ⟨⟨?_, hvalue.1.2⟩, hvalue.2⟩
      have hcomparison := hvalue.1.1
      show inverse.isComparison = true
      revert hinverse hcomparison
      cases l.test.operation <;> rintro ⟨⟩ <;> decide
    · exact .leaf hvalue hS

theorem foldDoubleNegation (f : Filter) :
    ∀ {insideOr}, Comparing S insideOr f → Comparing S insideOr f.foldDoubleNegation := by
  have hnot : ∀ {insideOr children}, Comparing S insideOr (.composite ⟨.not, children⟩) →
      ∀ f ∈ children, Comparing S insideOr f := fun h => h.of_ne_or (by decide)
  induction f using Filter.foldingInduction with
  | leaf l => exact fun h => h
  | double only ih =>
    intro insideOr h
    rw [Filter.foldDoubleNegation]
    have hinner := hnot h _ (List.mem_singleton.mpr rfl)
    exact ih (hnot hinner only (List.mem_singleton.mpr rfl))
  | doubled children hne ih =>
    intro insideOr h
    rw [foldDoubleNegation.eq_3 children hne, foldDoubleNegations_eq]
    have hinner := hnot h _ (List.mem_singleton.mpr rfl)
    refine .composite (map (fun f hf => ih f hf) fun f hf => ?_)
    have hchild := hnot hinner f hf
    rwa [← Bool.or_false insideOr] at hchild
  | negated l =>
    intro insideOr h
    rw [Filter.foldDoubleNegation]
    split
    · exact (hnot h _ (List.mem_singleton.mpr rfl)).invertLeaf
    · exact h
  | other operation children h₁ h₂ h₃ ih =>
    intro insideOr h
    rw [foldDoubleNegation.eq_5 operation children h₁ h₂ h₃, foldDoubleNegations_eq]
    exact .composite (map (fun f hf => ih f hf) h.of_composite)

theorem reorder (f : Filter) : ∀ {insideOr}, Comparing S insideOr f →
    Comparing S insideOr f.reorder := by
  induction f using Filter.induction with
  | leaf t condition subfilter =>
    intro insideOr h
    cases h with
    | leaf hvalue hS => exact .leaf hvalue hS
  | composite operation children ih =>
    intro insideOr h
    rw [Filter.reorder, reorderComposite, reorderAll_eq]
    exact .composite fun f hf =>
      map (fun f hf => ih f hf) h.of_composite f (mem_collectionsLast.mp hf)

theorem optimize (f : Filter) : ∀ {insideOr}, Comparing S insideOr f →
    Comparing S insideOr f.optimize := by
  unfold Filter.optimize
  induction f using Filter.induction with
  | leaf t condition subfilter =>
    intro insideOr h
    cases h with
    | leaf hvalue hS =>
      rw [optimizeWithin]
      split
      · exact .leaf hvalue hS
      · exact .leaf hvalue hS
  | composite operation children ih =>
    intro insideOr h
    rw [optimizeWithin, optimizeComposite, Bool.false_and, if_neg (by decide), optimizeAll_eq]
    exact .composite (map (fun f hf => ih f hf) h.of_composite)

end Comparing

end Filter

namespace Draft

variable {k : Compiler} {className : String} {P : List String → Prop} {S : String → Prop}
  {d e : Draft}

/-! ## Conditions -/

/-- A comparison with a value is emitted under its operator. -/
theorem exists_emitLeaf_eq (k : Compiler) {t : Test} (ht : t.comparesValue = true)
    (condition : Option Composite) (subfilter : Option Filter) :
    t.isAggregate = false ∧
      ∃ operator, emitLeaf k ⟨t, condition, subfilter⟩ = comparison k t t.value operator := by
  rw [Test.comparesValue, Bool.and_eq_true, Bool.and_eq_true, Bool.not_eq_true',
    Bool.not_eq_true'] at ht
  obtain ⟨⟨hcomparison, hvalue⟩, hplain⟩ := ht
  refine ⟨hplain, ?_⟩
  have hequality : ∀ equal, equality k t t.value equal =
      comparison k t t.value (if equal then "=" else "!=") := fun _ =>
    if_neg (by rw [hvalue]; decide)
  rw [emitLeaf, test]
  revert hcomparison
  cases t.operation <;> intro hcomparison
  case eq | ne => exact ⟨_, hequality _⟩
  case lt | gt | le | ge => exact ⟨_, rfl⟩
  all_goals cases hcomparison

/-- A comparison with a value resolves its property. -/
theorem emit_leaf_comparesValue {l : Leaf} {c : Option Condition}
    (hl : l.test.comparesValue = true) (h : (emit k (.leaf l)).Yields d c e) :
    ∃ r, (Aliases.resolve k.catalog l.test.property {}).Yields d.aliases (some r) e.aliases := by
  obtain ⟨t, condition, subfilter⟩ := l
  obtain ⟨hplain, operator, heq⟩ := exists_emitLeaf_eq k hl condition subfilter
  rw [emit, heq] at h
  obtain h₁ | ⟨haggregate, -⟩ := routed_yields h
  · obtain ⟨a, u, hcompared, h₂⟩ := Step.yields_bind.mp h₁
    obtain ⟨-, rfl⟩ := predicate_yields.mp h₂
    obtain ⟨_, r, a, hresolve, -, rfl⟩ := plainComparison_yields hcompared
    exact ⟨r, hresolve⟩
  · rw [hplain] at haggregate
    cases haggregate

/-- Where the mark of disjunctions meets `T`, the step keeps the aliases surveyed and the mark as it
was. -/
def Surveys {α : Type} (className : String) (P : List String → Prop) (T : Bool → Prop)
    (x : Step Draft α) : Prop :=
  ∀ ⦃d a e⦄, x.Yields d a e → T d.aliases.insideOr → d.aliases.Surveyed className P →
    e.aliases.Surveyed className P ∧ e.aliases.insideOr = d.aliases.insideOr

namespace Surveys

/-- A comparison outside disjunctions makes inner joins along its property, and any other one makes
outer joins. -/
theorem leaf (hP : ∀ path, S path → ∀ association,
      association <+: Path.route k.catalog path → P association) (l : Leaf) :
    Surveys className P (Filter.Comparing S · (.leaf l)) (emit k (.leaf l)) := by
  intro d c e h hl hd
  cases hl with
  | leaf hvalue hS =>
    obtain ⟨r, hresolve⟩ := emit_leaf_comparesValue hvalue h
    refine ⟨hd.resolve (fun hinner => hP _ (hS ?_)) hresolve,
      (Aliases.resumes_walk.resolve _ _).yields hresolve |>.insideOr⟩
    cases hinside : d.aliases.insideOr with
    | false => rfl
    | true =>
      rw [Aliases.joinTypeFor, hinside] at hinner
      cases hinner

theorem emitEach {fs : List Filter}
    (h : ∀ f ∈ fs, Surveys className P (Filter.Comparing S · f) (emit k f)) :
    Surveys className P (fun insideOr => ∀ f ∈ fs, f.Comparing S insideOr)
      (Draft.emitEach k .all fs) := by
  induction fs with
  | nil =>
    intro d cs e h _ hd
    obtain ⟨-, rfl⟩ := Step.yields_pure.mp h
    exact ⟨hd, rfl⟩
  | cons f rest ih =>
    intro d cs e heach hfs hd
    obtain ⟨hf, hrest⟩ := List.forall_mem_cons.mp h
    obtain ⟨hfirst, hothers⟩ := List.forall_mem_cons.mp hfs
    rw [emitEach_cons] at heach
    obtain ⟨condition, u, _, hemit, hothersEmit, -⟩ := together_yields heach
    obtain ⟨hu, hinside⟩ := hf hemit hfirst hd
    rw [← hinside] at hothers ⊢
    exact ih hrest hothersEmit hothers hu

theorem inHavingGroup {T : Bool → Prop} {x : Emission} (hx : Surveys className P T x) :
    Surveys className P T (Draft.inHavingGroup x) := by
  intro d c e h hT hd
  obtain ⟨-, group, u, hu, rfl⟩ := inHavingGroup_yields h
  have hsurveyed := hx hu hT hd
  unfold addGroup
  split <;> exact hsurveyed

/-- A disjunction marks its members. -/
theorem composite {c : Composite} {xs : Step Draft (List Condition)}
    (hxs : Surveys className P (fun insideOr => ∀ f ∈ c.children, f.Comparing S insideOr) xs) :
    Surveys className P (Filter.Comparing S · (.composite c)) (Draft.composite c xs) := by
  obtain ⟨operation, children⟩ := c
  have hcombined : Surveys className P (Filter.Comparing S · (.composite ⟨operation, children⟩))
      (combined operation xs) := by
    intro d c e h hc hd
    cases operation with
    | and | not =>
      obtain ⟨members, u, hall, h₁⟩ := Step.yields_bind.mp h
      obtain ⟨-, rfl⟩ := Step.yields_pure.mp h₁
      exact hxs hall (hc.of_ne_or (by decide)) hd
    | or =>
      obtain ⟨u, hor, rfl⟩ := insideOr_yields h
      obtain ⟨members, _, hall, h₁⟩ := Step.yields_bind.mp hor
      obtain ⟨-, rfl⟩ := Step.yields_pure.mp h₁
      obtain ⟨hu, -⟩ := hxs hall hc.of_or (hd.withInsideOr true)
      exact ⟨hu.withInsideOr _, rfl⟩
  intro d c e h hc hd
  obtain h' | ⟨-, -, h'⟩ := composite_yields h
  · exact hcombined h' hc hd
  · exact inHavingGroup hcombined h' hc hd

end Surveys

/-- A filter of comparisons joins associations, and those that are joined by inner joins lie on the
way along a property compared outside disjunctions. -/
theorem emit_surveyed (hP : ∀ path, S path → ∀ association,
      association <+: Path.route k.catalog path → P association) (f : Filter) :
    Surveys className P (Filter.Comparing S · f) (emit k f) := by
  induction f using Filter.induction with
  | leaf t condition subfilter => exact .leaf hP ⟨t, condition, subfilter⟩
  | composite operation children ih =>
    exact .composite (c := ⟨operation, children⟩) (.emitEach ih)

/-! ## Clauses -/

theorem resolveClause_surveyed {path : String} {outer : Bool} {r : Reference}
    (hP : outer = false → ∀ association, association <+: Path.route k.catalog path → P association)
    (h : (resolveClause k path outer).Yields d r e) (hd : d.aliases.Surveyed className P) :
    e.aliases.Surveyed className P := by
  obtain ⟨a, hresolve, rfl⟩ := aliased_found_yields (fun _ => rfl) (by simp) h
  refine hd.resolve (fun hinner => hP ?_) hresolve
  cases outer with
  | false => rfl
  | true => cases hinner

/-- An order makes outer joins. -/
theorem orderTerms_surveyed {orderings : List SortKey} : ∀ {d terms e},
    (orderTerms k orderings).Yields d terms e → d.aliases.Surveyed className P →
    e.aliases.Surveyed className P := by
  induction orderings with
  | nil =>
    intro d terms e h hd
    obtain ⟨-, rfl⟩ := Step.yields_pure.mp h
    exact hd
  | cons o rest ih =>
    intro d terms e h hd
    obtain ⟨r, u, hresolve, h₁⟩ := Step.yields_bind.mp h
    obtain ⟨others, v, hrest, h₂⟩ := Step.yields_bind.mp h₁
    obtain ⟨-, rfl⟩ := Step.yields_pure.mp h₂
    exact ih hrest (resolveClause_surveyed (fun houter => by cases houter) hresolve hd)

/-- Only a count of distinct values makes inner joins. -/
theorem selectItems_surveyed {distinct : Bool} {columns : List String}
    (hP : ∀ column ∈ columns, SelectSpec.countsDistinct column = true →
      ∀ association, association <+: Path.route k.catalog column → P association) :
    ∀ {d items e}, (selectItems k distinct columns).Yields d items e →
      d.aliases.Surveyed className P → e.aliases.Surveyed className P := by
  induction columns with
  | nil =>
    intro d items e h hd
    obtain ⟨-, rfl⟩ := Step.yields_pure.mp h
    exact hd
  | cons column rest ih =>
    intro d items e h hd
    obtain ⟨hcolumn, hcolumns⟩ := List.forall_mem_cons.mp hP
    obtain ⟨item, u, hitem, h₁⟩ := Step.yields_bind.mp h
    obtain ⟨others, v, hrest, h₂⟩ := Step.yields_bind.mp h₁
    obtain ⟨-, rfl⟩ := Step.yields_pure.mp h₂
    refine ih hcolumns hrest ?_
    unfold selectItem at hitem
    split at hitem
    · have h₃ := Step.yields_get_bind.mp hitem
      obtain ⟨-, rfl⟩ := Step.yields_pure.mp h₃
      exact hd
    · obtain ⟨r, w, hresolve, h₃⟩ := Step.yields_bind.mp hitem
      obtain ⟨-, rfl⟩ := Step.yields_pure.mp h₃
      exact resolveClause_surveyed (fun hinner => hcolumn (by simpa using hinner)) hresolve hd

theorem groupTerms_surveyed {properties : List String}
    (hP : ∀ property ∈ properties,
      ∀ association, association <+: Path.route k.catalog property → P association) :
    ∀ {d terms e}, (groupTerms k properties).Yields d terms e →
      d.aliases.Surveyed className P → e.aliases.Surveyed className P := by
  induction properties with
  | nil =>
    intro d terms e h hd
    obtain ⟨-, rfl⟩ := Step.yields_pure.mp h
    exact hd
  | cons property rest ih =>
    intro d terms e h hd
    obtain ⟨hproperty, hproperties⟩ := List.forall_mem_cons.mp hP
    obtain ⟨r, u, hresolve, h₁⟩ := Step.yields_bind.mp h
    obtain ⟨others, v, hrest, h₂⟩ := Step.yields_bind.mp h₁
    obtain ⟨-, rfl⟩ := Step.yields_pure.mp h₂
    exact ih hproperties hrest (resolveClause_surveyed (fun _ => hproperty) hresolve hd)

/-- Groupings and counts of distinct values make inner joins of their own. -/
theorem assembleSelect_surveyed {spec : SelectSpec} {assembled : Assembled Select}
    (hP : ∀ path ∈ spec.groupBy ++ spec.projection.filter SelectSpec.countsDistinct,
      ∀ association, association <+: Path.route k.catalog path → P association)
    (h : (assembleSelect k spec).Yields d assembled e) (hd : d.aliases.Surveyed className P) :
    e.aliases.Surveyed className P ∧ assembled.statement.sources = e.aliases.sourceList := by
  obtain ⟨hgroupings, hcounts⟩ := List.forall_mem_append.mp hP
  have h₁ := Step.yields_get_bind.mp h
  split at h₁
  · exact (Step.yields_fail.mp h₁).elim
  · obtain ⟨orderBy, u, horder, h₂⟩ := Step.yields_bind.mp h₁
    obtain ⟨items, v, hselect, h₃⟩ := Step.yields_bind.mp h₂
    obtain ⟨groupBy, w, hgroup, h₄⟩ := Step.yields_bind.mp h₃
    have h₅ := Step.yields_get_bind.mp h₄
    obtain ⟨rfl, rfl⟩ := Step.yields_pure.mp h₅
    refine ⟨groupTerms_surveyed hgroupings hgroup ?_, rfl⟩
    have hu := orderTerms_surveyed horder hd
    unfold selectList at hselect
    split at hselect
    · have h₆ := Step.yields_get_bind.mp hselect
      obtain ⟨-, rfl⟩ := Step.yields_pure.mp h₆
      exact hu
    · exact selectItems_surveyed (fun column hcolumn hcounted =>
        hcounts column (List.mem_filter.mpr ⟨hcolumn, hcounted⟩)) hselect hu

end Draft

/-! ## Compiled queries -/

/-- The paths that a query groups by or counts the distinct values of. -/
def QueryOptions.innerClauses (o : QueryOptions) : List String :=
  o.groupBy ++ (Compiler.selectSpec o).projection.filter SelectSpec.countsDistinct

/-- Arrangement leaves the comparisons outside disjunctions where they are. -/
theorem QueryOptions.comparing_prepare {o : QueryOptions}
    (h : ∀ f ∈ o.restrictions, ∀ l ∈ f.leaves, l.test.comparesValue = true) {f : Filter}
    (hf : o.prepare = some f) :
    f.Comparing (fun path => ∃ t ∈ (Filter.and o.restrictions).outsideTests, t.property = path)
      false := by
  obtain ⟨g, hg, rfl⟩ := Option.map_eq_some_iff.mp hf
  have hgiven : g.Comparing
      (fun path => ∃ t ∈ (Filter.and o.restrictions).outsideTests, t.property = path) false := by
    split at hg
    · cases hg
    · rename_i only hr
      cases hg
      refine .of_leaves _ (h g (by simp [hr])) fun _ t ht => ⟨t, ?_, rfl⟩
      exact Filter.mem_allOutsideTests.mpr ⟨g, by simp [hr], ht⟩
    · cases hg
      refine .of_leaves _ (fun l hl => ?_) fun _ t ht => ⟨t, ht, rfl⟩
      obtain ⟨f, hf, hl⟩ := Filter.mem_leavesOf.mp hl
      exact h f hf l hl
  have harranged := Filter.Comparing.reorder _ (Filter.Comparing.foldDoubleNegation _ hgiven)
  dsimp only
  split
  · exact harranged
  · exact Filter.Comparing.optimize _ harranged

namespace Compiler

variable {k : Compiler} {className : String} {o : QueryOptions} {q : CompiledQuery}

/-- In a query restricted by comparisons with values, an inner join stands for an association of a
grouping or a count, or for one that a comparison outside all disjunctions goes through. The latter
drops no row that the restrictions accept if they need the association. They do so if no conjunction
of several members is negated. -/
theorem compile_inner_joins (hq : (k.compile className o).value = .ok q)
    (hcompared : ∀ f ∈ o.restrictions, ∀ l ∈ f.leaves, l.test.comparesValue = true) :
    ∀ j ∈ q.statement.sources.joins, j.joinType = .inner → ∃ association,
      j.StandsFor q.statement.sources.joins (Aliases.classAliasName className none) association ∧
      ((∃ path ∈ o.innerClauses, association <+: Path.route k.catalog path) ∨
        (∃ t ∈ (Filter.and o.restrictions).outsideTests,
          t.goesThrough k.catalog association = true) ∧
        ((Filter.and o.restrictions).negatesSingly false = true ∨
            (Filter.and o.restrictions).needs k.catalog association false = true →
          ∀ r : StoredRow, r.Lacks association →
            (Filter.and o.restrictions).truth k.catalog r ≠ .yes)) := by
  obtain ⟨restricted, assembled, final, hrestrict, hassemble, rfl⟩ := compile_ok hq
  let P (association : List String) : Prop :=
    (∃ path ∈ o.innerClauses, association <+: Path.route k.catalog path) ∨
      ∃ t ∈ (Filter.and o.restrictions).outsideTests, t.goesThrough k.catalog association = true
  have hrestricted : restricted.aliases.Surveyed className P := by
    have hstart := Aliases.start_surveyed className P
    obtain ⟨_, d, hmodify, h₁⟩ := Step.yields_bind.mp hrestrict
    obtain rfl := Step.yields_modify.mp hmodify
    split at h₁
    · rename_i f hf
      obtain ⟨c, u, hemit, -, rfl⟩ := Draft.visit_yields h₁
      refine (Draft.emit_surveyed ?_ f hemit (QueryOptions.comparing_prepare hcompared hf) hstart).1
      rintro _ ⟨t, ht, rfl⟩ association hprefix
      exact .inr ⟨t, ht, Test.goesThrough_iff.mpr hprefix⟩
    · obtain ⟨-, rfl⟩ := Step.yields_pure.mp h₁
      exact hstart
  obtain ⟨hfinal, hsources⟩ := Draft.assembleSelect_surveyed
    (fun path hpath association hprefix => .inl ⟨path, hpath, hprefix⟩) hassemble hrestricted
  intro j hj hinner
  have hsame : (Statement.select assembled.statement).sources = final.aliases.sourceList := hsources
  rw [hsame] at hj ⊢
  obtain ⟨association, hstands, hP⟩ := hfinal.charted.joins j (hfinal.mem_joins.mp hj)
  refine ⟨association, hstands.mono fun _ => hfinal.mem_joins.mpr, (hP hinner).imp_right ?_⟩
  rintro ⟨t, ht, hthrough⟩
  refine ⟨⟨t, ht, hthrough⟩, fun hguarded r hr => ?_⟩
  have hneeds : (Filter.and o.restrictions).needs k.catalog association false = true :=
    hguarded.elim (fun hsingly => Filter.needs_of_negatesSingly hthrough _ hsingly ht) id
  exact Filter.truth_ne_yes_of_needs hr _ hneeds

/-- Identities that have not both the name and a manager with the last name. -/
def notBoth : Filter :=
  .not (.and [.compare .eq "manager.lastname" (.text "x"), .compare .eq "name" (.text "y")])

/-- An identity without a manager, whose name is another one. -/
def unmanaged : StoredRow :=
  { isNull := fun route => ["manager"].isPrefixOf route, meets := fun _ => false }

/-- A negated conjunction has an inner join, which drops a row that it accepts. -/
theorem compile_inner_joins_notBoth :
    ∃ q, (linkedAccounts.compile "Identity" { restrictions := [notBoth] }).value = .ok q ∧
      q.text = "select identityAlias from Identity identityAlias inner join " ++
        "identityAlias.manager identity_managerAlias0 where not (" ++
        "(identity_managerAlias0.lastname = :param0 and identityAlias.name = :param1))" ∧
      (∀ j ∈ q.statement.sources.joins, j.joinType = .inner → ∃ association,
        j.StandsFor q.statement.sources.joins "identityAlias" association ∧
          ∃ t ∈ notBoth.outsideTests, t.goesThrough linkedAccounts.catalog association = true) ∧
      unmanaged.Lacks ["manager"] ∧ notBoth.truth linkedAccounts.catalog unmanaged = .yes := by
  have htext : (linkedAccounts.compile "Identity"
      { restrictions := [notBoth] }).value.toOption.map (·.text) =
      some ("select identityAlias from Identity identityAlias inner join " ++
        "identityAlias.manager identity_managerAlias0 where not (" ++
        "(identity_managerAlias0.lastname = :param0 and identityAlias.name = :param1))") := by
    decide +kernel
  have hcompared : ∀ l ∈ notBoth.leaves, l.test.comparesValue = true := by decide +kernel
  cases hq : (linkedAccounts.compile "Identity" { restrictions := [notBoth] }).value with
  | error e =>
    rw [hq] at htext
    cases htext
  | ok q =>
    rw [hq] at htext
    refine ⟨q, rfl, Option.some.inj htext, fun j hj hinner => ?_, ?_, by decide +kernel⟩
    · obtain ⟨association, hstands, ⟨path, hpath, -⟩ | ⟨⟨t, ht, hthrough⟩, -⟩⟩ :=
        compile_inner_joins hq (List.forall_mem_singleton.mpr hcompared) j hj hinner
      · exact absurd hpath List.not_mem_nil
      · exact ⟨association, hstands, t, ht, hthrough⟩
    · intro route hprefix
      exact List.isPrefixOf_iff_prefix.mpr hprefix

end Compiler

end ObjectQuery
