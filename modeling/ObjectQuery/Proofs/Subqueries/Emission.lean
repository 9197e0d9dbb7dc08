import ObjectQuery.Proofs.Emission.Clauses
import ObjectQuery.Proofs.Emission.Parts
import ObjectQuery.Proofs.Renumbering.Predicates
import ObjectQuery.Proofs.Scoping.Emission
import ObjectQuery.Proofs.Subqueries.Queries
import ObjectQuery.Proofs.Subqueries.Selects

/-!
# Nested queries while a filter is emitted

A nested query is compiled in a draft of its own. But for the numbers of its parameters it is the
query that its class, its column and its filter give by themselves.

* `Compiler.compileAsGiven`: a nested query compiled by itself, with its filter as it stands.
* `CompiledQuery.RepeatedIn`: a select that is a compiled query under shifted numbers.
* `Draft.Nests`: a step that writes such selects for nested queries, and no others.
* `Draft.nests_emit`: a filter writes a select for each of its nested queries.
-/

namespace ObjectQuery

/-- A nested query compiled by itself over its class, which must be mapped. The filter is visited as
it stands. -/
def Compiler.compileAsGiven (k : Compiler) (q : Subquery) :
    Reported (Except CompileError CompiledQuery) :=
  match k.registry.get q.className with
  | .error e => pure (.error e)
  | .ok _ =>
    let outcome := (do
      Draft.visitAny k q.filter
      Draft.assembleSelect k { columns := [q.column] } : Step Draft _).run (.start q.className 0)
    ⟨outcome.result.map fun assembled =>
      { statement := .select assembled.statement
        parameters := outcome.state.parameters
        requiresDistinctFilter := assembled.requiresDistinctFilter
        spansMultipleTables := assembled.spansMultipleTables },
      outcome.events⟩

/-- The select is that of the compiled query, with its parameters numbered from `first` on and behind
those that are bound in front of its own. -/
def CompiledQuery.RepeatedIn (alone : CompiledQuery) (first : Nat) (parameters : List Parameter)
    (s : Select) : Prop :=
  ∃ query before after, alone.statement = .select query ∧
    s = query.renumber (first + before.length + ·) ∧
    parameters =
      before ++ alone.parameters.map (·.renumber (first + before.length + ·)) ++ after

namespace Subquery

variable {k : Compiler} {first : Nat} {parameters : List Parameter} {q : Subquery} {s : Select}

/-- The select is what the query compiles to by itself, under shifted numbers. -/
def IsWritten (k : Compiler) (first : Nat) (parameters : List Parameter) (q : Subquery)
    (s : Select) : Prop :=
  ∃ alone, (k.compileAsGiven q).value = .ok alone ∧ alone.RepeatedIn first parameters s

/-- Other parameters may be bound behind. -/
theorem IsWritten.append (h : q.IsWritten k first parameters s) (others : List Parameter) :
    q.IsWritten k first (parameters ++ others) s := by
  obtain ⟨alone, halone, query, before, after, hquery, hs, rfl⟩ := h
  exact ⟨alone, halone, query, before, after ++ others, hquery, hs, by rw [List.append_assoc]⟩

/-- Other parameters may be bound in front, if the numbers go on from them. -/
theorem IsWritten.behind {others : List Parameter}
    (h : q.IsWritten k (first + others.length) parameters s) :
    q.IsWritten k first (others ++ parameters) s := by
  obtain ⟨alone, halone, query, before, after, hquery, hs, rfl⟩ := h
  refine ⟨alone, halone, query, others ++ before, after, hquery, ?_, ?_⟩
  · rw [List.length_append, ← Nat.add_assoc]
    exact hs
  · rw [List.length_append, ← Nat.add_assoc, List.append_assoc, List.append_assoc,
      List.append_assoc]

end Subquery

namespace Draft

variable {k : Compiler} {x : Emission} {d e : Draft}

/-! ## The query by itself -/

/-- A query goes the same way wherever its numbers start. -/
theorem shifted_query {g : Nat → Nat} (filter : Option Filter) (spec : SelectSpec) :
    Step.EndsLike (Renumbered g) (fun a b => b = assembledRenumber g a)
      (do visitAny k filter; assembleSelect k spec)
      (do visitAny k filter; assembleSelect k spec) := by
  have hvisit : Step.EndsLike (Renumbered g) Eq (visitAny k filter) (visitAny k filter) := by
    cases filter with
    | none => exact (Step.Agrees.pure rfl).endsLike
    | some f => exact Shifted.visit f
  exact .bind hvisit fun _ _ _ => (shifted_assembleSelect spec).endsLike

/-- A run from a number on repeats the query by itself. -/
theorem compileAsGiven_of_yields {className column : String} {filter : Option Filter} {first : Nat}
    {m : ClassMapping} {query : Assembled Select} {v : Draft}
    (hclass : k.registry.get className = .ok m)
    (h : (do visitAny k filter; assembleSelect k { columns := [column] } : Step Draft _).Yields
      (.start className first) query v) :
    Subquery.IsWritten k first v.parameters ⟨className, column, filter⟩ query.statement := by
  obtain ⟨hresult, rfl⟩ := h
  obtain ⟨hagrees, hstates, -⟩ := shifted_query (k := k) (g := (first + ·)) filter
    { columns := [column] } _ _ (renumbered_start (a := 0) (b := first) (fun i => by simp) className)
  rw [hresult] at hagrees
  unfold Subquery.IsWritten Compiler.compileAsGiven
  rw [hclass]
  revert hagrees hstates
  rcases (do visitAny k filter; assembleSelect k { columns := [column] } : Step Draft _).run
    (.start className 0) with ⟨_ | alone, w, events⟩
  · exact fun hagrees => hagrees.elim
  · rintro rfl hstates
    obtain ⟨_, -, hstate⟩ := hstates alone rfl
    rw [hstate]
    exact ⟨_, rfl, alone.statement, [], [], rfl, rfl, (List.append_nil _).symm⟩

/-! ## Selects in a draft -/

/-- The nested queries of the groups of conditions on aggregates. -/
def havingQueries (d : Draft) : List Select := groupsQueries d.having

theorem havingQueries_addGroup (d : Draft) (group : Option Condition) :
    (d.addGroup group).havingQueries = d.havingQueries ++ groupQueries group := by
  unfold havingQueries addGroup
  split
  · rename_i hnone
    rw [Bool.and_eq_true, Option.isNone_iff_eq_none] at hnone
    rw [hnone.2, groupQueries, List.append_nil]
  · rw [groupsQueries_append]
    exact congrArg _ (List.append_nil _)

theorem groupQueries_combine (operation : BooleanOp) (members : List Condition) :
    groupQueries (combine operation members) = conditionQueries members := by
  cases operation <;> cases members <;> rfl

theorem groupQueries_joinParts (disjunctive : Bool) (kept excluded : Option Condition) :
    groupQueries (joinParts disjunctive kept excluded) =
      groupQueries kept ++ groupQueries excluded := by
  cases kept <;> cases excluded <;>
    simp [joinParts, groupQueries, Condition.queries, conditionQueries]

/-- There is a reference for each property of a grouping. -/
theorem length_groupTerms {properties : List String} {references : List Reference}
    (h : (groupTerms k properties).Yields d references e) :
    references.length = properties.length := by
  induction properties generalizing d references e with
  | nil =>
    obtain ⟨rfl, -⟩ := Step.yields_pure.mp h
    rfl
  | cons property rest ih =>
    obtain ⟨reference, u, -, h₁⟩ := Step.yields_bind.mp h
    obtain ⟨others, v, hothers, h₂⟩ := Step.yields_bind.mp h₁
    obtain ⟨rfl, -⟩ := Step.yields_pure.mp h₂
    exact congrArg (· + 1) (ih hothers)

/-- A select has the nested queries of its draft. -/
theorem assembleSelect_queries {spec : SelectSpec} {assembled : Assembled Select}
    (h : (assembleSelect k spec).Yields d assembled e) :
    assembled.statement.queries = conditionQueries d.conditions ++ d.havingQueries ∧
      e.parameters = d.parameters := by
  have h₁ := Step.yields_get_bind.mp h
  split at h₁
  · exact (Step.yields_fail.mp h₁).elim
  · rename_i hungrouped
    obtain ⟨orderBy, u, horder, h₂⟩ := Step.yields_bind.mp h₁
    obtain ⟨items, v, hselect, h₃⟩ := Step.yields_bind.mp h₂
    obtain ⟨groupBy, w, hgroup, h₄⟩ := Step.yields_bind.mp h₃
    have h₅ := Step.yields_get_bind.mp h₄
    obtain ⟨rfl, rfl⟩ := Step.yields_pure.mp h₅
    have hlength := length_groupTerms hgroup
    obtain ⟨_, rfl⟩ := (Realiasing.clauseRules k).orderTerms _ _ _ _ horder
    obtain ⟨_, rfl⟩ := (Realiasing.clauseRules k).selectList _ _ _ _ _ hselect
    obtain ⟨_, rfl⟩ := (Realiasing.clauseRules k).groupTerms _ _ _ _ hgroup
    refine ⟨?_, rfl⟩
    rw [Select.queries]
    dsimp only [withAliases]
    split
    · rename_i hempty
      -- Without a grouping there are no groups to leave out.
      rw [List.isEmpty_iff] at hempty
      rw [hempty] at hlength
      rw [List.eq_nil_of_length_eq_zero hlength.symm, List.isEmpty_nil, Bool.and_true,
        Bool.not_eq_true', Bool.not_eq_false, List.isEmpty_iff] at hungrouped
      rw [havingQueries, hungrouped]
      rfl
    · rfl

/-! ## Steps that write selects -/

/-- The step writes a select for each of the nested queries, in its result or in the having clause,
and no select for any other. -/
def Nests {α : Type} (k : Compiler) (asked : List Subquery) (queries : α → List Select)
    (y : Step Draft α) : Prop :=
  ∀ ⦃d a e⦄, y.Yields d a e → ∃ asked' written, asked'.Perm asked ∧
    List.Forall₂ (Subquery.IsWritten k e.firstParameter e.parameters) asked' written ∧
    (e.havingQueries ++ queries a).Perm (d.havingQueries ++ written)

namespace Nests

variable {asked asked' : List Subquery} {xs : Step Draft (List Condition)}

/-- A step that writes no select and leaves the having clause alone. -/
theorem of_quiet {α : Type} {queries : α → List Select} {y : Step Draft α}
    (h : ∀ d a e, y.Yields d a e → e.having = d.having ∧ queries a = []) :
    Nests k [] queries y := by
  intro d a e hy
  obtain ⟨hhaving, hnone⟩ := h d a e hy
  refine ⟨[], [], .refl _, .nil, .of_eq ?_⟩
  rw [hnone, havingQueries, hhaving, havingQueries]

theorem nothing : Nests k [] groupQueries (Pure.pure none : Emission) :=
  of_quiet fun _ _ _ h => by
    obtain ⟨rfl, rfl⟩ := Step.yields_pure.mp h
    exact ⟨rfl, rfl⟩

theorem nil : Nests k [] conditionQueries (Pure.pure [] : Step Draft (List Condition)) :=
  of_quiet fun _ _ _ h => by
    obtain ⟨rfl, rfl⟩ := Step.yields_pure.mp h
    exact ⟨rfl, rfl⟩

theorem fail {α : Type} {queries : α → List Select} (err : CompileError) :
    Nests k asked queries (Step.fail err : Step Draft α) :=
  fun _ _ _ h => (Step.yields_fail.mp h).elim

/-- Selects of a step stay where they are when another step extends the draft. -/
theorem isWritten_extends {written : List Select} (h : d.Extends e)
    (hwritten : List.Forall₂ (Subquery.IsWritten k d.firstParameter d.parameters) asked written) :
    List.Forall₂ (Subquery.IsWritten k e.firstParameter e.parameters) asked written := by
  obtain ⟨others, hothers⟩ := h.parameters
  rw [← hothers, h.firstParameter]
  exact hwritten.imp fun _ _ hq => hq.append others

theorem together (hx : Nests k asked groupQueries x) (hxs : Nests k asked' conditionQueries xs)
    (hextends : Extending xs) :
    Nests k (asked ++ asked') conditionQueries (Draft.together x xs) := by
  intro d cs e h
  obtain ⟨c, u, rest, hc, hrest, rfl⟩ := together_yields h
  obtain ⟨sorted, written, hsorted, hwritten, hperm⟩ := hx hc
  obtain ⟨sorted', written', hsorted', hwritten', hperm'⟩ := hxs hrest
  refine ⟨sorted ++ sorted', written ++ written', hsorted.append hsorted',
    List.rel_append (isWritten_extends (hextends _ _ _ hrest) hwritten) hwritten', ?_⟩
  rw [conditionQueries_append, conditionQueries_toList]
  exact perm_together hperm hperm'

/-! ## Clauses -/

theorem inHavingGroup (hx : Nests k asked groupQueries x) :
    Nests k asked groupQueries (Draft.inHavingGroup x) := by
  intro d c e h
  obtain ⟨rfl, group, u, hu, rfl⟩ := inHavingGroup_yields h
  obtain ⟨sorted, written, hsorted, hwritten, hperm⟩ := hx hu
  have hsame : (addGroup { u with inHaving := d.inHaving } group).firstParameter = u.firstParameter ∧
      (addGroup { u with inHaving := d.inHaving } group).parameters = u.parameters := by
    unfold addGroup
    split <;> exact ⟨rfl, rfl⟩
  refine ⟨sorted, written, hsorted, ?_, ?_⟩
  · rw [hsame.1, hsame.2]
    exact hwritten
  · rw [havingQueries_addGroup, groupQueries, List.append_nil]
    exact hperm

theorem routed (isAggregate : Bool) (hx : Nests k asked groupQueries x) :
    Nests k asked groupQueries (Draft.routed isAggregate x) := by
  intro d c e h
  obtain h' | ⟨-, -, h'⟩ := routed_yields h
  · exact hx h'
  · exact inHavingGroup hx h'

theorem composite (c : Composite) (hxs : Nests k asked conditionQueries xs) :
    Nests k asked groupQueries (Draft.composite c xs) := by
  have hcombined : Nests k asked groupQueries (Draft.combined c.operation xs) := by
    intro d condition e h
    obtain ⟨members, rfl, h' | ⟨u, h', rfl⟩⟩ := combined_yields h
    · rw [groupQueries_combine]
      exact hxs h'
    · rw [groupQueries_combine]
      obtain ⟨sorted, written, hnested⟩ := hxs h'
      exact ⟨sorted, written, hnested⟩
  intro d condition e h
  obtain h' | ⟨-, -, h'⟩ := composite_yields h
  · exact hcombined h'
  · exact inHavingGroup hcombined h'

/-! ## Leaves -/

/-- One predicate that holds no select, behind a step that leaves the having clause alone. -/
theorem predicate {α : Type} {y : Step Draft α} {p : α → Atom}
    (hy : ∀ d a e, y.Yields d a e → e.having = d.having ∧ (p a).queries = []) :
    Nests k [] groupQueries (y >>= fun a => Draft.predicate (p a)) := by
  refine of_quiet fun d c e h => ?_
  obtain ⟨a, u, ha, h₁⟩ := Step.yields_bind.mp h
  obtain ⟨rfl, rfl⟩ := predicate_yields.mp h₁
  exact hy d a _ ha

theorem comparison (t : Test) (v : Value) (operator : String) :
    Nests k [] groupQueries (Draft.comparison k t v operator) := by
  refine routed _ (predicate (p := id) fun d p e h => ?_)
  obtain ⟨_, _, _, -, rfl, rfl⟩ := plainComparison_yields h
  exact ⟨rfl, rfl⟩

theorem nullCheck (t : Test) (isNull : Bool) :
    Nests k [] groupQueries (Draft.nullCheck k t isNull) := by
  refine routed _ (predicate fun d r e h => ?_)
  obtain ⟨_, -, rfl⟩ := resolve_yields h
  exact ⟨rfl, rfl⟩

theorem equality (t : Test) (v : Value) (equal : Bool) :
    Nests k [] groupQueries (Draft.equality k t v equal) := by
  unfold Draft.equality
  split
  · exact nullCheck t equal
  · exact comparison t v _

theorem emptyCheck (t : Test) : Nests k [] groupQueries (Draft.emptyCheck k t) := by
  refine routed _ (predicate fun d r e h => ?_)
  obtain ⟨_, -, rfl⟩ := resolveCollection_yields h
  exact ⟨rfl, rfl⟩

theorem equalities (t : Test) (values : List Value) :
    Nests k [] conditionQueries (Draft.equalities k t values) := by
  induction values with
  | nil => exact nil
  | cons v rest ih =>
    exact together (equality _ v true) ih ((Extending.leafRules k).equalities t rest)

theorem membership (t : Test) : Nests k [] groupQueries (Draft.membership k t) := by
  unfold Draft.membership
  dsimp only
  split
  · split
    · exact equality _ _ true
    · exact composite _ (equalities t _)
  · refine routed _ (predicate (p := id) fun d p e h => ?_)
    obtain ⟨-, rfl, rfl⟩ | ⟨-, _, _, _, _, -, rfl, rfl⟩ := plainMembership_yields h
    · exact ⟨rfl, rfl⟩
    · exact ⟨rfl, rfl⟩

theorem separateComparisons (t : Test) (values : List Value) :
    ∀ d cs e, (Draft.separateComparisons k t values).Yields d cs e →
      e.having = d.having ∧ conditionQueries cs = [] := by
  induction values with
  | nil =>
    intro d cs e h
    obtain ⟨rfl, rfl⟩ := Step.yields_pure.mp h
    exact ⟨rfl, rfl⟩
  | cons v rest ih =>
    intro d cs e h
    obtain ⟨p, u, hp, h₁⟩ := Step.yields_bind.mp h
    obtain ⟨_, _, _, -, rfl, rfl⟩ := plainComparison_yields hp
    obtain ⟨others, w, hothers, h₂⟩ := Step.yields_bind.mp h₁
    obtain ⟨rfl, rfl⟩ := Step.yields_pure.mp h₂
    obtain ⟨hhaving, hnone⟩ := ih _ _ _ hothers
    exact ⟨hhaving, hnone⟩

theorem containsAll (t : Test) : Nests k [] groupQueries (Draft.containsAll k t) := by
  intro d c e h
  obtain ⟨v, -, h'⟩ | ⟨-, h'⟩ := containsAll_yields h
  · exact equality t v true h'
  · refine routed t.isAggregate (of_quiet fun d c e h => ?_) h'
    obtain ⟨conditions, u, hconditions, h₁⟩ := Step.yields_bind.mp h
    obtain ⟨rfl, rfl⟩ := Step.yields_pure.mp h₁
    obtain ⟨hhaving, hnone⟩ := separateComparisons t _ _ _ _ hconditions
    refine ⟨hhaving, ?_⟩
    unfold chained
    split
    · rfl
    · exact hnone

theorem join (t : Test) : Nests k [] groupQueries (Draft.join k t) := by
  refine of_quiet fun d c e h => ?_
  obtain ⟨_, _, -, -, rfl, ⟨-, _, _, _, _, -, -, -, rfl⟩ | ⟨-, hcondition⟩⟩ := join_yields h
  · exact ⟨rfl, rfl⟩
  · obtain ⟨_, _, _, _, _, -, -, -, rfl⟩ := correlation_yields hcondition
    exact ⟨rfl, rfl⟩

theorem leftJoin (t : Test) : Nests k [] groupQueries (Draft.leftJoin k t) := by
  refine of_quiet fun d c e h => ?_
  obtain ⟨rfl, _, _, _, -, -, hcondition, rfl⟩ := leftJoin_yields h
  obtain ⟨_, _, _, _, _, -, -, -, rfl⟩ := correlation_yields hcondition
  exact ⟨rfl, rfl⟩

theorem test (t : Test) : Nests k [] groupQueries (Draft.test k t) := by
  unfold Draft.test
  cases t.operation with
  | isNull => exact nullCheck t true
  | notNull => exact nullCheck t false
  | isEmpty => exact emptyCheck t
  | join => exact join t
  | leftJoin => exact leftJoin t
  | collectionCondition | subquery => exact fail _
  | inList => exact membership t
  | containsAll => exact containsAll t
  | eq | ne => exact equality t _ _
  | lt | gt | le | ge | like => exact comparison t _ _

/-! ## Nested filters -/

/-- A nested select is the query by itself, and has the nested queries of its filter. Owners are
excluded by selects that no leaf asks for. -/
theorem inSelect {filter : Option Filter} (hx : Nests k asked groupQueries (emitAny k filter))
    (reference : Reference) (negated : Bool) (className column : String) :
    Nests k (if negated then asked else ⟨className, column, filter⟩ :: asked) groupQueries
      (Draft.inSelect k reference negated className column (emitAny k filter)) := by
  intro d c e h
  obtain ⟨m, hclass⟩ : ∃ m, k.registry.get className = .ok m := by
    obtain ⟨m, _, hmapped, -⟩ := Step.yields_bind.mp (Step.yields_get_bind.mp h)
    exact ⟨m, (Step.yields_ofExcept.mp hmapped).1⟩
  obtain ⟨condition, u, query, v, hemit, hassemble, rfl, rfl⟩ := inSelect_yields h
  obtain ⟨sorted, written, hsorted, hwritten, hperm⟩ := hx hemit
  obtain ⟨hqueries, hparameters⟩ := assembleSelect_queries hassemble
  have hextends : Extends (.start className d.nextParameter) u := by
    cases filter with
    | none => exact Extending.pure none _ _ _ hemit
    | some f => exact emit_extends hemit
  -- The parameters of the nested draft are numbered behind those of the draft.
  have hown : Subquery.IsWritten k d.firstParameter (d.parameters ++ v.parameters)
      ⟨className, column, filter⟩ query.statement :=
    (compileAsGiven_of_yields hclass
      (Step.yields_bind.mpr ⟨(), _, visitAny_yields hemit, hassemble⟩)).behind
  have hinner : List.Forall₂
      (Subquery.IsWritten k d.firstParameter (d.parameters ++ v.parameters)) sorted written := by
    rw [hextends.firstParameter, ← show v.parameters = u.parameters from hparameters] at hwritten
    exact hwritten.imp fun _ _ hq => hq.behind
  have hnested : query.statement.queries.Perm written := by
    have hconditions : (u.addCondition condition).conditions = condition.toList := by
      rw [addCondition, hextends.conditions]
      rfl
    rw [hqueries, hconditions, conditionQueries_toList]
    exact List.perm_append_comm.trans hperm
  cases negated with
  | true => exact ⟨sorted, written, hsorted, hinner, hnested.append_left _⟩
  | false =>
    exact ⟨_ :: sorted, _ :: written, hsorted.cons _, .cons hown hinner,
      (hnested.cons query.statement).append_left _⟩

theorem subquery {t : Test} {condition : Option Composite} {filter : Option Filter}
    (ht : t.operation = .subquery)
    (hx : Nests k (Filter.subfilterSubqueries filter) groupQueries (emitAny k filter)) :
    Nests k (Filter.leaf ⟨t, condition, filter⟩).subqueries groupQueries
      (Draft.subquery k t (emitAny k filter)) := by
  intro d c e h
  obtain h' | ⟨className, column, hclass, hcolumn, h'⟩ := subquery_yields h
  · rw [Draft.test, ht] at h'
    exact (Step.yields_fail.mp h').elim
  · have hown : (Filter.leaf ⟨t, condition, filter⟩).subqueries =
        ⟨className, column, filter⟩ :: Filter.subfilterSubqueries filter := by
      rw [Filter.subqueries, if_neg (by rw [ht]; decide), Test.subquery?, ht, hclass, hcolumn]
    rw [hown]
    refine routed _ (fun d c e h => ?_) h'
    obtain ⟨reference, u, hresolve, h₁⟩ := Step.yields_bind.mp h
    obtain ⟨a, -, rfl⟩ := resolve_yields hresolve
    obtain ⟨sorted, written, hnested⟩ := inSelect hx reference false className column h₁
    exact ⟨sorted, written, hnested⟩

theorem excluding (property : String) {f : Filter}
    (hx : Nests k asked groupQueries (emit k f)) :
    Nests k asked groupQueries (Draft.excluding k property (emit k f)) := by
  intro d c e h
  obtain ⟨inverse, _, element, _, -, -, -, -, h'⟩ := excluding_yields h
  have hselected : Nests k asked groupQueries (emitAny k (some f)) := hx
  exact inSelect hselected _ true element inverse h'

theorem inScope (property : String) (outer : Bool) (hx : Nests k asked groupQueries x) :
    Nests k asked groupQueries (Draft.inScope k property outer x) := by
  intro d c e h
  obtain ⟨a, u, -, hu, rfl⟩ := inScope_yields h
  obtain ⟨sorted, written, hnested⟩ := hx hu
  exact ⟨sorted, written, hnested⟩

theorem withTheta (theta : Bool) (hx : Nests k asked groupQueries x) :
    Nests k asked groupQueries (Draft.withTheta theta x) := by
  intro d c e h
  obtain ⟨u, hu, rfl⟩ := Step.yields_restoring.mp h
  obtain ⟨sorted, written, hnested⟩ := hx hu
  exact ⟨sorted, written, hnested⟩

/-! ## Filters -/

theorem emitEach {fs : List Filter} (h : ∀ f ∈ fs, Nests k f.subqueries groupQueries (emit k f)) :
    Nests k (fs.flatMap Filter.subqueries) conditionQueries (Draft.emitEach k .all fs) := by
  induction fs with
  | nil => exact nil
  | cons f rest ih =>
    obtain ⟨hf, hrest⟩ := List.forall_mem_cons.mp h
    rw [emitEach_cons, List.flatMap_cons]
    exact together hf (ih hrest) (emitEach_extends .all rest)

theorem emitComposite {c : Composite}
    (h : ∀ f ∈ c.children, Nests k f.subqueries groupQueries (emit k f)) :
    Nests k (c.children.flatMap Filter.subqueries) groupQueries (emit k (.composite c)) := by
  obtain ⟨operation, children⟩ := c
  exact composite ⟨operation, children⟩ (emitEach h)

/-- The two parts of a condition have the nested queries of its children. -/
theorem emitParts {property : String} {outer disjunctive : Bool} {c : Composite}
    (hplain : ∀ part, c.split.1 = some part →
      Nests k (part.children.flatMap Filter.subqueries) groupQueries (emit k (.composite part)))
    (hnegated : ∀ part, c.split.2 = some part →
      Nests k (part.children.flatMap Filter.subqueries) groupQueries (emit k (.composite part))) :
    Nests k (c.children.flatMap Filter.subqueries) groupQueries
      (Draft.emitParts k property outer disjunctive c.split) := by
  intro d condition e hx
  obtain ⟨kept, u, excluded, rfl, hkept, hexcluded⟩ := emitParts_yields hx
  have hfirst : ∃ sorted written, sorted.Perm (Filter.conditionSubqueries c.split.1) ∧
      List.Forall₂ (Subquery.IsWritten k u.firstParameter u.parameters) sorted written ∧
      (u.havingQueries ++ groupQueries kept).Perm (d.havingQueries ++ written) := by
    obtain ⟨hnone, rfl, rfl⟩ | ⟨part, hpart, hkept⟩ := hkept
    · rw [hnone]
      exact ⟨[], [], .refl _, .nil, .refl _⟩
    · rw [hpart, Filter.conditionSubqueries_some]
      exact inScope property outer (hplain part hpart) hkept
  have hsecond : u.Extends e ∧ ∃ sorted written,
      sorted.Perm (Filter.conditionSubqueries c.split.2) ∧
      List.Forall₂ (Subquery.IsWritten k e.firstParameter e.parameters) sorted written ∧
      (e.havingQueries ++ groupQueries excluded).Perm (u.havingQueries ++ written) := by
    obtain ⟨hnone, rfl, rfl⟩ | ⟨part, hpart, hexcluded⟩ := hexcluded
    · rw [hnone]
      exact ⟨.refl _, [], [], .refl _, .nil, .refl _⟩
    · rw [hpart, Filter.conditionSubqueries_some]
      exact ⟨Extending.excluding property _ _ _ hexcluded,
        excluding property (hnegated part hpart) hexcluded⟩
  obtain ⟨sorted, written, hsorted, hwritten, hperm⟩ := hfirst
  obtain ⟨hextends, sorted', written', hsorted', hwritten', hperm'⟩ := hsecond
  refine ⟨sorted ++ sorted', written ++ written',
    (hsorted.append hsorted').trans c.perm_subqueries_split,
    List.rel_append (isWritten_extends hextends hwritten) hwritten', ?_⟩
  rw [groupQueries_joinParts]
  exact perm_together hperm hperm'

/-- The parts of a condition are its children, and positive forms of them. -/
theorem emitCondition (t : Test) {c : Composite}
    (h : ∀ f ∈ c.children, Nests k f.subqueries groupQueries (emit k f) ∧
      Nests k f.subqueries groupQueries (emit k f.invert)) :
    Nests k (c.children.flatMap Filter.subqueries) groupQueries
      (Draft.emitCondition k t (some c)) := by
  rw [emitCondition_eq]
  refine .withTheta _ (emitParts (fun part hpart => ?plain) fun part hpart => ?negated)
  case plain => exact emitComposite fun f hf => (h f ((Composite.split_plain hpart).2 f hf)).1
  case negated =>
    refine emitComposite fun f hf => ?_
    obtain ⟨g, hg, rfl | rfl⟩ := Composite.split_negated hpart f hf
    · exact (h f hg).1
    · rw [Filter.subqueries_invert]
      exact (h g hg).2

theorem emitLeaf {t : Test} {condition : Option Composite} {subfilter : Option Filter}
    (hcondition : ∀ c, condition = some c → ∀ f ∈ c.children,
      Nests k f.subqueries groupQueries (emit k f) ∧
        Nests k f.subqueries groupQueries (emit k f.invert))
    (hsubfilter : ∀ f, subfilter = some f → Nests k f.subqueries groupQueries (emit k f)) :
    Nests k (Filter.leaf ⟨t, condition, subfilter⟩).subqueries groupQueries
      (Draft.emitLeaf k ⟨t, condition, subfilter⟩) := by
  by_cases hcollection : t.operation = .collectionCondition
  · rw [Draft.emitLeaf, hcollection, Filter.subqueries_condition hcollection]
    cases condition with
    | none =>
      rw [Draft.emitCondition, Draft.test, hcollection]
      exact fail _
    | some c =>
      rw [Filter.conditionSubqueries_some]
      exact emitCondition t (hcondition c rfl)
  by_cases hsubquery : t.operation = .subquery
  · rw [Draft.emitLeaf, hsubquery]
    cases subfilter with
    | none => exact subquery hsubquery nothing
    | some f => exact subquery hsubquery (hsubfilter f rfl)
  · rw [Filter.subqueries_plain hcollection hsubquery, Draft.emitLeaf]
    split
    · contradiction
    · contradiction
    · exact test t

end Nests

/-- A filter, also in its positive form, writes a select for each of its nested queries. -/
theorem nests_emit_invert (k : Compiler) (f : Filter) :
    Nests k f.subqueries groupQueries (emit k f) ∧
      Nests k f.subqueries groupQueries (emit k f.invert) := by
  induction f using Filter.induction with
  | leaf t condition subfilter ihc ihs =>
    have hleaf : Nests k (Filter.leaf ⟨t, condition, subfilter⟩).subqueries groupQueries
        (emitLeaf k ⟨t, condition, subfilter⟩) := .emitLeaf ihc fun f hf => (ihs f hf).1
    refine ⟨hleaf, ?_⟩
    rw [← emitInverse_eq, emitInverse]
    split
    · rename_i operation hinverse
      have hsimple : t.operation ≠ .collectionCondition ∧ t.operation ≠ .subquery := by
        constructor <;> intro ht <;> rw [ht] at hinverse <;> cases hinverse
      rw [Filter.subqueries_plain hsimple.1 hsimple.2]
      exact .test _
    · exact hleaf
  | composite operation children ih =>
    have hchildren := fun f hf => (ih f hf).1
    rw [Filter.subqueries_composite]
    refine ⟨.emitComposite hchildren, ?_⟩
    obtain _ | ⟨only, _ | ⟨second, rest⟩⟩ := children
    · exact .emitComposite (c := ⟨.and, []⟩) hchildren
    · rw [List.flatMap_singleton]
      exact hchildren only (List.mem_singleton.mpr rfl)
    · exact .emitComposite (c := ⟨.and, only :: second :: rest⟩) hchildren

/-- A filter writes a select for each of its nested queries. -/
theorem nests_emit (k : Compiler) (f : Filter) : Nests k f.subqueries groupQueries (emit k f) :=
  (nests_emit_invert k f).1

end Draft

end ObjectQuery
