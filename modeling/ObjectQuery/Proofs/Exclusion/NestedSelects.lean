import ObjectQuery.Proofs.Context.Emission
import ObjectQuery.Proofs.Emission.Clauses
import ObjectQuery.Proofs.Exclusion.Collections
import ObjectQuery.Proofs.Step.Failures

/-!
# Nested selects of one column

A select that is nested in a condition gives one column of the entities that a filter accepts. If
the column is a property of their class, nothing but the filter itself can make it fail.

* `Step.GoesOn`: a step that goes on as another one.
* `Draft.nestedSelect`, `Draft.inSelect_course`: the select, and the predicate that it is nested in.
* `Path.IsProperty`, `Select.Gives`: columns that are properties, and selects of them.
* `Draft.nestedSelect_of_isProperty`: what the select of a property is, and how it fails.
-/

namespace ObjectQuery

open Step

namespace Step

variable {σ τ α β : Type}

/-- From the state `s` the step `x` goes on as `y` does from `t`. -/
structure GoesOn (x : Step σ α) (s : σ) (y : Step σ α) (t : σ) : Prop where
  yields : ∀ {a u}, y.Yields t a u → x.Yields s a u
  fails : ∀ {e}, y.Fails t e → x.Fails s e

theorem GoesOn.trans {x y z : Step σ α} {s t u : σ} (h : x.GoesOn s y t) (h' : y.GoesOn t z u) :
    x.GoesOn s z u :=
  ⟨fun hz => h.yields (h'.yields hz), fun hz => h.fails (h'.fails hz)⟩

/-- Behind its first part a step goes on as the second one. -/
theorem Yields.goesOn {x : Step σ β} {f : β → Step σ α} {s t : σ} {b : β} (h : x.Yields s b t) :
    (x >>= f).GoesOn s (f b) t :=
  ⟨fun hf => yields_bind.mpr ⟨b, t, h, hf⟩, h.bind_fails⟩

/-- A step that reads the state goes on from the same state. -/
theorem GoesOn.get (f : σ → Step σ α) (s : σ) : (Step.get >>= f).GoesOn s (f s) s :=
  ⟨fun hf => hf, fun hf => hf⟩

theorem Fails.isolated {start : τ} {x : Step τ α} {s : σ} {e : CompileError}
    (h : x.Fails start e) : (Step.isolated start x : Step σ (α × τ)).Fails s e := by
  unfold Fails at h ⊢
  show ((x.run start).result.map fun a => (a, (x.run start).state)) = _
  rw [h]
  rfl

end Step

/-- A character of a part is one of the whole. -/
theorem Text.mem_of_occursIn {part s : List Char} {c : Char} (h : occursIn part s = true)
    (hc : c ∈ part) : c ∈ s := by
  induction s with
  | nil =>
    rw [occursIn, List.isEmpty_iff] at h
    exact absurd hc (h ▸ List.not_mem_nil)
  | cons first rest ih =>
    rw [occursIn, Bool.or_eq_true, List.isPrefixOf_iff_prefix] at h
    rcases h with h | h
    · exact h.subset hc
    · exact List.mem_cons_of_mem _ (ih h)

/-- A property of a class that is no collection, named without points. -/
structure Path.IsProperty (c : Catalog) (className name : String) : Prop
    extends Path.IsOwn c className name where
  noPoint : Text.hasChar '.' name = false
  single : (c.property? className name).any (·.kind.isCollection) = false

/-- The select gives a property of the entities of a class, which it draws from first. -/
structure Select.Gives (q : Select) (className property : String) : Prop where
  items : q.items = [.reference (.at "" (Aliases.classAliasName className none) [property] "")]
  source : q.sources.head?.map (·.source) =
    some ⟨className, Aliases.classAliasName className none, false⟩

namespace Aliases

variable {a : Aliases} {c : Catalog} {name aliasName : String}

/-- A property of the innermost scope is found there, and nothing is joined. -/
theorem resolve_of_isProperty (h : Path.IsProperty c a.currentClass name)
    (halias : a.currentAlias = some aliasName) (o : Resolution) :
    (resolve c name o).Yields a (some (.at "" aliasName [name] "")) a := by
  obtain ⟨s, hscope, hs⟩ := Option.bind_eq_some_iff.mp halias
  have hclass : a.currentClass = s.className := by
    rw [currentClass, hscope]
    rfl
  have hname : name ≠ "" := by
    rintro rfl
    obtain ⟨first, hfirst, -⟩ := h.first
    cases hfirst
  have hstart : (startOf c name).Yields a
      (some (⟨aliasName, s.className, s.rootClass, s.rootPath⟩, [name])) a := by
    refine yields_get_bind.mpr ?_
    dsimp only
    rw [h.startsUpper_head, Bool.false_and, if_neg Bool.false_ne_true, hscope,
      Path.segments_of_noPoint h.noPoint hname]
    obtain ⟨kind, className, alias?, rootClass, rootPath, joined⟩ := s
    cases hs
    exact ⟨rfl, rfl⟩
  have hfollow : (follow c name o ⟨aliasName, s.className, s.rootClass, s.rootPath⟩
      [name]).Yields a (aliasName, [name]) a := by
    refine yields_bind.mpr ⟨_, a, yields_ofReported.mpr ⟨rfl, rfl⟩, ?_⟩
    have hsingle := h.single
    rw [hclass] at hsingle
    change (c.lookUp s.className name).value.any _ = false at hsingle
    generalize (c.lookUp s.className name).value = declared at hsingle ⊢
    cases declared with
    | none => exact ⟨rfl, rfl⟩
    | some p =>
      dsimp only
      rw [show p.kind.isCollection = false from hsingle]
      exact ⟨rfl, rfl⟩
  unfold resolve
  dsimp only
  rw [Path.parse_eq h.noBracket, if_neg (by simpa using h.notRows)]
  exact yields_bind.mpr ⟨_, a, hstart, yields_bind.mpr ⟨_, a, hfollow, ⟨rfl, rfl⟩⟩⟩

end Aliases

namespace Draft

variable {k : Compiler} {d e : Draft} {x : Emission} {className column : String}

/-! ## The select and its predicate -/

/-- The select of a column of the entities that a step accepts. -/
def nestedSelect (k : Compiler) (column : String) (body : Emission) :
    Step Draft (Assembled Select) := do
  let condition ← body
  Step.modify (addCondition condition)
  assembleSelect k { columns := [column] }

theorem inSelect_fails {reference : Reference} {negated : Bool} {err : CompileError}
    (h : k.registry.get className = .error err) :
    (inSelect k reference negated className column x).Fails d err := by
  have hclass : Fails (Step.ofExcept (k.registry.get className)) d err := by
    rw [h]
    rfl
  exact hclass.bind

/-- A select over a mapped class is nested in a predicate, or fails and fails the predicate. -/
theorem inSelect_course {reference : Reference} {negated : Bool} {mapping : ClassMapping}
    (h : k.registry.get className = .ok mapping) :
    (∃ query e, (nestedSelect k column x).Yields (.start className d.nextParameter) query e ∧
      (inSelect k reference negated className column x).Yields d
        (some (.atom (.inSelect reference negated query.statement)))
        { d with parameters := d.parameters ++ e.parameters }) ∨
    ∃ err, (nestedSelect k column x).Fails (.start className d.nextParameter) err ∧
      (inSelect k reference negated className column x).Fails d err := by
  have hclass : (Step.ofExcept (k.registry.get className) : Step Draft ClassMapping).Yields d
      mapping d := Step.yields_ofExcept.mpr ⟨h, rfl⟩
  rcases Step.yields_or_fails (nestedSelect k column x) (.start className d.nextParameter) with
    ⟨query, e, hquery⟩ | ⟨err, hfails⟩
  · refine .inl ⟨query, e, hquery, ((GoesOn.get _ d).trans hclass.goesOn).yields ?_⟩
    refine Step.yields_bind.mpr ⟨(query, e), d, Step.yields_isolated.mpr ⟨hquery, rfl⟩, ?_⟩
    exact Step.yields_bind.mpr ⟨(), _, Step.yields_modify.mpr rfl, ⟨rfl, rfl⟩⟩
  · exact .inr ⟨err, hfails, ((GoesOn.get _ d).trans hclass.goesOn).fails hfails.isolated.bind⟩

/-! ## Selects of a property -/

theorem selectItem_of_isProperty {name aliasName : String} {distinct : Bool}
    (h : Path.IsProperty k.catalog d.aliases.currentClass name)
    (halias : d.aliases.currentAlias = some aliasName) :
    (selectItem k distinct name).Yields d (.reference (.at "" aliasName [name] "")) d := by
  have hcount : ¬Text.occursIn "count(*)".toList name.toList = true := fun hcount =>
    Text.not_mem_of_hasChar h.noBracket (Text.mem_of_occursIn hcount (by decide))
  rw [selectItem, if_neg hcount]
  refine Step.yields_bind.mpr ⟨_, d, ?_, ⟨rfl, rfl⟩⟩
  refine Step.yields_bind.mpr ⟨some (.at "" aliasName [name] ""), d, ?_, ⟨rfl, rfl⟩⟩
  exact aliased_yields.mpr ⟨d.aliases, Aliases.resolve_of_isProperty h halias _, rfl⟩

/-- The select of one column without any other clause. -/
theorem assembleSelect_column {item : SelectItem} (hungrouped : d.having = [])
    (hitem : (selectItem k false column).Yields d item e) :
    (assembleSelect k { columns := [column] }).Yields d
      { statement :=
          { distinct := false
            items := [item]
            sources := e.aliases.sourceList
            conditions := e.conditions
            groupBy := []
            having := e.having
            orderBy := [] }
        requiresDistinctFilter := false
        spansMultipleTables := e.aliases.spansMultipleTables } e := by
  refine Step.yields_get_bind.mpr ?_
  rw [hungrouped]
  have hitems : (selectList k false [column]).Yields d [item] e :=
    Step.yields_bind.mpr ⟨item, e, hitem, ⟨rfl, rfl⟩⟩
  refine Step.yields_bind.mpr ⟨[], d, ⟨rfl, rfl⟩, ?_⟩
  refine Step.yields_bind.mpr ⟨[item], e, hitems, ?_⟩
  exact Step.yields_bind.mpr ⟨[], e, ⟨rfl, rfl⟩, ⟨rfl, rfl⟩⟩

/-- The select of a property of the class draws from the class and fails only with its filter, or if
that writes conditions on aggregates, which cannot be grouped. -/
theorem nestedSelect_of_isProperty {f : Filter} {first : Nat} {name : String}
    (h : Path.IsProperty k.catalog className name) :
    (∀ query e, (nestedSelect k name (emit k f)).Yields (.start className first) query e →
      query.statement.Gives className name) ∧
    ∀ err, (nestedSelect k name (emit k f)).Fails (.start className first) err →
      (emit k f).Fails (.start className first) err ∨
      ∃ condition u, (emit k f).Yields (.start className first) condition u ∧ u.having ≠ [] ∧
        err = .ungroupedAggregate := by
  have hcourse {condition u} (hu : (emit k f).Yields (.start className first) condition u) :
      (u.having ≠ [] ∧ (nestedSelect k name (emit k f)).Fails (.start className first)
        .ungroupedAggregate) ∨
      ∃ query, (nestedSelect k name (emit k f)).Yields (.start className first) query
        (u.addCondition condition) ∧ query.statement.Gives className name := by
    have hresumes : (start className first).Resumes u :=
      (steady_emit k f).yields hu (List.cons_ne_nil _ _)
    have halias : u.aliases.currentAlias = some (Aliases.classAliasName className none) :=
      hresumes.aliases.currentAlias
    have hclass : u.aliases.currentClass = className := hresumes.aliases.currentClass
    have hadded : (Step.modify (addCondition condition) : Step Draft Unit).Yields u ()
        (u.addCondition condition) := Step.yields_modify.mpr rfl
    have hgoes : (nestedSelect k name (emit k f)).GoesOn (.start className first)
        (assembleSelect k { columns := [name] }) (u.addCondition condition) := by
      unfold nestedSelect
      exact hu.goesOn.trans hadded.goesOn
    by_cases hungrouped : u.having = []
    · have hitem : (selectItem k false name).Yields (u.addCondition condition)
          (.reference (.at "" (Aliases.classAliasName className none) [name] ""))
          (u.addCondition condition) := selectItem_of_isProperty (hclass ▸ h) halias
      refine .inr ⟨_, hgoes.yields (assembleSelect_column hungrouped hitem), rfl, ?_⟩
      obtain ⟨more, hsources⟩ := hresumes.aliases.sources
      show u.aliases.sourceList.head?.map (·.source) = _
      rw [Aliases.sourceList, ← hsources]
      rfl
    · exact .inl ⟨hungrouped, hgoes.fails (assembleSelect_ungrouped hungrouped rfl)⟩
  constructor
  · intro query e hquery
    obtain ⟨condition, u, hu, -⟩ := Step.yields_bind.mp hquery
    obtain ⟨-, hfails⟩ | ⟨query', hquery', hgives⟩ := hcourse hu
    · exact (hquery.not_fails hfails).elim
    · cases hquery.1.symm.trans hquery'.1
      exact hgives
  · intro err hfails
    obtain hfails' | ⟨condition, u, hu, -⟩ := Step.fails_bind.mp hfails
    · exact .inl hfails'
    · obtain ⟨hne, hfails'⟩ | ⟨query, hquery, -⟩ := hcourse hu
      · cases hfails.symm.trans hfails'
        exact .inr ⟨condition, u, hu, hne, rfl⟩
      · exact (hquery.not_fails hfails).elim

end Draft

end ObjectQuery
