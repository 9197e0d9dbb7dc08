import ObjectQuery.Proofs.Emission.Steps
import ObjectQuery.Proofs.Paths.Joining
import ObjectQuery.Proofs.Step.Agreement

/-!
# Joins made for the clauses of a select

Order, projection and grouping resolve paths one after the other, until one of them cannot be
resolved. Of the draft they change nothing but the joins, to which they add.

* `SelectSpec.paths`: the paths in the order in which they are resolved.
* `Draft.resolvePaths`: their resolution, without what becomes of the references.
* `Draft.joinsMade`: the joins that are added, each with the path that it is made for.
* `Draft.assembleSelect_joins`: what a select leaves of its draft, also where it fails.
-/

namespace ObjectQuery

open Step

/-- A path in a clause of a select, and whether its associations are joined by outer joins. -/
structure ClausePath where
  path : String
  outer : Bool
  deriving DecidableEq, Repr, Inhabited

namespace SelectSpec

/-- Whether a column counts rows, for which no path is resolved. -/
def countsRows (column : String) : Bool := Text.occursIn "count(*)".toList column.toList

/-- The paths of the order, the projection and the grouping. -/
def paths (s : SelectSpec) : List ClausePath :=
  s.orderings.map (fun o => ⟨o.property, true⟩) ++
    ((s.projection.filter (!countsRows ·)).map (fun column => ⟨column, !countsDistinct column⟩) ++
      s.groupBy.map fun property => ⟨property, false⟩)

/-- Only groupings and counts of distinct values may make inner joins. -/
theorem outer_of_mem_paths {s : SelectSpec} (hgroup : s.groupBy = [])
    (hcounts : ∀ column ∈ s.projection, countsDistinct column = false) :
    ∀ p ∈ s.paths, p.outer = true := by
  intro p hp
  rw [paths, hgroup, List.map_nil, List.append_nil, List.mem_append, List.mem_map,
    List.mem_map] at hp
  rcases hp with ⟨o, -, rfl⟩ | ⟨column, hcolumn, rfl⟩
  · rfl
  · simp [hcounts column (List.mem_filter.mp hcolumn).1]

end SelectSpec

namespace Draft

variable {k : Compiler} {d e : Draft}

/-- Resolving the path of a clause only adds joins. -/
theorem resolveClause_state (k : Compiler) (p : ClausePath) (d : Draft) :
    ∃ a, ((resolveClause k p.path p.outer).run d).state = d.withAliases a ∧
      d.aliases.Joining p.outer a := by
  have haliased : (aliased (Aliases.resolve k.catalog p.path { outer := p.outer })).Leaves
      (fun e => ∃ a, e = d.withAliases a ∧ d.aliases.Joining p.outer a)
      (fun e => ∃ a, e = d.withAliases a ∧ d.aliases.Joining p.outer a) d :=
    (Aliases.resolve_joining p.path { outer := p.outer } d.aliases).zoom
      (fun a ha => ⟨a, rfl, ha⟩) fun a ha => ⟨a, rfl, ha⟩
  refine (haliased.bind fun r e he => ?_).state
  cases r with
  | some reference => exact .pure he
  | none => exact .get_bind (.fail he)

/-! ## Paths in turn -/

/-- Resolves the paths of clauses one after the other. -/
def resolvePaths (k : Compiler) : List ClausePath → Step Draft Unit
  | [] => pure ()
  | p :: rest => do
    let _ ← resolveClause k p.path p.outer
    resolvePaths k rest

/-- The joins that are added while paths are resolved one after the other, each with the path that
it is made for. Nothing is added behind a path that cannot be resolved. -/
def joinsInTurn (k : Compiler) : List ClausePath → Draft → List (ClausePath × Join)
  | [], _ => []
  | p :: rest, d =>
    let o := (resolveClause k p.path p.outer).run d
    (o.state.aliases.joins.drop d.aliases.joins.length).map (p, ·) ++
      match o.result with
      | .ok _ => joinsInTurn k rest o.state
      | .error _ => []

theorem resolvePaths_append (k : Compiler) (ps qs : List ClausePath) :
    resolvePaths k (ps ++ qs) = (do resolvePaths k ps; resolvePaths k qs) := by
  induction ps with
  | nil => rfl
  | cons p rest ih => simp only [List.cons_append, resolvePaths, ih, bind_assoc]

/-- What is added for one path. -/
theorem joins_drop (k : Compiler) (p : ClausePath) (d : Draft) :
    ∃ a added, ((resolveClause k p.path p.outer).run d).state = d.withAliases a ∧
      a.sources = d.aliases.sources ∧ a.joins = d.aliases.joins ++ added ∧
      a.joins.drop d.aliases.joins.length = added ∧
      (p.outer = true → ∀ j ∈ added, j.joinType = .leftOuter) := by
  obtain ⟨a, hstate, hsources, -, added, hjoins, hkinds⟩ := resolveClause_state k p d
  refine ⟨a, added, hstate, hsources, hjoins, ?_, fun houter j hj => ?_⟩
  · rw [hjoins, List.drop_left]
  · rw [(hkinds j hj).2, houter]
    rfl

/-- Paths that are resolved in turn add their joins in turn. -/
theorem resolvePaths_state (k : Compiler) (ps : List ClausePath) (d : Draft) :
    ∃ a, ((resolvePaths k ps).run d).state = d.withAliases a ∧
      a.sources = d.aliases.sources ∧
      a.joins = d.aliases.joins ++ (joinsInTurn k ps d).map (·.2) := by
  induction ps generalizing d with
  | nil => exact ⟨d.aliases, rfl, rfl, (List.append_nil _).symm⟩
  | cons p rest ih =>
    obtain ⟨a, added, hstate, hsources, hjoins, hdrop, -⟩ := joins_drop k p d
    rw [resolvePaths, run_bind, joinsInTurn]
    revert hstate
    rcases (resolveClause k p.path p.outer).run d with ⟨_ | r, u, events⟩ <;> rintro rfl
    · refine ⟨a, rfl, hsources, ?_⟩
      rw [hjoins, List.append_nil, List.map_map]
      exact congrArg _ (by rw [← hdrop]; exact (List.map_id _).symm)
    · obtain ⟨b, hrest, hsources', hjoins'⟩ := ih (d.withAliases a)
      refine ⟨b, hrest, hsources'.trans hsources, ?_⟩
      have hadded : (((d.withAliases a).aliases.joins.drop d.aliases.joins.length).map
          (p, ·)).map (·.2) = added := by
        rw [List.map_map]
        exact (List.map_id _).trans hdrop
      rw [List.map_append, hadded, ← List.append_assoc, ← hjoins]
      exact hjoins'

theorem of_mem_joinsInTurn {ps : List ClausePath} {p : ClausePath} {j : Join}
    (h : (p, j) ∈ joinsInTurn k ps d) :
    p ∈ ps ∧ (p.outer = true → j.joinType = .leftOuter) := by
  induction ps generalizing d with
  | nil => cases h
  | cons first rest ih =>
    rw [joinsInTurn, List.mem_append] at h
    rcases h with h | h
    · obtain ⟨a, added, hstate, -, -, hdrop, houter⟩ := joins_drop k first d
      obtain ⟨j, hj, heq⟩ := List.mem_map.mp h
      cases heq
      rw [hstate] at hj
      change j ∈ a.joins.drop d.aliases.joins.length at hj
      rw [hdrop] at hj
      exact ⟨List.mem_cons_self, fun ho => houter ho j hj⟩
    · split at h
      · obtain ⟨hp, houter⟩ := ih h
        exact ⟨List.mem_cons_of_mem _ hp, houter⟩
      · cases h

/-! ## Clauses -/

theorem state_get_bind {α : Type} (f : Draft → Step Draft α) (d : Draft) :
    ((Step.get >>= f).run d).state = ((f d).run d).state :=
  rfl

/-- Two steps that leave the same state and that both succeed or both fail. -/
abbrev SameCourse {α β : Type} (x : Step Draft α) (y : Step Draft β) : Prop :=
  Agrees Eq (fun _ _ => True) x y

theorem SameCourse.get_bind {α β : Type} {f : Draft → Step Draft α} {y : Step Draft β}
    (h : ∀ d, SameCourse (f d) y) : SameCourse (Step.get >>= f) y :=
  fun d e hde => h d d e hde

/-- What is made of a result does not matter for the course. -/
theorem SameCourse.ending {α β : Type} {x : Step Draft α} {y : Step Draft Unit}
    {f : α → Step Draft β} (h : SameCourse x y)
    (hf : ∀ a, SameCourse (f a) (pure () : Step Draft Unit)) : SameCourse (x >>= f) y := by
  have hboth : SameCourse (x >>= f) (y >>= pure) := Agrees.bind h fun a _ _ => hf a
  rwa [bind_pure] at hboth

/-- The path of a clause is resolved, and others behind it. -/
theorem SameCourse.cons {β : Type} {path : String} {outer : Bool} {ps : List ClausePath}
    {x : Reference → Step Draft β} (h : ∀ r, SameCourse (x r) (resolvePaths k ps)) :
    SameCourse (resolveClause k path outer >>= x) (resolvePaths k (⟨path, outer⟩ :: ps)) := by
  have hsame : Agrees Eq Eq (resolveClause k path outer) (resolveClause k path outer) := by
    rintro d _ rfl
    refine ⟨?_, rfl, rfl⟩
    cases ((resolveClause k path outer).run d).result <;> rfl
  exact hsame.bind fun r _ _ => h r

theorem orderTerms_course (k : Compiler) (orderings : List SortKey) :
    SameCourse (orderTerms k orderings)
      (resolvePaths k (orderings.map fun o => ⟨o.property, true⟩)) := by
  induction orderings with
  | nil => exact .pure trivial
  | cons o rest ih => exact SameCourse.cons fun r => ih.ending fun _ => .pure trivial

theorem groupTerms_course (k : Compiler) (properties : List String) :
    SameCourse (groupTerms k properties)
      (resolvePaths k (properties.map fun property => ⟨property, false⟩)) := by
  induction properties with
  | nil => exact .pure trivial
  | cons property rest ih => exact SameCourse.cons fun r => ih.ending fun _ => .pure trivial

theorem selectItem_of_countsRows {column : String} (h : SelectSpec.countsRows column = true)
    (distinct : Bool) :
    selectItem k distinct column = (do
      let d ← Step.get
      pure (.count (distinct || d.aliases.hasOuterJoins) d.aliases.rootAlias)) :=
  if_pos h

theorem selectItem_of_not_countsRows {column : String}
    (h : SelectSpec.countsRows column = false) (distinct : Bool) :
    selectItem k distinct column = (do
      let reference ← resolveClause k column (!SelectSpec.countsDistinct column)
      pure (.reference reference)) :=
  if_neg (ne_true_of_eq_false h)

theorem selectItems_course (k : Compiler) (distinct : Bool) (columns : List String) :
    SameCourse (selectItems k distinct columns)
      (resolvePaths k ((columns.filter (!SelectSpec.countsRows ·)).map
        fun column => ⟨column, !SelectSpec.countsDistinct column⟩)) := by
  induction columns with
  | nil => exact .pure trivial
  | cons column rest ih =>
    rw [selectItems, List.filter_cons]
    cases hrows : SelectSpec.countsRows column with
    | true =>
      rw [selectItem_of_countsRows hrows, bind_assoc]
      exact SameCourse.get_bind fun d => ih.ending fun _ => .pure trivial
    | false =>
      rw [selectItem_of_not_countsRows hrows, bind_assoc]
      exact SameCourse.cons fun r => ih.ending fun _ => .pure trivial

theorem selectList_course (k : Compiler) (distinct : Bool) (columns : List String) :
    SameCourse (selectList k distinct columns)
      (resolvePaths k ((columns.filter (!SelectSpec.countsRows ·)).map
        fun column => ⟨column, !SelectSpec.countsDistinct column⟩)) := by
  unfold selectList
  split
  · rename_i hempty
    rw [List.isEmpty_iff.mp hempty]
    exact SameCourse.get_bind fun d => .pure trivial
  · exact selectItems_course k distinct columns

/-- A select that is not rejected resolves the paths of its clauses in turn. -/
theorem assembleSelect_course {spec : SelectSpec}
    (hgrouped : ¬(!d.having.isEmpty && spec.groupBy.isEmpty) = true) :
    ((assembleSelect k spec).run d).state = ((resolvePaths k spec.paths).run d).state := by
  rw [assembleSelect, state_get_bind, if_neg hgrouped, SelectSpec.paths, resolvePaths_append,
    resolvePaths_append]
  refine (Agrees.bind (T := fun _ _ => True) (orderTerms_course k _) fun _ _ _ => ?_) d d rfl
    |>.state
  refine .bind (selectList_course k _ _) fun _ _ _ => ?_
  exact (groupTerms_course k _).ending fun _ => SameCourse.get_bind fun _ => .pure trivial

/-- The joins that a select adds: none if conditions on aggregates lack their grouping. -/
def joinsMade (k : Compiler) (spec : SelectSpec) (d : Draft) : List (ClausePath × Join) :=
  if !d.having.isEmpty && spec.groupBy.isEmpty then [] else joinsInTurn k spec.paths d

/-- A select changes nothing of its draft but the joins, also where it fails. -/
theorem assembleSelect_state (k : Compiler) (spec : SelectSpec) (d : Draft) :
    ∃ a, ((assembleSelect k spec).run d).state = d.withAliases a ∧
      a.sources = d.aliases.sources ∧
      a.joins = d.aliases.joins ++ (joinsMade k spec d).map (·.2) := by
  rw [joinsMade]
  by_cases hungrouped : (!d.having.isEmpty && spec.groupBy.isEmpty) = true
  · rw [assembleSelect, state_get_bind, if_pos hungrouped, if_pos hungrouped]
    exact ⟨d.aliases, rfl, rfl, (List.append_nil _).symm⟩
  · rw [assembleSelect_course hungrouped, if_neg hungrouped]
    exact resolvePaths_state k spec.paths d

/-- A select leaves the conditions, the groups and the parameters of its draft alone, and keeps its
sources and its joins, also where it fails. Each join behind these has been made for a path of its
clauses, and is an outer one unless the path is one of the grouping or counts distinct values. -/
theorem assembleSelect_joins (k : Compiler) (spec : SelectSpec) (d : Draft) :
    let e := ((assembleSelect k spec).run d).state
    let added := joinsMade k spec d
    e = d.withAliases e.aliases ∧ e.aliases.sources = d.aliases.sources ∧
      e.aliases.joins = d.aliases.joins ++ added.map (·.2) ∧
      (∀ p j, (p, j) ∈ added → p ∈ spec.paths ∧ (p.outer = true → j.joinType = .leftOuter)) ∧
      (spec.groupBy = [] → (∀ column ∈ spec.projection, SelectSpec.countsDistinct column = false) →
        e.aliases.joins.filter (·.joinType == .inner) =
          d.aliases.joins.filter (·.joinType == .inner)) := by
  obtain ⟨a, hstate, hsources, hjoins⟩ := assembleSelect_state k spec d
  have houter : ∀ p j, (p, j) ∈ joinsMade k spec d →
      p ∈ spec.paths ∧ (p.outer = true → j.joinType = .leftOuter) := by
    intro p j h
    unfold joinsMade at h
    split at h
    · cases h
    · exact of_mem_joinsInTurn h
  dsimp only
  rw [hstate]
  refine ⟨rfl, hsources, hjoins, houter, fun hgroup hcounts => ?_⟩
  have hnone : ((joinsMade k spec d).map (·.2)).filter (·.joinType == .inner) = [] := by
    refine List.filter_eq_nil_iff.mpr fun j hj => ?_
    obtain ⟨⟨p, j⟩, hmade, rfl⟩ := List.mem_map.mp hj
    obtain ⟨hp, hleft⟩ := houter p j hmade
    rw [hleft (SelectSpec.outer_of_mem_paths hgroup hcounts p hp)]
    decide
  show a.joins.filter _ = _
  rw [hjoins, List.filter_append, hnone, List.append_nil]

end Draft

end ObjectQuery
