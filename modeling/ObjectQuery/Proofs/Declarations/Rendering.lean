import Mathlib.Data.List.Perm.Basic
import ObjectQuery.Proofs.Declarations.Emission

/-!
# The sources of a statement

The aliases of a query are declared where its sources are listed, each with the joins that hang off
it. A class joined under a condition brings its own joins along.

* `SourceList.joins`: the joins in a list of sources.
* `Aliases.sources_sourceList`: every source is listed once.
* `Aliases.mem_joins_sourceList`: every join is listed.
* `Aliases.Records.joins_sourceList`: every join is listed once if the aliases of the classes are
  distinct.
* `Aliases.Records.nodup_declared`: the aliases of sources and joins are distinct if the namings
  fit.
-/

namespace ObjectQuery

/-- The joins in a list of sources, in the order of the text. -/
def SourceList.joins (sources : SourceList) : List Join := sources.flatMap (·.joins)

namespace Aliases

open scoped List

variable {a : Aliases} {c : Catalog} {ns : List Naming} {instances : Nat}

/-- Every source is listed once. -/
theorem sources_sourceList (a : Aliases) : (a.sourceList.map (·.source)).Perm a.sources := by
  have hlisted : a.sourceList.map (·.source) =
      a.sources.filter (!·.theta) ++ a.sources.filter (·.theta) := by
    unfold sourceList
    rw [List.map_map]
    exact List.map_id _
  have hparts := List.filter_append_perm (·.theta) a.sources
  rw [hlisted]
  exact List.perm_append_comm.trans hparts

/-- The joins behind the aliases of the sources. -/
theorem joins_sourceList_perm (a : Aliases) :
    a.sourceList.joins.Perm ((a.sources.map (·.aliasName)).flatMap a.joinsBehind) := by
  have hjoins : a.sourceList.joins =
      (a.sourceList.map (·.source)).flatMap fun s => a.joinsBehind s.aliasName := by
    unfold SourceList.joins sourceList
    rw [List.flatMap_map, List.map_map, List.flatMap_map]
    rfl
  rw [hjoins, List.flatMap_map (fun s : Source => s.aliasName) a.joinsBehind]
  exact a.sources_sourceList.flatMap_right _

/-! ## Every join -/

theorem mem_joinsOf {j : Join} {x : String} : j ∈ a.joinsOf x ↔ j ∈ a.joins ∧ j.rootAlias = x := by
  rw [joinsOf, List.mem_filter, beq_iff_eq]

/-- Whether the joins of a class joined under a condition follow its own. -/
def leads (a : Aliases) (x : String) (j : Join) : Bool :=
  !j.isNavigated && j.aliasName != x && !a.isSourceAlias j.aliasName

theorem isSourceAlias_iff {x : String} :
    a.isSourceAlias x = true ↔ x ∈ a.sources.map (·.aliasName) := by
  rw [isSourceAlias, List.any_eq_true, List.mem_map]
  simp only [beq_iff_eq]

theorem mem_joinsBehind {j : Join} {x : String} :
    j ∈ a.joinsBehind x ↔ j ∈ a.joinsOf x ∨
      ∃ o ∈ a.joinsOf x, a.leads x o = true ∧ j ∈ a.joinsOf o.aliasName := by
  have hone : ∀ o, j ∈ (if a.leads x o then o :: a.joinsOf o.aliasName else [o]) ↔
      j = o ∨ a.leads x o = true ∧ j ∈ a.joinsOf o.aliasName := by
    intro o
    split
    · rename_i hleads
      rw [List.mem_cons, hleads]
      simp
    · rename_i hleads
      rw [List.mem_singleton]
      simp [hleads]
  unfold joinsBehind
  rw [List.mem_flatMap]
  constructor
  · rintro ⟨o, ho, hj⟩
    obtain rfl | ⟨hleads, hj⟩ := (hone o).mp hj
    · exact .inl ho
    · exact .inr ⟨o, ho, hleads, hj⟩
  · rintro (hj | ⟨o, ho, hleads, hj⟩)
    · exact ⟨j, hj, (hone j).mpr (.inl rfl)⟩
    · exact ⟨o, ho, (hone o).mpr (.inr ⟨hleads, hj⟩)⟩

/-- Every join is listed, and nothing else: it hangs off a source, or off a class joined under a
condition, which hangs off the query class. -/
theorem mem_joins_sourceList (horderly : a.Orderly (· ∈ a.classesDeclared)) (hrooted : a.Rooted)
    {j : Join} : j ∈ a.sourceList.joins ↔ j ∈ a.joins := by
  rw [a.joins_sourceList_perm.mem_iff, List.mem_flatMap]
  constructor
  · rintro ⟨x, -, hj⟩
    obtain hj | ⟨o, -, -, hj⟩ := mem_joinsBehind.mp hj <;> exact (mem_joinsOf.mp hj).1
  · intro hj
    have hsource : ∀ x ∈ a.sources.map (·.aliasName), j.rootAlias = x →
        ∃ x ∈ a.sources.map (·.aliasName), j ∈ a.joinsBehind x := fun x hx hroot =>
      ⟨x, hx, mem_joinsBehind.mpr (.inl (mem_joinsOf.mpr ⟨hj, hroot⟩))⟩
    by_cases hnavigated : j.isNavigated = true
    · rcases List.mem_append.mp (horderly.roots j hj hnavigated) with hroot | hroot
      · exact hsource _ hroot rfl
      · obtain ⟨o, ho, hname⟩ := List.mem_map.mp hroot
        obtain ⟨ho, houter⟩ := List.mem_filter.mp ho
        have horoot := hrooted.outer o ho (by simpa using houter)
        by_cases hsources : o.aliasName ∈ a.sources.map (·.aliasName)
        · exact hsource _ hsources hname.symm
        · refine ⟨a.rootAlias, hrooted.root, mem_joinsBehind.mpr (.inr ⟨o, mem_joinsOf.mpr
            ⟨ho, horoot⟩, ?_, mem_joinsOf.mpr ⟨hj, hname.symm⟩⟩)⟩
          have hne : o.aliasName ≠ a.rootAlias := fun heq => hsources (heq ▸ hrooted.root)
          have hnot : a.isSourceAlias o.aliasName = false :=
            Bool.eq_false_iff.mpr fun hmem => hsources (isSourceAlias_iff.mp hmem)
          rw [leads, houter, hnot, bne_iff_ne.mpr hne]
          rfl
    · exact hsource _ hrooted.root (hrooted.outer j hj (by simpa using hnavigated))

theorem Records.mem_joins_sourceList (h : a.Records c ns instances) {j : Join} :
    j ∈ a.sourceList.joins ↔ j ∈ a.joins :=
  Aliases.mem_joins_sourceList h.orderly h.rooted

/-! ## Every join once -/

/-- The joins of several aliases, each counted once. -/
theorem joinsOf_perm {aliasNames : List String} (h : aliasNames.Nodup) :
    (aliasNames.flatMap a.joinsOf).Perm (a.joins.filter (aliasNames.contains ·.rootAlias)) := by
  induction aliasNames with
  | nil => simp
  | cons x rest ih =>
    obtain ⟨hx, hrest⟩ := List.nodup_cons.mp h
    -- The joins of the first alias are apart from those of the others.
    have hfirst : (a.joins.filter ((x :: rest).contains ·.rootAlias)).filter (·.rootAlias == x) =
        a.joinsOf x := by
      rw [List.filter_filter, joinsOf]
      refine List.filter_congr fun j _ => ?_
      by_cases hj : j.rootAlias = x <;> simp [hj]
    have hothers : (a.joins.filter ((x :: rest).contains ·.rootAlias)).filter (!·.rootAlias == x) =
        a.joins.filter (rest.contains ·.rootAlias) := by
      rw [List.filter_filter]
      refine List.filter_congr fun j _ => ?_
      by_cases hj : j.rootAlias = x
      · simp [hj, hx]
      · simp [hj]
    have hparts := List.filter_append_perm (·.rootAlias == x)
      (a.joins.filter ((x :: rest).contains ·.rootAlias))
    rw [hfirst, hothers] at hparts
    rw [List.flatMap_cons]
    exact ((ih hrest).append_left _).trans hparts

/-- Items before what follows from them. -/
theorem flatMap_cons_perm {α : Type} (p : α → Bool) (f : α → List α) (l : List α) :
    (l.flatMap fun x => if p x then x :: f x else [x]).Perm (l ++ (l.filter p).flatMap f) := by
  induction l with
  | nil => exact .nil
  | cons x rest ih =>
    rw [List.flatMap_cons]
    by_cases hp : p x = true
    · rw [if_pos hp, List.filter_cons_of_pos hp, List.flatMap_cons, List.cons_append,
        List.cons_append]
      exact ((ih.append_left _).trans (List.perm_append_comm_assoc _ _ _)).cons x
    · rw [if_neg hp, List.filter_cons_of_neg hp]
      exact ih.cons x

/-- Behind a source, all the classes joined under a condition lead their own joins if no two classes
share an alias: none of them is a source. -/
theorem leads_source (hnodup : a.classesDeclared.Nodup) {x : String} {j : Join}
    (hx : x ∈ a.sources.map (·.aliasName)) (hj : j ∈ a.joinsOf x) :
    a.leads x j = !j.isNavigated := by
  rw [classesDeclared, List.nodup_append] at hnodup
  have hapart := hnodup.2.2
  by_cases hnavigated : j.isNavigated = true
  · rw [leads, hnavigated]
    rfl
  · have hmem : j.aliasName ∈ (a.joins.filter (!·.isNavigated)).map (·.aliasName) :=
      List.mem_map_of_mem (List.mem_filter.mpr ⟨(mem_joinsOf.mp hj).1, by simp [hnavigated]⟩)
    have hne : j.aliasName ≠ x := fun heq => hapart x hx _ hmem heq.symm
    have hnot : a.isSourceAlias j.aliasName = false :=
      Bool.eq_false_iff.mpr fun hsource => hapart _ (isSourceAlias_iff.mp hsource) _ hmem rfl
    rw [leads, hnot, bne_iff_ne.mpr hne]
    simp

theorem joinsBehind_perm (hnodup : a.classesDeclared.Nodup) {x : String}
    (hx : x ∈ a.sources.map (·.aliasName)) :
    (a.joinsBehind x).Perm (a.joinsOf x ++
      ((a.joinsOf x).filter (!·.isNavigated)).flatMap (a.joinsOf ·.aliasName)) := by
  have hparts := flatMap_cons_perm (a.leads x) (a.joinsOf ·.aliasName) (a.joinsOf x)
  rwa [List.filter_congr fun _ hj => leads_source hnodup hx hj] at hparts

/-- The classes joined under a condition all hang off a source: the query class. -/
theorem Records.outerJoins_perm (h : a.Records c ns instances)
    (hsources : (a.sources.map (·.aliasName)).Nodup) :
    (((a.sources.map (·.aliasName)).flatMap a.joinsOf).filter (!·.isNavigated)).Perm
      (a.joins.filter (!·.isNavigated)) := by
  have hperm := (joinsOf_perm (a := a) hsources).filter (!·.isNavigated)
  have hroot : ∀ j ∈ a.joins, (!j.isNavigated && (a.sources.map (·.aliasName)).contains
      j.rootAlias) = !j.isNavigated := by
    intro j hj
    by_cases hnavigated : j.isNavigated = true
    · rw [hnavigated]
      rfl
    · rw [h.rooted.outer j hj (by simpa using hnavigated),
        List.contains_iff_mem.mpr h.rooted.root, Bool.and_true]
  rwa [List.filter_filter, List.filter_congr hroot] at hperm

/-- Every join hangs off a declared class. -/
theorem Records.joinsOf_classesDeclared (h : a.Records c ns instances)
    (hnodup : a.classesDeclared.Nodup) :
    (a.classesDeclared.flatMap a.joinsOf).Perm a.joins := by
  have hperm := joinsOf_perm (a := a) hnodup
  have hroot : ∀ j ∈ a.joins, a.classesDeclared.contains j.rootAlias = true := by
    intro j hj
    rw [List.contains_iff_mem]
    by_cases hnavigated : j.isNavigated = true
    · exact h.orderly.roots j hj hnavigated
    · rw [h.rooted.outer j hj (by simpa using hnavigated)]
      exact List.mem_append_left _ h.rooted.root
  rwa [List.filter_eq_self.mpr hroot] at hperm

/-- Every join is listed once if no two classes share an alias. -/
theorem Records.joins_sourceList (h : a.Records c ns instances) (hnodup : a.classesDeclared.Nodup) :
    a.sourceList.joins.Perm a.joins := by
  have hsources : (a.sources.map (·.aliasName)).Nodup := (List.nodup_append.mp hnodup).1
  calc a.sourceList.joins
    _ ~ (a.sources.map (·.aliasName)).flatMap a.joinsBehind := a.joins_sourceList_perm
    _ ~ (a.sources.map (·.aliasName)).flatMap fun x =>
          a.joinsOf x ++ ((a.joinsOf x).filter (!·.isNavigated)).flatMap (a.joinsOf ·.aliasName) :=
        .flatMap_left _ fun _ hx => joinsBehind_perm hnodup hx
    _ ~ (a.sources.map (·.aliasName)).flatMap a.joinsOf ++
          (a.sources.map (·.aliasName)).flatMap fun x =>
            ((a.joinsOf x).filter (!·.isNavigated)).flatMap (a.joinsOf ·.aliasName) :=
        (List.flatMap_append_perm _ _ _).symm
    _ = (a.sources.map (·.aliasName)).flatMap a.joinsOf ++
          (((a.sources.map (·.aliasName)).flatMap a.joinsOf).filter (!·.isNavigated)).flatMap
            (a.joinsOf ·.aliasName) := by
        rw [List.filter_flatMap, List.flatMap_assoc]
    _ ~ (a.sources.map (·.aliasName)).flatMap a.joinsOf ++
          (a.joins.filter (!·.isNavigated)).flatMap (a.joinsOf ·.aliasName) :=
        ((h.outerJoins_perm hsources).flatMap_right _).append_left _
    _ = a.classesDeclared.flatMap a.joinsOf := by
        rw [classesDeclared, List.flatMap_append, List.flatMap_map (·.aliasName) a.joinsOf
          (a.joins.filter (!·.isNavigated))]
    _ ~ a.joins := h.joinsOf_classesDeclared hnodup

/-! ## Distinct aliases -/

/-- The aliases of sources and joins. -/
def declared (a : Aliases) : List String :=
  a.sources.map (·.aliasName) ++ a.joins.map (·.aliasName)

theorem declared_perm (a : Aliases) :
    a.declared ~ a.classesDeclared ++ (a.joins.filter (·.isNavigated)).map (·.aliasName) := by
  unfold declared classesDeclared
  rw [List.append_assoc]
  refine .append_left _ ?_
  rw [← List.map_append]
  refine .map _ (.symm ?_)
  exact List.perm_append_comm.trans (List.filter_append_perm _ _)

/-- The aliases are distinct if the namings fit: those of joined associations have underscores, and
those of classes have none. -/
theorem Records.nodup_declared (h : a.Records c ns instances)
    (hclasses : ∀ C, c.isKnown C = true → '_' ∉ C.toList) :
    a.declared.Nodup ↔ Naming.areFit [] ns = true := by
  rw [a.declared_perm.nodup_iff, List.nodup_append, ← h.history.distinct]
  refine ⟨fun hboth => hboth.1, fun hnodup => ⟨hnodup, h.orderly.distinct, ?_⟩⟩
  rintro x hx _ hy rfl
  obtain ⟨C, number, rfl, ⟨n, hn, rfl⟩, -⟩ := h.history.names x hx
  obtain ⟨j, hj, hname⟩ := List.mem_map.mp hy
  obtain ⟨hj, hnavigated⟩ := List.mem_filter.mp hj
  obtain ⟨rootClass, path, i, hjoin, -⟩ := h.orderly.numbered j hj hnavigated
  have hmark := underscore_mem_joinAliasName rootClass path i
  rw [← hjoin, hname] at hmark
  exact underscore_not_mem_classAliasName (hclasses _ (h.known n hn)) number hmark

end Aliases

end ObjectQuery
