import ObjectQuery.Proofs.Renumbering.Trees

/-!
# The nested queries of a statement

* `Condition.queries`, `Select.queries`: the selects that a predicate looks for a reference in, at
  any depth. The selects whose owners are excluded are not among them, but what is nested in those
  is.
* `Text.Within`: one text is a part of another.
* `Statement.within_render`: the text of a nested query stands in the text of the statement, in
  brackets behind the word `in`.
-/

namespace ObjectQuery

mutual

/-- The query that a predicate looks for a reference in, with those nested in the select of a
predicate. -/
def Atom.queries : Atom → List Select
  | .inSelect _ negated query => if negated then query.queries else query :: query.queries
  | .comparison .. | .membership .. | .nullCheck .. | .emptyCheck _ | .never | .correlated _ => []

/-- The nested queries of a condition, at any depth. -/
def Condition.queries : Condition → List Select
  | .atom predicate => predicate.queries
  | .chain members | .group _ members => conditionQueries members
  | .negation condition => condition.queries
  | .unfinished _ members => conditionQueries members

/-- The nested queries of a select, at any depth. Groups are written behind a grouping only. -/
def Select.queries : Select → List Select
  | ⟨_, _, _, conditions, groupBy, having, _⟩ =>
    conditionQueries conditions ++ if groupBy.isEmpty then [] else groupsQueries having

/-- The nested queries of several conditions. -/
def conditionQueries : List Condition → List Select
  | [] => []
  | c :: rest => c.queries ++ conditionQueries rest

/-- The nested queries of a group that may hold nothing. -/
def groupQueries : Option Condition → List Select
  | none => []
  | some c => c.queries

/-- The nested queries of several groups. -/
def groupsQueries : List (Option Condition) → List Select
  | [] => []
  | g :: rest => groupQueries g ++ groupsQueries rest

end

/-- The nested queries of a statement, at any depth. -/
def Statement.queries : Statement → List Select
  | .select query => query.queries
  | .delete deletion => conditionQueries deletion.conditions

/-! ## Lists -/

theorem conditionQueries_eq (cs : List Condition) :
    conditionQueries cs = cs.flatMap Condition.queries := by
  induction cs with
  | nil => rfl
  | cons c rest ih => rw [conditionQueries, ih, List.flatMap_cons]

theorem conditionQueries_append (cs ds : List Condition) :
    conditionQueries (cs ++ ds) = conditionQueries cs ++ conditionQueries ds := by
  rw [conditionQueries_eq, conditionQueries_eq, conditionQueries_eq, List.flatMap_append]

theorem conditionQueries_toList (c : Option Condition) :
    conditionQueries c.toList = groupQueries c := by
  cases c with
  | none => rfl
  | some c => exact List.append_nil _

theorem groupsQueries_eq (gs : List (Option Condition)) :
    groupsQueries gs = gs.flatMap groupQueries := by
  induction gs with
  | nil => rfl
  | cons g rest ih => rw [groupsQueries, ih, List.flatMap_cons]

theorem groupsQueries_append (gs hs : List (Option Condition)) :
    groupsQueries (gs ++ hs) = groupsQueries gs ++ groupsQueries hs := by
  rw [groupsQueries_eq, groupsQueries_eq, groupsQueries_eq, List.flatMap_append]

/-! ## Texts -/

namespace Text

/-- The first text is a part of the second one. -/
def Within (s t : String) : Prop := ∃ before after, t = before ++ s ++ after

namespace Within

variable {s t u : String}

theorem refl (s : String) : Within s s := ⟨"", "", by simp⟩

theorem prepend (h : Within s t) (u : String) : Within s (u ++ t) := by
  obtain ⟨before, after, rfl⟩ := h
  exact ⟨u ++ before, after, by simp [String.append_assoc]⟩

theorem append (h : Within s t) (u : String) : Within s (t ++ u) := by
  obtain ⟨before, after, rfl⟩ := h
  exact ⟨before, after ++ u, by simp [String.append_assoc]⟩

theorem joinWith {separator : String} {texts : List String} (h : t ∈ texts) (ht : Within s t) :
    Within s (Text.joinWith separator texts) := by
  match texts, h with
  | [_], h => exact List.mem_singleton.mp h ▸ ht
  | first :: second :: rest, h =>
    rcases List.mem_cons.mp h with rfl | h
    · exact (ht.append _).append _
    · exact (joinWith h ht).prepend _

/-- A clause that holds some text is not left out. -/
theorem clause {keyword : String} (ht : Within s t) (hs : s ≠ "") :
    Within s (ObjectQuery.clause keyword t) := by
  unfold ObjectQuery.clause
  split
  · rename_i hempty
    rw [beq_iff_eq] at hempty
    obtain ⟨before, after, heq⟩ := ht
    rw [hempty, eq_comm, String.append_eq_empty_iff, String.append_eq_empty_iff] at heq
    exact absurd heq.1.2 hs
  · exact ht.prepend _

end Within

end Text

open Text

/-- The text of a query behind the word `in`. -/
def Select.searched (q : Select) : String := " in (" ++ q.render ++ ")"

theorem Select.searched_ne_empty (q : Select) : q.searched ≠ "" := by
  intro h
  rw [searched, String.append_eq_empty_iff, String.append_eq_empty_iff] at h
  exact absurd h.1.1 (by decide)

mutual

/-- A nested query stands in the text of the predicate. -/
theorem Atom.within_render {q : Select} : ∀ p : Atom, q ∈ p.queries → Within q.searched p.render
  | .inSelect reference negated query, h => by
    rw [Atom.queries] at h
    rw [Atom.render]
    split at h
    · exact ((Select.within_render query h).prepend _).append ")"
    · rename_i hnegated
      rcases List.mem_cons.mp h with rfl | h
      · have htext : reference.render ++ " in (" ++ q.render ++ ")" =
            reference.render ++ q.searched := by
          rw [Select.searched, ← String.append_assoc, ← String.append_assoc]
        rw [if_neg hnegated, htext]
        exact (Within.refl _).prepend reference.render
      · exact ((Select.within_render query h).prepend _).append ")"
  | .comparison .., h | .membership .., h | .nullCheck .., h | .emptyCheck _, h | .never, h
  | .correlated _, h => by
    rw [Atom.queries] at h
    exact absurd h List.not_mem_nil

/-- A nested query stands in the text of the condition. -/
theorem Condition.within_render {q : Select} :
    ∀ c : Condition, q ∈ c.queries → Within q.searched c.render
  | .atom predicate, h => predicate.within_render h
  | .chain members, h => by
    obtain ⟨text, htext, hwithin⟩ := within_renderConditions members h
    exact hwithin.joinWith htext
  | .group disjunctive members, h => by
    obtain ⟨text, htext, hwithin⟩ := within_renderConditions members h
    exact ((hwithin.joinWith htext).prepend "(").append ")"
  | .negation condition, h => (condition.within_render h).prepend "not "
  | .unfinished separator members, h => by
    obtain ⟨text, htext, hwithin⟩ := within_renderConditions members h
    exact hwithin.joinWith htext

/-- A nested query stands in the text of the select. -/
theorem Select.within_render {q : Select} : ∀ s : Select, q ∈ s.queries → Within q.searched s.render
  | ⟨distinct, items, sources, conditions, groupBy, having, orderBy⟩, h => by
    rw [Select.queries] at h
    rw [Select.render]
    refine Within.append ?_ _
    rcases List.mem_append.mp h with h | h
    · obtain ⟨text, htext, hwithin⟩ := within_renderConditions _ h
      exact (((hwithin.joinWith htext).clause q.searched_ne_empty).prepend _).append _
    · split at h
      · exact absurd h List.not_mem_nil
      · rename_i hgrouped
        obtain ⟨text, htext, hwithin⟩ := within_renderGroups _ h
        rw [if_neg hgrouped]
        exact (((hwithin.joinWith htext).clause q.searched_ne_empty).prepend _).prepend _

/-- A nested query stands in one of the texts of the conditions. -/
theorem within_renderConditions {q : Select} : ∀ cs : List Condition, q ∈ conditionQueries cs →
    ∃ text ∈ renderConditions cs, Within q.searched text
  | [], h => absurd h List.not_mem_nil
  | c :: rest, h => by
    rw [renderConditions]
    rcases List.mem_append.mp h with h | h
    · exact ⟨_, List.mem_cons_self, c.within_render h⟩
    · obtain ⟨text, htext, hwithin⟩ := within_renderConditions rest h
      exact ⟨text, List.mem_cons_of_mem _ htext, hwithin⟩

/-- A nested query stands in the text of the group. -/
theorem within_renderGroup {q : Select} : ∀ g : Option Condition, q ∈ groupQueries g →
    Within q.searched (renderGroup g)
  | none, h => absurd h List.not_mem_nil
  | some c, h => c.within_render h

/-- A nested query stands in one of the texts of the groups. -/
theorem within_renderGroups {q : Select} : ∀ gs : List (Option Condition), q ∈ groupsQueries gs →
    ∃ text ∈ renderGroups gs, Within q.searched text
  | [], h => absurd h List.not_mem_nil
  | g :: rest, h => by
    rw [renderGroups]
    rcases List.mem_append.mp h with h | h
    · exact ⟨_, List.mem_cons_self, within_renderGroup g h⟩
    · obtain ⟨text, htext, hwithin⟩ := within_renderGroups rest h
      exact ⟨text, List.mem_cons_of_mem _ htext, hwithin⟩

end

/-- A nested query stands in the text of the statement. -/
theorem Statement.within_render {q : Select} {s : Statement} (h : q ∈ s.queries) :
    Within q.searched s.render := by
  cases s with
  | select query => exact Select.within_render query h
  | delete deletion =>
    obtain ⟨text, htext, hwithin⟩ := within_renderConditions _ h
    exact ((hwithin.joinWith htext).clause q.searched_ne_empty).prepend _

end ObjectQuery
