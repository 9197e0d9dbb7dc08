import ObjectQuery.Proofs.Declarations.Rendering
import ObjectQuery.Statement

/-!
# Scoped statements

Every alias that a select refers to has to be declared by the select itself, and the alias that an
association is joined from has to be declared in front of the join.

* `SourceList.aliasNames`: the aliases that sources declare, in the order of the text.
* `SourceList.InOrder`: every association is joined behind the alias that it is joined from.
* `Select.aliasNames`: the aliases that a select refers to, without those of nested selects.
* `Condition.selects`, `Select.nested`: the nested selects, at any depth.
* `Select.Scoped`, `Delete.Scoped`: statements that declare what they refer to.
-/

namespace ObjectQuery

/-! ## Declarations -/

/-- The alias that an association is joined from. -/
def Join.owner? (j : Join) : Option String :=
  match j.path with
  | .association owner _ => some owner
  | .onCondition .. => none

/-- The aliases of a source and of its joins. -/
def SourceItem.aliasNames (i : SourceItem) : List String :=
  i.source.aliasName :: i.joins.map (·.aliasName)

/-- The aliases that sources declare, in the order of the text. -/
def SourceList.aliasNames (sources : SourceList) : List String :=
  sources.flatMap SourceItem.aliasNames

/-- Behind declared aliases, every join stands behind the alias that it is joined from. -/
def JoinsInOrder (declared : List String) : List Join → Prop
  | [] => True
  | j :: rest => (∀ owner ∈ j.owner?, owner ∈ declared) ∧
      JoinsInOrder (declared ++ [j.aliasName]) rest

/-- Behind declared aliases, every join of the sources stands behind the alias that it is joined
from. -/
def SourceList.InOrder (declared : List String) : SourceList → Prop
  | [] => True
  | i :: rest => JoinsInOrder (declared ++ [i.source.aliasName]) i.joins ∧
      InOrder (declared ++ i.aliasNames) rest

/-! ## References -/

/-- The alias in a reference, if there is one. -/
def Reference.aliasNames (r : Reference) : List String := r.alias?.toList

/-- The aliases in a correlation. A text may refer to anything and counts as an alias itself. -/
def Correlation.aliasNames : Correlation → List String
  | equal left right => left.aliasNames ++ right.aliasNames
  | element member collection => member.aliasNames ++ collection.aliasNames
  | verbatim text => [text]

/-- The aliases in the condition of a join. -/
def Join.mentioned (j : Join) : List String := j.condition?.elim [] Correlation.aliasNames

/-- The alias in an item of a select list. -/
def SelectItem.aliasNames : SelectItem → List String
  | entity aliasName => [aliasName]
  | reference r => r.aliasNames
  | count _ aliasName => [aliasName]

/-- The aliases in a predicate, without those of a nested select. -/
def Atom.aliasNames : Atom → List String
  | .comparison left _ _ _ | .membership left _ => left.reference.aliasNames
  | .nullCheck reference _ | .emptyCheck reference | .inSelect reference _ _ => reference.aliasNames
  | .correlated correlation => correlation.aliasNames
  | .never => []

mutual

/-- The aliases in a condition, without those of nested selects. -/
def Condition.aliasNames : Condition → List String
  | .atom predicate => predicate.aliasNames
  | .chain members | .group _ members => conditionAliasNames members
  | .negation condition => condition.aliasNames
  | .unfinished _ members => conditionAliasNames members

/-- The aliases in several conditions. -/
def conditionAliasNames : List Condition → List String
  | [] => []
  | c :: rest => c.aliasNames ++ conditionAliasNames rest

end

mutual

/-- The select in a predicate, with those nested in it. -/
def Atom.selects : Atom → List Select
  | .inSelect _ _ query => query :: query.nested
  | .comparison .. | .membership .. | .nullCheck .. | .emptyCheck _ | .never | .correlated _ => []

/-- The selects in a condition, at any depth. -/
def Condition.selects : Condition → List Select
  | .atom predicate => predicate.selects
  | .chain members | .group _ members => conditionSelects members
  | .negation condition => condition.selects
  | .unfinished _ members => conditionSelects members

/-- The selects nested in a select, at any depth. -/
def Select.nested : Select → List Select
  | ⟨_, _, _, conditions, _, having, _⟩ => conditionSelects conditions ++ groupSelects having

/-- The selects in several conditions. -/
def conditionSelects : List Condition → List Select
  | [] => []
  | c :: rest => c.selects ++ conditionSelects rest

/-- The selects in a group that may hold nothing. -/
def groupSelect : Option Condition → List Select
  | none => []
  | some c => c.selects

/-- The selects in several groups. -/
def groupSelects : List (Option Condition) → List Select
  | [] => []
  | g :: rest => groupSelect g ++ groupSelects rest

end

/-- The aliases that a select refers to in its select list, the conditions of its joins, its
conditions, its grouping with the groups of conditions on aggregates, and its order. -/
def Select.aliasNames (s : Select) : List String :=
  s.items.flatMap SelectItem.aliasNames ++ s.sources.joins.flatMap Join.mentioned ++
    s.conditions.flatMap Condition.aliasNames ++ s.groupBy.flatMap Reference.aliasNames ++
    s.having.flatMap (·.elim [] Condition.aliasNames) ++
    s.orderBy.flatMap fun t => t.reference.aliasNames

/-- The aliases that a deletion refers to. -/
def Delete.aliasNames (d : Delete) : List String :=
  d.sources.joins.flatMap Join.mentioned ++ d.conditions.flatMap Condition.aliasNames

/-- The select declares every alias that it refers to, and joins behind the aliases joined from. -/
structure Select.Scoped (s : Select) : Prop where
  declared : s.aliasNames ⊆ s.sources.aliasNames
  inOrder : s.sources.InOrder []

/-- The deletion declares every alias that it refers to, and joins behind the aliases joined
from. -/
structure Delete.Scoped (d : Delete) : Prop where
  declared : d.aliasNames ⊆ d.sources.aliasNames
  inOrder : d.sources.InOrder []

/-! ## Lists -/

theorem conditionAliasNames_eq (cs : List Condition) :
    conditionAliasNames cs = cs.flatMap Condition.aliasNames := by
  induction cs with
  | nil => rfl
  | cons c rest ih => rw [conditionAliasNames, ih, List.flatMap_cons]

theorem conditionSelects_eq (cs : List Condition) :
    conditionSelects cs = cs.flatMap Condition.selects := by
  induction cs with
  | nil => rfl
  | cons c rest ih => rw [conditionSelects, ih, List.flatMap_cons]

theorem groupSelects_eq (gs : List (Option Condition)) :
    groupSelects gs = gs.flatMap groupSelect := by
  induction gs with
  | nil => rfl
  | cons g rest ih => rw [groupSelects, ih, List.flatMap_cons]

theorem SourceList.mem_aliasNames {sources : SourceList} {x : String} :
    x ∈ sources.aliasNames ↔ x ∈ sources.map (·.source.aliasName) ∨
      x ∈ sources.joins.map (·.aliasName) := by
  unfold aliasNames joins
  simp only [List.mem_flatMap, SourceItem.aliasNames, List.mem_cons, List.mem_map, List.map_flatMap]
  constructor
  · rintro ⟨i, hi, rfl | hj⟩
    · exact .inl ⟨i, hi, rfl⟩
    · exact .inr ⟨i, hi, hj⟩
  · rintro (⟨i, hi, rfl⟩ | ⟨i, hi, hj⟩)
    · exact ⟨i, hi, .inl rfl⟩
    · exact ⟨i, hi, .inr hj⟩

/-! ## Order -/

namespace JoinsInOrder

variable {declared declared' : List String} {joins joins' : List Join}

/-- More aliases may be declared in front. -/
theorem mono (h : JoinsInOrder declared joins) (hsub : declared ⊆ declared') :
    JoinsInOrder declared' joins := by
  induction joins generalizing declared declared' with
  | nil => trivial
  | cons j rest ih =>
    obtain ⟨howner, hrest⟩ := h
    exact ⟨fun owner ho => hsub (howner owner ho),
      ih hrest (List.append_subset.mpr ⟨List.Subset.trans hsub (List.subset_append_left _ _),
        List.subset_append_right _ _⟩)⟩

theorem append (h : JoinsInOrder declared joins)
    (h' : JoinsInOrder (declared ++ joins.map (·.aliasName)) joins') :
    JoinsInOrder declared (joins ++ joins') := by
  induction joins generalizing declared with
  | nil =>
    rw [List.map_nil, List.append_nil] at h'
    exact h'
  | cons j rest ih =>
    obtain ⟨howner, hrest⟩ := h
    refine ⟨howner, ih hrest ?_⟩
    rw [List.append_assoc, List.singleton_append]
    exact h'

/-- Joins may bring along further joins that start from them. -/
theorem flatMap {f : Join → List Join} (h : JoinsInOrder declared joins)
    (hf : ∀ j ∈ joins, ∃ rest, f j = j :: rest ∧ JoinsInOrder [j.aliasName] rest) :
    JoinsInOrder declared (joins.flatMap f) := by
  induction joins generalizing declared with
  | nil => trivial
  | cons j others ih =>
    obtain ⟨howner, hothers⟩ := h
    obtain ⟨hj, hrest⟩ := List.forall_mem_cons.mp hf
    obtain ⟨rest, heq, hbehind⟩ := hj
    rw [List.flatMap_cons, heq]
    refine append ⟨howner, hbehind.mono (List.subset_append_right _ _)⟩
      (ih (hothers.mono ?_) hrest)
    rw [List.map_cons]
    exact List.append_subset.mpr ⟨List.subset_append_left _ _,
      List.cons_subset.mpr ⟨List.mem_append_right _ List.mem_cons_self, List.nil_subset _⟩⟩

end JoinsInOrder

/-- Sources whose joins start from them or from each other are in order. -/
theorem SourceList.InOrder.of_items {sources : SourceList} (declared : List String)
    (h : ∀ i ∈ sources, JoinsInOrder [i.source.aliasName] i.joins) : sources.InOrder declared := by
  induction sources generalizing declared with
  | nil => trivial
  | cons i rest ih =>
    obtain ⟨hi, hrest⟩ := List.forall_mem_cons.mp h
    exact ⟨hi.mono (List.subset_append_right _ _), ih _ hrest⟩

end ObjectQuery
