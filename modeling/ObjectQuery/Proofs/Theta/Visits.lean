import Mathlib.Data.List.Forall2
import ObjectQuery.Proofs.Declarations.Namings
import ObjectQuery.Proofs.Emission.Parts

/-!
# The leaves of a query in their order

Which leaves a filter emits into its query, with the joins with other classes that are made before
each of them.

* `Filter.visits`: the leaves, each with what surrounds it.
* `Filter.before_visits`: the joins before a leaf are those of the leaves before it.
* `Filter.scoped_visits`: the conditions on classes around a leaf are among the joins of the filter.
* `Filter.Omits`, `Filter.Omits.visits`: a filter with a leaf left out visits the same other leaves,
  behind which the joins of the leaf are missing.
-/

namespace ObjectQuery

/-- A condition on a class, with the joins before it and those it makes itself. -/
structure ThetaScope where
  before : List Naming
  namings : List Naming
  deriving DecidableEq

/-- A leaf that is emitted into the query. -/
structure Visit where
  leaf : Leaf
  /-- Whether the innermost condition on a collection around the leaf names a class. -/
  theta : Bool
  /-- The joins with other classes before the leaf. -/
  before : List Naming
  /-- The conditions on classes around the leaf, innermost first. -/
  around : List ThetaScope

/-- A scope behind further joins. -/
def ThetaScope.behind (ns : List Naming) (s : ThetaScope) : ThetaScope :=
  { s with before := ns ++ s.before }

namespace Visit

/-- A leaf behind further joins. -/
def behind (ns : List Naming) (v : Visit) : Visit :=
  { v with before := ns ++ v.before, around := v.around.map (ThetaScope.behind ns) }

/-- A leaf in a condition on a class. -/
def inTheta (namings : List Naming) (v : Visit) : Visit :=
  { v with around := v.around ++ [⟨[], namings⟩] }

/-- The join with another class that the leaf makes. -/
def namings (v : Visit) : List Naming := v.leaf.test.namings v.theta

/-- Each leaf stands behind `ns` and the joins of the leaves before it. -/
def Chained (ns : List Naming) : List Visit → Prop
  | [] => True
  | v :: rest => v.before = ns ∧ Chained (ns ++ v.namings) rest

variable {ns : List Naming} {vs ws : List Visit}

theorem chained_append :
    Chained ns (vs ++ ws) ↔ Chained ns vs ∧ Chained (ns ++ vs.flatMap namings) ws := by
  induction vs generalizing ns with
  | nil => simp [Chained]
  | cons v rest ih => simp [Chained, ih, and_assoc]

theorem Chained.behind (h : Chained ns vs) (ms : List Naming) :
    Chained (ms ++ ns) (vs.map (Visit.behind ms)) := by
  induction vs generalizing ns with
  | nil => exact trivial
  | cons v rest ih =>
    refine ⟨congrArg (ms ++ ·) h.1, ?_⟩
    have hrest := ih h.2
    rwa [← List.append_assoc] at hrest

theorem Chained.inTheta (h : Chained ns vs) (ms : List Naming) :
    Chained ns (vs.map (Visit.inTheta ms)) := by
  induction vs generalizing ns with
  | nil => exact trivial
  | cons v rest ih => exact ⟨h.1, ih h.2⟩

theorem flatMap_namings_behind (ms : List Naming) (vs : List Visit) :
    (vs.map (Visit.behind ms)).flatMap namings = vs.flatMap namings := by
  rw [List.flatMap_map]
  rfl

theorem flatMap_namings_inTheta (ms : List Naming) (vs : List Visit) :
    (vs.map (Visit.inTheta ms)).flatMap namings = vs.flatMap namings := by
  rw [List.flatMap_map]
  rfl

end Visit

namespace Filter

/-! ## Visits -/

mutual

/-- The leaves that a filter emits into its query, in order. A nested select has aliases of its own,
which goes for the negated part of a condition on a collection, too. -/
def visits (theta : Bool) : Filter → List Visit
  | .leaf ⟨t, condition, subfilter⟩ =>
    match t.operation with
    | .collectionCondition =>
      if Draft.namesClass t.property then
        (conditionVisits true condition).map (Visit.inTheta (conditionNamings true condition))
      else conditionVisits false condition
    | _ => [⟨⟨t, condition, subfilter⟩, theta, [], []⟩]
  | .composite ⟨_, children⟩ => allVisits theta children

/-- The leaves of several filters. -/
def allVisits (theta : Bool) : List Filter → List Visit
  | [] => []
  | f :: rest => visits theta f ++ (allVisits theta rest).map (Visit.behind (namings theta f))

/-- The leaves in the plain part of a condition on a collection. -/
def conditionVisits (theta : Bool) : Option Composite → List Visit
  | none => []
  | some ⟨operation, children⟩ => if operation = .not then [] else plainVisits theta children

/-- The leaves of the filters that are not negated. -/
def plainVisits (theta : Bool) : List Filter → List Visit
  | [] => []
  | f :: rest =>
    if f.isNegated then plainVisits theta rest
    else visits theta f ++ (plainVisits theta rest).map (Visit.behind (namings theta f))

end

theorem plainVisits_eq (theta : Bool) (fs : List Filter) :
    plainVisits theta fs = allVisits theta (fs.filter (!·.isNegated)) := by
  induction fs with
  | nil => rfl
  | cons f rest ih =>
    rw [plainVisits, ih]
    by_cases hf : f.isNegated = true
    · rw [if_pos hf, List.filter_cons_of_neg (by simp [hf])]
    · rw [if_neg hf, List.filter_cons_of_pos (by simp [hf]), allVisits]

/-- A condition visits the leaves of its plain part. -/
theorem conditionVisits_some (theta : Bool) (c : Composite) :
    conditionVisits theta (some c) =
      c.split.1.elim [] fun part => visits theta (.composite part) := by
  obtain ⟨operation, children⟩ := c
  rw [conditionVisits, plainVisits_eq, Composite.elim_split_plain, visits]
  rfl

section

variable {t : Test} {condition : Option Composite} {subfilter : Option Filter}

theorem visits_condition (hop : t.operation = .collectionCondition) (theta : Bool) :
    visits theta (.leaf ⟨t, condition, subfilter⟩) =
      if Draft.namesClass t.property then
        (conditionVisits true condition).map (Visit.inTheta (conditionNamings true condition))
      else conditionVisits false condition := by
  rw [visits, hop]

theorem visits_leaf (hop : t.operation ≠ .collectionCondition) (theta : Bool) :
    visits theta (.leaf ⟨t, condition, subfilter⟩) =
      [⟨⟨t, condition, subfilter⟩, theta, [], []⟩] := by
  rw [visits]
  split
  · exact absurd ‹_› hop
  · rfl

end

/-! ## What is before and around a leaf -/

/-- The visits make the joins, each behind those before it. -/
def Make (vs : List Visit) (ns : List Naming) : Prop :=
  Visit.Chained [] vs ∧ vs.flatMap Visit.namings = ns

theorem make_allVisits {theta : Bool} {fs : List Filter}
    (h : ∀ f ∈ fs, Make (f.visits theta) (f.namings theta)) :
    Make (allVisits theta fs) (allNamings theta fs) := by
  induction fs with
  | nil => exact ⟨trivial, rfl⟩
  | cons f rest ih =>
    obtain ⟨⟨hchained, hnamings⟩, hrest⟩ := List.forall_mem_cons.mp h
    obtain ⟨hchained', hnamings'⟩ := ih hrest
    rw [allVisits, allNamings]
    refine ⟨Visit.chained_append.mpr ⟨hchained, ?_⟩, ?_⟩
    · have hbehind := hchained'.behind (f.namings theta)
      rw [List.append_nil] at hbehind
      rwa [List.nil_append, hnamings]
    · rw [List.flatMap_append, Visit.flatMap_namings_behind, hnamings, hnamings']

theorem make_visits (f : Filter) : ∀ theta, Make (f.visits theta) (f.namings theta) := by
  induction f using Filter.induction with
  | leaf t condition subfilter ih _ =>
    have hcondition : ∀ theta, Make (conditionVisits theta condition)
        (conditionNamings theta condition) := by
      intro theta
      rcases condition with _ | c
      · exact ⟨trivial, rfl⟩
      · rw [conditionVisits_some, conditionNamings_some]
        cases hpart : c.split.1 with
        | none => exact ⟨trivial, rfl⟩
        | some part =>
          have hchildren := (Composite.split_plain hpart).2
          obtain ⟨operation, children⟩ := part
          exact make_allVisits fun f hf => ih c rfl f (hchildren f hf) theta
    intro theta
    by_cases hop : t.operation = .collectionCondition
    · rw [visits_condition hop, namings_condition hop]
      split
      · rename_i hclass
        obtain ⟨hchained, hnamings⟩ := hcondition true
        rw [hclass]
        exact ⟨hchained.inTheta _, (Visit.flatMap_namings_inTheta _ _).trans hnamings⟩
      · rename_i hclass
        rw [Bool.eq_false_iff.mpr hclass]
        exact hcondition false
    · rw [visits_leaf hop, namings_leaf hop]
      exact ⟨⟨rfl, trivial⟩, List.append_nil _⟩
  | composite operation children ih =>
    intro theta
    exact make_allVisits fun f hf => ih f hf theta

/-- The joins before a leaf are those that the leaves before it make. -/
theorem before_visits {f : Filter} {theta : Bool} {us ws : List Visit} {v : Visit}
    (h : f.visits theta = us ++ v :: ws) : v.before = us.flatMap Visit.namings := by
  have hchained := (make_visits f theta).1
  rw [h] at hchained
  exact (Visit.chained_append.mp hchained).2.1

/-- The leaf stands among the joins, and so do the conditions around it. -/
structure Scoped (namings : List Naming) (v : Visit) : Prop where
  before : v.before <+: namings
  around : ∀ s ∈ v.around, s.before ++ s.namings <+: namings ∧
    ∃ inner, v.before = s.before ++ inner ∧ inner <+: s.namings

namespace Scoped

variable {ns ms : List Naming} {v : Visit}

theorem append (h : Scoped ns v) (ms : List Naming) : Scoped (ns ++ ms) v :=
  ⟨h.before.trans (List.prefix_append _ _), fun s hs =>
    ⟨(h.around s hs).1.trans (List.prefix_append _ _), (h.around s hs).2⟩⟩

theorem behind (h : Scoped ms v) (ns : List Naming) : Scoped (ns ++ ms) (v.behind ns) := by
  refine ⟨(List.prefix_append_right_inj ns).mpr h.before, fun scope hscope => ?_⟩
  obtain ⟨s, hs, rfl⟩ := List.mem_map.mp hscope
  obtain ⟨hscope, inner, hbefore, hinner⟩ := h.around s hs
  refine ⟨?_, inner, ?_, hinner⟩
  · show ns ++ s.before ++ s.namings <+: ns ++ ms
    rw [List.append_assoc]
    exact (List.prefix_append_right_inj ns).mpr hscope
  · show ns ++ v.before = ns ++ s.before ++ inner
    rw [hbefore, List.append_assoc]

theorem inTheta (h : Scoped ns v) : Scoped ns (v.inTheta ns) := by
  refine ⟨h.before, fun s hs => ?_⟩
  rcases List.mem_append.mp hs with hs | hs
  · exact h.around s hs
  · rw [List.mem_singleton.mp hs]
    exact ⟨List.prefix_rfl, v.before, rfl, h.before⟩

end Scoped

theorem scoped_allVisits {theta : Bool} {fs : List Filter}
    (h : ∀ f ∈ fs, ∀ v ∈ f.visits theta, Scoped (f.namings theta) v) :
    ∀ v ∈ allVisits theta fs, Scoped (allNamings theta fs) v := by
  induction fs with
  | nil => exact fun v hv => absurd hv List.not_mem_nil
  | cons f rest ih =>
    obtain ⟨hf, hrest⟩ := List.forall_mem_cons.mp h
    intro v hv
    rw [allVisits] at hv
    rw [allNamings]
    rcases List.mem_append.mp hv with hv | hv
    · exact (hf v hv).append _
    · obtain ⟨w, hw, rfl⟩ := List.mem_map.mp hv
      exact (ih hrest w hw).behind _

/-- The joins before a leaf and in the conditions around it are those of the filter. -/
theorem scoped_visits (f : Filter) :
    ∀ theta, ∀ v ∈ f.visits theta, Scoped (f.namings theta) v := by
  induction f using Filter.induction with
  | leaf t condition subfilter ih _ =>
    have hcondition : ∀ theta, ∀ v ∈ conditionVisits theta condition,
        Scoped (conditionNamings theta condition) v := by
      intro theta
      rcases condition with _ | c
      · exact fun v hv => absurd hv List.not_mem_nil
      · rw [conditionVisits_some, conditionNamings_some]
        cases hpart : c.split.1 with
        | none => exact fun v hv => absurd hv List.not_mem_nil
        | some part =>
          have hchildren := (Composite.split_plain hpart).2
          obtain ⟨operation, children⟩ := part
          exact scoped_allVisits fun f hf => ih c rfl f (hchildren f hf) theta
    intro theta v hv
    by_cases hop : t.operation = .collectionCondition
    · rw [visits_condition hop] at hv
      rw [namings_condition hop]
      split at hv
      · rename_i hclass
        obtain ⟨w, hw, rfl⟩ := List.mem_map.mp hv
        rw [hclass]
        exact (hcondition true w hw).inTheta
      · rename_i hclass
        rw [Bool.eq_false_iff.mpr hclass]
        exact hcondition false v hv
    · rw [visits_leaf hop] at hv
      rw [List.mem_singleton.mp hv]
      exact ⟨List.nil_prefix, fun s hs => absurd hs List.not_mem_nil⟩
  | composite operation children ih =>
    intro theta
    exact scoped_allVisits fun f hf => ih f hf theta

/-! ## Filters with a leaf left out -/

/-- The second filters are the first with a leaf left out, under whatever connectives and in
whatever conditions, but not in a negated part. -/
inductive Omits (l : Leaf) : List Filter → List Filter → Prop where
  | here {rest : List Filter} : Omits l (.leaf l :: rest) rest
  | later {f : Filter} {rest rest' : List Filter} : Omits l rest rest' →
      Omits l (f :: rest) (f :: rest')
  | composite {operation : BooleanOp} {children children' rest : List Filter} :
      Omits l children children' →
      Omits l (.composite ⟨operation, children⟩ :: rest) (.composite ⟨operation, children'⟩ :: rest)
  | condition {t : Test} {operation : BooleanOp} {children children' rest : List Filter}
      {subfilter : Option Filter} : t.operation = .collectionCondition → operation ≠ .not →
      Omits l (children.filter (!·.isNegated)) (children'.filter (!·.isNegated)) →
      Omits l (.leaf ⟨t, some ⟨operation, children⟩, subfilter⟩ :: rest)
        (.leaf ⟨t, some ⟨operation, children'⟩, subfilter⟩ :: rest)

end Filter

namespace Visit

/-- Both visit the same leaf behind the same joins. -/
def Same (v w : Visit) : Prop := w.leaf = v.leaf ∧ w.theta = v.theta ∧ w.before = v.before

/-- Both visit the same leaf, but the second one without the joins in the middle. -/
def Without (before middle : List Naming) (v w : Visit) : Prop :=
  w.leaf = v.leaf ∧ w.theta = v.theta ∧
    ∃ behind, v.before = before ++ middle ++ behind ∧ w.before = before ++ behind

variable {before middle : List Naming}

theorem same_refl (vs : List Visit) : List.Forall₂ Same vs vs :=
  List.forall₂_same.mpr fun _ _ => ⟨rfl, rfl, rfl⟩

theorem Same.behind {v w : Visit} (h : Same v w) (ns : List Naming) :
    Same (v.behind ns) (w.behind ns) :=
  ⟨h.1, h.2.1, congrArg (ns ++ ·) h.2.2⟩

theorem Without.behind {v w : Visit} (h : Without before middle v w) (ns : List Naming) :
    Without (ns ++ before) middle (v.behind ns) (w.behind ns) := by
  obtain ⟨hleaf, htheta, behind, hv, hw⟩ := h
  refine ⟨hleaf, htheta, behind, ?_, ?_⟩
  · show ns ++ v.before = _
    rw [hv, List.append_assoc, List.append_assoc, List.append_assoc]
  · show ns ++ w.before = _
    rw [hw, List.append_assoc]

/-- Leaves behind joins of which some are left out. -/
theorem without_behind (behind : List Naming) (vs : List Visit) :
    List.Forall₂ (Without before middle) (vs.map (Visit.behind (before ++ middle ++ behind)))
      (vs.map (Visit.behind (before ++ behind))) := by
  rw [List.forall₂_map_left_iff, List.forall₂_map_right_iff, List.forall₂_same]
  exact fun v _ => ⟨rfl, rfl, behind ++ v.before, List.append_assoc .., List.append_assoc ..⟩

end Visit

namespace Filter

open Visit

/-- The visits `vs` among joins `ns` are those of a leaf between others, and `ws` among joins `ms`
are the others without the joins of the leaf. -/
def Omitted (l : Leaf) (vs ws : List Visit) (ns ms : List Naming) : Prop :=
  ∃ before behind first own last first' last',
    ns = before ++ namings false (.leaf l) ++ behind ∧ ms = before ++ behind ∧
      vs = first ++ own ++ last ∧ ws = first' ++ last' ∧
      own.map (·.leaf) = (visits false (.leaf l)).map (·.leaf) ∧
      List.Forall₂ Same first first' ∧
      List.Forall₂ (Without before (namings false (.leaf l))) last last'

namespace Omitted

variable {l : Leaf} {vs ws : List Visit} {ns ms : List Naming}

/-- Visits in front of both. -/
theorem later (h : Omitted l vs ws ns ms) (us : List Visit) (ks : List Naming) :
    Omitted l (us ++ vs.map (Visit.behind ks)) (us ++ ws.map (Visit.behind ks)) (ks ++ ns)
      (ks ++ ms) := by
  obtain ⟨before, behind, first, own, last, first', last', rfl, rfl, rfl, rfl, hown, hfirst,
    hlast⟩ := h
  refine ⟨ks ++ before, behind, us ++ first.map (Visit.behind ks), own.map (Visit.behind ks),
    last.map (Visit.behind ks), us ++ first'.map (Visit.behind ks), last'.map (Visit.behind ks),
    ?_, ?_, ?_, ?_, ?_, ?_, ?_⟩
  · simp only [List.append_assoc]
  · simp only [List.append_assoc]
  · simp only [List.map_append, List.append_assoc]
  · simp only [List.map_append, List.append_assoc]
  · rw [List.map_map]
    exact hown
  · refine List.rel_append (same_refl us) ?_
    rw [List.forall₂_map_left_iff, List.forall₂_map_right_iff]
    exact hfirst.imp fun _ _ h => h.behind ks
  · rw [List.forall₂_map_left_iff, List.forall₂_map_right_iff]
    exact hlast.imp fun _ _ h => h.behind ks

/-- Visits behind both. -/
theorem earlier (h : Omitted l vs ws ns ms) (us : List Visit) (ks : List Naming) :
    Omitted l (vs ++ us.map (Visit.behind ns)) (ws ++ us.map (Visit.behind ms)) (ns ++ ks)
      (ms ++ ks) := by
  obtain ⟨before, behind, first, own, last, first', last', rfl, rfl, rfl, rfl, hown, hfirst,
    hlast⟩ := h
  refine ⟨before, behind ++ ks, first, own, _, first', _, ?_, ?_, List.append_assoc ..,
    List.append_assoc .., hown, hfirst, List.rel_append hlast (without_behind behind us)⟩
  · simp only [List.append_assoc]
  · simp only [List.append_assoc]

/-- A condition on a class around both. -/
theorem inTheta (h : Omitted l vs ws ns ms) (ks ks' : List Naming) :
    Omitted l (vs.map (Visit.inTheta ks)) (ws.map (Visit.inTheta ks')) ns ms := by
  obtain ⟨before, behind, first, own, last, first', last', rfl, rfl, rfl, rfl, hown, hfirst,
    hlast⟩ := h
  refine ⟨before, behind, first.map (Visit.inTheta ks), own.map (Visit.inTheta ks),
    last.map (Visit.inTheta ks), first'.map (Visit.inTheta ks'), last'.map (Visit.inTheta ks'),
    rfl, rfl, ?_, List.map_append, ?_, ?_, ?_⟩
  · rw [List.map_append, List.map_append]
  · rw [List.map_map]
    exact hown
  · rw [List.forall₂_map_left_iff, List.forall₂_map_right_iff]
    exact hfirst
  · rw [List.forall₂_map_left_iff, List.forall₂_map_right_iff]
    exact hlast

end Omitted

/-- To leave a condition on a collection out leaves its visits out. -/
theorem Omits.visits {l : Leaf} (hl : l.test.operation = .collectionCondition) {fs gs : List Filter}
    (h : Omits l fs gs) (theta : Bool) :
    Omitted l (allVisits theta fs) (allVisits theta gs) (allNamings theta fs)
      (allNamings theta gs) := by
  obtain ⟨t, condition, subfilter⟩ := l
  induction h generalizing theta with
  | @here rest =>
    have hnamings : namings theta (.leaf ⟨t, condition, subfilter⟩) =
        namings false (.leaf ⟨t, condition, subfilter⟩) := by
      rw [namings_condition hl, namings_condition hl]
    have hvisits : Filter.visits theta (.leaf ⟨t, condition, subfilter⟩) =
        Filter.visits false (.leaf ⟨t, condition, subfilter⟩) := by
      rw [visits_condition hl, visits_condition hl]
    rw [allVisits, allNamings, hnamings, hvisits]
    refine ⟨[], allNamings theta rest, [], _, _, [], _, rfl, rfl, rfl, rfl, rfl, .nil, ?_⟩
    rw [List.forall₂_map_left_iff, List.forall₂_same]
    exact fun v _ => ⟨rfl, rfl, v.before, rfl, rfl⟩
  | later _ ih => exact (ih theta).later _ _
  | composite _ ih => exact (ih theta).earlier _ _
  | @condition t operation children children' rest subfilter hop hnot _ ih =>
    have hbody : ∀ theta cs, conditionVisits theta (some ⟨operation, cs⟩) =
        allVisits theta (cs.filter (!·.isNegated)) := by
      intro theta cs
      rw [conditionVisits, if_neg hnot, plainVisits_eq]
    have hjoins : ∀ theta cs, conditionNamings theta (some ⟨operation, cs⟩) =
        allNamings theta (cs.filter (!·.isNegated)) := by
      intro theta cs
      rw [conditionNamings, if_neg hnot, plainNamings_eq]
    have hboth := ih (Draft.namesClass t.property)
    rw [← hbody, ← hbody, ← hjoins, ← hjoins] at hboth
    rw [allVisits, allVisits, allNamings, allNamings, visits_condition hop, visits_condition hop,
      namings_condition hop, namings_condition hop]
    refine Omitted.earlier ?_ _ _
    split
    · rename_i hclass
      rw [hclass] at hboth ⊢
      exact hboth.inTheta _ _
    · rename_i hclass
      rw [Bool.eq_false_iff.mpr hclass] at hboth ⊢
      exact hboth

end Filter

end ObjectQuery
