import Mathlib.Data.List.Forall2
import ObjectQuery.Proofs.Context.Emission
import ObjectQuery.Proofs.Filter.Parts
import ObjectQuery.Proofs.Having.Groups

/-!
# The parts of a filter that become groups

* `Filter.havingParts`: read off the filter.
* `Filter.mem_reached_havingParts`: every aggregate that is compared stands in one of them.
* `Draft.Divides`: a step that becomes a group as a whole, or leaves the having clause alone.
* `Draft.LeavesGroup`: what a filter leaves within the having clause on the way from one draft to
  another.
* `Draft.gathers_emit`: a filter leaves such a group for each of its parts, in their order.
-/

namespace ObjectQuery

namespace Filter

/-! ## Parts -/

mutual

/-- The parts of a filter that are written as groups of the having clause. A composite of aggregates
is one part, and any other has the parts of its children. A condition on a collection has those of
its plain part. -/
def havingParts : Filter → List Filter
  | .leaf ⟨t, condition, subfilter⟩ =>
    match t.operation with
    | .join | .leftJoin => []
    | .collectionCondition => conditionHavingParts condition
    | _ => if t.isAggregate then [.leaf ⟨t, condition, subfilter⟩] else []
  | .composite ⟨operation, children⟩ =>
    if isAggregateOnly (.composite ⟨operation, children⟩) then [.composite ⟨operation, children⟩]
    else havingPartsOf children

/-- The parts of several filters. -/
def havingPartsOf : List Filter → List Filter
  | [] => []
  | f :: rest => havingParts f ++ havingPartsOf rest

/-- The parts of a condition on a collection's elements. -/
def conditionHavingParts : Option Composite → List Filter
  | none => []
  | some ⟨operation, children⟩ =>
    let plain := Filter.composite ⟨operation, children.filter (!·.isNegated)⟩
    if operation = .not then []
    else if isAggregateOnly plain then [plain] else plainHavingParts children

/-- The parts of the filters that are not negated. -/
def plainHavingParts : List Filter → List Filter
  | [] => []
  | f :: rest =>
    if f.isNegated then plainHavingParts rest else havingParts f ++ plainHavingParts rest

end

theorem plainHavingParts_eq (fs : List Filter) :
    plainHavingParts fs = havingPartsOf (fs.filter (!·.isNegated)) := by
  induction fs with
  | nil => rfl
  | cons f rest ih =>
    rw [plainHavingParts, ih]
    by_cases hf : f.isNegated = true
    · rw [if_pos hf, List.filter_cons_of_neg (by simp [hf])]
    · rw [if_neg hf, List.filter_cons_of_pos (by simp [hf]), havingPartsOf]

/-- A condition has the parts of its plain part. -/
theorem conditionHavingParts_some (c : Composite) :
    conditionHavingParts (some c) =
      c.split.1.elim [] fun plain => havingParts (.composite plain) := by
  obtain ⟨operation, children⟩ := c
  rw [conditionHavingParts, plainHavingParts_eq, Composite.elim_split_plain, havingParts]
  rfl

theorem mem_havingPartsOf {part : Filter} {fs : List Filter} :
    part ∈ havingPartsOf fs ↔ ∃ f ∈ fs, part ∈ f.havingParts := by
  induction fs with
  | nil => simp [havingPartsOf]
  | cons f rest ih => simp [havingPartsOf, ih]

/-- The parts compare aggregates only. -/
theorem isAggregateOnly_havingParts (f : Filter) :
    ∀ part ∈ f.havingParts, part.isAggregateOnly = true := by
  have hcomposite : ∀ c : Composite,
      (∀ g ∈ c.children, ∀ part ∈ g.havingParts, part.isAggregateOnly = true) →
      ∀ part ∈ havingParts (.composite c), part.isAggregateOnly = true := by
    rintro ⟨operation, children⟩ ih part hpart
    rw [havingParts] at hpart
    split at hpart
    · rename_i honly
      rw [List.mem_singleton.mp hpart, honly]
    · obtain ⟨g, hg, hpart⟩ := mem_havingPartsOf.mp hpart
      exact ih g hg part hpart
  induction f using Filter.induction with
  | leaf t condition subfilter ihc ihs =>
    intro part hpart
    rw [havingParts] at hpart
    split at hpart
    · cases hpart
    · cases hpart
    · rcases condition with _ | c
      · cases hpart
      · rw [conditionHavingParts_some] at hpart
        cases hplain : c.split.1 with
        | none =>
          rw [hplain] at hpart
          cases hpart
        | some plain =>
          rw [hplain] at hpart
          have hchildren := (Composite.split_plain hplain).2
          exact hcomposite plain (fun g hg => ihc c rfl g (hchildren g hg)) part hpart
    · split at hpart
      · rename_i haggregate
        rw [List.mem_singleton.mp hpart, isAggregateOnly, haggregate]
      · cases hpart
  | composite operation children ih => exact hcomposite ⟨operation, children⟩ ih

/-- A filter that compares aggregates only has no other leaves. -/
theorem isAggregate_of_mem_leaves {f : Filter} (h : f.isAggregateOnly = true) :
    ∀ l ∈ f.leaves, l.test.isAggregate = true := by
  induction f using Filter.induction with
  | leaf t condition subfilter ihc ihs =>
    intro l hl
    rw [List.mem_singleton.mp hl]
    exact h
  | composite operation children ih =>
    rw [isAggregateOnly_composite, Bool.and_eq_true, areAggregateOnly_eq, List.all_eq_true] at h
    intro l hl
    obtain ⟨f, hf, hl⟩ := mem_leavesOf.mp hl
    exact ih f hf (h.2 f hf) l hl

/-! ## Leaves that are written into the query itself -/

mutual

/-- The leaves of a filter, with those of the plain parts of conditions on collections in the place
of the conditions. The rest is written into selects of its own. -/
def reached : Filter → List Leaf
  | .leaf ⟨t, condition, subfilter⟩ =>
    match t.operation with
    | .collectionCondition => reachedInCondition condition
    | _ => [⟨t, condition, subfilter⟩]
  | .composite ⟨_, children⟩ => reachedOf children

/-- The leaves of several filters. -/
def reachedOf : List Filter → List Leaf
  | [] => []
  | f :: rest => reached f ++ reachedOf rest

/-- The leaves in the plain part of a condition. -/
def reachedInCondition : Option Composite → List Leaf
  | none => []
  | some ⟨operation, children⟩ => if operation = .not then [] else reachedPlain children

/-- The leaves of the filters that are not negated. -/
def reachedPlain : List Filter → List Leaf
  | [] => []
  | f :: rest => if f.isNegated then reachedPlain rest else reached f ++ reachedPlain rest

end

theorem mem_reachedOf {l : Leaf} {fs : List Filter} :
    l ∈ reachedOf fs ↔ ∃ f ∈ fs, l ∈ f.reached := by
  induction fs with
  | nil => simp [reachedOf]
  | cons f rest ih => simp [reachedOf, ih]

theorem reachedPlain_eq (fs : List Filter) :
    reachedPlain fs = reachedOf (fs.filter (!·.isNegated)) := by
  induction fs with
  | nil => rfl
  | cons f rest ih =>
    rw [reachedPlain, ih]
    by_cases hf : f.isNegated = true
    · rw [if_pos hf, List.filter_cons_of_neg (by simp [hf])]
    · rw [if_neg hf, List.filter_cons_of_pos (by simp [hf]), reachedOf]

theorem reachedInCondition_some (c : Composite) :
    reachedInCondition (some c) = c.split.1.elim [] fun plain => reached (.composite plain) := by
  obtain ⟨operation, children⟩ := c
  rw [reachedInCondition, reachedPlain_eq, Composite.elim_split_plain, reached]
  rfl

/-- A composite has the parts of its children, or it is a part itself. -/
theorem exists_havingParts_composite {l : Leaf} {c : Composite}
    (h : ∀ f ∈ c.children, l ∈ f.reached → ∃ part ∈ f.havingParts, l ∈ part.reached)
    (hl : l ∈ reached (.composite c)) : ∃ part ∈ havingParts (.composite c), l ∈ part.reached := by
  obtain ⟨operation, children⟩ := c
  rw [havingParts]
  split
  · exact ⟨_, List.mem_singleton.mpr rfl, hl⟩
  · obtain ⟨f, hf, hl⟩ := mem_reachedOf.mp hl
    obtain ⟨part, hpart, hl⟩ := h f hf hl
    exact ⟨part, mem_havingPartsOf.mpr ⟨f, hf, hpart⟩, hl⟩

/-- Every aggregate that is compared stands in a part. -/
theorem mem_reached_havingParts {l : Leaf} (haggregate : l.test.isAggregate = true)
    (hjoin : l.test.operation ≠ .join) (hleft : l.test.operation ≠ .leftJoin) (f : Filter) :
    l ∈ f.reached → ∃ part ∈ f.havingParts, l ∈ part.reached := by
  induction f using Filter.induction with
  | leaf t condition subfilter ihc ihs =>
    intro hl
    by_cases hop : t.operation = .collectionCondition
    · have hparts : havingParts (.leaf ⟨t, condition, subfilter⟩) =
          conditionHavingParts condition := by
        rw [havingParts, hop]
      rw [reached, hop] at hl
      rw [hparts]
      dsimp only at hl
      rcases condition with _ | c
      · cases hl
      · rw [reachedInCondition_some] at hl
        rw [conditionHavingParts_some]
        cases hplain : c.split.1 with
        | none =>
          rw [hplain] at hl
          cases hl
        | some plain =>
          rw [hplain] at hl
          have hchildren := (Composite.split_plain hplain).2
          exact exists_havingParts_composite (fun f hf => ihc c rfl f (hchildren f hf)) hl
    · have hreached : reached (.leaf ⟨t, condition, subfilter⟩) = [⟨t, condition, subfilter⟩] := by
        rw [reached]
        cases h : t.operation <;> first | rfl | exact absurd h hop
      have hself : l = ⟨t, condition, subfilter⟩ := List.mem_singleton.mp (hreached ▸ hl)
      subst hself
      refine ⟨.leaf ⟨t, condition, subfilter⟩, ?_, hl⟩
      rw [havingParts]
      split
      · exact absurd ‹_› hjoin
      · exact absurd ‹_› hleft
      · exact absurd ‹_› hop
      · rw [if_pos haggregate]
        exact List.mem_singleton.mpr rfl
  | composite operation children ih =>
    exact exists_havingParts_composite (c := ⟨operation, children⟩) ih

end Filter

namespace Draft

/-! ## Lists of groups -/

/-- Adds a group behind others. One that holds nothing leaves no trace at the beginning. -/
def appendGroup (having : List (Option Condition)) (group : Option Condition) :
    List (Option Condition) :=
  if having.isEmpty && group.isNone then having else having ++ [group]

theorem having_addGroup (d : Draft) (group : Option Condition) :
    (d.addGroup group).having = appendGroup d.having group := by
  unfold addGroup appendGroup
  split <;> rfl

theorem foldl_appendGroup {having : List (Option Condition)} (hne : having ≠ [])
    (groups : List (Option Condition)) : groups.foldl appendGroup having = having ++ groups := by
  induction groups generalizing having with
  | nil => exact (List.append_nil having).symm
  | cons group rest ih =>
    have hstep : appendGroup having group = having ++ [group] :=
      if_neg (by simp [List.isEmpty_eq_false_iff.mpr hne])
    rw [List.foldl_cons, hstep, ih (by simp), List.append_assoc]
    rfl

/-- Groups that hold nothing are dropped at the beginning only. -/
theorem foldl_appendGroup_nil (groups : List (Option Condition)) :
    groups.foldl appendGroup [] = groups.dropWhile (·.isNone) := by
  induction groups with
  | nil => rfl
  | cons group rest ih =>
    cases group with
    | none => exact ih
    | some c => exact foldl_appendGroup (List.cons_ne_nil (some c) []) rest

variable {k : Compiler} {x : Emission} {xs : Step Draft (List Condition)} {silent grouping : Bool}

/-! ## Leaves -/

/-- Outside of the having clause, the emission becomes a group as a whole, which is the same as it
leaves within the clause, or leaves the having clause alone. -/
def Divides (whole : Bool) (x : Emission) : Prop :=
  ∀ d c e, x.Yields d c e → d.inHaving = false →
    if whole then
      ∃ group u, x.Yields { d with inHaving := true } group u ∧ u.Underlies e ∧
        e.having = appendGroup d.having group
    else e.having = d.having

/-- A group is what the emission leaves within the having clause. -/
theorem inHavingGroup_having (hx : Places Option.isNone silent grouping x) {d e : Draft}
    {c : Option Condition} (h : (inHavingGroup x).Yields d c e) :
    ∃ group u, x.Yields { d with inHaving := true } group u ∧ u.Underlies e ∧
      e.having = appendGroup d.having group := by
  obtain ⟨-, group, u, hu, rfl⟩ := inHavingGroup_yields h
  have hhaving : u.having = d.having := (hx.within hu rfl).1
  have hmarked : u.Underlies { u with inHaving := d.inHaving } := { Underlies.refl u with }
  exact ⟨group, u, hu, hmarked.trans (.addGroup _ group), by rw [having_addGroup, hhaving]⟩

namespace Divides

theorem writesInPlace (hx : WritesInPlace silent x) : Divides false x :=
  fun d c e h _ => (hx d c e h).2.1

theorem fail {whole : Bool} (err : CompileError) : Divides whole (.fail err) :=
  fun _ _ _ h _ => (Step.yields_fail.mp h).elim

theorem routed (isAggregate : Bool) (hx : WritesInPlace silent x) :
    Divides isAggregate (Draft.routed isAggregate x) := by
  intro d c e h hd
  have h₁ := Step.yields_get_bind.mp h
  rw [hd, Bool.not_false, Bool.and_true] at h₁
  cases isAggregate with
  | false => exact (hx d c e h₁).2.1
  | true => exact inHavingGroup_having hx.places h₁

/-- Aggregates under a connective are a group. -/
theorem composite (c : Composite) (hxs : Places List.isEmpty silent grouping xs)
    (hne : c.children ≠ []) (honly : Filter.areAggregateOnly c.children = true) :
    Divides true (Draft.composite c xs) := by
  intro d condition e h hd
  have h₁ := Step.yields_get_bind.mp h
  rw [if_neg (by simp [hd]), if_pos honly, if_neg (by simpa using hne)] at h₁
  exact inHavingGroup_having hxs.combined h₁

theorem comparison (t : Test) (v : Value) (operator : String) :
    Divides t.isAggregate (Draft.comparison k t v operator) :=
  routed _ (writesInPlace_comparison t v operator)

theorem nullCheck (t : Test) (isNull : Bool) : Divides t.isAggregate (Draft.nullCheck k t isNull) :=
  routed _ (writesInPlace_resolve fun _ => writesInPlace_predicate _)

theorem equality (t : Test) (v : Value) (equal : Bool) :
    Divides t.isAggregate (Draft.equality k t v equal) := by
  unfold Draft.equality
  split
  · exact nullCheck t equal
  · exact comparison t v _

theorem equalities_having {t : Test} (ht : t.isAggregate = false) {values : List Value}
    {d e : Draft} {members : List Condition} (h : (equalities k t values).Yields d members e)
    (hd : d.inHaving = false) : e.having = d.having := by
  induction values generalizing d members with
  | nil =>
    obtain ⟨-, rfl⟩ := Step.yields_pure.mp h
    rfl
  | cons v rest ih =>
    obtain ⟨condition, u, conditions, hcondition, hconditions, -⟩ := together_yields h
    have hfirst := equality (t.withOperation .eq v) v true _ _ _ hcondition hd
    rw [show (t.withOperation .eq v).isAggregate = false from ht] at hfirst
    have hu := (places_equality _ v true).inHaving hcondition
    exact (ih hconditions (hu.trans hd)).trans hfirst

/-- Equalities of aggregates are a group, and other equalities leave none. -/
theorem disjunction (t : Test) {values : List Value} (hne : values ≠ []) :
    Divides t.isAggregate (Draft.composite ⟨.or, values.map fun v => .test (t.withOperation .eq v)⟩
      (equalities k t values)) := by
  have hchildren : values.map (fun v => Filter.test (t.withOperation .eq v)) ≠ [] := by
    simpa using hne
  have honly : Filter.areAggregateOnly (values.map fun v => .test (t.withOperation .eq v)) =
      t.isAggregate := by
    obtain ⟨first, rest, rfl⟩ := List.exists_cons_of_ne_nil hne
    rw [Filter.areAggregateOnly_eq, List.all_map, Bool.eq_iff_iff, List.all_eq_true]
    exact ⟨fun h => h first List.mem_cons_self, fun h _ _ => h⟩
  cases ht : t.isAggregate with
  | true => exact composite _ (places_equalities t values) hchildren (honly.trans ht)
  | false =>
    intro d c e h hd
    obtain h' | ⟨haggregate, -, -⟩ := composite_yields h
    · obtain ⟨members, -, hmembers | ⟨u, hmembers, rfl⟩⟩ := combined_yields h'
      · exact equalities_having ht hmembers hd
      · have hsame := equalities_having ht hmembers hd
        exact hsame
    · rw [honly, ht] at haggregate
      cases haggregate

theorem membership (t : Test) : Divides t.isAggregate (Draft.membership k t) := by
  unfold Draft.membership
  dsimp only
  split
  · rename_i hentities
    split
    · rename_i v hv
      exact equality (t.withOperation .eq v) v true
    · exact disjunction t (elements_ne_nil_of_hasEntities hentities)
  · exact routed _ (writesInPlace_membership t _)

/-- Several values of one element are refused in every clause. -/
theorem unlessImpossible_again {several : Bool} {shape : Reported PathShape} {err : CompileError}
    {y : Emission} {d e d' e' : Draft} {c c' : Option Condition}
    (h : (do
        let impossible ← if several then do
            let shape ← Step.ofReported shape
            pure (!shape.crossesCollection)
          else pure false
        if impossible then Step.fail err else x).Yields d c e)
    (hy : y.Yields d' c' e') :
    (do
        let impossible ← if several then do
            let shape ← Step.ofReported shape
            pure (!shape.crossesCollection)
          else pure false
        if impossible then Step.fail err else y).Yields d' c' e' := by
  cases several with
  | false => exact hy
  | true =>
    obtain ⟨_, _, hshape, h₁⟩ := Step.yields_bind.mp h
    obtain ⟨rfl, rfl⟩ := Step.yields_ofReported.mp hshape
    obtain ⟨_, _, himpossible, h₂⟩ := Step.yields_bind.mp h₁
    obtain ⟨rfl, rfl⟩ := Step.yields_pure.mp himpossible
    refine Step.yields_bind.mpr ⟨shape.value, d', Step.yields_ofReported.mpr ⟨rfl, rfl⟩, ?_⟩
    refine Step.yields_bind.mpr ⟨_, d', Step.yields_pure.mpr ⟨rfl, rfl⟩, ?_⟩
    dsimp only at h₂ ⊢
    split
    · rename_i hcrosses
      rw [if_pos hcrosses] at h₂
      exact (Step.yields_fail.mp h₂).elim
    · exact hy

/-- A check of what the query is at, which a group does not change, stands inside or outside of the
group alike. -/
theorem unlessImpossible {whole : Bool} (several : Aliases → Bool)
    (shape : Aliases → Reported PathShape) (err : CompileError) (hx : Divides whole x) :
    Divides whole (Step.get >>= fun d => do
      let impossible ← if several d.aliases then do
          let s ← Step.ofReported (shape d.aliases)
          pure (!s.crossesCollection)
        else pure false
      if impossible then Step.fail err else x) := by
  intro d c e h hd
  have h₁ := Step.yields_get_bind.mp h
  have h₂ := hx d c e (unlessImpossible_yields h₁) hd
  cases whole with
  | true =>
    obtain ⟨group, u, hgroup, hrest⟩ := h₂
    exact ⟨group, u, Step.yields_get_bind.mpr (unlessImpossible_again h₁ hgroup), hrest⟩
  | false => exact h₂

theorem containsAll (t : Test) : Divides t.isAggregate (Draft.containsAll k t) := by
  refine unlessImpossible (fun a => 1 < t.value.elements.length && a.inCollection)
    (·.describe k.catalog t.property) _ ?_
  split
  · exact equality t _ true
  · exact routed _ (writesInPlace_containsAll t _)

theorem subquery (t : Test) (hop : t.operation = .subquery) :
    Divides t.isAggregate (Draft.subquery k t x) := by
  unfold Draft.subquery
  split
  · exact routed _ (writesInPlace_resolve fun _ => writesInPlace_inSelect)
  · rw [Draft.test, hop]
    exact fail _

/-- A leaf without nested filters is a group if it compares an aggregate. Joins are not. -/
theorem test (t : Test) (hjoin : t.operation ≠ .join) (hleft : t.operation ≠ .leftJoin) :
    Divides t.isAggregate (Draft.test k t) := by
  rw [Draft.test]
  cases hop : t.operation with
  | eq | ne => exact equality t _ _
  | lt | gt | le | ge | like => exact comparison t _ _
  | inList => exact membership t
  | isNull | notNull => exact nullCheck t _
  | isEmpty => exact routed _ (writesInPlace_emptyCheck t.property)
  | containsAll => exact containsAll t
  | join => exact absurd hop hjoin
  | leftJoin => exact absurd hop hleft
  | collectionCondition | subquery => exact fail _

end Divides

/-! ## Filters -/

/-- On the way from one draft to another, the filter leaves the group within the having clause. The
emission starts with what the first draft has gathered and hands its own on to the second one. -/
def LeavesGroup (k : Compiler) (d e : Draft) (f : Filter) (group : Option Condition) : Prop :=
  ∃ u v, u.inHaving = true ∧ d.Underlies u ∧ (emit k f).Yields u group v ∧ v.Underlies e

/-- A part of the way lies on the whole way. -/
theorem LeavesGroup.along {d d' e e' : Draft} {f : Filter} {group : Option Condition}
    (h : LeavesGroup k d e f group) (hd : d'.Underlies d) (he : e.Underlies e') :
    LeavesGroup k d' e' f group := by
  obtain ⟨u, v, hu, hbefore, hyields, hafter⟩ := h
  exact ⟨u, v, hu, hd.trans hbefore, hyields, hafter.trans he⟩

/-- Outside of the having clause, the step leaves a group there for each of the filters. -/
def Gathers {α : Type} (k : Compiler) (parts : List Filter) (y : Step Draft α) : Prop :=
  ∀ d a e, y.Yields d a e → d.inHaving = false →
    ∃ groups, List.Forall₂ (LeavesGroup k d e) parts groups ∧
      e.having = groups.foldl appendGroup d.having

namespace Gathers

open Step (Leads)

theorem of_divides {f : Filter} {whole : Bool} (h : Divides whole (emit k f)) :
    Gathers k (if whole then [f] else []) (emit k f) := by
  intro d c e hf hd
  have hdivides := h d c e hf hd
  cases whole with
  | true =>
    obtain ⟨group, u, hgroup, hafter, hhaving⟩ := hdivides
    have hmarked : d.Underlies { d with inHaving := true } := { Underlies.refl d with }
    exact ⟨[group], .cons ⟨_, u, rfl, hmarked, hgroup, hafter⟩ .nil, hhaving⟩
  | false => exact ⟨[], .nil, hdivides⟩

theorem nil : Gathers k [] (pure [] : Step Draft (List Condition)) := by
  intro d a e h _
  obtain ⟨-, rfl⟩ := Step.yields_pure.mp h
  exact ⟨[], .nil, rfl⟩

theorem together {parts others : List Filter} (hx : Gathers k parts x)
    (hplaces : Places Option.isNone silent grouping x) (hxs : Gathers k others xs)
    (hgathered : Leads Underlies Underlies x) (hgathered' : Leads Underlies Underlies xs) :
    Gathers k (parts ++ others) (Draft.together x xs) := by
  intro d cs e h hd
  obtain ⟨c, u, rest, hc, hrest, -⟩ := together_yields h
  obtain ⟨groups, hgroups, hu⟩ := hx d c u hc hd
  obtain ⟨groups', hgroups', he⟩ := hxs u rest e hrest ((hplaces.inHaving hc).trans hd)
  -- The first groups are left before the others are written, and these start from what those leave.
  have hfirst := hgroups.imp fun _ _ h => h.along (.refl d) (hgathered'.yields hrest)
  have hsecond := hgroups'.imp fun _ _ h => h.along (hgathered.yields hc) (.refl e)
  refine ⟨groups ++ groups', List.rel_append hfirst hsecond, ?_⟩
  rw [he, hu, List.foldl_append]

theorem emitEach {fs : List Filter} (h : ∀ f ∈ fs, Gathers k f.havingParts (emit k f)) :
    Gathers k (Filter.havingPartsOf fs) (Draft.emitEach k .all fs) := by
  induction fs with
  | nil => exact nil
  | cons f rest ih =>
    obtain ⟨hf, hrest⟩ := List.forall_mem_cons.mp h
    rw [emitEach_cons]
    exact hf.together (places_emit k f) (ih hrest) ((underlies k).emit f)
      ((underlies k).emitEach .all rest)

theorem combined {operation : BooleanOp} {parts : List Filter} (h : Gathers k parts xs) :
    Gathers k parts (Draft.combined operation xs) := by
  intro d c e hc hd
  obtain ⟨members, u, v, -, hmembers, hbefore, hfirst, hafter, hlast⟩ := combined_course hc
  obtain ⟨groups, hgroups, hv⟩ := h _ _ _ hmembers (hfirst.inHaving.trans hd)
  refine ⟨groups, hgroups.imp fun _ _ h => h.along hbefore hafter, ?_⟩
  rw [hlast, hv, hfirst.having]

/-- A composite of aggregates is a group, and any other leaves the groups of its children. -/
theorem composite (c : Composite) (h : ∀ f ∈ c.children, Gathers k f.havingParts (emit k f)) :
    Gathers k (Filter.havingParts (.composite c)) (emit k (.composite c)) := by
  obtain ⟨operation, children⟩ := c
  rw [Filter.havingParts]
  by_cases honly : Filter.isAggregateOnly (.composite ⟨operation, children⟩) = true
  · have hboth := honly
    rw [Filter.isAggregateOnly_composite, Bool.and_eq_true, Bool.not_eq_true',
      List.isEmpty_eq_false_iff] at hboth
    have hwhole : Divides true (emit k (.composite ⟨operation, children⟩)) :=
      .composite ⟨operation, children⟩ (places_emitEach fun f _ => places_emit k f) hboth.1 hboth.2
    rw [if_pos honly]
    exact of_divides hwhole
  · rw [if_neg honly]
    intro d condition e hyields hd
    obtain hcombined | ⟨hall, hne, -⟩ := composite_yields hyields
    · exact (emitEach h).combined d condition e hcombined hd
    · rw [Filter.isAggregateOnly_composite, Bool.and_eq_true, Bool.not_eq_true',
        List.isEmpty_eq_false_iff] at honly
      exact absurd ⟨hne, hall⟩ honly

/-- A condition on a collection leaves the groups of its plain part. -/
theorem condition (t : Test) (c : Composite)
    (h : ∀ f ∈ c.children, Gathers k f.havingParts (emit k f)) :
    Gathers k (Filter.conditionHavingParts (some c)) (emitCondition k t (some c)) := by
  rw [emitCondition_eq, Filter.conditionHavingParts_some]
  intro d condition e hyields hd
  obtain ⟨v, hparts, rfl⟩ := Step.yields_restoring.mp hyields
  obtain ⟨kept, u, excluded, -, hkept, hexcluded⟩ := emitParts_yields hparts
  obtain ⟨hlast, hgathered⟩ : v.having = u.having ∧ u.Underlies v := by
    obtain ⟨-, -, rfl⟩ | ⟨negated, -, hselect⟩ := hexcluded
    · exact ⟨rfl, .refl _⟩
    · exact ⟨(writesInPlace_excluding _ _ _ hselect).2.1,
        (leads_excluding (underlies k).parameters).yields hselect⟩
  obtain ⟨hnone, -, rfl⟩ | ⟨plain, hplain, hscope⟩ := hkept
  · rw [hnone]
    exact ⟨[], .nil, hlast⟩
  · obtain ⟨a, w, hopened, hw, rfl⟩ := inScope_yields hscope
    have hchildren := (Composite.split_plain hplain).2
    obtain ⟨groups, hgroups, hhaving⟩ :=
      composite plain (fun f hf => h f (hchildren f hf)) _ _ _ hw hd
    have hbefore := Aliases.Opens.underlies hopened.opens
    have hafter := ((Underlies.refl w).pop).trans hgathered
    rw [hplain]
    exact ⟨groups, hgroups.imp fun _ _ h => h.along ⟨hbefore, rfl, List.prefix_rfl⟩ ⟨hafter.aliases,
      hafter.firstParameter, hafter.parameters⟩, hlast.trans hhaving⟩

end Gathers

/-- A filter leaves a group for each of its parts. -/
theorem gathers_emit (k : Compiler) (f : Filter) : Gathers k f.havingParts (emit k f) := by
  induction f using Filter.induction with
  | leaf t condition subfilter ihc ihs =>
    rw [Filter.havingParts]
    split
    · rename_i hjoin
      have hwrites : WritesInPlace false (emit k (.leaf ⟨t, condition, subfilter⟩)) := by
        rw [emit, emitLeaf, hjoin, test, hjoin]
        exact writesInPlace_join t
      have hdivides : Divides false (emit k (.leaf ⟨t, condition, subfilter⟩)) :=
        .writesInPlace hwrites
      exact .of_divides hdivides
    · rename_i hleft
      have hwrites : WritesInPlace true (emit k (.leaf ⟨t, condition, subfilter⟩)) := by
        rw [emit, emitLeaf, hleft, test, hleft]
        exact writesInPlace_leftJoin t
      have hdivides : Divides false (emit k (.leaf ⟨t, condition, subfilter⟩)) :=
        .writesInPlace hwrites
      exact .of_divides hdivides
    · rename_i hcondition
      rw [emit, emitLeaf, hcondition]
      rcases condition with _ | c
      · intro d c e h
        rw [emitCondition, test, hcondition] at h
        exact (Step.yields_fail.mp h).elim
      · exact .condition t c (ihc c rfl)
    · rename_i hjoin hleft hcondition
      refine .of_divides ?_
      rw [emit, emitLeaf]
      split
      · exact absurd ‹_› hcondition
      · rename_i hsubquery
        cases subfilter with
        | none => exact .subquery t hsubquery
        | some f => exact .subquery t hsubquery
      · exact .test t hjoin hleft
  | composite operation children ih => exact .composite ⟨operation, children⟩ ih

end Draft

end ObjectQuery
