import ObjectQuery.Proofs.Deletion.Silence
import ObjectQuery.Proofs.Emission.Extension

/-!
# What silent filters emit

* `Draft.Hushed`: emissions that leave no condition in either clause.
* `Draft.Speaking`: emissions that leave a condition with a text in one of the clauses.
* `Draft.hushed_emit`, `Draft.speaking_emit`: what silent filters emit and what the others emit.
-/

namespace ObjectQuery

/-! ## Texts that are not empty -/

theorem Text.joinWith_ne_empty {separator s : String} {texts : List String} (hs : s ∈ texts)
    (hne : s ≠ "") : Text.joinWith separator texts ≠ "" := by
  match texts with
  | [] => cases hs
  | [t] =>
    obtain rfl := List.mem_singleton.mp hs
    exact hne
  | t :: u :: rest =>
    rw [joinWith]
    · intro h
      obtain ⟨htu, hrest⟩ := String.append_eq_empty_iff.mp h
      obtain ⟨rfl, -⟩ := String.append_eq_empty_iff.mp htu
      rcases List.mem_cons.mp hs with rfl | h'
      · exact hne rfl
      · exact Text.joinWith_ne_empty h' hne hrest
    · intro h
      cases h

theorem Correlation.render_ne_empty {left right : Reference} {condition : Correlation}
    (h : condition = .element right left ∨ condition = .equal left right) :
    condition.render ≠ "" := by
  rcases h with rfl | rfl <;> simp [Correlation.render]

theorem Atom.render_comparison_ne_empty (left : Operand) (operator : String) (number : Nat)
    (escape : Option Char) : (Atom.comparison left operator number escape).render ≠ "" := by
  cases escape <;> simp [Atom.render]

namespace Draft

/-! ## Emissions with and without a condition -/

/-- A condition with a text. -/
def HasText (c : Option Condition) : Prop := ∃ w, c = some w ∧ w.render ≠ ""

/-- The emission leaves no condition. -/
def Hushed (x : Emission) : Prop :=
  ∀ d c e, x.Yields d c e → c = none ∧ (d.having = [] → e.having = [])

/-- The step emits no conditions. -/
def HushedAll (xs : Step Draft (List Condition)) : Prop :=
  ∀ d cs e, xs.Yields d cs e → cs = [] ∧ (d.having = [] → e.having = [])

/-- The emission leaves a condition with a text in one of the clauses. -/
def Speaking (x : Emission) : Prop := ∀ d c e, x.Yields d c e → HasText c ∨ e.having ≠ []

/-- The step emits a condition, or leaves one in the having clause. -/
def SpeakingAll (xs : Step Draft (List Condition)) : Prop :=
  ∀ d cs e, xs.Yields d cs e → cs ≠ [] ∨ e.having ≠ []

variable {k : Compiler} {x : Emission} {xs : Step Draft (List Condition)}

/-! ## Silence -/

theorem hushed_none : Hushed (pure none) := by
  intro d c e h
  obtain ⟨rfl, rfl⟩ := Step.yields_pure.mp h
  exact ⟨rfl, id⟩

theorem hushed_inHavingGroup (hx : Hushed x) : Hushed (inHavingGroup x) := by
  intro d c e h
  obtain ⟨rfl, group, u, hu, rfl⟩ := inHavingGroup_yields h
  obtain ⟨rfl, hhaving⟩ := hx _ _ _ hu
  refine ⟨rfl, fun hd => ?_⟩
  have hempty : u.having = [] := hhaving hd
  rw [addGroup, if_pos (by simp [hempty])]
  exact hempty

theorem hushed_routed {isAggregate : Bool} (hx : Hushed x) : Hushed (routed isAggregate x) := by
  intro d c e h
  obtain h' | ⟨-, -, h'⟩ := routed_yields h
  · exact hx d c e h'
  · exact hushed_inHavingGroup hx d c e h'

theorem hushed_composite (group : Composite) (hxs : HushedAll xs) : Hushed (composite group xs) := by
  have hcombined : Hushed (combined group.operation xs) := by
    intro d c e h
    have hnone : combine group.operation [] = none := by cases group.operation <;> rfl
    obtain ⟨members, rfl, h' | ⟨u, h', rfl⟩⟩ := combined_yields h
    · obtain ⟨rfl, hhaving⟩ := hxs _ _ _ h'
      exact ⟨hnone, hhaving⟩
    · obtain ⟨rfl, hhaving⟩ := hxs _ _ _ h'
      exact ⟨hnone, hhaving⟩
  intro d c e h
  obtain h' | ⟨-, -, h'⟩ := composite_yields h
  · exact hcombined d c e h'
  · exact hushed_inHavingGroup hcombined d c e h'

theorem hushed_emitEach {selection : Selection} {fs : List Filter}
    (h : ∀ f ∈ fs, Hushed (emitSelected k selection f)) : HushedAll (emitEach k selection fs) := by
  induction fs with
  | nil =>
    intro d cs e hy
    obtain ⟨rfl, rfl⟩ := Step.yields_pure.mp hy
    exact ⟨rfl, id⟩
  | cons f rest ih =>
    obtain ⟨hf, hrest⟩ := List.forall_mem_cons.mp h
    intro d cs e hy
    rw [emitEach_cons] at hy
    obtain ⟨condition, u, others, hx, hxs, rfl⟩ := together_yields hy
    obtain ⟨rfl, hu⟩ := hf _ _ _ hx
    obtain ⟨rfl, he⟩ := ih hrest _ _ _ hxs
    exact ⟨rfl, fun hd => he (hu hd)⟩

theorem hushed_leftJoin (t : Test) : Hushed (leftJoin k t) := by
  intro d c e h
  obtain ⟨rfl, other, condition, u, -, -, hcondition, rfl⟩ := leftJoin_yields h
  obtain ⟨_, _, _, _, _, -, -, -, rfl⟩ := correlation_yields hcondition
  exact ⟨rfl, id⟩

theorem hushed_containsAll {t : Test} (ht : t.value.elements = []) : Hushed (containsAll k t) := by
  intro d c e h
  obtain ⟨v, hv, -⟩ | ⟨-, h'⟩ := containsAll_yields h
  · rw [ht] at hv
    cases hv
  · rw [ht] at h'
    exact hushed_routed hushed_none d c e h'

theorem hushed_inScope {property : String} {outer : Bool} (hx : Hushed x) :
    Hushed (inScope k property outer x) := by
  intro d c e h
  obtain ⟨a, u, -, hu, rfl⟩ := inScope_yields h
  have hhushed := hx _ c u hu
  exact hhushed

/-- The negated part of a silent condition is empty. -/
theorem split_of_isSilentCondition {c : Composite} (h : Filter.isSilentCondition (some c) = true) :
    c.split.2 = none := by
  rw [Filter.isSilentCondition_some, Bool.and_eq_true, Bool.and_eq_true, bne_iff_ne] at h
  obtain ⟨⟨hop, hplain⟩, -⟩ := h
  have hnegated : c.negatedChildren = [] := by
    refine List.filter_eq_nil_iff.mpr fun f hf => ?_
    simpa using List.all_eq_true.mp hplain f hf
  rw [Composite.split, if_neg hop, hnegated]
  rfl

theorem hushed_elementCondition {property : String} {c : Composite}
    {plain negated : Step Draft (List Condition)} (hc : c.split.2 = none) (hplain : HushedAll plain) :
    Hushed (elementCondition k property c plain negated) := by
  intro d condition e h
  obtain ⟨kept, u, excluded, v, outer, hkept, hexcluded, rfl, rfl⟩ := elementCondition_yields h
  rw [hc] at hexcluded
  obtain ⟨rfl, rfl⟩ := Step.yields_pure.mp hexcluded
  have hfirst : Hushed (keptPart k property outer c.split.1 plain) := by
    unfold keptPart
    split
    · exact hushed_inScope (hushed_composite _ hplain)
    · exact hushed_none
  obtain ⟨rfl, hhaving⟩ := hfirst _ _ _ hkept
  exact ⟨rfl, hhaving⟩

/-- A silent filter emits nothing. -/
theorem hushed_emit {f : Filter} (h : f.isSilent = true) : Hushed (emit k f) := by
  induction f using Filter.induction with
  | leaf t condition subfilter ihc ihs =>
    rw [emit, emitLeaf]
    rw [Filter.isSilent] at h
    cases hop : t.operation <;> simp only [hop] at h ⊢ <;> try contradiction
    case leftJoin =>
      rw [test, hop]
      exact hushed_leftJoin t
    case containsAll =>
      rw [test, hop]
      exact hushed_containsAll (List.isEmpty_iff.mp h)
    case collectionCondition =>
      rcases condition with _ | ⟨operation, children⟩
      · cases h
      · have hsplit := split_of_isSilentCondition h
        rw [Filter.isSilentCondition, Bool.and_eq_true, Filter.areSilent_eq,
          List.all_eq_true] at h
        refine hushed_elementCondition hsplit (hushed_emitEach fun f hf => ?_)
        unfold emitSelected
        dsimp only
        split
        · exact hushed_none
        · exact ihc _ rfl f hf (h.2 f hf)
  | composite operation children ih =>
    rw [Filter.isSilent, Filter.areSilent_eq, List.all_eq_true] at h
    exact hushed_composite _ (hushed_emitEach fun f hf => ih f hf (h f hf))

/-! ## Conditions with a text -/

theorem hasText_atom {p : Atom} (h : p.render ≠ "") : HasText (some (.atom p)) :=
  ⟨.atom p, rfl, by rwa [Condition.render]⟩

theorem having_ne_nil_addGroup {d : Draft} {group : Option Condition}
    (h : HasText group ∨ d.having ≠ []) : (d.addGroup group).having ≠ [] := by
  obtain ⟨w, rfl, -⟩ | hhaving := h
  · rw [addGroup, if_neg (by simp)]
    simp
  · intro hnil
    have hprefix := prefix_addGroup d group
    rw [hnil] at hprefix
    exact hhaving (List.prefix_nil.mp hprefix)

theorem inHavingGroup_speaks (hx : Speaking x) {d e : Draft} {c : Option Condition}
    (h : (inHavingGroup x).Yields d c e) : e.having ≠ [] := by
  obtain ⟨rfl, group, u, hu, rfl⟩ := inHavingGroup_yields h
  have hspeaks := hx _ _ _ hu
  exact having_ne_nil_addGroup hspeaks

theorem speaking_routed {isAggregate : Bool} (hx : Speaking x) :
    Speaking (routed isAggregate x) := by
  intro d c e h
  obtain h' | ⟨-, -, h'⟩ := routed_yields h
  · exact hx d c e h'
  · exact .inr (inHavingGroup_speaks hx h')

theorem speaking_composite (group : Composite) (hxs : SpeakingAll xs) :
    Speaking (composite group xs) := by
  have hcombined : Speaking (combined group.operation xs) := by
    intro d c e h
    have htext : ∀ members : List Condition, members ≠ [] →
        HasText (combine group.operation members) := by
      intro members hne
      have hgroup (b : Bool) : grouped b members = some (.group b members) :=
        if_neg (by simpa using hne)
      cases group.operation with
      | and => exact ⟨_, hgroup false, by simp [Condition.render]⟩
      | or => exact ⟨_, hgroup true, by simp [Condition.render]⟩
      | not => exact ⟨_, by rw [combine, hgroup]; rfl, by simp [Condition.render]⟩
    obtain ⟨members, rfl, h' | ⟨u, h', rfl⟩⟩ := combined_yields h
    · exact (hxs _ _ _ h').imp_left (htext members)
    · exact (hxs _ _ _ h').imp_left (htext members)
  intro d c e h
  obtain h' | ⟨-, -, h'⟩ := composite_yields h
  · exact hcombined d c e h'
  · exact .inr (inHavingGroup_speaks hcombined h')

theorem speakingAll_together (hx : Speaking x) (hxs : Extending xs) :
    SpeakingAll (together x xs) := by
  intro d cs e h
  obtain ⟨condition, u, rest, hy, hys, rfl⟩ := together_yields h
  obtain ⟨w, rfl, -⟩ | hhaving := hx _ _ _ hy
  · exact .inl (by simp)
  · exact .inr ((hxs _ _ _ hys).having_ne_nil hhaving)

theorem speakingAll_emitEach {selection : Selection} {fs : List Filter} {f : Filter} (hf : f ∈ fs)
    (hspeaks : Speaking (emitSelected k selection f)) : SpeakingAll (emitEach k selection fs) := by
  induction fs with
  | nil => cases hf
  | cons g rest ih =>
    rw [emitEach_cons]
    rcases List.mem_cons.mp hf with rfl | hrest
    · exact speakingAll_together hspeaks (emitEach_extends selection rest)
    · intro d cs e h
      obtain ⟨condition, u, others, hy, hys, rfl⟩ := together_yields h
      exact (ih hrest _ _ _ hys).imp_left fun hne => by simp [hne]

/-! ## Leaves -/

theorem speaking_predicate {p : Atom} (h : p.render ≠ "") : Speaking (predicate p) := by
  intro d c e hy
  obtain ⟨rfl, rfl⟩ := predicate_yields.mp hy
  exact .inl (hasText_atom h)

theorem speaking_bind {α : Type} {step : Step Draft α} {f : α → Emission}
    (h : ∀ a, Speaking (f a)) : Speaking (step >>= f) := by
  intro d c e hy
  obtain ⟨a, u, -, ha⟩ := Step.yields_bind.mp hy
  exact h a u c e ha

theorem speaking_comparison (t : Test) (v : Value) (operator : String) :
    Speaking (comparison k t v operator) := by
  refine speaking_routed fun d c e h => ?_
  obtain ⟨p, u, hp, h₁⟩ := Step.yields_bind.mp h
  obtain ⟨_, _, _, -, rfl, -⟩ := plainComparison_yields hp
  exact speaking_predicate (Atom.render_comparison_ne_empty _ _ _ _) _ _ _ h₁

theorem speaking_nullCheck (t : Test) (isNull : Bool) : Speaking (nullCheck k t isNull) := by
  refine speaking_routed (speaking_bind fun reference => speaking_predicate ?_)
  cases isNull <;> simp [Atom.render]

theorem speaking_equality (t : Test) (v : Value) (equal : Bool) :
    Speaking (equality k t v equal) := by
  unfold equality
  split
  · exact speaking_nullCheck t equal
  · exact speaking_comparison t v _

theorem speaking_emptyCheck (t : Test) : Speaking (emptyCheck k t) :=
  speaking_routed (speaking_bind fun reference => speaking_predicate (by simp [Atom.render]))

theorem speakingAll_equalities (t : Test) {values : List Value} (h : values ≠ []) :
    SpeakingAll (equalities k t values) := by
  match values with
  | v :: rest =>
    exact speakingAll_together (speaking_equality _ v true)
      ((Extending.leafRules k).equalities t rest)

theorem speaking_membership (t : Test) : Speaking (membership k t) := by
  unfold membership
  dsimp only
  split
  · rename_i hentities
    have hne := elements_ne_nil_of_hasEntities hentities
    split
    · exact speaking_equality _ _ true
    · exact speaking_composite _ (speakingAll_equalities t hne)
  · refine speaking_routed fun d c e h => ?_
    obtain ⟨p, u, hp, h₁⟩ := Step.yields_bind.mp h
    obtain ⟨-, rfl, -⟩ | ⟨-, _, _, _, _, -, rfl, -⟩ := plainMembership_yields hp
    · exact speaking_predicate (by simp [Atom.render]) _ _ _ h₁
    · exact speaking_predicate (by simp [Atom.render]) _ _ _ h₁

theorem separateComparisons_speaks {t : Test} {values : List Value} (hne : values ≠ [])
    {d e : Draft} {members : List Condition}
    (h : (separateComparisons k t values).Yields d members e) :
    ∃ p rest, members = .atom p :: rest ∧ p.render ≠ "" := by
  match values with
  | v :: others =>
    obtain ⟨p, u, hp, h₁⟩ := Step.yields_bind.mp h
    obtain ⟨rest, w, -, h₂⟩ := Step.yields_bind.mp h₁
    obtain ⟨rfl, rfl⟩ := Step.yields_pure.mp h₂
    obtain ⟨_, _, _, -, rfl, -⟩ := plainComparison_yields hp
    exact ⟨_, rest, rfl, Atom.render_comparison_ne_empty _ _ _ _⟩

theorem speaking_containsAll {t : Test} (hne : t.value.elements ≠ []) :
    Speaking (containsAll k t) := by
  intro d c e h
  obtain ⟨v, -, h'⟩ | ⟨-, h'⟩ := containsAll_yields h
  · exact speaking_equality t v true d c e h'
  · refine speaking_routed (fun d c e h => ?_) d c e h'
    obtain ⟨members, u, hmembers, h₁⟩ := Step.yields_bind.mp h
    obtain ⟨rfl, rfl⟩ := Step.yields_pure.mp h₁
    obtain ⟨p, rest, rfl, hp⟩ := separateComparisons_speaks hne hmembers
    refine .inl ⟨.chain (.atom p :: rest), if_neg (by simp), ?_⟩
    rw [Condition.render, renderConditions, Condition.render]
    exact Text.joinWith_ne_empty List.mem_cons_self hp

theorem speaking_join (t : Test) : Speaking (join k t) := by
  intro d c e h
  obtain ⟨other, condition, -, -, rfl, hcondition⟩ := join_yields h
  refine .inl (hasText_atom ?_)
  rw [Atom.render]
  obtain ⟨-, left, _, right, _, -, -, rfl, -⟩ | ⟨-, hcorrelation⟩ := hcondition
  · exact Correlation.render_ne_empty (.inr rfl)
  · obtain ⟨right, _, left, _, _, -, -, hor, -⟩ := correlation_yields hcorrelation
    exact Correlation.render_ne_empty hor

theorem speaking_test {t : Test} (hjoin : t.operation ≠ .leftJoin)
    (hall : t.operation = .containsAll → t.value.elements ≠ []) : Speaking (test k t) := by
  unfold test
  cases hop : t.operation with
  | eq | ne => exact speaking_equality t _ _
  | lt | gt | le | ge | like => exact speaking_comparison t _ _
  | inList => exact speaking_membership t
  | isNull | notNull => exact speaking_nullCheck t _
  | isEmpty => exact speaking_emptyCheck t
  | containsAll => exact speaking_containsAll (hall hop)
  | join => exact speaking_join t
  | leftJoin => exact absurd hop hjoin
  | collectionCondition | subquery =>
    intro d c e h
    exact (Step.yields_fail.mp h).elim

/-! ## Nested filters -/

theorem speaking_inSelect {reference : Reference} {negated : Bool} {className column : String} :
    Speaking (inSelect k reference negated className column x) := by
  intro d c e h
  obtain ⟨_, _, _, _, -, -, rfl, -⟩ := inSelect_yields h
  refine .inl (hasText_atom ?_)
  cases negated <;> simp [Atom.render]

theorem speaking_subquery {t : Test} (hop : t.operation = .subquery) :
    Speaking (subquery k t x) := by
  intro d c e h
  obtain h' | ⟨_, _, -, -, h'⟩ := subquery_yields h
  · exact speaking_test (by simp [hop]) (by simp [hop]) d c e h'
  · exact speaking_routed (speaking_bind fun _ => speaking_inSelect) d c e h'

theorem speaking_excluding {property : String} : Speaking (excluding k property x) := by
  intro d c e h
  obtain ⟨_, _, _, _, -, -, -, -, h'⟩ := excluding_yields h
  exact speaking_inSelect d c e h'

theorem hasText_joinParts {disjunctive : Bool} {kept excluded : Option Condition}
    (h : HasText kept ∨ HasText excluded) : HasText (joinParts disjunctive kept excluded) := by
  match kept, excluded, h with
  | some a, some b, _ => exact ⟨_, rfl, by simp [Condition.render]⟩
  | some a, none, .inl h => exact h
  | some a, none, .inr ⟨_, h, _⟩ => cases h
  | none, _, .inr h => exact h
  | none, _, .inl ⟨_, h, _⟩ => cases h

theorem speaking_elementCondition {property : String} {c : Composite}
    {plain negated : Step Draft (List Condition)}
    (h : (∀ outer, Speaking (keptPart k property outer c.split.1 plain)) ∨
      Speaking (excludedPart k property c.split.2 negated)) :
    Speaking (elementCondition k property c plain negated) := by
  intro d condition e hy
  obtain ⟨kept, u, excluded, v, outer, hkept, hexcluded, rfl, rfl⟩ := elementCondition_yields hy
  rcases h with h | h
  · obtain htext | hhaving := h outer _ _ _ hkept
    · exact .inl (hasText_joinParts (.inl htext))
    · exact .inr ((Extending.excludedPart property _ _ _ _ _ hexcluded).having_ne_nil hhaving)
  · exact (h _ _ _ hexcluded).imp_left fun htext => hasText_joinParts (.inr htext)

/-- A condition that is not silent has a negated part or a plain child that is not silent. -/
theorem split_of_not_isSilentCondition {c : Composite}
    (h : Filter.isSilentCondition (some c) = false) :
    (∃ part, c.split.2 = some part) ∨
      ∃ f ∈ c.children, f.isNegated = false ∧ f.isSilent = false ∧
        c.split.1 = some ⟨c.operation, c.plainChildren⟩ := by
  by_cases hop : c.operation = .not
  · exact .inl ⟨_, by rw [Composite.split, if_pos hop]⟩
  by_cases hnegated : c.negatedChildren = []
  · have hplain : ∀ f ∈ c.children, f.isNegated = false := by
      intro f hf
      simpa using List.filter_eq_nil_iff.mp hnegated f hf
    rw [Filter.isSilentCondition_some, Bool.and_eq_false_iff, Bool.and_eq_false_iff] at h
    obtain (h | h) | h := h
    · exact absurd (by simpa using h) hop
    · obtain ⟨f, hf, hn⟩ := List.all_eq_false.mp h
      rw [hplain f hf] at hn
      exact absurd rfl hn
    · rw [Filter.areSilent_eq] at h
      obtain ⟨f, hf, hsilent⟩ := List.all_eq_false.mp h
      refine .inr ⟨f, hf, hplain f hf, by simpa using hsilent, ?_⟩
      have hmem : f ∈ c.plainChildren := List.mem_filter.mpr ⟨hf, by rw [hplain f hf]; rfl⟩
      rw [Composite.split, if_neg hop]
      exact if_neg (by simpa using List.ne_nil_of_mem hmem)
  · refine .inl ⟨⟨c.operation.flip, c.negatedChildren.map Filter.invert⟩, ?_⟩
    rw [Composite.split, if_neg hop]
    exact if_neg (by simpa using hnegated)

/-- A filter that is not silent leaves a condition. -/
theorem speaking_emit {f : Filter} (h : f.isSilent = false) : Speaking (emit k f) := by
  induction f using Filter.induction with
  | leaf t condition subfilter ihc ihs =>
    rw [emit, emitLeaf]
    split
    · rename_i hop
      rw [Filter.isSilent_condition hop] at h
      rcases condition with _ | ⟨operation, children⟩
      · exact speaking_test (by simp [hop]) (by simp [hop])
      · refine speaking_elementCondition ?_
        obtain ⟨part, hpart⟩ | ⟨f, hf, hplain, hsilent, hsplit⟩ :=
          split_of_not_isSilentCondition h
        · rw [hpart]
          exact .inr speaking_excluding
        · refine .inl fun outer => ?_
          rw [hsplit]
          have hselected : Speaking (emitSelected k .plain f) := by
            unfold emitSelected
            dsimp only
            rw [hplain]
            exact ihc _ rfl f hf hsilent
          intro d c e hy
          obtain ⟨a, u, -, hu, rfl⟩ := inScope_yields hy
          have hspeaks := speaking_composite _ (speakingAll_emitEach hf hselected) _ c u hu
          exact hspeaks
    · rename_i hop
      cases subfilter with
      | none => exact speaking_subquery hop
      | some f => exact speaking_subquery hop
    · rename_i hcondition hsubquery
      refine speaking_test ?_ ?_
      · intro hop
        rw [Filter.isSilent, hop] at h
        cases h
      · intro hop hnil
        rw [Filter.isSilent, hop] at h
        simp [hnil] at h
  | composite operation children ih =>
    rw [Filter.isSilent, Filter.areSilent_eq] at h
    obtain ⟨f, hf, hsilent⟩ := List.all_eq_false.mp h
    exact speaking_composite _
      (@speakingAll_emitEach k .all children f hf (ih f hf (by simpa using hsilent)))

end Draft

end ObjectQuery
