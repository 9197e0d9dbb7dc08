import ObjectQuery.Proofs.Having.Groups

/-!
# Negative predicates

A predicate is negative if it rejects the rows that are as it says: `!=`, `is not null` and
`not (...)`.

* `anyNegative`: conditions that hold a negative predicate outside of the selects nested in them.
* `Signs`, `Filter.signs`: read off a filter whether it leaves a condition in the clause that is
  being written, and whether anything that it writes is negative.
* `Draft.Shows`: a step writes what the signs say, with a rule for each way to put steps together.
* `Draft.Shows.test`: so does a leaf without other filters.
-/

namespace ObjectQuery

/-! ## Conditions -/

/-- Whether a predicate rejects the rows that are as it says. A select excludes owners, not rows. -/
def Atom.isNegative : Atom → Bool
  | .comparison _ operator _ _ => operator == "!="
  | .nullCheck _ isNull => !isNull
  | _ => false

mutual

/-- Whether a condition holds a negative predicate. The selects nested in it are not looked into. -/
def Condition.hasNegative : Condition → Bool
  | .atom p => p.isNegative
  | .chain members => anyNegative members
  | .group _ members => anyNegative members
  | .negation _ => true
  | .unfinished _ members => anyNegative members

/-- Whether some condition holds a negative predicate. -/
def anyNegative : List Condition → Bool
  | [] => false
  | c :: rest => c.hasNegative || anyNegative rest

end

theorem anyNegative_append (l₁ l₂ : List Condition) :
    anyNegative (l₁ ++ l₂) = (anyNegative l₁ || anyNegative l₂) := by
  induction l₁ with
  | nil => rw [List.nil_append, anyNegative, Bool.false_or]
  | cons c rest ih => rw [List.cons_append, anyNegative, ih, anyNegative, Bool.or_assoc]

theorem anyNegative_singleton (c : Condition) : anyNegative [c] = c.hasNegative := by
  rw [anyNegative, anyNegative, Bool.or_false]

/-- Members that are negated are negative as a whole. -/
theorem anyNegative_combine (operation : BooleanOp) (members : List Condition) :
    anyNegative (Draft.combine operation members).toList =
      (operation == .not && !members.isEmpty || anyNegative members) := by
  rcases members with _ | ⟨first, rest⟩
  · cases operation <;> rfl
  · cases operation
    case not => rfl
    all_goals exact anyNegative_singleton _

theorem anyNegative_joinParts (disjunctive : Bool) (kept excluded : Option Condition) :
    anyNegative (Draft.joinParts disjunctive kept excluded).toList =
      (anyNegative kept.toList || anyNegative excluded.toList) := by
  rw [← anyNegative_append]
  rcases kept with _ | a <;> rcases excluded with _ | b
  case some.some => exact anyNegative_singleton _
  all_goals rfl

/-! ## Filters -/

/-- What a step writes, as far as negation goes. -/
structure Signs where
  /-- A condition stays in the clause that is being written. -/
  stays : Bool
  /-- Something is negative: the condition that stays or a group of the having clause. -/
  negative : Bool

namespace Signs

/-- Nothing is written. -/
def nothing : Signs := ⟨false, false⟩

/-- One predicate stays. -/
def one (negative : Bool) : Signs := ⟨true, negative⟩

/-- What two steps write. -/
def both (a b : Signs) : Signs := ⟨a.stays || b.stays, a.negative || b.negative⟩

/-- What becomes of members under a connective. A negation of nothing is not written. -/
def connect (operation : BooleanOp) (members : Signs) : Signs :=
  ⟨members.stays, operation == .not && members.stays || members.negative⟩

/-- What is written within the having clause if it belongs there, and in place else. -/
def routed (inHaving isAggregate : Bool) (signs : Bool → Signs) : Signs :=
  if isAggregate && !inHaving then ⟨false, (signs true).negative⟩ else signs inHaving

end Signs

/-- What a leaf without other filters writes. -/
def Test.signs (t : Test) (inHaving : Bool) : Signs :=
  match t.operation with
  | .leftJoin => .nothing
  | .join => .one false
  | .containsAll =>
    if t.value.elements.isEmpty then .nothing
    else .routed inHaving t.isAggregate fun _ => .one false
  | _ => .routed inHaving t.isAggregate fun _ => .one t.isNegated

namespace Filter

mutual

/-- What a filter writes, in the having clause or outside of it. A condition on a collection writes
its plain part and excludes owners by a select. -/
def signs : Filter → Bool → Signs
  | .leaf ⟨t, condition, _⟩, inHaving =>
    match t.operation with
    | .collectionCondition => conditionSigns condition inHaving
    | _ => t.signs inHaving
  | .composite ⟨operation, children⟩, inHaving =>
    .routed inHaving (areAggregateOnly children) fun inHaving =>
      (signsOfAll children inHaving).connect operation

/-- What filters write together. -/
def signsOfAll : List Filter → Bool → Signs
  | [], _ => .nothing
  | f :: rest, inHaving => (signs f inHaving).both (signsOfAll rest inHaving)

/-- What a condition on a collection's elements writes. -/
def conditionSigns : Option Composite → Bool → Signs
  | none, _ => .nothing
  | some ⟨operation, children⟩, inHaving =>
    if operation = .not then .one false
    else
      (Signs.routed inHaving (areAggregateOnly (children.filter (!·.isNegated))) fun inHaving =>
        signsOfPlain children inHaving).both ⟨children.any (·.isNegated), false⟩

/-- What the filters that are not negated write together. -/
def signsOfPlain : List Filter → Bool → Signs
  | [], _ => .nothing
  | f :: rest, inHaving =>
    if f.isNegated then signsOfPlain rest inHaving
    else (signs f inHaving).both (signsOfPlain rest inHaving)

end

theorem signsOfPlain_eq (fs : List Filter) :
    signsOfPlain fs = signsOfAll (fs.filter (!·.isNegated)) := by
  funext inHaving
  induction fs with
  | nil => rfl
  | cons f rest ih =>
    rw [signsOfPlain, ih]
    by_cases hf : f.isNegated = true
    · rw [if_pos hf, List.filter_cons_of_neg (by simp [hf])]
    · rw [if_neg hf, List.filter_cons_of_pos (by simp [hf]), signsOfAll]

/-- A condition writes its plain part like a composite, and excludes owners if it has a negated
part. -/
theorem conditionSigns_some (c : Composite) (inHaving : Bool) :
    conditionSigns (some c) inHaving =
      (c.split.1.elim .nothing fun plain => signs (.composite plain) inHaving).both
        ⟨c.split.2.isSome, false⟩ := by
  obtain ⟨operation, children⟩ := c
  rw [conditionSigns, Composite.split]
  split
  · rfl
  · rename_i hnot
    have hany : children.any (·.isNegated) =
        (if (Composite.negatedChildren ⟨operation, children⟩).isEmpty then none
          else some (⟨operation.flip, (Composite.negatedChildren ⟨operation, children⟩).map
            invert⟩ : Composite)).isSome := by
      rw [Composite.negatedChildren, Bool.eq_iff_iff]
      split <;> simp_all
    have hconnect : ∀ s : Signs, s.connect operation = s := by
      intro s
      rw [Signs.connect, beq_false_of_ne hnot, Bool.false_and, Bool.false_or]
    rw [hany]
    congr 1
    rw [signsOfPlain_eq]
    split
    · rename_i hempty
      have hnil : children.filter (!·.isNegated) = [] := List.isEmpty_iff.mp hempty
      rw [hnil]
      cases inHaving <;> rfl
    · simp only [Option.elim_some, signs, hconnect]
      rfl

end Filter

namespace Draft

/-! ## Steps -/

/-- A run writes what the signs say: conditions in the clause that is being written, and from
outside of the having clause groups behind the others. -/
structure WritesSigns (signs : Signs) (d : Draft) (members : List Condition) (e : Draft) :
    Prop where
  inHaving : e.inHaving = d.inHaving
  stays : members.isEmpty = !signs.stays
  groups : ∃ left, e.groups = d.groups ++ left ∧ (d.inHaving = true → left = []) ∧
    anyNegative (members ++ left) = signs.negative

/-- The step writes what the signs say, within the having clause or outside of it. -/
def Shows {α : Type} (members : α → List Condition) (signs : Bool → Signs) (x : Step Draft α) :
    Prop :=
  ∀ d a e, x.Yields d a e → WritesSigns (signs d.inHaving) d (members a) e

/-- The step writes one predicate wherever it stands. -/
def WritesAtom (negative : Bool) (x : Emission) : Prop :=
  ∀ d c e, x.Yields d c e → e.inHaving = d.inHaving ∧ e.having = d.having ∧
    ∃ p, c = some (.atom p) ∧ p.isNegative = negative

variable {k : Compiler} {x : Emission} {xs : Step Draft (List Condition)} {s s' : Bool → Signs}
  {negative : Bool}

namespace Shows

theorem fail {α : Type} {members : α → List Condition} (err : CompileError) :
    Shows members s (Step.fail err : Step Draft α) :=
  fun _ _ _ h => (Step.yields_fail.mp h).elim

/-- A step that leaves the having clause alone. -/
theorem of_members {α : Type} {members : α → List Condition} {x : Step Draft α} {signs : Signs}
    (h : ∀ d a e, x.Yields d a e → e.inHaving = d.inHaving ∧ e.having = d.having ∧
      (members a).isEmpty = !signs.stays ∧ anyNegative (members a) = signs.negative) :
    Shows members (fun _ => signs) x := by
  intro d a e hx
  obtain ⟨hinHaving, hhaving, hstays, hnegative⟩ := h d a e hx
  refine ⟨hinHaving, hstays, [], ?_, fun _ => rfl, ?_⟩
  · rw [groups, hhaving, List.append_nil, groups]
  · rw [List.append_nil, hnegative]

theorem nil : Shows id (fun _ => .nothing) (pure [] : Step Draft (List Condition)) := by
  refine of_members fun d a e h => ?_
  obtain ⟨rfl, rfl⟩ := Step.yields_pure.mp h
  exact ⟨rfl, rfl, rfl, rfl⟩

theorem nothing : Shows Option.toList (fun _ => .nothing) (pure none : Emission) := by
  refine of_members fun d a e h => ?_
  obtain ⟨rfl, rfl⟩ := Step.yields_pure.mp h
  exact ⟨rfl, rfl, rfl, rfl⟩

theorem ofAtom (h : WritesAtom negative x) : Shows Option.toList (fun _ => .one negative) x := by
  refine of_members fun d c e hx => ?_
  obtain ⟨hinHaving, hhaving, p, rfl, hp⟩ := h d c e hx
  refine ⟨hinHaving, hhaving, rfl, ?_⟩
  rw [← hp]
  exact anyNegative_singleton _

/-- A group is written in the having clause, and nothing stays. -/
theorem inHavingGroup (hx : Shows Option.toList s x) {d e : Draft} {c : Option Condition}
    (h : (Draft.inHavingGroup x).Yields d c e) :
    c = none ∧ e.inHaving = d.inHaving ∧ ∃ left, e.groups = d.groups ++ left ∧
      anyNegative left = (s true).negative := by
  obtain ⟨rfl, group, u, hu, rfl⟩ := inHavingGroup_yields h
  obtain ⟨-, -, left, hgroups, hleft, hnegative⟩ := hx _ _ _ hu
  rw [hleft rfl, List.append_nil] at hgroups hnegative
  refine ⟨rfl, ?_, group.toList, ?_, hnegative⟩
  · unfold addGroup
    split <;> rfl
  · rw [groups_addGroup]
    exact congrArg (· ++ group.toList) hgroups

theorem routed (isAggregate : Bool) (hx : Shows Option.toList s x) :
    Shows Option.toList (fun inHaving => .routed inHaving isAggregate s)
      (Draft.routed isAggregate x) := by
  intro d c e h
  have h₁ := Step.yields_get_bind.mp h
  dsimp only
  rw [Signs.routed]
  split at h₁
  · rename_i haggregate
    rw [if_pos haggregate]
    obtain ⟨rfl, hinHaving, left, hgroups, hnegative⟩ := hx.inHavingGroup h₁
    refine ⟨hinHaving, rfl, left, hgroups, fun hd => ?_, hnegative⟩
    rw [hd, Bool.not_true, Bool.and_false] at haggregate
    cases haggregate
  · rename_i haggregate
    rw [if_neg haggregate]
    exact hx d c e h₁

theorem combined (operation : BooleanOp) (hxs : Shows id s xs) :
    Shows Option.toList (fun inHaving => (s inHaving).connect operation)
      (Draft.combined operation xs) := by
  intro d c e h
  obtain ⟨members, rfl, u, v, hmembers, hu, hgroups₁, he, hgroups₂⟩ : ∃ members,
      c = combine operation members ∧ ∃ u v, xs.Yields u members v ∧ u.inHaving = d.inHaving ∧
        u.groups = d.groups ∧ e.inHaving = v.inHaving ∧ e.groups = v.groups := by
    obtain ⟨members, hc, h' | ⟨v, h', rfl⟩⟩ := combined_yields h
    · exact ⟨members, hc, d, e, h', rfl, rfl, rfl, rfl⟩
    · exact ⟨members, hc, _, v, h', rfl, rfl, rfl, rfl⟩
  obtain ⟨hinHaving, hstays, left, hgroups, hleft, hnegative⟩ := hxs _ _ _ hmembers
  rw [hu] at hinHaving hstays hleft hnegative
  have hempty : (combine operation members).toList.isEmpty = members.isEmpty := by
    cases operation <;> cases members <;> rfl
  refine ⟨he.trans hinHaving, hempty.trans hstays, left, ?_, hleft, ?_⟩
  · rw [hgroups₂, hgroups, hgroups₁]
  · dsimp only [Signs.connect, id_eq] at hstays hnegative ⊢
    rw [anyNegative_append] at hnegative
    rw [anyNegative_append, anyNegative_combine, hstays, Bool.not_not, ← hnegative, Bool.or_assoc]

/-- A composite of aggregates is written in the having clause. -/
theorem composite (c : Composite) (hxs : Shows id s xs)
    (hnil : c.children = [] → s = fun _ => .nothing) :
    Shows Option.toList (fun inHaving => .routed inHaving (Filter.areAggregateOnly c.children)
      fun inHaving => (s inHaving).connect c.operation) (Draft.composite c xs) := by
  have hcombined := hxs.combined c.operation
  intro d condition e h
  have h₁ := Step.yields_get_bind.mp h
  dsimp only
  by_cases hd : d.inHaving = true
  · rw [if_pos hd] at h₁
    rw [Signs.routed, hd, Bool.not_true, Bool.and_false, if_neg Bool.false_ne_true, ← hd]
    exact hcombined d condition e h₁
  · rw [if_neg hd] at h₁
    rw [Bool.not_eq_true] at hd
    by_cases honly : Filter.areAggregateOnly c.children = true
    · rw [if_pos honly] at h₁
      rw [Signs.routed, honly, hd, Bool.not_false, Bool.and_true, if_pos rfl]
      split at h₁
      · rename_i hempty
        have hwrites := hcombined d condition e h₁
        rw [hnil (List.isEmpty_iff.mp hempty)] at hwrites ⊢
        exact hwrites
      · obtain ⟨rfl, hinHaving, left, hgroups, hnegative⟩ := hcombined.inHavingGroup h₁
        refine ⟨hinHaving, rfl, left, hgroups, fun h => ?_, hnegative⟩
        rw [hd] at h
        cases h
    · rw [if_neg honly] at h₁
      rw [Signs.routed, Bool.eq_false_iff.mpr honly, Bool.false_and, if_neg Bool.false_ne_true]
      split at h₁
      · exact (Step.yields_fail.mp h₁).elim
      · exact hcombined d condition e h₁

theorem together (hx : Shows Option.toList s x) (hxs : Shows id s' xs) :
    Shows id (fun inHaving => (s inHaving).both (s' inHaving)) (Draft.together x xs) := by
  intro d members e h
  obtain ⟨condition, u, rest, hy, hys, rfl⟩ := together_yields h
  obtain ⟨hinHaving, hstays, left, hgroups, hleft, hnegative⟩ := hx _ _ _ hy
  obtain ⟨hinHaving', hstays', left', hgroups', hleft', hnegative'⟩ := hxs _ _ _ hys
  rw [hinHaving] at hinHaving' hstays' hleft' hnegative'
  refine ⟨hinHaving', ?_, left ++ left', ?_, fun hd => ?_, ?_⟩
  · dsimp only [Signs.both, id_eq] at hstays' ⊢
    rw [Bool.not_or, ← hstays, ← hstays']
    cases condition <;> rfl
  · rw [hgroups', hgroups, List.append_assoc]
  · rw [hleft hd, hleft' hd, List.append_nil]
  · dsimp only [Signs.both, id_eq] at hnegative' ⊢
    rw [← hnegative, ← hnegative']
    simp only [anyNegative_append]
    ac_rfl

/-! ## Leaves -/

end Shows

theorem writesAtom_comparison (t : Test) (v : Value) (operator : String) :
    WritesAtom (operator == "!=") (do
      let a ← plainComparison k t v operator false
      predicate a) := by
  intro d c e h
  obtain ⟨p, u, hp, h₁⟩ := Step.yields_bind.mp h
  obtain ⟨_, _, a, -, rfl, rfl⟩ := plainComparison_yields hp
  obtain ⟨rfl, rfl⟩ := predicate_yields.mp h₁
  exact ⟨rfl, rfl, _, rfl, rfl⟩

theorem writesAtom_nullCheck (t : Test) (isNull : Bool) :
    WritesAtom (!isNull) (do
      let reference ← resolve k t.property false
      predicate (.nullCheck reference isNull)) := by
  intro d c e h
  obtain ⟨r, u, hr, h₁⟩ := Step.yields_bind.mp h
  obtain ⟨a, -, rfl⟩ := resolve_yields hr
  obtain ⟨rfl, rfl⟩ := predicate_yields.mp h₁
  exact ⟨rfl, rfl, _, rfl, rfl⟩

theorem writesAtom_emptyCheck (t : Test) :
    WritesAtom false (do
      let reference ← resolveCollection k t.property
      predicate (.emptyCheck reference)) := by
  intro d c e h
  obtain ⟨r, u, hr, h₁⟩ := Step.yields_bind.mp h
  obtain ⟨a, -, rfl⟩ := resolveCollection_yields hr
  obtain ⟨rfl, rfl⟩ := predicate_yields.mp h₁
  exact ⟨rfl, rfl, _, rfl, rfl⟩

theorem writesAtom_membership (t : Test) (values : List Value) :
    WritesAtom false (do
      let a ← plainMembership k t values
      predicate a) := by
  intro d c e h
  obtain ⟨p, u, hp, h₁⟩ := Step.yields_bind.mp h
  obtain ⟨rfl, rfl⟩ := predicate_yields.mp h₁
  obtain ⟨-, rfl, rfl⟩ | ⟨-, _, _, _, _, -, rfl, rfl⟩ := plainMembership_yields hp
  · exact ⟨rfl, rfl, _, rfl, rfl⟩
  · exact ⟨rfl, rfl, _, rfl, rfl⟩

theorem writesAtom_join (t : Test) : WritesAtom false (join k t) := by
  intro d c e h
  obtain ⟨other, condition, -, -, rfl, ⟨-, _, a, _, b, -, -, -, rfl⟩ | ⟨-, hcondition⟩⟩ :=
    join_yields h
  · exact ⟨rfl, rfl, _, rfl, rfl⟩
  · obtain ⟨_, _, _, _, _, -, -, -, rfl⟩ := correlation_yields hcondition
    exact ⟨rfl, rfl, _, rfl, rfl⟩

namespace Shows

/-- A predicate on an aggregate belongs to the having clause. -/
theorem routedAtom (isAggregate : Bool) (h : WritesAtom negative x) :
    Shows Option.toList (fun inHaving => .routed inHaving isAggregate fun _ => .one negative)
      (Draft.routed isAggregate x) :=
  (ofAtom h).routed isAggregate

theorem equality (t : Test) (v : Value) (equal : Bool) :
    Shows Option.toList (fun inHaving => .routed inHaving t.isAggregate fun _ => .one (!equal))
      (Draft.equality k t v equal) := by
  unfold Draft.equality
  split
  · exact routedAtom _ (writesAtom_nullCheck t equal)
  · cases equal
    · exact routedAtom _ (writesAtom_comparison t v "!=")
    · exact routedAtom _ (writesAtom_comparison t v "=")

theorem equalities (t : Test) (values : List Value) :
    Shows id (fun inHaving => if values.isEmpty then .nothing
      else .routed inHaving t.isAggregate fun _ => .one false) (Draft.equalities k t values) := by
  induction values with
  | nil => exact nil
  | cons v rest ih =>
    have h := (equality (k := k) (t.withOperation .eq v) v true).together ih
    have hsame : (fun inHaving => ((Signs.routed inHaving (t.withOperation .eq v).isAggregate
        fun _ => .one (!true)).both (if rest.isEmpty then .nothing
          else .routed inHaving t.isAggregate fun _ => .one false))) =
        fun inHaving => .routed inHaving t.isAggregate fun _ => .one false := by
      funext inHaving
      have haggregate : (t.withOperation .eq v).isAggregate = t.isAggregate := rfl
      rw [haggregate]
      unfold Signs.routed
      cases rest.isEmpty <;> cases t.isAggregate <;> cases inHaving <;> rfl
    rw [hsame] at h
    exact h

/-- A list with entities is compared like one value. -/
theorem membership (t : Test) :
    Shows Option.toList (fun inHaving => .routed inHaving t.isAggregate fun _ => .one false)
      (Draft.membership k t) := by
  unfold Draft.membership
  dsimp only
  split
  · rename_i hentities
    have hne := elements_ne_nil_of_hasEntities hentities
    split
    · rename_i v hv
      exact equality (t.withOperation .eq v) v true
    · have honly : Filter.areAggregateOnly
          (t.value.elements.map fun v => .test (t.withOperation .eq v)) = t.isAggregate := by
        obtain ⟨first, rest, heq⟩ := List.exists_cons_of_ne_nil hne
        rw [heq, Filter.areAggregateOnly_eq, List.all_map, Bool.eq_iff_iff, List.all_eq_true]
        exact ⟨fun h => h first List.mem_cons_self, fun h _ _ => h⟩
      have h := (equalities (k := k) t t.value.elements).composite
        ⟨.or, t.value.elements.map fun v => .test (t.withOperation .eq v)⟩
        fun hnil => absurd (List.map_eq_nil_iff.mp hnil) hne
      have hsame : (fun inHaving => Signs.routed inHaving t.isAggregate fun inHaving =>
          (if t.value.elements.isEmpty then Signs.nothing
            else .routed inHaving t.isAggregate fun _ => .one false).connect .or) =
          fun inHaving => .routed inHaving t.isAggregate fun _ => .one false := by
        funext inHaving
        rw [List.isEmpty_eq_false_iff.mpr hne]
        unfold Signs.routed
        cases t.isAggregate <;> cases inHaving <;> rfl
      rwa [honly, hsame] at h
  · exact routedAtom _ (writesAtom_membership t _)

/-- Separate comparisons are equalities. -/
theorem separateComparisons {t : Test} {values : List Value} {d e : Draft}
    {members : List Condition} (h : (Draft.separateComparisons k t values).Yields d members e) :
    anyNegative members = false := by
  induction values generalizing d members with
  | nil =>
    obtain ⟨rfl, rfl⟩ := Step.yields_pure.mp h
    rfl
  | cons v rest ih =>
    obtain ⟨p, u, hp, h₁⟩ := Step.yields_bind.mp h
    obtain ⟨_, _, a, -, rfl, rfl⟩ := plainComparison_yields hp
    obtain ⟨conditions, w, hrest, h₂⟩ := Step.yields_bind.mp h₁
    obtain ⟨rfl, rfl⟩ := Step.yields_pure.mp h₂
    rw [anyNegative, ih hrest]
    rfl

theorem containsAll (t : Test) :
    Shows Option.toList (fun inHaving => if t.value.elements.isEmpty then .nothing
      else .routed inHaving t.isAggregate fun _ => .one false) (Draft.containsAll k t) := by
  have hseveral : Shows Option.toList
      (fun inHaving => .routed inHaving t.isAggregate fun _ => ⟨!t.value.elements.isEmpty, false⟩)
      (Draft.routed t.isAggregate do
        let conditions ← Draft.separateComparisons k t t.value.elements
        pure (chained conditions)) := by
    refine (of_members fun d c e h => ?_).routed _
    obtain ⟨members, u, hmembers, h₁⟩ := Step.yields_bind.mp h
    obtain ⟨rfl, rfl⟩ := Step.yields_pure.mp h₁
    obtain ⟨hinHaving, hhaving, hempty⟩ := separateComparisons_places hmembers
    have hnegative := separateComparisons hmembers
    refine ⟨hinHaving, hhaving, ?_, ?_⟩
    · rw [Bool.not_not, ← hempty]
      cases members <;> rfl
    · rcases members with _ | ⟨first, rest⟩
      · rfl
      · exact (anyNegative_singleton _).trans hnegative
  intro d c e h
  obtain ⟨v, hv, h'⟩ | ⟨-, h'⟩ := containsAll_yields h
  · rw [hv]
    exact equality t v true d c e h'
  · have hsame : Signs.routed d.inHaving t.isAggregate
        (fun _ => ⟨!t.value.elements.isEmpty, false⟩) = (if t.value.elements.isEmpty then .nothing
          else .routed d.inHaving t.isAggregate fun _ => .one false) := by
      unfold Signs.routed
      cases t.value.elements.isEmpty <;> cases t.isAggregate <;> cases d.inHaving <;> rfl
    have hwrites := hseveral d c e h'
    dsimp only at hwrites ⊢
    rwa [hsame] at hwrites

theorem leftJoin (t : Test) :
    Shows Option.toList (fun _ => .nothing) (Draft.leftJoin k t) := by
  refine of_members fun d c e h => ?_
  obtain ⟨rfl, other, condition, u, -, -, hcondition, rfl⟩ := leftJoin_yields h
  obtain ⟨_, _, _, _, _, -, -, -, rfl⟩ := correlation_yields hcondition
  exact ⟨rfl, rfl, rfl, rfl⟩

/-- A leaf without other filters writes what its signs say. -/
theorem test {t : Test} (hop : t.operation ≠ .collectionCondition) :
    Shows Option.toList t.signs (Draft.test k t) := by
  unfold Test.signs Draft.test Test.isNegated
  cases h : t.operation with
  | eq | ne => exact equality t _ _
  | lt => exact routedAtom _ (writesAtom_comparison t t.value "<")
  | gt => exact routedAtom _ (writesAtom_comparison t t.value ">")
  | le => exact routedAtom _ (writesAtom_comparison t t.value "<=")
  | ge => exact routedAtom _ (writesAtom_comparison t t.value ">=")
  | like => exact routedAtom _ (writesAtom_comparison t t.value "like")
  | inList => exact membership t
  | isNull | notNull => exact routedAtom _ (writesAtom_nullCheck t _)
  | isEmpty => exact routedAtom _ (writesAtom_emptyCheck t)
  | containsAll => exact containsAll t
  | join => exact ofAtom (writesAtom_join t)
  | leftJoin => exact leftJoin t
  | collectionCondition => exact absurd h hop
  | subquery => exact fail _

end Shows

end Draft

end ObjectQuery
