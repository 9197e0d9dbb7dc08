import ObjectQuery.Catalog
import ObjectQuery.Path
import ObjectQuery.Proofs.Filter.Induction

/-!
# Filters over rows with missing associations

Stores compare in three truth values: what is compared through an association that a row has not is
neither so nor not so.

* `Truth`, `StoredRow`, `Filter.truth`: the truth of a filter of comparisons for a row.
* `Path.route`: the properties that a path goes through.
* `StoredRow.Lacks`: an association is missing.
* `Filter.outsideTests`: the comparisons outside all disjunctions.
* `Filter.needs`, `Filter.truth_ne_yes_of_needs`: when a filter rejects all rows without an
  association.
* `Filter.needs_of_negatesSingly`: a comparison outside all disjunctions is enough, unless it stands
  in a negated conjunction.
-/

namespace ObjectQuery

/-! ## Truth values -/

/-- What a condition is for a row. -/
inductive Truth where
  | yes | no | unknown
  deriving DecidableEq, Repr, Inhabited

namespace Truth

/-- The truth of a negation. -/
def not : Truth → Truth
  | yes => no
  | no => yes
  | unknown => unknown

/-- The truth of a conjunction. -/
def and : Truth → Truth → Truth
  | no, _ | _, no => no
  | yes, yes => yes
  | _, _ => unknown

/-- The truth of a disjunction. -/
def or : Truth → Truth → Truth
  | yes, _ | _, yes => yes
  | no, no => no
  | _, _ => unknown

/-- A truth value, negated if that is asked for. -/
def under (negated : Bool) (t : Truth) : Truth := if negated then t.not else t

theorem not_not (t : Truth) : t.not.not = t := by cases t <;> rfl

theorem and_ne_yes {t u : Truth} (h : t ≠ yes ∨ u ≠ yes) : t.and u ≠ yes := by
  cases t <;> cases u <;> simp_all [and]

theorem not_and_ne_yes {t u : Truth} (ht : t.not ≠ yes) (hu : u.not ≠ yes) :
    (t.and u).not ≠ yes := by
  cases t <;> cases u <;> simp_all [and, not]

theorem or_ne_yes {t u : Truth} (ht : t ≠ yes) (hu : u ≠ yes) : t.or u ≠ yes := by
  cases t <;> cases u <;> simp_all [or]

theorem not_or_ne_yes {t u : Truth} (h : t.not ≠ yes ∨ u.not ≠ yes) : (t.or u).not ≠ yes := by
  cases t <;> cases u <;> simp_all [or, not]

end Truth

/-! ## Rows -/

/-- The properties that a path goes through, behind the class name that it may start with. -/
def Path.route (c : Catalog) (path : String) : List String :=
  let inner := (Path.parse path).inner
  let (first, rest) := Path.head inner
  if Text.startsUpper first && c.isKnown first then Path.segments rest else Path.segments inner

/-- A row of the query class with the rows that it refers to, as far as comparisons see it. -/
structure StoredRow where
  /-- Whether there is nothing behind a route. -/
  isNull : List String → Bool
  /-- Whether what is there compares as the test asks. -/
  meets : Test → Bool

namespace StoredRow

/-- The truth of a comparison with something that is not null. -/
def compare (c : Catalog) (r : StoredRow) (t : Test) : Truth :=
  if r.isNull (Path.route c t.property) then .unknown else if r.meets t then .yes else .no

/-- An association is missing, and with it all that lies behind it. -/
def Lacks (r : StoredRow) (association : List String) : Prop :=
  ∀ route, association <+: route → r.isNull route = true

end StoredRow

/-- Whether a comparison goes through an association. -/
def Test.goesThrough (c : Catalog) (association : List String) (t : Test) : Bool :=
  association.isPrefixOf (Path.route c t.property)

theorem Test.goesThrough_iff {c : Catalog} {association : List String} {t : Test} :
    t.goesThrough c association = true ↔ association <+: Path.route c t.property :=
  List.isPrefixOf_iff_prefix

/-- What is compared through a missing association is unknown. -/
theorem StoredRow.Lacks.compare {c : Catalog} {r : StoredRow} {association : List String}
    (h : r.Lacks association) {t : Test} (ht : t.goesThrough c association = true) :
    r.compare c t = .unknown := by
  rw [StoredRow.compare, h _ (Test.goesThrough_iff.mp ht)]
  rfl

namespace Filter

mutual

/-- The truth of a filter of comparisons for a row. -/
def truth (c : Catalog) (r : StoredRow) : Filter → Truth
  | .leaf l => r.compare c l.test
  | .composite ⟨.and, children⟩ => everyTruth c r children
  | .composite ⟨.or, children⟩ => someTruth c r children
  | .composite ⟨.not, children⟩ => (everyTruth c r children).not

/-- The truth of the conjunction of several filters. -/
def everyTruth (c : Catalog) (r : StoredRow) : List Filter → Truth
  | [] => .yes
  | f :: rest => (truth c r f).and (everyTruth c r rest)

/-- The truth of their disjunction. -/
def someTruth (c : Catalog) (r : StoredRow) : List Filter → Truth
  | [] => .no
  | f :: rest => (truth c r f).or (someTruth c r rest)

end

/-! ## Associations that a filter needs -/

mutual

/-- Whether a filter, or its negation, is never true without an association: a conjunction if one of
its members is not, a disjunction if none of them is. -/
def needs (c : Catalog) (association : List String) (negated : Bool) : Filter → Bool
  | .leaf l => l.test.goesThrough c association
  | .composite ⟨.and, children⟩ =>
    if negated then allNeed c association true children else someNeed c association false children
  | .composite ⟨.or, children⟩ =>
    if negated then someNeed c association true children else allNeed c association false children
  | .composite ⟨.not, children⟩ =>
    if negated then someNeed c association false children else allNeed c association true children

/-- Whether none of the filters, or of their negations, is true without an association. -/
def allNeed (c : Catalog) (association : List String) (negated : Bool) : List Filter → Bool
  | [] => true
  | f :: rest => needs c association negated f && allNeed c association negated rest

/-- Whether some of the filters, or of their negations, is never true without an association. -/
def someNeed (c : Catalog) (association : List String) (negated : Bool) : List Filter → Bool
  | [] => false
  | f :: rest => needs c association negated f || someNeed c association negated rest

end

section

variable {c : Catalog} {association : List String} {r : StoredRow} {negated : Bool}
  {fs : List Filter}

theorem allNeed_iff : allNeed c association negated fs = true ↔
    ∀ f ∈ fs, f.needs c association negated = true := by
  induction fs with
  | nil => simp [allNeed]
  | cons f rest ih => simp [allNeed, ih]

theorem someNeed_iff : someNeed c association negated fs = true ↔
    ∃ f ∈ fs, f.needs c association negated = true := by
  induction fs with
  | nil => simp [someNeed]
  | cons f rest ih => simp [someNeed, ih]

theorem everyTruth_ne_yes (h : ∃ f ∈ fs, f.truth c r ≠ .yes) : everyTruth c r fs ≠ .yes := by
  induction fs with
  | nil => simp at h
  | cons f rest ih =>
    rw [everyTruth]
    obtain ⟨g, hg, hne⟩ := h
    rcases List.mem_cons.mp hg with rfl | hrest
    · exact Truth.and_ne_yes (.inl hne)
    · exact Truth.and_ne_yes (.inr (ih ⟨g, hrest, hne⟩))

theorem not_everyTruth_ne_yes (h : ∀ f ∈ fs, (f.truth c r).not ≠ .yes) :
    (everyTruth c r fs).not ≠ .yes := by
  induction fs with
  | nil => simp [everyTruth, Truth.not]
  | cons f rest ih =>
    obtain ⟨hf, hrest⟩ := List.forall_mem_cons.mp h
    exact Truth.not_and_ne_yes hf (ih hrest)

theorem someTruth_ne_yes (h : ∀ f ∈ fs, f.truth c r ≠ .yes) : someTruth c r fs ≠ .yes := by
  induction fs with
  | nil => simp [someTruth]
  | cons f rest ih =>
    obtain ⟨hf, hrest⟩ := List.forall_mem_cons.mp h
    exact Truth.or_ne_yes hf (ih hrest)

theorem not_someTruth_ne_yes (h : ∃ f ∈ fs, (f.truth c r).not ≠ .yes) :
    (someTruth c r fs).not ≠ .yes := by
  induction fs with
  | nil => simp at h
  | cons f rest ih =>
    rw [someTruth]
    obtain ⟨g, hg, hne⟩ := h
    rcases List.mem_cons.mp hg with rfl | hrest
    · exact Truth.not_or_ne_yes (.inl hne)
    · exact Truth.not_or_ne_yes (.inr (ih ⟨g, hrest, hne⟩))

/-- A filter that needs an association is not true for a row that lacks it. -/
theorem truth_ne_yes_of_needs (hr : r.Lacks association) (f : Filter) :
    ∀ {negated}, f.needs c association negated = true → (f.truth c r).under negated ≠ .yes := by
  induction f using Filter.induction with
  | leaf t condition subfilter =>
    intro negated h
    rw [truth, hr.compare h]
    cases negated <;> decide
  | composite operation children ih =>
    intro negated h
    have hplain : ∀ f ∈ children, f.needs c association false = true → f.truth c r ≠ .yes :=
      fun f hf => @ih f hf false
    have hnegated : ∀ f ∈ children, f.needs c association true = true →
        (f.truth c r).not ≠ .yes := fun f hf => @ih f hf true
    have hsome : someNeed c association false children = true →
        everyTruth c r children ≠ .yes := fun h =>
      have ⟨f, hf, hneeds⟩ := someNeed_iff.mp h
      everyTruth_ne_yes ⟨f, hf, hplain f hf hneeds⟩
    have hall : allNeed c association true children = true →
        (everyTruth c r children).not ≠ .yes := fun h =>
      not_everyTruth_ne_yes fun f hf => hnegated f hf (allNeed_iff.mp h f hf)
    cases operation with
    | and =>
      cases negated with
      | false => exact hsome h
      | true => exact hall h
    | or =>
      cases negated with
      | false => exact someTruth_ne_yes fun f hf => hplain f hf (allNeed_iff.mp h f hf)
      | true =>
        obtain ⟨f, hf, hneeds⟩ := someNeed_iff.mp h
        exact not_someTruth_ne_yes ⟨f, hf, hnegated f hf hneeds⟩
    | not =>
      cases negated with
      | false => exact hall h
      | true =>
        show (everyTruth c r children).not.not ≠ .yes
        rw [Truth.not_not]
        exact hsome h

end

/-! ## Comparisons outside all disjunctions -/

mutual

/-- The comparisons of a filter that stand outside all disjunctions. -/
def outsideTests : Filter → List Test
  | .leaf l => [l.test]
  | .composite ⟨.or, _⟩ => []
  | .composite ⟨_, children⟩ => allOutsideTests children

/-- The comparisons of several filters that stand outside all disjunctions. -/
def allOutsideTests : List Filter → List Test
  | [] => []
  | f :: rest => outsideTests f ++ allOutsideTests rest

end

mutual

/-- Whether no conjunction outside the disjunctions is negated that has more than one member. -/
def negatesSingly (negated : Bool) : Filter → Bool
  | .leaf _ => true
  | .composite ⟨.or, _⟩ => true
  | .composite ⟨.and, children⟩ =>
    (!negated || children.length ≤ 1) && allNegateSingly negated children
  | .composite ⟨.not, children⟩ =>
    (negated || children.length ≤ 1) && allNegateSingly (!negated) children

/-- Whether this is so of all the filters. -/
def allNegateSingly (negated : Bool) : List Filter → Bool
  | [] => true
  | f :: rest => negatesSingly negated f && allNegateSingly negated rest

end

theorem mem_allOutsideTests {t : Test} {fs : List Filter} :
    t ∈ allOutsideTests fs ↔ ∃ f ∈ fs, t ∈ f.outsideTests := by
  induction fs with
  | nil => simp [allOutsideTests]
  | cons f rest ih => simp [allOutsideTests, ih]

theorem allNegateSingly_iff {negated : Bool} {fs : List Filter} :
    allNegateSingly negated fs = true ↔ ∀ f ∈ fs, f.negatesSingly negated = true := by
  induction fs with
  | nil => simp [allNegateSingly]
  | cons f rest ih => simp [allNegateSingly, ih]

/-- An association is needed if it is compared through outside all disjunctions, and no negated
conjunction there has more than one member. -/
theorem needs_of_negatesSingly {c : Catalog} {association : List String} {t : Test}
    (ht : t.goesThrough c association = true) (f : Filter) : ∀ {negated},
      f.negatesSingly negated = true → t ∈ f.outsideTests →
        f.needs c association negated = true := by
  induction f using Filter.induction with
  | leaf u condition subfilter =>
    intro negated _ hmem
    obtain rfl := List.mem_singleton.mp hmem
    exact ht
  | composite operation children ih =>
    intro negated hsingly hmem
    have hsome : ∀ {sign}, allNegateSingly sign children = true →
        t ∈ allOutsideTests children → ∃ f ∈ children, f.needs c association sign = true := by
      intro sign hsingly hmem
      obtain ⟨f, hf, hmem⟩ := mem_allOutsideTests.mp hmem
      exact ⟨f, hf, ih f hf (allNegateSingly_iff.mp hsingly f hf) hmem⟩
    have hall : ∀ {sign}, children.length ≤ 1 → allNegateSingly sign children = true →
        t ∈ allOutsideTests children → ∀ f ∈ children, f.needs c association sign = true := by
      intro sign hlength hsingly hmem
      obtain ⟨f, hf, hneeds⟩ := hsome hsingly hmem
      rintro g hg
      match children, hlength with
      | [only], _ => rwa [List.mem_singleton.mp hg, ← List.mem_singleton.mp hf]
    cases operation with
    | or => exact absurd hmem List.not_mem_nil
    | and =>
      rw [negatesSingly, Bool.and_eq_true] at hsingly
      cases negated with
      | false => exact someNeed_iff.mpr (hsome hsingly.2 hmem)
      | true =>
        exact allNeed_iff.mpr (hall (by simpa using hsingly.1) hsingly.2 hmem)
    | not =>
      rw [negatesSingly, Bool.and_eq_true] at hsingly
      cases negated with
      | false => exact allNeed_iff.mpr (hall (by simpa using hsingly.1) hsingly.2 hmem)
      | true => exact someNeed_iff.mpr (hsome hsingly.2 hmem)

end Filter

end ObjectQuery
