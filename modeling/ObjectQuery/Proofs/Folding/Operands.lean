import ObjectQuery.Proofs.Emission.Steps

/-!
# Operands and the values bound for them

A comparison binds its operand in upper case exactly if it puts its property into upper case. An
operand that is a pattern is escaped and given wildcards after that.

* `QueryOptions.Asks`: the operands of the restrictions.
* `Test.StemsFrom`: a test all of whose operands are operands of the restrictions, as those of the
  filter that is compiled are.
* `Value.foldIf`, `Value.written`: what is bound for an operand.
-/

namespace ObjectQuery

/-- What a test compares its property with, one value after the other. -/
def Test.operands (t : Test) : List Value :=
  match t.operation with
  | .inList | .containsAll => t.value.elements
  | _ => [t.value]

/-- Where the operand may match, if it is a pattern. -/
def Test.pattern? (t : Test) : Option MatchMode :=
  if t.operation = .like then some t.matchMode else none

theorem Test.pattern?_of_ne_like {t : Test} (h : t.operation ≠ .like) : t.pattern? = none :=
  if_neg h

/-- The restrictions compare the property with the operand, which is a pattern if `mode` says where
it may match. -/
def QueryOptions.Asks (o : QueryOptions) (property : String) (mode : Option MatchMode)
    (operand : Value) : Prop :=
  ∃ r ∈ o.restrictions, ∃ t ∈ r.tests,
    t.property = property ∧ t.pattern? = mode ∧ operand ∈ t.operands

/-- The restrictions compare the property of the test with each of its operands. -/
def Test.StemsFrom (o : QueryOptions) (t : Test) : Prop :=
  ∀ operand ∈ t.operands, o.Asks t.property t.pattern? operand

namespace Test.StemsFrom

variable {o : QueryOptions} {t : Test}

theorem of_mem {r : Filter} (hr : r ∈ o.restrictions) (ht : t ∈ r.tests) : t.StemsFrom o :=
  fun _ hoperand => ⟨r, hr, t, ht, rfl, rfl, hoperand⟩

/-- An operand of a test that compares with one value. -/
theorem asks (h : t.StemsFrom o) (hin : t.operation ≠ .inList)
    (hall : t.operation ≠ .containsAll) : o.Asks t.property t.pattern? t.value := by
  refine h t.value ?_
  unfold operands
  split
  · exact absurd ‹_› hin
  · exact absurd ‹_› hall
  · exact List.mem_singleton_self _

/-- An operand of a test that compares with several values. -/
theorem asks_element (h : t.StemsFrom o)
    (hlist : t.operation = .inList ∨ t.operation = .containsAll) {operand : Value}
    (hoperand : operand ∈ t.value.elements) : o.Asks t.property none operand := by
  have hpattern : t.pattern? = none := by
    rcases hlist with hlist | hlist <;> rw [pattern?, hlist] <;> rfl
  have hoperands : t.operands = t.value.elements := by
    rcases hlist with hlist | hlist <;> rw [operands, hlist]
  rw [← hpattern]
  exact h operand (hoperands ▸ hoperand)

theorem inherited (o : QueryOptions) : Filter.Inherited (StemsFrom o) where
  inverse t operation ht hinverse := by
    -- Comparisons with an inverse have one operand, which stays.
    have hplain : t.operation ≠ .inList ∧ t.operation ≠ .containsAll ∧ t.operation ≠ .like := by
      refine ⟨?_, ?_, ?_⟩ <;> intro heq <;> rw [heq] at hinverse <;> cases hinverse
    have hinverted : operation ≠ .inList ∧ operation ≠ .containsAll ∧ operation ≠ .like := by
      cases hop : t.operation <;> rw [hop] at hinverse <;> cases hinverse <;> decide
    have hasks := ht.asks hplain.1 hplain.2.1
    intro operand hoperand
    obtain rfl : operand = t.value := by
      unfold operands at hoperand
      split at hoperand
      · exact absurd ‹_› hinverted.1
      · exact absurd ‹_› hinverted.2.1
      · exact List.mem_singleton.mp hoperand
    have hpattern : (t.withOperation operation t.value).pattern? = t.pattern? := by
      rw [pattern?, pattern?, if_neg hplain.2.2]
      exact if_neg hinverted.2.2
    rw [hpattern]
    exact hasks
  collapsed tests t _ _ htests := by
    intro operand hoperand
    obtain ⟨u, hu, rfl⟩ := List.mem_map.mp hoperand
    obtain ⟨hstems, heq, hproperty⟩ := htests u hu
    have hasks := hstems.asks (by rw [heq]; decide) (by rw [heq]; decide)
    rw [hproperty, pattern?, heq] at hasks
    exact hasks

end Test.StemsFrom

/-- The operands of the filter that is compiled are operands of the restrictions. -/
theorem QueryOptions.stemsFrom_prepare {o : QueryOptions} {f : Filter} (hf : o.prepare = some f) :
    ∀ t ∈ f.tests, t.StemsFrom o :=
  tests_prepare (Test.StemsFrom.inherited o) hf fun _ hr _ ht => .of_mem hr ht

/-! ## Bound values -/

/-- The value, folded if comparisons ignore case. -/
def Value.foldIf (upper : Bool) (v : Value) : Value := if upper then v.fold else v

/-- A value as it is bound, and its escape character if it needs one. A text that is a pattern is
escaped and given wildcards. -/
def Value.written (reserved : List String) (mode : Option MatchMode) (v : Value) :
    Value × Option Char :=
  match mode, v with
  | some mode, .text s =>
    (.text (Pattern.wrap (Pattern.escape s reserved).1 mode), (Pattern.escape s reserved).2)
  | _, v => (v, none)

theorem Value.written_none (reserved : List String) (v : Value) :
    v.written reserved none = (v, none) := rfl

namespace Draft

variable {k : Compiler}

/-- What a comparison binds for an operand. -/
theorem boundValue_eq (t : Test) (v : Value) (upper : Bool) :
    boundValue k t v upper = (v.foldIf upper).written k.capabilities.reserved t.pattern? := by
  unfold boundValue Test.pattern? Value.foldIf
  generalize (if upper then v.fold else v) = w
  by_cases hlike : t.operation = .like
  · rw [if_pos hlike, hlike]
    cases w <;> rfl
  · rw [if_neg hlike]
    dsimp only
    split
    · exact absurd ‹_› hlike
    · rfl

/-- An operand that is no pattern is bound as it is, or folded. -/
theorem boundValue_fst {t : Test} (h : t.operation ≠ .like) (v : Value) (upper : Bool) :
    (boundValue k t v upper).1 = v.foldIf upper := by
  rw [boundValue_eq, Test.pattern?_of_ne_like h, Value.written_none]

/-- A store that ignores case by itself is not asked to. -/
theorem not_ignoresCase {t : Test} {v : Value} {upper : Bool} {d e : Draft}
    (h : (ignoresCase k t v).Yields d upper e) (hcase : k.capabilities.caseInsensitive = true) :
    upper = false := by
  have h₁ := Step.yields_get_bind.mp h
  obtain ⟨hupper, -⟩ := Step.yields_ofReported.mp h₁
  rw [hupper]
  unfold CaseFolding.applies
  rw [hcase]
  rfl

end Draft

end ObjectQuery
