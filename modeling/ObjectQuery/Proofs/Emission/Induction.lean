import ObjectQuery.Proofs.Filter.Arrangement
import ObjectQuery.Proofs.Filter.Change
import ObjectQuery.Query.Emission

/-!
# Induction on what filters emit

* `Draft.together`: the conditions of one more child. `Draft.emitSelected`: what a child emits under
  a selection. `Draft.emitEach_cons` puts `Draft.emitEach` together from them.
* `Draft.Congruence`: a relation between emissions that every way to build an emission respects.
* `Draft.Congruence.emit`: it relates what a filter emits to what the filter with changed tests
  emits.
* `Draft.Closure`, `Draft.Closure.emit`: likewise for a property of emissions.
-/

namespace ObjectQuery

namespace Draft

variable {k : Compiler}

/-- The condition of a child before the conditions of the children behind it. -/
def together (x : Emission) (xs : Step Draft (List Condition)) : Step Draft (List Condition) := do
  let condition ← x
  let conditions ← xs
  pure (condition.toList ++ conditions)

/-- The condition of a child under a selection. -/
def emitSelected (k : Compiler) (selection : Selection) (f : Filter) : Emission :=
  match selection with
  | .all => emit k f
  | .plain => if f.isNegated then pure none else emit k f
  | .negated => if f.isNegated then emitInverse k f else pure none

theorem emitEach_cons (k : Compiler) (selection : Selection) (f : Filter) (rest : List Filter) :
    emitEach k selection (f :: rest) =
      together (emitSelected k selection f) (emitEach k selection rest) := by
  cases selection with
  | all => rw [emitEach, together, emitSelected]
  | plain =>
    rw [emitEach, together, emitSelected]
    dsimp only
    split <;> rfl
  | negated =>
    rw [emitEach, together, emitSelected]
    dsimp only
    split <;> rfl

/-! ## Conditions on collections -/

/-- What the plain part of a condition on a collection's elements emits, if there is one. -/
def keptPart (k : Compiler) (property : String) (outer : Bool) (part : Option Composite)
    (plain : Step Draft (List Condition)) : Emission :=
  match part with
  | some part => inScope k property outer (composite part plain)
  | none => pure none

/-- What the negated part emits, if there is one. -/
def excludedPart (k : Compiler) (property : String) (part : Option Composite)
    (negated : Step Draft (List Condition)) : Emission :=
  match part with
  | some part => excluding k property (composite part negated)
  | none => pure none

/-- Both parts under the connective of the condition. -/
def joinParts (disjunctive : Bool) : Option Condition → Option Condition → Option Condition
  | some a, some b => some (.group disjunctive [a, b])
  | some a, none => some a
  | none, b => b

theorem elementCondition_eq (k : Compiler) (property : String) (c : Composite)
    (plain negated : Step Draft (List Condition)) :
    elementCondition k property c plain negated =
      withTheta (namesClass property) (do
        let kept ← keptPart k property (c.operation == .or && 1 < c.children.length) c.split.1 plain
        let excluded ← excludedPart k property c.split.2 negated
        pure (joinParts (c.operation == .or) kept excluded)) := by
  unfold elementCondition keptPart excludedPart
  refine congrArg (withTheta _) ?_
  dsimp only
  rcases c.split with ⟨_ | plainPart, _ | negatedPart⟩
  · refine bind_congr fun kept => ?_
    cases kept <;> rfl
  · refine bind_congr fun kept => bind_congr fun excluded => ?_
    cases kept <;> cases excluded <;> rfl
  · refine bind_congr fun kept => ?_
    cases kept <;> rfl
  · refine bind_congr fun kept => bind_congr fun excluded => ?_
    cases kept <;> cases excluded <;> rfl

/-! ## Congruences -/

/-- A relation `A` between emissions, with a relation `L` between steps that emit several
conditions, that every way to build an emission respects: tests that meet `T` may be changed by
`g`. -/
structure Congruence (k : Compiler) (T : Test → Prop) (g : Test → Test)
    (A : Emission → Emission → Prop)
    (L : Step Draft (List Condition) → Step Draft (List Condition) → Prop) : Prop where
  nothing : A (pure none) (pure none)
  test : ∀ t, T t → A (test k t) (test k (g t))
  nil : L (pure []) (pure [])
  together : ∀ {x y xs ys}, A x y → L xs ys → L (together x xs) (together y ys)
  composite : ∀ c {xs ys}, L xs ys → A (composite c xs) (composite (Filter.mapComposite g c) ys)
  elementCondition : ∀ t c {xs ys us vs}, T t → L xs ys → L us vs →
    A (elementCondition k t.property c xs us)
      (elementCondition k (g t).property (Filter.mapComposite g c) ys vs)
  subquery : ∀ t {x y}, T t → A x y → A (subquery k t x) (subquery k (g t) y)

namespace Congruence

variable {T : Test → Prop} {g : Test → Test} {A : Emission → Emission → Prop}
  {L : Step Draft (List Condition) → Step Draft (List Condition) → Prop}

/-- What a filter emits, also in its positive form, stays related under the change. -/
def Respects (k : Compiler) (g : Test → Test) (A : Emission → Emission → Prop) (f : Filter) : Prop :=
  A (Draft.emit k f) (Draft.emit k (f.mapEverywhere g)) ∧
    A (emitInverse k f) (emitInverse k (f.mapEverywhere g))

theorem emitEach (h : Congruence k T g A L) (hg : Filter.Neutral g) {fs : List Filter}
    (hfs : ∀ f ∈ fs, Respects k g A f) (selection : Selection) :
    L (Draft.emitEach k selection fs) (Draft.emitEach k selection (Filter.mapAll g fs)) := by
  induction fs with
  | nil =>
    rw [Filter.mapAll, Draft.emitEach]
    exact h.nil
  | cons f rest ih =>
    obtain ⟨hf, hrest⟩ := List.forall_mem_cons.mp hfs
    have hneg : (f.mapEverywhere g).isNegated = f.isNegated := hg.isNegated f
    rw [Filter.mapAll, emitEach_cons, emitEach_cons]
    refine h.together ?_ (ih hrest)
    unfold emitSelected
    cases selection with
    | all => exact hf.1
    | plain =>
      dsimp only
      rw [hneg]
      split
      · exact h.nothing
      · exact hf.1
    | negated =>
      dsimp only
      rw [hneg]
      split
      · exact hf.2
      · exact h.nothing

theorem respects (h : Congruence k T g A L) (hT : Filter.Invertible T) (hg : Filter.Neutral g)
    (f : Filter) : (∀ u ∈ f.tests, T u) → Respects k g A f := by
  induction f using Filter.induction with
  | leaf t condition subfilter ihc ihs =>
    intro htests
    obtain ⟨ht, hc, hs⟩ := Filter.tests_leaf.mp htests
    have hleaf : A (emitLeaf k ⟨t, condition, subfilter⟩)
        (emitLeaf k ⟨g t, Filter.mapCondition g condition, Filter.mapSubfilter g subfilter⟩) := by
      rw [emitLeaf, emitLeaf, hg.operation]
      split
      · rcases condition with _ | ⟨operation, children⟩
        · exact h.test t ht
        · have hchildren := fun f hf => ihc _ rfl f hf (hc _ rfl f hf)
          exact h.elementCondition t ⟨operation, children⟩ ht (h.emitEach hg hchildren .plain)
            (h.emitEach hg hchildren _)
      · cases subfilter with
        | none => exact h.subquery t ht h.nothing
        | some f => exact h.subquery t ht (ihs f rfl (hs f rfl)).1
      · exact h.test t ht
    refine ⟨hleaf, ?_⟩
    rw [Filter.mapEverywhere, emitInverse, emitInverse, hg.operation]
    cases hinverse : t.operation.inverse with
    | none => exact hleaf
    | some operation =>
      dsimp only
      rw [← hg.inverse t operation hinverse]
      exact h.test _ (hT t operation ht hinverse)
  | composite operation children ih =>
    intro htests
    have hchildren := fun f hf => ih f hf (Filter.tests_composite.mp htests f hf)
    refine ⟨h.composite ⟨operation, children⟩ (h.emitEach hg hchildren .all), ?_⟩
    rcases children with _ | ⟨only, _ | ⟨second, rest⟩⟩
    · exact h.composite ⟨.and, []⟩ (h.emitEach hg hchildren .all)
    · exact (hchildren only (List.mem_singleton.mpr rfl)).1
    · exact h.composite ⟨.and, only :: second :: rest⟩ (h.emitEach hg hchildren .all)

/-- What a filter emits is related to what it emits with its tests changed. -/
theorem emit (h : Congruence k T g A L) (hT : Filter.Inherited T) (hg : Filter.Neutral g)
    {f : Filter} (hf : ∀ u ∈ f.tests, T u) : A (Draft.emit k f) (Draft.emit k (f.mapEverywhere g)) :=
  (h.respects hT.inverse hg f hf).1

end Congruence

/-! ## Closures -/

/-- A property `P` of emissions, with a property `L` of steps that emit several conditions, that
every way to build an emission from tests that meet `T` preserves. -/
structure Closure (k : Compiler) (T : Test → Prop) (P : Emission → Prop)
    (L : Step Draft (List Condition) → Prop) : Prop where
  nothing : P (pure none)
  test : ∀ t, T t → P (test k t)
  nil : L (pure [])
  together : ∀ {x xs}, P x → L xs → L (together x xs)
  composite : ∀ c {xs}, L xs → P (composite c xs)
  elementCondition : ∀ t c {xs us}, T t → L xs → L us → P (elementCondition k t.property c xs us)
  subquery : ∀ t {x}, T t → P x → P (subquery k t x)

namespace Closure

variable {T : Test → Prop} {P : Emission → Prop} {L : Step Draft (List Condition) → Prop}

/-- A closure relates every emission to itself. -/
theorem congruence (h : Closure k T P L) :
    Congruence k T id (fun x _ => P x) (fun xs _ => L xs) where
  nothing := h.nothing
  test := h.test
  nil := h.nil
  together := h.together
  composite c _ _ hxs := h.composite c hxs
  elementCondition t c _ _ _ _ ht hxs hus := h.elementCondition t c ht hxs hus
  subquery t _ _ ht hx := h.subquery t ht hx

/-- What a filter emits has the property if its tests meet the condition. -/
theorem emit_of_invertible (h : Closure k T P L) (hT : Filter.Invertible T) {f : Filter}
    (hf : ∀ u ∈ f.tests, T u) : P (Draft.emit k f) :=
  (h.congruence.respects hT Filter.Neutral.id f hf).1

theorem emit (h : Closure k T P L) (hT : Filter.Inherited T) {f : Filter}
    (hf : ∀ u ∈ f.tests, T u) : P (Draft.emit k f) :=
  h.emit_of_invertible hT.inverse hf

theorem emitEach (h : Closure k T P L) (hT : Filter.Inherited T) {fs : List Filter}
    (hfs : ∀ f ∈ fs, ∀ u ∈ f.tests, T u) (selection : Selection) :
    L (Draft.emitEach k selection fs) :=
  h.congruence.emitEach Filter.Neutral.id
    (fun f hf => h.congruence.respects hT.inverse Filter.Neutral.id f (hfs f hf)) selection

end Closure

end Draft

end ObjectQuery
