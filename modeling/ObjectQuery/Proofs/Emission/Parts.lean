import ObjectQuery.Proofs.Emission.Induction
import ObjectQuery.Proofs.Step.Run

/-!
# The parts of a condition on a collection

The plain part and the negated part of a condition, as `Composite.split` gives them, are emitted
like filters of their own: the one in the scope of the elements, the other in a nested select.

* `Composite.split_plain`, `Composite.split_negated`: the children of the parts.
* `Composite.elim_split_plain`: what is made of the plain part.
* `Draft.emitInverse_eq`: a negated filter is emitted as its positive form.
* `Draft.emitCondition_eq`: a condition emits its two parts under its connective.
* `Draft.emitParts_yields`: first the plain part, then the negated one.
-/

namespace ObjectQuery

/-- What two steps write, one behind the other: each leaves a part behind what was written before,
and gives the rest. -/
theorem perm_together {α : Type} {before between behind first second said said' : List α}
    (h : (between ++ first).Perm (before ++ said))
    (h' : (behind ++ second).Perm (between ++ said')) :
    (behind ++ (first ++ second)).Perm (before ++ (said ++ said')) :=
  calc
    List.Perm (behind ++ (first ++ second)) (first ++ (behind ++ second)) :=
      List.perm_append_comm_assoc ..
    List.Perm _ (first ++ (between ++ said')) := h'.append_left first
    List.Perm _ (between ++ (first ++ said')) := List.perm_append_comm_assoc ..
    List.Perm _ (before ++ (said ++ said')) := by
      rw [← List.append_assoc, ← List.append_assoc]
      exact h.append_right said'

/-- The plain part holds children of the condition. -/
theorem Composite.split_plain {c part : Composite} (h : c.split.1 = some part) :
    part.children ≠ [] ∧ ∀ f ∈ part.children, f ∈ c.children := by
  unfold split at h
  split at h
  · cases h
  · dsimp only at h
    split at h
    · cases h
    · rename_i hne
      cases h
      exact ⟨by simpa using hne, fun f hf => (List.mem_filter.mp hf).1⟩

/-- The negated part holds children of the condition, or their positive forms. -/
theorem Composite.split_negated {c part : Composite} (h : c.split.2 = some part) :
    ∀ f ∈ part.children, ∃ g ∈ c.children, f = g ∨ f = g.invert := by
  unfold split at h
  split at h
  · cases h
    exact fun f hf => ⟨f, hf, .inl rfl⟩
  · dsimp only at h
    split at h
    · cases h
    · cases h
      intro f hf
      obtain ⟨g, hg, rfl⟩ := List.mem_map.mp hf
      exact ⟨g, (List.mem_filter.mp hg).1, .inr rfl⟩

/-- What is made of the plain part is made of the children that are not negated, if that is nothing
for none of them. -/
theorem Composite.elim_split_plain {β : Type} (c : Composite) {b : β} {F : Composite → β}
    (h : F ⟨c.operation, []⟩ = b) :
    c.split.1.elim b F =
      if c.operation = .not then b else F ⟨c.operation, c.children.filter (!·.isNegated)⟩ := by
  unfold split
  split
  · rfl
  · dsimp only
    split
    · rename_i hempty
      have hnil : c.children.filter (!·.isNegated) = [] := List.isEmpty_iff.mp hempty
      rw [hnil, h]
      rfl
    · rfl

namespace Draft

variable {k : Compiler}

/-- A child that emits nothing may be left out. -/
theorem together_none (xs : Step Draft (List Condition)) : together (pure none) xs = xs := by
  unfold together
  rw [pure_bind]
  exact bind_pure xs

/-- The positive form of a negated filter is emitted in its place. -/
theorem emitInverse_eq (k : Compiler) (f : Filter) : emitInverse k f = emit k f.invert := by
  match f with
  | .leaf ⟨t, condition, subfilter⟩ =>
    have hinverse : ∀ operation, t.operation.inverse = some operation →
        test k (t.withOperation operation t.value) =
          emitLeaf k ⟨t.withOperation operation t.value, none, none⟩ := by
      intro operation hoperation
      rw [emitLeaf]
      cases hop : t.operation <;> rw [hop] at hoperation <;> cases hoperation <;> rfl
    rw [emitInverse, Filter.invert, Filter.invertLeaf, emit]
    cases hoperation : t.operation.inverse with
    | none => rfl
    | some operation => exact hinverse operation hoperation
  | .composite ⟨_, []⟩ => rfl
  | .composite ⟨_, [only]⟩ => rfl
  | .composite ⟨_, first :: second :: rest⟩ => rfl

theorem emitEach_plain (k : Compiler) (fs : List Filter) :
    emitEach k .plain fs = emitEach k .all (fs.filter (!·.isNegated)) := by
  induction fs with
  | nil => rfl
  | cons f rest ih =>
    rw [emitEach_cons, ih, emitSelected]
    by_cases hf : f.isNegated = true
    · rw [if_pos hf, together_none, List.filter_cons_of_neg (by simp [hf])]
    · rw [if_neg hf, List.filter_cons_of_pos (by simp [hf]), emitEach_cons, emitSelected]

theorem emitEach_negated (k : Compiler) (fs : List Filter) :
    emitEach k .negated fs = emitEach k .all ((fs.filter (·.isNegated)).map Filter.invert) := by
  induction fs with
  | nil => rfl
  | cons f rest ih =>
    rw [emitEach_cons, ih, emitSelected]
    by_cases hf : f.isNegated = true
    · rw [if_pos hf, List.filter_cons_of_pos hf, List.map_cons, emitEach_cons, emitSelected,
        emitInverse_eq]
    · rw [if_neg hf, together_none, List.filter_cons_of_neg hf]

/-- What the two parts of a condition emit. -/
def emitParts (k : Compiler) (property : String) (outer : Bool) (disjunctive : Bool) :
    Option Composite × Option Composite → Emission
  | (plain, negated) => do
    let kept ←
      match plain with
      | some part => inScope k property outer (emit k (.composite part))
      | none => pure none
    let excluded ←
      match negated with
      | some part => excluding k property (emit k (.composite part))
      | none => pure none
    pure (joinParts disjunctive kept excluded)

theorem emitCondition_eq (k : Compiler) (t : Test) (c : Composite) :
    emitCondition k t (some c) =
      withTheta (namesClass t.property)
        (emitParts k t.property (c.operation == .or && 1 < c.children.length)
          (c.operation == .or) c.split) := by
  obtain ⟨operation, children⟩ := c
  rw [emitCondition, elementCondition_eq, emitEach_plain]
  refine congrArg (withTheta _) ?_
  by_cases hnot : operation = .not
  · have hsplit : Composite.split ⟨operation, children⟩ = (none, some ⟨.and, children⟩) := if_pos hnot
    rw [hsplit, negatedSelection, if_pos hnot]
    rfl
  · have hsplit := Composite.split.eq_1 ⟨operation, children⟩
    rw [if_neg hnot] at hsplit
    rw [hsplit, negatedSelection, if_neg hnot, emitEach_negated]
    cases (Composite.plainChildren ⟨operation, children⟩).isEmpty <;>
      cases (Composite.negatedChildren ⟨operation, children⟩).isEmpty <;> rfl

/-- The parts of a condition are emitted one behind the other. -/
theorem emitParts_yields {property : String} {outer disjunctive : Bool}
    {parts : Option Composite × Option Composite}
    {d e : Draft} {condition : Option Condition}
    (h : (emitParts k property outer disjunctive parts).Yields d condition e) :
    ∃ kept u excluded, condition = joinParts disjunctive kept excluded ∧
      (parts.1 = none ∧ kept = none ∧ u = d ∨ ∃ plain, parts.1 = some plain ∧
        (inScope k property outer (emit k (.composite plain))).Yields d kept u) ∧
      (parts.2 = none ∧ excluded = none ∧ e = u ∨ ∃ negated, parts.2 = some negated ∧
        (excluding k property (emit k (.composite negated))).Yields u excluded e) := by
  obtain ⟨plain, negated⟩ := parts
  have hexcluded : ∀ {kept u}, (do
      let excluded ←
        match negated with
        | some part => excluding k property (emit k (.composite part))
        | none => pure none
      pure (joinParts disjunctive kept excluded) : Emission).Yields u condition e →
      ∃ excluded, condition = joinParts disjunctive kept excluded ∧
        (negated = none ∧ excluded = none ∧ e = u ∨ ∃ part, negated = some part ∧
          (excluding k property (emit k (.composite part))).Yields u excluded e) := by
    intro kept u h
    cases negated with
    | none =>
      obtain ⟨rfl, rfl⟩ := Step.yields_pure.mp h
      exact ⟨none, rfl, .inl ⟨rfl, rfl, rfl⟩⟩
    | some part =>
      obtain ⟨excluded, v, hpart, h₁⟩ := Step.yields_bind.mp h
      obtain ⟨rfl, rfl⟩ := Step.yields_pure.mp h₁
      exact ⟨excluded, rfl, .inr ⟨part, rfl, hpart⟩⟩
  cases plain with
  | none =>
    obtain ⟨excluded, hcondition, hnegated⟩ := hexcluded h
    exact ⟨none, d, excluded, hcondition, .inl ⟨rfl, rfl, rfl⟩, hnegated⟩
  | some part =>
    obtain ⟨kept, u, hkept, h₁⟩ := Step.yields_bind.mp h
    obtain ⟨excluded, hcondition, hnegated⟩ := hexcluded h₁
    exact ⟨kept, u, excluded, hcondition, .inr ⟨part, rfl, hkept⟩, hnegated⟩

end Draft

end ObjectQuery
