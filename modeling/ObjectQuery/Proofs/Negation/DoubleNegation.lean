import ObjectQuery.Proofs.Filter.Evaluation

/-!
# Filters without double negations

* `Filter.doubleNegationInduction`: a property of all filters along the double negations in them.
* `Filter.evaluate_foldDoubleNegation`: folding keeps the truth of a filter.
* `Filter.Surrounding`: the places of a filter under the connectives of another one.
* `Filter.IsFolded`: filters without double negations. Folding leaves none
  (`Filter.isFolded_foldDoubleNegation`), and leaves such filters as they are
  (`Filter.IsFolded.foldDoubleNegation_eq`).
* `Filter.FoldsLike`: filters that fold alike, also under a negation. A filter folds like its double
  negation, and so does every filter around it (`Filter.FoldsLike.fill`).
-/

namespace ObjectQuery

namespace Filter

/-! ## Folding -/

theorem conjunction_of_ne_singleton {fs : List Filter} (h : ∀ f, fs ≠ [f]) :
    conjunction fs = and fs := by
  unfold conjunction
  split
  · exact absurd rfl (h _)
  · rfl

/-- A negation over a single filter that is negated folds like the positive form of the filter. -/
theorem foldDoubleNegation_not {f : Filter} (h : f.isNegated = true) :
    (not f).foldDoubleNegation = f.invert.foldDoubleNegation := by
  match f with
  | .leaf l =>
    change l.test.isNegated = true at h
    rw [not, foldDoubleNegation, if_pos h, invert, foldDoubleNegation]
  | .composite ⟨operation, children⟩ =>
    obtain rfl : operation = .not := eq_of_beq h
    rw [not, invert]
    by_cases hsingle : ∃ only, children = [only]
    · obtain ⟨only, rfl⟩ := hsingle
      rw [foldDoubleNegation, conjunction]
    · have hne : ∀ only, children ≠ [only] := fun only heq => hsingle ⟨only, heq⟩
      rw [foldDoubleNegation.eq_3 children hne, conjunction_of_ne_singleton hne, and,
        foldDoubleNegation]
      all_goals simp

/-- Other composites are folded child by child. -/
theorem foldDoubleNegation_composite {operation : BooleanOp} {children : List Filter}
    (h : ∀ f, operation = .not → children = [f] → f.isNegated = false) :
    (composite ⟨operation, children⟩).foldDoubleNegation =
      composite ⟨operation, children.map foldDoubleNegation⟩ := by
  rw [← foldDoubleNegations_eq]
  by_cases hleaf : ∃ l, operation = .not ∧ children = [.leaf l]
  · obtain ⟨l, rfl, rfl⟩ := hleaf
    have hplain : l.test.isNegated = false := h (.leaf l) rfl rfl
    rw [foldDoubleNegation, hplain, if_neg Bool.false_ne_true]
    rfl
  · refine foldDoubleNegation.eq_5 operation children ?_ ?_ ?_
    · exact fun only hop hchildren => Bool.noConfusion (h _ hop hchildren)
    · exact fun members hop hchildren => Bool.noConfusion (h _ hop hchildren)
    · exact fun l hop hchildren => hleaf ⟨l, hop, hchildren⟩

/-- A property of all filters along the double negations in them. -/
@[elab_as_elim]
theorem doubleNegationInduction {P : Filter → Prop} (leaf : ∀ l, P (.leaf l))
    (double : ∀ f, f.isNegated = true → P f.invert → P (not f))
    (composite : ∀ operation children,
      (∀ f, operation = .not → children = [f] → f.isNegated = false) →
      (∀ f ∈ children, P f) → P (.composite ⟨operation, children⟩))
    (f : Filter) : P f := by
  induction f using Filter.foldingInduction with
  | leaf l => exact leaf l
  | double only ih => exact double (not only) rfl ih
  | doubled children hne ih =>
    refine double (.composite ⟨.not, children⟩) rfl ?_
    rw [invert, conjunction_of_ne_singleton hne]
    exact composite .and children (by simp) ih
  | negated l =>
    cases hl : l.test.isNegated with
    | true => exact double (.leaf l) hl (leaf _)
    | false =>
      refine composite .not [.leaf l] ?_ ?_
      · rintro f - hf
        obtain rfl := List.singleton_inj.mp hf
        exact hl
      · rintro f hf
        obtain rfl := List.mem_singleton.mp hf
        exact leaf l
  | other operation children h₁ h₂ h₃ ih =>
    refine composite operation children (fun f hop hchildren => ?_) ih
    cases f with
    | leaf l => exact (h₃ l hop hchildren).elim
    | composite c =>
      obtain ⟨inner, members⟩ := c
      cases inner with
      | not => exact (h₂ members hop hchildren).elim
      | and | or => rfl

/-- Folding keeps the truth of a filter. -/
theorem evaluate_foldDoubleNegation {v : Leaf → Bool} (hv : Complementary v) (f : Filter) :
    f.foldDoubleNegation.evaluate v = f.evaluate v := by
  induction f using doubleNegationInduction with
  | leaf l => rw [foldDoubleNegation]
  | double f hf ih =>
    rw [foldDoubleNegation_not hf, ih, evaluate_not, hv.evaluate_invert hf, Bool.not_not]
  | composite operation children hplain ih =>
    rw [foldDoubleNegation_composite hplain, evaluate_composite, evaluate_composite, List.map_map]
    exact congrArg operation.connect (List.map_congr_left ih)

/-! ## Places -/

/-- A place under the connectives of a filter. The conditions and subqueries of leaves have none. -/
inductive Surrounding where
  | hole
  | under (operation : BooleanOp) (before : List Filter) (inner : Surrounding) (after : List Filter)

/-- The filter with another one in its place. -/
def Surrounding.fill (f : Filter) : Surrounding → Filter
  | hole => f
  | under operation before inner after => .composite ⟨operation, before ++ inner.fill f :: after⟩

/-! ## Filters without double negations -/

/-- No negation under the connectives of the filter has a negated filter as its only child. -/
def IsFolded (f : Filter) : Prop :=
  ∀ (s : Surrounding) (child : Filter), f = s.fill (not child) → child.isNegated = false

theorem isFolded_leaf (l : Leaf) : IsFolded (.leaf l) := by
  rintro (_ | _) child h <;> cases h

theorem isFolded_composite {operation : BooleanOp} {children : List Filter} :
    IsFolded (.composite ⟨operation, children⟩) ↔
      (∀ f, operation = .not → children = [f] → f.isNegated = false) ∧
        ∀ f ∈ children, f.IsFolded := by
  constructor
  · refine fun h => ⟨?_, fun f hf s child heq => ?_⟩
    · rintro f rfl rfl
      exact h .hole f rfl
    · obtain ⟨before, after, rfl⟩ := List.append_of_mem hf
      exact h (.under operation before s after) child (by rw [Surrounding.fill, heq])
  · rintro ⟨htop, hchildren⟩ s child heq
    cases s with
    | hole =>
      obtain ⟨hop, hc⟩ := Composite.mk.inj (Filter.composite.inj heq)
      exact htop child hop hc
    | under operation' before inner after =>
      obtain ⟨-, hc⟩ := Composite.mk.inj (Filter.composite.inj heq)
      refine hchildren _ ?_ inner child rfl
      rw [hc]
      exact List.mem_append_right _ List.mem_cons_self

theorem isNegated_foldDoubleNegation {f : Filter} (h : f.isNegated = false) :
    f.foldDoubleNegation.isNegated = false := by
  match f with
  | .leaf l => rwa [foldDoubleNegation]
  | .composite ⟨operation, children⟩ =>
    have hop : operation ≠ .not := by
      rintro rfl
      cases h
    rw [foldDoubleNegation_composite fun _ hnot => absurd hnot hop]
    exact h

theorem isFolded_foldDoubleNegation (f : Filter) : f.foldDoubleNegation.IsFolded := by
  induction f using doubleNegationInduction with
  | leaf l =>
    rw [foldDoubleNegation]
    exact isFolded_leaf l
  | double f hf ih => rwa [foldDoubleNegation_not hf]
  | composite operation children hplain ih =>
    rw [foldDoubleNegation_composite hplain, isFolded_composite, List.forall_mem_map]
    refine ⟨fun f hop hchildren => ?_, ih⟩
    obtain ⟨g, rfl, rfl⟩ := List.map_eq_singleton_iff.mp hchildren
    exact isNegated_foldDoubleNegation (hplain g hop rfl)

theorem IsFolded.foldDoubleNegation_eq {f : Filter} (h : f.IsFolded) : f.foldDoubleNegation = f := by
  induction f using Filter.induction with
  | leaf t condition subfilter => rw [foldDoubleNegation]
  | composite operation children ih =>
    obtain ⟨hplain, hchildren⟩ := isFolded_composite.mp h
    rw [foldDoubleNegation_composite hplain]
    have hmap : children.map Filter.foldDoubleNegation = children.map id :=
      List.map_congr_left fun f hf => ih f hf (hchildren f hf)
    rw [hmap, List.map_id]

/-! ## Filters that fold alike -/

/-- The filters fold alike by themselves and under a negation. -/
structure FoldsLike (f g : Filter) : Prop where
  plain : f.foldDoubleNegation = g.foldDoubleNegation
  negated : (not f).foldDoubleNegation = (not g).foldDoubleNegation

/-- The double negation of a filter folds like the filter. -/
theorem foldsLike_not_not (f : Filter) : FoldsLike (not (not f)) f :=
  ⟨foldDoubleNegation_not (f := not f) rfl, foldDoubleNegation_not (f := not (not f)) rfl⟩

namespace FoldsLike

variable {f g : Filter}

/-- A filter under a connective folds like the other one there, be it a double negation with the
connective or not. -/
theorem plain_under (h : FoldsLike f g) (operation : BooleanOp) (before after : List Filter) :
    (composite ⟨operation, before ++ f :: after⟩).foldDoubleNegation =
      (composite ⟨operation, before ++ g :: after⟩).foldDoubleNegation := by
  by_cases hsingle : operation = .not ∧ before = [] ∧ after = []
  · obtain ⟨rfl, rfl, rfl⟩ := hsingle
    exact h.negated
  · have hplain (f : Filter) : ∀ child, operation = .not → before ++ f :: after = [child] →
        child.isNegated = false := by
      intro child hop hchildren
      obtain ⟨hbefore, hrest⟩ | ⟨-, hrest⟩ := List.append_eq_singleton_iff.mp hchildren
      · exact absurd ⟨hop, hbefore, (List.cons.inj hrest).2⟩ hsingle
      · cases hrest
    rw [foldDoubleNegation_composite (hplain f), foldDoubleNegation_composite (hplain g)]
    rw [List.map_append, List.map_append, List.map_cons, List.map_cons, h.plain]

/-- A negation over several filters negates their conjunction. -/
theorem plain_conjunction (h : FoldsLike f g) (before after : List Filter) :
    (conjunction (before ++ f :: after)).foldDoubleNegation =
      (conjunction (before ++ g :: after)).foldDoubleNegation := by
  match before, after with
  | [], [] => exact h.plain
  | [], second :: rest => exact h.plain_under .and [] (second :: rest)
  | first :: rest, after =>
    have hseveral (f : Filter) : ∀ only, first :: rest ++ f :: after ≠ [only] := by simp
    rw [conjunction_of_ne_singleton (hseveral f), conjunction_of_ne_singleton (hseveral g)]
    exact h.plain_under .and (first :: rest) after

theorem under (h : FoldsLike f g) (operation : BooleanOp) (before after : List Filter) :
    FoldsLike (.composite ⟨operation, before ++ f :: after⟩)
      (.composite ⟨operation, before ++ g :: after⟩) := by
  refine ⟨h.plain_under operation before after, ?_⟩
  by_cases hop : operation = .not
  · subst hop
    rw [foldDoubleNegation_not rfl, foldDoubleNegation_not rfl]
    exact h.plain_conjunction before after
  · have hplain (f : Filter) : ∀ child, BooleanOp.not = .not →
        [composite ⟨operation, before ++ f :: after⟩] = [child] → child.isNegated = false := by
      rintro child - hchild
      obtain rfl := List.singleton_inj.mp hchild
      exact beq_false_of_ne hop
    rw [not, not, foldDoubleNegation_composite (hplain f), foldDoubleNegation_composite (hplain g)]
    rw [List.map_singleton, List.map_singleton, h.plain_under]

/-- Filters around filters that fold alike fold alike. -/
theorem fill (h : FoldsLike f g) (s : Surrounding) : FoldsLike (s.fill f) (s.fill g) := by
  induction s with
  | hole => exact h
  | under operation before inner after ih => exact ih.under operation before after

end FoldsLike

/-- A filter without its double negations says the same and has none any more, so that folding it
again changes nothing. Double negations put around any part of a filter make no difference to it. -/
theorem foldDoubleNegation_normalizes (f : Filter) :
    (∀ v, Complementary v → f.foldDoubleNegation.evaluate v = f.evaluate v) ∧
    f.foldDoubleNegation.foldDoubleNegation = f.foldDoubleNegation ∧
    (∀ (s : Surrounding) (child : Filter),
      f.foldDoubleNegation = s.fill (not child) → child.isNegated = false) ∧
    ∀ (s : Surrounding) (x : Filter), f = s.fill x →
      (s.fill (not (not x))).foldDoubleNegation = f.foldDoubleNegation := by
  refine ⟨fun v hv => evaluate_foldDoubleNegation hv f,
    (isFolded_foldDoubleNegation f).foldDoubleNegation_eq, isFolded_foldDoubleNegation f, ?_⟩
  rintro s x rfl
  exact ((foldsLike_not_not x).fill s).plain

/-- A name and a title, without the negations around them. -/
def isAlice : Filter := compare .eq "name" (.text "Alice")

def isIntern : Filter := compare .eq "title" (.text "Intern")

/-- People named Alice who have no manager and are no interns. -/
def topAlice : Filter := and [isAlice, not (compare .notNull "manager" .null), not isIntern]

/-- Alice stays Alice behind two negations, an intern stays rejected, and a manager who must not be
there is null. -/
theorem foldDoubleNegation_normalizes_topAlice :
    Complementary (rowValuation (· == "name") (· == "manager")) ∧
    topAlice.foldDoubleNegation.evaluate (rowValuation (· == "name") (· == "manager")) = true ∧
    topAlice.foldDoubleNegation =
      (Surrounding.under .and [isAlice, compare .isNull "manager" .null] .hole []).fill
        (not isIntern) ∧
    isIntern.isNegated = false ∧
    (and [not (not isAlice), not (compare .notNull "manager" .null),
      not isIntern]).foldDoubleNegation = topAlice.foldDoubleNegation := by
  obtain ⟨hevaluate, -, hfolded, haround⟩ := foldDoubleNegation_normalizes topAlice
  have hcomplementary := complementary_rowValuation (· == "name") (· == "manager")
  have hplace : topAlice.foldDoubleNegation =
      (Surrounding.under .and [isAlice, compare .isNull "manager" .null] .hole []).fill
        (not isIntern) := rfl
  refine ⟨hcomplementary, (hevaluate _ hcomplementary).trans (by decide), hplace,
    hfolded _ _ hplace, ?_⟩
  exact haround (.under .and [] .hole [not (compare .notNull "manager" .null), not isIntern]) isAlice
    rfl

end Filter

end ObjectQuery
