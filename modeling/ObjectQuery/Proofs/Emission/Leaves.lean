import ObjectQuery.Proofs.Emission.Steps

/-!
# Leaves that resolve paths and bind values

Apart from the joins with other classes, a leaf without other filters changes a draft in two ways:
it resolves paths and binds values. What holds of such steps, and is kept where steps are put
together, holds of the leaf.

* `Draft.Touches`: a draft with a path resolved and values bound.
* `Draft.LeafRules`: a property that holds of the steps of a leaf and is kept where they are put
  together.
* `Draft.LeafRules.test`: such a property holds of what a leaf emits.
-/

namespace ObjectQuery

namespace Draft

variable {k : Compiler}

/-- The draft `e` is `d` with a path resolved, and maybe with values bound behind it. -/
def Touches (k : Compiler) (d e : Draft) : Prop :=
  ∃ path o r a values, (Aliases.resolve k.catalog path o).Yields d.aliases r a ∧
    e = { d.withAliases a with parameters := d.parameters ++ values }

theorem Touches.of_resolve {d : Draft} {path : String} {o : Resolution} {r : Option Reference}
    {a : Aliases} (h : (Aliases.resolve k.catalog path o).Yields d.aliases r a) :
    Touches k d (d.withAliases a) := by
  refine ⟨path, o, r, a, [], h, ?_⟩
  rw [List.append_nil]
  rfl

/-- A property of steps that holds of those that touch a draft, and is kept where steps are put
together. -/
structure LeafRules (k : Compiler) (P : (α : Type) → Step Draft α → Prop) : Prop where
  pure : ∀ {α} (a : α), P α (Pure.pure a)
  fail : ∀ {α} (err : CompileError), P α (Step.fail err)
  bind : ∀ {α β} {x : Step Draft α} {f : α → Step Draft β}, P α x → (∀ a, P β (f a)) →
    P β (x >>= f)
  touching : ∀ {α} {x : Step Draft α}, (∀ d a e, x.Yields d a e → Touches k d e) → P α x
  mono : ∀ {α} {x y : Step Draft α}, (∀ d a e, x.Yields d a e → y.Yields d a e) → P α y → P α x
  routed : ∀ isAggregate {x : Emission}, P _ x → P _ (Draft.routed isAggregate x)
  composite : ∀ c {xs : Step Draft (List Condition)}, P _ xs → P _ (Draft.composite c xs)

namespace LeafRules

variable {P : (α : Type) → Step Draft α → Prop}

theorem predicate (h : LeafRules k P) (p : Atom) : P _ (Draft.predicate p) := h.pure _

theorem resolve (h : LeafRules k P) (path : String) (ownJoins : Bool) :
    P _ (Draft.resolve k path ownJoins) := by
  refine h.touching fun d r e hx => ?_
  obtain ⟨a, ha, rfl⟩ := resolve_yields hx
  exact .of_resolve ha

theorem plainComparison (h : LeafRules k P) (t : Test) (v : Value) (operator : String)
    (ownJoins : Bool) : P _ (Draft.plainComparison k t v operator ownJoins) := by
  refine h.touching fun d p e hx => ?_
  obtain ⟨_, r, a, ha, -, rfl⟩ := plainComparison_yields hx
  exact ⟨_, _, _, a, _, ha, rfl⟩

theorem together (h : LeafRules k P) {x : Emission} {xs : Step Draft (List Condition)}
    (hx : P _ x) (hxs : P _ xs) : P _ (Draft.together x xs) :=
  h.bind hx fun _ => h.bind hxs fun _ => h.pure _

theorem comparison (h : LeafRules k P) (t : Test) (v : Value) (operator : String) :
    P _ (Draft.comparison k t v operator) :=
  h.routed _ (h.bind (h.plainComparison _ _ _ _) fun _ => h.predicate _)

theorem nullCheck (h : LeafRules k P) (t : Test) (isNull : Bool) :
    P _ (Draft.nullCheck k t isNull) :=
  h.routed _ (h.bind (h.resolve _ _) fun _ => h.predicate _)

theorem equality (h : LeafRules k P) (t : Test) (v : Value) (equal : Bool) :
    P _ (Draft.equality k t v equal) := by
  unfold Draft.equality
  split
  · exact h.nullCheck t equal
  · exact h.comparison t v _

theorem emptyCheck (h : LeafRules k P) (t : Test) : P _ (Draft.emptyCheck k t) := by
  refine h.routed _ (h.bind (h.touching fun d r e hx => ?_) fun _ => h.predicate _)
  obtain ⟨a, ha, rfl⟩ := resolveCollection_yields hx
  exact .of_resolve ha

theorem equalities (h : LeafRules k P) (t : Test) (values : List Value) :
    P _ (Draft.equalities k t values) := by
  induction values with
  | nil => exact h.pure []
  | cons v rest ih => exact h.together (h.equality _ v true) ih

theorem separateComparisons (h : LeafRules k P) (t : Test) (values : List Value) :
    P _ (Draft.separateComparisons k t values) := by
  induction values with
  | nil => exact h.pure []
  | cons v rest ih =>
    exact h.bind (h.plainComparison _ _ _ _) fun _ => h.bind ih fun _ => h.pure _

/-- A membership of no values binds nothing. -/
theorem plainMembership (h : LeafRules k P) (t : Test) (values : List Value) :
    P _ (Draft.plainMembership k t values) := by
  by_cases hempty : values = []
  · rw [hempty]
    exact h.pure _
  · refine h.touching fun d p e hx => ?_
    obtain ⟨hnil, -⟩ | ⟨-, _, _, r, a, ha, -, rfl⟩ := plainMembership_yields hx
    · exact absurd hnil hempty
    · exact ⟨_, _, _, a, _, ha, rfl⟩

theorem membership (h : LeafRules k P) (t : Test) : P _ (Draft.membership k t) := by
  unfold Draft.membership
  dsimp only
  split
  · split
    · exact h.equality _ _ true
    · exact h.composite _ (h.equalities t _)
  · exact h.routed _ (h.bind (h.plainMembership t _) fun _ => h.predicate _)

theorem containsAll (h : LeafRules k P) (t : Test) : P _ (Draft.containsAll k t) := by
  by_cases hone : ∃ v, t.value.elements = [v]
  · obtain ⟨v, hv⟩ := hone
    refine h.mono (fun d c e hx => ?_) (h.equality t v true)
    obtain ⟨w, hw, hx⟩ | ⟨hnone, -⟩ := containsAll_yields hx
    · rw [hv] at hw
      cases hw
      exact hx
    · exact absurd hv (hnone v)
  · refine h.mono (fun d c e hx => ?_)
      (h.routed t.isAggregate (h.bind (h.separateComparisons t t.value.elements) fun conditions =>
        h.pure (chained conditions)))
    obtain ⟨v, hv, -⟩ | ⟨-, hx⟩ := containsAll_yields hx
    · exact absurd ⟨v, hv⟩ hone
    · exact hx

/-- The property holds of what a leaf emits that joins no other class. -/
theorem test (h : LeafRules k P) {t : Test} (hjoin : t.operation ≠ .join)
    (hleft : t.operation ≠ .leftJoin) : P _ (Draft.test k t) := by
  unfold Draft.test
  cases hop : t.operation with
  | join => exact absurd hop hjoin
  | leftJoin => exact absurd hop hleft
  | eq | ne => exact h.equality t _ _
  | lt | gt | le | ge | like => exact h.comparison t _ _
  | inList => exact h.membership t
  | isNull | notNull => exact h.nullCheck t _
  | isEmpty => exact h.emptyCheck t
  | containsAll => exact h.containsAll t
  | collectionCondition | subquery => exact h.fail _

end LeafRules

end Draft

end ObjectQuery
