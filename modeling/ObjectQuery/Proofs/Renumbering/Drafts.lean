import ObjectQuery.Proofs.Emission.Induction
import ObjectQuery.Proofs.Renumbering.Trees
import ObjectQuery.Proofs.Step.Agreement
import ObjectQuery.Query.Assemble

/-!
# Drafts under other parameter numbers

Two runs of a compilation side by side, whose parameters are numbered from different numbers on.
Nothing but the numbers depends on where they start.

* `Draft.Renumbered g`: a draft and the same draft with the number `g n` in place of each `n`.
* `Draft.Unmoved`: steps that go the same way from such drafts, with the same results.
* `Draft.Shifted`: likewise for emissions, with the new numbers in what they emit.
* `Draft.shifted_assembleSelect`, `Draft.Shifted.inHavingGroup`, ...: each way to build a step.
-/

namespace ObjectQuery

namespace Draft

variable {k : Compiler} {g : Nat → Nat} {α β : Type}

/-- A draft with other parameter numbers, the first of which is `first`. -/
def renumber (g : Nat → Nat) (first : Nat) (d : Draft) : Draft :=
  { d with
    firstParameter := first
    conditions := renumberConditions g d.conditions
    having := renumberGroups g d.having
    parameters := d.parameters.map (·.renumber g) }

section

variable (d : Draft) (first : Nat)

@[simp] theorem renumber_aliases : (d.renumber g first).aliases = d.aliases := rfl

@[simp] theorem renumber_inHaving : (d.renumber g first).inHaving = d.inHaving := rfl

@[simp] theorem renumber_inTheta : (d.renumber g first).inTheta = d.inTheta := rfl

@[simp] theorem renumber_thetaInstance :
    (d.renumber g first).thetaInstance = d.thetaInstance := rfl

@[simp] theorem isEmpty_renumber_having :
    (d.renumber g first).having.isEmpty = d.having.isEmpty := by
  simp [renumber, renumberGroups_eq]

end

/-- The second draft is the first one with the number `g n` in place of each `n`, and the numbers
that are still to come follow. -/
def Renumbered (g : Nat → Nat) (d e : Draft) : Prop :=
  ∃ first, (∀ i, g (d.firstParameter + i) = first + i) ∧ e = d.renumber g first

/-- From a draft under either numbers both steps go the same way and give the same. -/
abbrev Unmoved (g : Nat → Nat) (x y : Step Draft α) : Prop := Step.Agrees (Renumbered g) Eq x y

/-- From a draft under either numbers both steps go the same way, and the second result is the first
one under the new numbers. -/
abbrev Shifted (g : Nat → Nat) (change : α → α) (x y : Step Draft α) : Prop :=
  Step.Agrees (Renumbered g) (fun a b => b = change a) x y

theorem renumbered_start {a b : Nat} (h : ∀ i, g (a + i) = b + i) (queryClass : String) :
    Renumbered g (.start queryClass a) (.start queryClass b) :=
  ⟨b, h, rfl⟩

/-- Both drafts hold as many parameters, so the next ones are numbered alike. -/
theorem Renumbered.next {d e : Draft} (h : Renumbered g d e) (i : Nat) :
    g (d.nextParameter + i) = e.nextParameter + i := by
  obtain ⟨first, hfirst, rfl⟩ := h
  show g (d.firstParameter + d.parameters.length + i) = first + (d.parameters.map _).length + i
  rw [List.length_map, Nat.add_assoc, hfirst, Nat.add_assoc]

/-- A change that has nothing to do with parameters and conditions. -/
structure Unnumbered (f : Draft → Draft) : Prop where
  firstParameter : ∀ d, (f d).firstParameter = d.firstParameter
  renumber : ∀ d g first, f (d.renumber g first) = (f d).renumber g first

theorem Unnumbered.renumbered {f : Draft → Draft} (hf : Unnumbered f) {d e : Draft}
    (h : Renumbered g d e) : Renumbered g (f d) (f e) := by
  obtain ⟨first, hfirst, rfl⟩ := h
  exact ⟨first, by rwa [hf.firstParameter], hf.renumber d g first⟩

/-! ## General rules -/

/-- What is read of a draft may differ in the numbers. -/
theorem agrees_get_bind {S : α → β → Prop} {f : Draft → Step Draft α} {f' : Draft → Step Draft β}
    (h : ∀ d first, (∀ i, g (d.firstParameter + i) = first + i) →
      Step.Agrees (Renumbered g) S (f d) (f' (d.renumber g first))) :
    Step.Agrees (Renumbered g) S (Step.get >>= f) (Step.get >>= f') := by
  refine .bind .get ?_
  rintro d _ ⟨first, hfirst, rfl⟩
  exact h d first hfirst

namespace Unmoved

theorem bind {S : β → β → Prop} {x y : Step Draft α} {f f' : α → Step Draft β} (hx : Unmoved g x y)
    (hf : ∀ a, Step.Agrees (Renumbered g) S (f a) (f' a)) :
    Step.Agrees (Renumbered g) S (x >>= f) (y >>= f') := by
  refine Step.Agrees.bind hx ?_
  rintro a _ rfl
  exact hf a

theorem modify {f : Draft → Draft} (hf : Unnumbered f) :
    Unmoved g (Step.modify f) (Step.modify f) :=
  Step.Agrees.modify fun _ _ h => hf.renumbered h

theorem aliased (x : Step Aliases α) : Unmoved g (Draft.aliased x) (Draft.aliased x) := by
  refine .zoom x ?_ ?_
  · rintro d _ ⟨first, -, rfl⟩
    rfl
  · rintro a d _ ⟨first, hfirst, rfl⟩
    exact ⟨first, hfirst, rfl⟩

theorem changeAliases (f : Aliases → α × Aliases) :
    Unmoved g (Draft.changeAliases f) (Draft.changeAliases f) :=
  agrees_get_bind fun _ _ _ => bind (modify ⟨fun _ => rfl, fun _ _ _ => rfl⟩) fun _ => .pure rfl

/-! ## References -/

/-- A reference is found in the aliases, or the error names something of them. -/
theorem orFailing {x : Step Aliases (Option Reference)} {err : Draft → CompileError}
    (herr : ∀ d first, err (d.renumber g first) = err d) :
    Unmoved g
      (do
        match ← Draft.aliased x with
        | some reference => pure reference
        | none => do
          let d ← Step.get
          .fail (err d))
      (do
        match ← Draft.aliased x with
        | some reference => pure reference
        | none => do
          let d ← Step.get
          .fail (err d)) := by
  refine bind (aliased x) fun reference => ?_
  cases reference with
  | some reference => exact .pure rfl
  | none =>
    refine agrees_get_bind fun d first _ => ?_
    rw [herr]
    exact .fail _

theorem resolve (path : String) (ownJoins : Bool) :
    Unmoved g (Draft.resolve k path ownJoins) (Draft.resolve k path ownJoins) :=
  orFailing fun _ _ => rfl

theorem resolveCollection (path : String) :
    Unmoved g (Draft.resolveCollection k path) (Draft.resolveCollection k path) :=
  orFailing fun _ _ => rfl

theorem resolveClause (path : String) (outer : Bool) :
    Unmoved g (Draft.resolveClause k path outer) (Draft.resolveClause k path outer) :=
  orFailing fun _ _ => rfl

theorem isScalarCollection (path : String) :
    Unmoved g (Draft.isScalarCollection k path) (Draft.isScalarCollection k path) :=
  agrees_get_bind fun _ _ _ => .ofReported _

theorem ignoresCase (t : Test) (v : Value) :
    Unmoved g (Draft.ignoresCase k t v) (Draft.ignoresCase k t v) :=
  agrees_get_bind fun _ _ _ => .ofReported _

/-! ## Statements -/

theorem orderTerms (orderings : List SortKey) :
    Unmoved g (Draft.orderTerms k orderings) (Draft.orderTerms k orderings) := by
  induction orderings with
  | nil => exact .pure rfl
  | cons o rest ih => exact bind (resolveClause _ _) fun _ => bind ih fun _ => .pure rfl

theorem selectItem (distinct : Bool) (column : String) :
    Unmoved g (Draft.selectItem k distinct column) (Draft.selectItem k distinct column) := by
  unfold Draft.selectItem
  split
  · exact agrees_get_bind fun _ _ _ => .pure rfl
  · exact bind (resolveClause _ _) fun _ => .pure rfl

theorem selectItems (distinct : Bool) (columns : List String) :
    Unmoved g (Draft.selectItems k distinct columns) (Draft.selectItems k distinct columns) := by
  induction columns with
  | nil => exact .pure rfl
  | cons column rest ih => exact bind (selectItem _ _) fun _ => bind ih fun _ => .pure rfl

theorem selectList (distinct : Bool) (columns : List String) :
    Unmoved g (Draft.selectList k distinct columns) (Draft.selectList k distinct columns) := by
  unfold Draft.selectList
  split
  · exact agrees_get_bind fun _ _ _ => .pure rfl
  · exact selectItems _ _

theorem groupTerms (properties : List String) :
    Unmoved g (Draft.groupTerms k properties) (Draft.groupTerms k properties) := by
  induction properties with
  | nil => exact .pure rfl
  | cons property rest ih => exact bind (resolveClause _ _) fun _ => bind ih fun _ => .pure rfl

end Unmoved

/-- An assembled select with its conditions under other numbers. -/
def assembledRenumber (g : Nat → Nat) (a : Assembled Select) : Assembled Select :=
  { a with statement := a.statement.renumber g }

/-- The clauses of a draft go into its select as they are. -/
theorem shifted_assembleSelect (spec : SelectSpec) :
    Shifted g (assembledRenumber g) (assembleSelect k spec) (assembleSelect k spec) := by
  refine agrees_get_bind fun d first _ => ?_
  rw [isEmpty_renumber_having]
  split
  · exact .fail _
  · refine Unmoved.bind (.orderTerms _) fun orderBy => Unmoved.bind (.selectList _ _) fun items => ?_
    exact Unmoved.bind (.groupTerms _) fun groupBy => agrees_get_bind fun d first _ => .pure rfl

/-! ## Parameters -/

namespace Shifted

theorem bindValue (v : Value) : Shifted g g (Draft.bind v) (Draft.bind v) := by
  refine .bind .get ?_
  intro d e h
  have hnext : e.nextParameter = g d.nextParameter := (h.next 0).symm
  refine Step.Agrees.bind (Step.Agrees.modify ?_) fun _ _ _ => .pure hnext
  intro d e h
  have hnext : e.nextParameter = g d.nextParameter := (h.next 0).symm
  obtain ⟨first, hfirst, rfl⟩ := h
  refine ⟨first, hfirst, ?_⟩
  rw [hnext]
  simp [renumber, Parameter.renumber]

theorem bindAll (vs : List Value) :
    Shifted g (List.map g) (Draft.bindAll vs) (Draft.bindAll vs) := by
  induction vs with
  | nil => exact .pure rfl
  | cons v rest ih =>
    refine Step.Agrees.bind (bindValue v) ?_
    rintro number _ rfl
    refine Step.Agrees.bind ih ?_
    rintro numbers _ rfl
    exact .pure rfl

/-! ## Clauses -/

variable {x y : Emission}

theorem nothing : Shifted g (renumberGroup g) (Pure.pure none : Emission) (Pure.pure none) :=
  .pure rfl

theorem predicate (p : Atom) :
    Shifted g (renumberGroup g) (Draft.predicate p) (Draft.predicate (p.renumber g)) :=
  .pure rfl

theorem addGroup (group : Option Condition) :
    Unmoved g (Step.modify (·.addGroup group)) (Step.modify (·.addGroup (renumberGroup g group))) := by
  refine Step.Agrees.modify ?_
  rintro d _ ⟨first, hfirst, rfl⟩
  have hadd : (d.renumber g first).addGroup (renumberGroup g group) =
      (d.addGroup group).renumber g first := by
    unfold Draft.addGroup
    have hnone : (renumberGroup g group).isNone = group.isNone := by cases group <;> rfl
    rw [isEmpty_renumber_having, hnone]
    split
    · rfl
    · simp [renumber, renumberGroups_eq]
  refine ⟨first, ?_, hadd⟩
  unfold Draft.addGroup
  split <;> exact hfirst

/-- A change before a step and its undoing after it. -/
theorem restoring {change : α → α} {before : Draft → Draft} {after : Draft → Draft → Draft}
    {x y : Step Draft α} (hx : Shifted g change x y) (hbefore : Unnumbered before)
    (hafter : ∀ d, Unnumbered (after d))
    (hundone : ∀ d g first, after (d.renumber g first) = after d) :
    Shifted g change (Step.restoring before after x) (Step.restoring before after y) := by
  refine Step.Agrees.restoring hx (fun _ _ h => hbefore.renumbered h) ?_
  rintro d _ d' e' ⟨first, -, rfl⟩ h
  rw [hundone d g first]
  exact (hafter d).renumbered h

theorem inHavingGroup (hx : Shifted g (renumberGroup g) x y) :
    Shifted g (renumberGroup g) (Draft.inHavingGroup x) (Draft.inHavingGroup y) := by
  refine Step.Agrees.bind (restoring hx ⟨fun _ => rfl, fun _ _ _ => rfl⟩
    (fun _ => ⟨fun _ => rfl, fun _ _ _ => rfl⟩) fun _ _ _ => rfl) ?_
  rintro group _ rfl
  exact Unmoved.bind (addGroup group) fun _ => nothing

theorem routed (isAggregate : Bool) (hx : Shifted g (renumberGroup g) x y) :
    Shifted g (renumberGroup g) (Draft.routed isAggregate x) (Draft.routed isAggregate y) := by
  refine agrees_get_bind fun d first _ => ?_
  rw [renumber_inHaving]
  split
  · exact inHavingGroup hx
  · exact hx

theorem insideOr (hx : Shifted g (renumberGroup g) x y) :
    Shifted g (renumberGroup g) (Draft.insideOr x) (Draft.insideOr y) :=
  restoring hx ⟨fun _ => rfl, fun _ _ _ => rfl⟩ (fun _ => ⟨fun _ => rfl, fun _ _ _ => rfl⟩)
    fun _ _ _ => rfl

theorem grouped (disjunctive : Bool) (cs : List Condition) :
    Draft.grouped disjunctive (renumberConditions g cs) =
      renumberGroup g (Draft.grouped disjunctive cs) := by
  cases cs <;> rfl

variable {xs ys : Step Draft (List Condition)}

theorem combined (operation : BooleanOp) (h : Shifted g (renumberConditions g) xs ys) :
    Shifted g (renumberGroup g) (Draft.combined operation xs) (Draft.combined operation ys) := by
  cases operation with
  | and =>
    refine Step.Agrees.bind h ?_
    rintro cs _ rfl
    exact .pure (grouped false cs)
  | or =>
    refine insideOr (Step.Agrees.bind h ?_)
    rintro cs _ rfl
    exact .pure (grouped true cs)
  | not =>
    refine Step.Agrees.bind h ?_
    rintro cs _ rfl
    refine .pure ?_
    rw [grouped]
    cases Draft.grouped false cs <;> rfl

theorem composite (c : Composite) (h : Shifted g (renumberConditions g) xs ys) :
    Shifted g (renumberGroup g) (Draft.composite c xs) (Draft.composite c ys) := by
  have hx := combined c.operation h
  refine agrees_get_bind fun d first _ => ?_
  rw [renumber_inHaving]
  split
  · exact hx
  · split
    · split
      · exact hx
      · exact inHavingGroup hx
    · split
      · exact .fail _
      · exact hx

theorem together (hx : Shifted g (renumberGroup g) x y)
    (hxs : Shifted g (renumberConditions g) xs ys) :
    Shifted g (renumberConditions g) (Draft.together x xs) (Draft.together y ys) := by
  refine Step.Agrees.bind hx ?_
  rintro c _ rfl
  refine Step.Agrees.bind hxs ?_
  rintro cs _ rfl
  refine .pure ?_
  rw [renumberConditions_append, renumberConditions_toList]

end Shifted

end Draft

end ObjectQuery
