import ObjectQuery.Proofs.Compiler.Run
import ObjectQuery.Proofs.Emission.Parts
import ObjectQuery.Proofs.IgnoreCase.Wishes
import ObjectQuery.Proofs.Matching.Selects

/-!
# The wish of a query to ignore case

A query that asks to ignore case is compiled like the query whose leaves ask for it one by one, as
far as the leaves stand outside of nested selects. A nested select starts from a draft of its own,
which the wish of the query does not reach.

* `Draft.Matches.emit`: a draft with the wish emits for a filter what a draft without it emits for
  the filter with the wish in its leaves.
* `Compiler.compile_askOutside`: compilations with the wish are those with the wish in the leaves.
-/

namespace ObjectQuery

namespace Composite

open ObjectQuery.Filter

variable {c : Composite}

/-- The wish reaches the plain part of a condition and leaves its negated part alone. -/
theorem split_askComposite :
    (askComposite c).split = (c.split.1.map (onChildren askOutside), c.split.2) := by
  obtain ⟨operation, children⟩ := c
  have hplain : (onChildren askKept ⟨operation, children⟩).plainChildren =
      (Composite.plainChildren ⟨operation, children⟩).map askOutside := by
    simp only [plainChildren, onChildren, List.filter_map, Function.comp_def, isNegated_askKept]
    refine List.map_congr_left fun f hf => askKept_of_not_isNegated ?_
    simpa using (List.mem_filter.mp hf).2
  have hnegated : (onChildren askKept ⟨operation, children⟩).negatedChildren =
      Composite.negatedChildren ⟨operation, children⟩ := by
    simp only [negatedChildren, onChildren, List.filter_map, Function.comp_def, isNegated_askKept]
    rw [List.map_congr_left (g := id), List.map_id]
    exact fun f hf => askKept_of_isNegated (List.mem_filter.mp hf).2
  unfold askComposite
  by_cases hnot : operation = .not
  · have hsplit : split ⟨operation, children⟩ = (none, some ⟨.and, children⟩) := if_pos hnot
    rw [if_pos hnot, hsplit, Option.map_none]
  · rw [if_neg hnot]
    unfold split
    rw [if_neg hnot, if_neg (show (onChildren askKept ⟨operation, children⟩).operation ≠ .not from
      hnot), hplain, hnegated, List.isEmpty_map]
    refine Prod.ext ?_ rfl
    dsimp only
    split <;> rfl

theorem operation_askComposite : (askComposite c).operation = c.operation := by
  unfold askComposite
  split <;> rfl

theorem length_askComposite : (askComposite c).children.length = c.children.length := by
  unfold askComposite
  split
  · rfl
  · exact List.length_map ..

end Composite

namespace Draft

/-- The wish of the query to ignore case is set in the first draft only. -/
def Likeness.wish : Likeness := ⟨Eq, fun a b => a = true ∧ b = false⟩

variable {k : Compiler}

theorem Interchangeable.asking {t u : Test} {v : Value} (hproperty : u.property = t.property)
    (hcast : u.cast = t.cast) (hignore : u.ignoreCase = true)
    (hbound : ∀ upper, boundValue k u v upper = boundValue k t v upper) :
    Interchangeable .wish k t u v v where
  property := hproperty
  asks := by
    rintro _ _ ⟨rfl, rfl⟩
    rw [hignore, Bool.or_false, Bool.or_true]
  cast := hcast
  isNull := rfl
  startsWithText := rfl
  escape upper := by rw [hbound]
  bound upper := by
    rw [hbound]
    rfl

/-- A test with the wish makes up for a draft without it. -/
theorem similar_asking (t : Test) : Similar .wish k t t.asking where
  operation := rfl
  joinProperty := rfl
  subqueryClass := rfl
  subqueryProperty := rfl
  operand := .asking rfl rfl rfl fun _ => rfl
  hasEntities := rfl
  elements := List.forall₂_same.mpr fun _ _ =>
    ⟨.asking rfl rfl rfl fun _ => rfl, .asking rfl rfl rfl fun _ => rfl⟩

namespace Matches

open ObjectQuery.Filter

/-- The filter emits with the wish in the draft what it emits with the wish in its leaves. -/
def Asks (k : Compiler) (f : Filter) : Prop :=
  Matches .wish (Draft.emit k f) (Draft.emit k f.askOutside)

theorem emitAll {fs : List Filter} (h : ∀ f ∈ fs, Asks k f) :
    Matches .wish (emitEach k .all fs) (emitEach k .all (fs.map askOutside)) := by
  induction fs with
  | nil => exact pure []
  | cons f rest ih =>
    obtain ⟨hf, hrest⟩ := List.forall_mem_cons.mp h
    rw [List.map_cons, emitEach_cons, emitEach_cons]
    exact bind hf fun condition => bind (ih hrest) fun conditions => pure _

theorem routedAlike_askOutside (c : Composite) : RoutedAlike c (onChildren askOutside c) where
  operation := rfl
  isEmpty := List.isEmpty_map
  areAggregateOnly := by
    rw [onChildren, areAggregateOnly_eq, areAggregateOnly_eq, List.all_map]
    exact congrArg c.children.all (funext (leafwise_askOutside.isAggregateOnly fun _ => rfl))
  anyHasAggregate := by
    rw [onChildren, anyHasAggregate_eq, anyHasAggregate_eq, List.any_map]
    exact congrArg c.children.any (funext (leafwise_askOutside.hasAggregate fun _ => rfl))

theorem emitComposite {c : Composite} (h : ∀ f ∈ c.children, Asks k f) : Asks k (.composite c) := by
  obtain ⟨operation, children⟩ := c
  unfold Asks
  rw [leafwise_askOutside.onChildren, Draft.emit, Draft.emitComposite, Draft.emit]
  exact composite (routedAlike_askOutside ⟨operation, children⟩) (emitAll h)

/-- A nested select is the same in both runs, as its draft has no wish in either. -/
theorem sameValues (v w : Value) (h : Likeness.same.values v w) : Likeness.wish.values v w := h

theorem emitCondition (t : Test) {condition : Option Composite}
    (h : ∀ c ∈ condition, ∀ f ∈ c.children, Asks k f) :
    Matches .wish (Draft.emitCondition k t condition)
      (Draft.emitCondition k t.asking (condition.map askComposite)) := by
  cases condition with
  | none => exact test (similar_asking t)
  | some c =>
    rw [Option.map_some, emitCondition_eq, emitCondition_eq, Composite.split_askComposite,
      Composite.operation_askComposite, Composite.length_askComposite]
    rcases hsplit : c.split with ⟨plain, negated⟩
    refine withTheta _ (emitParts sameValues rfl _ _ _ ?_ ?_)
    · cases plain with
      | none => exact .none
      | some part =>
        have hpart : c.split.1 = some part := by rw [hsplit]
        have hemit := emitComposite fun f hf => h c rfl f ((Composite.split_plain hpart).2 f hf)
        unfold Asks at hemit
        rw [leafwise_askOutside.onChildren] at hemit
        exact .some hemit
    · cases negated with
      | none => exact .none
      | some part => exact .some (refl _)

theorem emit (f : Filter) : Asks k f := by
  induction f using Filter.induction with
  | leaf t condition subfilter ihc ihs =>
    unfold Asks
    rw [leafwise_askOutside.leaf, askLeaf, Draft.emit, Draft.emit]
    dsimp only
    rw [emitLeaf, emitLeaf, show t.asking.operation = t.operation from rfl]
    split
    · exact emitCondition t ihc
    · cases subfilter with
      | none => exact subquery sameValues rfl (similar_asking t) (refl _)
      | some f => exact subquery sameValues rfl (similar_asking t) (refl _)
    · exact test (similar_asking t)
  | composite operation children ih => exact emitComposite ih

end Matches

end Draft

/-! ## Compilation -/

namespace Compiler

/-- What adding the restrictions of a query to its draft comes to once the wish is set. -/
def restrictBy (k : Compiler) : Option Filter → Step Draft Unit
  | some f => Draft.visit k f
  | none => pure ()

theorem matches_restrictBy (k : Compiler) (prepared : Option Filter) :
    Step.EndsLike (Draft.Alike .wish) Eq (k.restrictBy prepared)
      (k.restrictBy (prepared.map Filter.askOutside)) := by
  cases prepared with
  | none => exact (Draft.Matches.pure ()).endsLike
  | some f =>
    have hadd : Draft.Matches .wish (Draft.add k f) (Draft.add k f.askOutside) :=
      .bind (Draft.Matches.emit f) Draft.Matches.addCondition
    exact hadd.endsLike.onFailure

/-- A statement is the same with the wish in the query and in the leaves. -/
theorem run_askOutside {α : Type} (k : Compiler) (className : String) {o : QueryOptions}
    (hignore : o.ignoreCase = true) {assemble : Step Draft (Assembled α)}
    (hassemble : Draft.Matches .wish assemble assemble) (statement : α → Statement) :
    k.run className o.askOutside assemble statement = k.run className o assemble statement := by
  have hrun : ∀ o : QueryOptions, (do k.restrict o; assemble : Step Draft _).run (.start className 0) =
      (do k.restrictBy o.prepare; assemble : Step Draft _).run
        { Draft.start className 0 with autoIgnoreCase := o.ignoreCase } := by
    intro o
    unfold restrict
    cases o.prepare <;> rfl
  have hmatch : Step.EndsLike (Draft.Alike .wish) Eq (do k.restrictBy o.prepare; assemble)
      (do k.restrictBy o.askOutside.prepare; assemble) := by
    rw [QueryOptions.prepare_askOutside]
    exact .bind (matches_restrictBy k o.prepare) fun _ _ _ => hassemble.endsLike
  unfold run
  cases k.registry.get className with
  | error e => rfl
  | ok m =>
    dsimp only
    rw [hrun, hrun, hignore]
    obtain ⟨hresult, hstates, hevents⟩ :=
      hmatch { Draft.start className 0 with autoIgnoreCase := true }
        { Draft.start className 0 with autoIgnoreCase := false } ⟨[], false, .nil, ⟨rfl, rfl⟩, rfl⟩
    rw [show o.askOutside.ignoreCase = false from rfl, ← hresult.eq, ← hevents]
    cases hok : ((do k.restrictBy o.prepare; assemble : Step Draft _).run
        { Draft.start className 0 with autoIgnoreCase := true }).result with
    | error e => rfl
    | ok a =>
      obtain ⟨parameters, wish, hparameters, -, hstate⟩ := hstates a hok
      obtain rfl := Draft.Likeness.Parameters.same hparameters
      rw [hstate]

/-- A query that asks to ignore case is compiled, as a select and as a deletion, exactly like the
one whose leaves outside of nested selects ask for it. These are all leaves, or all that matter, if
those in nested selects ask for it already. -/
theorem compile_askOutside (k : Compiler) (className : String) {o : QueryOptions}
    (hignore : o.ignoreCase = true) :
    k.compile className o = k.compile className o.askOutside ∧
      k.compileDelete className o = k.compileDelete className o.askOutside ∧
      ((∀ f ∈ o.restrictions, ∀ t ∈ f.nestedTests, t.ignoreCase = true) →
        o.askOutside = o.askEverywhere) :=
  ⟨(run_askOutside k className hignore (Draft.Matches.assembleSelect _) .select).symm,
    (run_askOutside k className hignore Draft.Matches.assembleDelete .delete).symm,
    QueryOptions.askOutside_eq_askEverywhere⟩

/-- A query for those whose manager is called Bob, in any case. -/
def managedByBob : QueryOptions :=
  { ignoreCase := true
    restrictions :=
      [.subquery "manager" "Identity" "id" (some (.compare .eq "firstname" (.text "bob")))] }

/-- The wish of the query does not reach the name, which stands in a nested select. The wish of its
leaf would. -/
theorem compile_askOutside_managedByBob :
    managedByBob.ignoreCase = true ∧
      linkedAccounts.compile "Identity" managedByBob =
        linkedAccounts.compile "Identity" managedByBob.askOutside ∧
      (linkedAccounts.compile "Identity" managedByBob).value.toOption.map (·.text) ≠
        (linkedAccounts.compile "Identity"
          managedByBob.askEverywhere).value.toOption.map (·.text) :=
  ⟨rfl, (compile_askOutside linkedAccounts "Identity" rfl).1, by decide +kernel⟩

end Compiler

end ObjectQuery
