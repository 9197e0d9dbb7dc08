import ObjectQuery.Proofs.Compiler.Run
import ObjectQuery.Proofs.Optimizer.Emission

/-!
# Compilations with equalities collapsed

The optimizer changes neither whether a query compiles nor how many parameters it has. A membership
test folds all of its values or none, by the first of them, and equalities fold each text. Hence the
parameters are the same only if the values of each group fold evenly.

* `QueryOptions.equalityGroups`: the groups of equalities that are collapsed.
* `Value.FoldEvenly`: values that are folded as one by one in a list.
* `Compiler.compile_optimized`: a compilation with and without the optimizer.
-/

namespace ObjectQuery

/-- The tests of each group of equalities that is collapsed unless the optimizer is disabled. -/
def QueryOptions.equalityGroups (o : QueryOptions) : List (List Test) :=
  match { o with disableOptimizer := true }.prepare with
  | some f => f.equalityGroups false
  | none => []

theorem QueryOptions.prepare_optimized (o : QueryOptions) :
    { o with disableOptimizer := false }.prepare =
      { o with disableOptimizer := true }.prepare.map Filter.optimize := by
  unfold prepare
  rw [Option.map_map]
  rfl

/-! ## Values -/

/-- The first value is a text, or folding changes none of the values. -/
def Value.FoldEvenly (values : List Value) : Prop :=
  (Value.list values).startsWithText = true ∨ ∀ v ∈ values, v.fold = v

/-- Apart from lists, only texts are changed. -/
theorem Value.fold_of_not_startsWithText {v : Value} (hlist : v.isList = false)
    (htext : v.startsWithText = false) : v.fold = v := by
  cases v with
  | text s => cases htext
  | list items => cases hlist
  | _ => rfl

theorem Value.foldIf_of_fold {v : Value} (h : v.fold = v) (upper : Bool) : v.foldIf upper = v := by
  unfold foldIf
  rw [h, ite_self]

namespace Draft

/-- A value stands for itself and for its folded form. -/
def Likeness.folded : Likeness := ⟨fun v w => w = v ∨ w = v.fold, Eq⟩

theorem Likeness.admits_folded (values : List Value) : Likeness.folded.Admits values := by
  intro hlists upper
  rw [List.forall₂_map_left_iff, List.forall₂_map_right_iff, List.forall₂_same]
  intro v hv
  cases htext : v.startsWithText with
  | false =>
    have hfold := Value.fold_of_not_startsWithText (hlists v hv) htext
    rw [Value.foldIf_of_fold hfold, Value.foldIf_of_fold hfold]
    exact .inl rfl
  | true =>
    rw [Bool.true_and]
    cases (Value.list values).startsWithText with
    | true =>
      rw [Bool.true_and]
      exact .inl rfl
    | false =>
      cases upper with
      | true => exact .inr rfl
      | false => exact .inl rfl

/-- Values that fold evenly are bound alike. -/
theorem Likeness.admits_same {values : List Value} (h : Value.FoldEvenly values) :
    Likeness.same.Admits values := by
  intro hlists upper
  rw [List.forall₂_map_left_iff, List.forall₂_map_right_iff, List.forall₂_same]
  intro v hv
  have hunchanged (hfold : v.fold = v) (a b : Bool) : v.foldIf a = v.foldIf b := by
    rw [Value.foldIf_of_fold hfold, Value.foldIf_of_fold hfold]
  obtain hfirst | hfolds := h
  · cases htext : v.startsWithText with
    | false => exact hunchanged (Value.fold_of_not_startsWithText (hlists v hv) htext) _ _
    | true =>
      rw [hfirst]
      exact rfl
  · exact hunchanged (hfolds v hv) _ _

end Draft

/-! ## Compilations -/

namespace Compiler

variable {r : Draft.Likeness}

/-- A query is restricted alike with and without the optimizer. -/
theorem alongside_restrict (k : Compiler) (o : QueryOptions) (hr : ∀ v, r.values v v)
    (hgroups : ∀ group ∈ o.equalityGroups, r.Suits group) :
    Draft.Alongside r (k.restrict { o with disableOptimizer := false })
      (k.restrict { o with disableOptimizer := true }) := by
  unfold QueryOptions.equalityGroups at hgroups
  unfold restrict
  rw [QueryOptions.prepare_optimized]
  refine (Step.Parallel.modify fun _ _ h => { h with autoIgnoreCase := rfl }).bind fun _ _ _ => ?_
  cases hprepare : { o with disableOptimizer := true }.prepare with
  | none => exact .pure trivial
  | some f =>
    rw [hprepare] at hgroups
    have hfollows := Draft.follows_optimizeWithin (k := k) hr f false hgroups
    refine (hfollows.tracks.emits.bind fun condition condition' _ => ?_).onFailure
    exact (Step.Parallel.modify fun _ _ h => h.addCondition condition condition').mono
      fun _ _ _ => trivial

/-- A query compiles with and without the optimizer or with neither, and binds values that may stand
for each other. -/
theorem results_agree (k : Compiler) (className : String) (o : QueryOptions)
    (hr : ∀ v, r.values v v) (hgroups : ∀ group ∈ o.equalityGroups, r.Suits group) :
    ResultsAgree (fun q q' => List.Forall₂ r.Parameters q.parameters q'.parameters)
      (k.compile className { o with disableOptimizer := false }).value
      (k.compile className { o with disableOptimizer := true }).value := by
  unfold compile run
  cases k.registry.get className with
  | error e => rfl
  | ok m =>
    have hrun : Draft.Alongside r
        (do
          k.restrict { o with disableOptimizer := false }
          Draft.assembleSelect k (selectSpec o))
        (do
          k.restrict { o with disableOptimizer := true }
          Draft.assembleSelect k (selectSpec o)) :=
      (alongside_restrict k o hr hgroups).bind fun _ _ _ => Draft.Alongside.assembleSelect _
    exact (hrun _ _ (Draft.Peers.start className 0)).map fun _ _ h => h.2.parameters

/-- A query whose groups of equalities ask alike to ignore case compiles with and without the
optimizer or with neither, and fails with the same error. It has as many parameters without the
optimizer as with it, whose values may be folded there and not here. They are the same if the values
of each group fold evenly. -/
theorem compile_optimized (k : Compiler) (className : String) (o : QueryOptions)
    (hask : ∀ group ∈ o.equalityGroups, ∀ t ∈ group, ∀ u ∈ group, t.ignoreCase = u.ignoreCase) :
    let optimized := (k.compile className { o with disableOptimizer := false }).value
    let plain := (k.compile className { o with disableOptimizer := true }).value
    (∀ err, optimized = .error err ↔ plain = .error err) ∧
      ∀ q q', optimized = .ok q → plain = .ok q' →
        List.Forall₂ (fun p p' => p'.number = p.number ∧
            (p'.value = p.value ∨ p'.value = p.value.fold)) q.parameters q'.parameters ∧
          ((∀ group ∈ o.equalityGroups, Value.FoldEvenly (group.map (·.value))) →
            q'.parameters = q.parameters) := by
  intro optimized plain
  have hfolded : ResultsAgree _ optimized plain :=
    results_agree (r := .folded) k className o (fun _ => .inl rfl) fun group hgroup =>
      ⟨hask group hgroup, Draft.Likeness.admits_folded _⟩
  constructor
  · intro err
    revert hfolded
    cases optimized <;> cases plain
    case error.error => rintro rfl; rfl
    case ok.ok =>
      intro _
      constructor <;> rintro ⟨⟩
    all_goals exact False.elim
  · intro q q' hq hq'
    rw [hq, hq'] at hfolded
    refine ⟨hfolded, fun heven => ?_⟩
    have hsame : ResultsAgree _ optimized plain :=
      results_agree (r := .same) k className o (fun _ => rfl) fun group hgroup =>
        ⟨hask group hgroup, Draft.Likeness.admits_same (heven group hgroup)⟩
    rw [hq, hq'] at hsame
    exact Draft.Likeness.Parameters.same hsame

/-- A query for identities with a link called 1 or jdoe, in any case. -/
def mixedAccounts : QueryOptions :=
  { restrictions :=
      [.collectionCondition "links" (.or
        [(Filter.compare .eq "nativeIdentity" (.int 1)).ignoringCase,
          (Filter.compare .eq "nativeIdentity" (.text "jdoe")).ignoringCase])] }

/-- The membership test folds nothing, as its first value is a number. -/
theorem compile_optimized_mixedAccounts :
    (∀ group ∈ mixedAccounts.equalityGroups, ∀ t ∈ group, ∀ u ∈ group,
        t.ignoreCase = u.ignoreCase) ∧
      ∃ q q', (linkedAccounts.compile "Identity"
            { mixedAccounts with disableOptimizer := false }).value = .ok q ∧
          (linkedAccounts.compile "Identity"
            { mixedAccounts with disableOptimizer := true }).value = .ok q' ∧
          List.Forall₂ (fun p p' => p'.number = p.number ∧
            (p'.value = p.value ∨ p'.value = p.value.fold)) q.parameters q'.parameters ∧
          q.parameters.map (·.value.text?) = [none, some "jdoe"] ∧
          q'.parameters.map (·.value.text?) = [none, some "JDOE"] := by
  have hask : ∀ group ∈ mixedAccounts.equalityGroups, ∀ t ∈ group, ∀ u ∈ group,
      t.ignoreCase = u.ignoreCase := by
    have hall : (mixedAccounts.equalityGroups.all fun group => group.all fun t => group.all fun u =>
        t.ignoreCase == u.ignoreCase) = true := by decide +kernel
    simpa only [List.all_eq_true, beq_iff_eq] using hall
  have hok (o : QueryOptions) (texts : List (Option String))
      (h : (linkedAccounts.compile "Identity" o).value.toOption.map
        (fun q => q.parameters.map (·.value.text?)) = some texts) :
      ∃ q, (linkedAccounts.compile "Identity" o).value = .ok q ∧
        q.parameters.map (·.value.text?) = texts := by
    revert h
    cases (linkedAccounts.compile "Identity" o).value with
    | error e => intro h; cases h
    | ok q => exact fun h => ⟨q, rfl, Option.some.inj h⟩
  obtain ⟨q, hq, htexts⟩ := hok { mixedAccounts with disableOptimizer := false }
    [none, some "jdoe"] (by decide +kernel)
  obtain ⟨q', hq', htexts'⟩ := hok { mixedAccounts with disableOptimizer := true }
    [none, some "JDOE"] (by decide +kernel)
  obtain ⟨hparameters, -⟩ := (compile_optimized linkedAccounts "Identity" mixedAccounts hask).2 q q'
    hq hq'
  exact ⟨hask, q, q', hq, hq', hparameters, htexts, htexts'⟩

end Compiler

end ObjectQuery
