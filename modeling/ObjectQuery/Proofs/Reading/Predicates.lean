import ObjectQuery.Proofs.Reading.Emission

/-!
# The predicates of proper tests

* `Test.isAggregate_of_isProper`: a proper test compares no aggregate.
* `Draft.states_test`: it leaves a condition that says what the test means, and nothing for the
  having clause.
-/

namespace ObjectQuery

theorem Test.isAggregate_of_isProper {t : Test} (h : t.isProper = true) : t.isAggregate = false := by
  rw [isProper, Bool.and_eq_true, Bool.and_eq_true, Bool.not_eq_true'] at h
  exact h.1.1

namespace Draft

variable {k : Compiler}

/-! ## Predicates -/

theorem refersFrom_of_resolve {path : String} {ownJoins : Bool} {d e z : Draft} {r : Reference}
    (h : (resolve k path ownJoins).Yields d r e) (hz : e.Underlies z) :
    RefersFrom k z d.aliases.place path r := by
  obtain ⟨a, ha, rfl⟩ := resolve_yields h
  exact ⟨_, _, _, rfl, ha, hz.aliases⟩

/-- A path that is resolved in an enclosing scope refers from the place seen from there. -/
theorem refersFrom_of_resolveWithin {path : String} {depth : Nat} {a b : Aliases} {z : Draft}
    {r : Reference} (h : (Aliases.resolveWithin k.catalog path depth).Yields a r b)
    (hz : b.Underlies z.aliases) :
    ∃ further, 0 < further ∧ RefersFrom k z (a.place.outward further) path r := by
  induction depth generalizing a b with
  | zero =>
    have h₁ := Step.yields_get_bind.mp h
    exact (Step.yields_fail.mp h₁).elim
  | succ depth ih =>
    obtain ⟨hscopes, h₀⟩ | ⟨inner, outer, u, hscopes, h₀, rfl⟩ := Aliases.enclosing_yields h
    · have h₁ := Step.yields_get_bind.mp h₀
      rw [if_pos (by rw [hscopes]; rfl)] at h₁
      exact (Step.yields_fail.mp h₁).elim
    · have hu : u.Underlies z.aliases := ⟨hz.queryClass, hz.sources, hz.joins⟩
      have hplace (n : Nat) :
          (Aliases.place { a with scopes := outer }).outward n = a.place.outward (n + 1) := by
        rw [Aliases.place, Aliases.place, Aliases.frames, Aliases.frames, hscopes]
        rfl
      have h₁ := Step.yields_get_bind.mp h₀
      split at h₁
      · exact (Step.yields_fail.mp h₁).elim
      · obtain ⟨o, v, hresolve, h₂⟩ := Step.yields_bind.mp h₁
        cases o with
        | none =>
          have hv := ((Aliases.resumes_walk.resolve path _).yields hresolve).place
          obtain ⟨further, -, hrefers⟩ := ih h₂ hu
          rw [hv, hplace] at hrefers
          exact ⟨further + 1, Nat.succ_pos further, hrefers⟩
        | some reference =>
          obtain ⟨rfl, rfl⟩ := Step.yields_pure.mp h₂
          have hnearest : Aliases.place { a with scopes := outer } = a.place.outward 1 := hplace 0
          exact ⟨1, Nat.one_pos, _, _, _, hnearest, hresolve, hu⟩

theorem writes_comparison (t : Test) (v : Value) (operator : String) (ownJoins : Bool) :
    Writes (plainComparison k t v operator ownJoins) fun z s p => Compares k z s t operator v p := by
  intro d p e h
  obtain ⟨upper, r, a, ha, rfl, rfl⟩ := plainComparison_yields h
  refine ⟨rfl, fun z hz => ⟨upper, r, _, rfl, ⟨_, _, _, rfl, ha, hz.aliases⟩, ?_⟩⟩
  exact hz.parameters.subset (List.mem_append_right _ List.mem_cons_self)

theorem forall₂_numbered {ps : List Parameter} {f : Value → Value} {values : List Value} :
    ∀ {first : Nat}, numbered first (values.map f) ⊆ ps →
      List.Forall₂ (fun number v => ⟨number, f v⟩ ∈ ps) (List.range' first values.length) values := by
  induction values with
  | nil => exact fun _ => .nil
  | cons v rest ih =>
    intro first h
    obtain ⟨hfirst, hrest⟩ := List.cons_subset.mp h
    exact .cons hfirst (ih hrest)

theorem writes_membership (t : Test) :
    Writes (plainMembership k t t.value.elements) fun z s p => Lists k z s t p := by
  intro d p e h
  obtain ⟨hempty, rfl, rfl⟩ | ⟨-, upper, ownJoins, r, a, ha, rfl, rfl⟩ := plainMembership_yields h
  · exact ⟨rfl, fun _ _ => .inl ⟨hempty, rfl⟩⟩
  · refine ⟨rfl, fun z hz => .inr ⟨upper, r, _, rfl, ⟨_, _, _, rfl, ha, hz.aliases⟩,
      forall₂_numbered ?_⟩⟩
    exact fun p hp => hz.parameters.subset (List.mem_append_right _ hp)

section

variable {t : Test}

theorem states_comparison (ht : t.isAggregate = false) (v : Value) (operator : String) :
    States (comparison k t v operator) fun z s m =>
      ∃ p, Compares k z s t operator v p ∧ m = .predicate p :=
  states_routed ht (states_predicate (writes_comparison t v operator false))

theorem states_nullCheck (ht : t.isAggregate = false) (isNull : Bool) :
    States (nullCheck k t isNull) fun z s m =>
      ∃ p, ChecksNull k z s t isNull p ∧ m = .predicate p := by
  refine states_routed ht fun d c e _ h => ?_
  obtain ⟨r, u, hr, h₁⟩ := Step.yields_bind.mp h
  obtain ⟨rfl, rfl⟩ := predicate_yields.mp h₁
  obtain ⟨a, ha, rfl⟩ := resolve_yields hr
  exact ⟨rfl, _, rfl, trivial, fun z hz => ⟨_, ⟨r, rfl, refersFrom_of_resolve hr hz⟩, rfl⟩⟩

theorem states_equality (ht : t.isAggregate = false) (v : Value) (equal : Bool) :
    States (equality k t v equal) fun z s m =>
      ∃ p, Equates k z s t v equal p ∧ m = .predicate p := by
  unfold equality Equates
  split
  · exact states_nullCheck ht equal
  · exact states_comparison ht v _

theorem states_emptyCheck (ht : t.isAggregate = false) :
    States (emptyCheck k t) fun z s m =>
      ∃ r, RefersFrom k z s t.property r ∧ m = .predicate (.emptyCheck r) := by
  refine states_routed ht fun d c e _ h => ?_
  obtain ⟨r, u, hr, h₁⟩ := Step.yields_bind.mp h
  obtain ⟨rfl, rfl⟩ := predicate_yields.mp h₁
  obtain ⟨a, ha, rfl⟩ := resolveCollection_yields hr
  exact ⟨rfl, _, rfl, trivial, fun z hz => ⟨r, ⟨_, _, _, rfl, ha, hz.aliases⟩, rfl⟩⟩

/-! ## Lists of values -/

theorem statesEach_equalities (ht : t.isAggregate = false) (values : List Value) :
    StatesEach (equalities k t values) fun z s ms =>
      List.Forall₂ (fun v m => ∃ p, Equates k z s (t.withOperation .eq v) v true p ∧
        m = .predicate p) values ms := by
  induction values with
  | nil => exact statesEach_nil
  | cons v rest ih =>
    have hfirst := @states_equality k (t.withOperation .eq v) ht v true
    exact statesEach_together hfirst ih ((continues k).toTestRules.equality _ v true)
      ((underlies k).toTestRules.equalities t rest)

theorem states_membership (hop : t.operation = .inList) (ht : t.isAggregate = false) :
    States (membership k t) fun z s m => t.Means k z s m := by
  have hequalities := @statesEach_equalities k t ht t.value.elements
  unfold membership
  dsimp only
  split
  · rename_i hentities
    split
    · rename_i v hv
      have hone := @states_equality k (t.withOperation .eq v) ht v true
      refine hone.mono fun z s m hm => ?_
      rw [← Meaning.any_singleton m]
      exact .entities hop hentities (by rw [hv]; exact .cons hm .nil)
    · have hne := elements_ne_nil_of_hasEntities hentities
      have hplain : Filter.areAggregateOnly
          (t.value.elements.map fun v => Filter.test (t.withOperation .eq v)) = false := by
        obtain ⟨v, hv⟩ := List.exists_mem_of_ne_nil _ hne
        rw [Filter.areAggregateOnly_eq, List.all_eq_false]
        refine ⟨_, List.mem_map_of_mem hv, ?_⟩
        have haggregate : (t.withOperation .eq v).isAggregate = false := ht
        rw [Filter.test, Leaf.ofTest, Filter.isAggregateOnly]
        simp [haggregate]
      refine (states_composite _ hplain hequalities ?_).mono ?_
      · rintro z s _ hms rfl
        exact hne (List.forall₂_nil_right_iff.mp hms)
      · rintro z s _ ⟨ms, hms, rfl⟩
        exact .entities hop hentities hms
  · rename_i hentities
    refine (states_routed ht (states_predicate (writes_membership t))).mono ?_
    rintro z s _ ⟨p, hp, rfl⟩
    exact .listed hop (by simpa using hentities) hp

/-- One comparison stands before the others. -/
theorem separateComparisons_cons (k : Compiler) (t : Test) (v : Value) (rest : List Value) :
    separateComparisons k t (v :: rest) =
      together (plainComparison k t v "=" true >>= predicate) (separateComparisons k t rest) := by
  rw [separateComparisons, together, bind_assoc]
  rfl

theorem statesEach_separateComparisons (t : Test) (values : List Value) :
    StatesEach (separateComparisons k t values) fun z s ms =>
      List.Forall₂ (fun v m => ∃ p, Compares k z s t "=" v p ∧ m = .predicate p) values ms := by
  induction values with
  | nil => exact statesEach_nil
  | cons v rest ih =>
    have hfirst : Steady (plainComparison k t v "=" true >>= predicate) :=
      ((continues k).toTestRules.plainComparison t v "=" true).bind fun _ => .pure _
    rw [separateComparisons_cons]
    exact statesEach_together (states_predicate (writes_comparison t v "=" true)) ih hfirst
      ((underlies k).toTestRules.separateComparisons t rest)

theorem states_containsAll (hop : t.operation = .containsAll) (ht : t.isAggregate = false)
    (hne : t.value.elements ≠ []) : States (containsAll k t) fun z s m => t.Means k z s m := by
  intro d c e hd h
  obtain ⟨v, hv, h'⟩ | ⟨hmany, h'⟩ := containsAll_yields h
  · have hone : States (equality k t v true) fun z s m => t.Means k z s m := by
      refine (states_equality ht v true).mono ?_
      rintro z s _ ⟨p, hp, rfl⟩
      exact .containsOne hop hv hp
    exact hone d c e hd h'
  · refine states_routed (M := fun z s m => t.Means k z s m) ht (fun d c e hd h => ?_) d c e hd h'
    obtain ⟨members, u, hmembers, h₁⟩ := Step.yields_bind.mp h
    obtain ⟨rfl, rfl⟩ := Step.yields_pure.mp h₁
    obtain ⟨hhaving, hreadable, hmeanings⟩ :=
      statesEach_separateComparisons t _ _ _ _ hd hmembers
    have hsome : members ≠ [] := by
      rintro rfl
      exact hne (List.forall₂_nil_right_iff.mp (hmeanings _ (.refl _)))
    refine ⟨hhaving, .chain members, if_neg (by simpa using hsome), ⟨hsome, hreadable⟩, ?_⟩
    intro z hz
    rw [Condition.meaning_chain]
    exact .containsAll hop hmany (hmeanings z hz)

/-! ## Joins -/

theorem states_join (hop : t.operation = .join) :
    States (join k t) fun z s m => t.Means k z s m := by
  intro d c e _ h
  obtain ⟨other, condition, hother, -, rfl, hjoined⟩ := join_yields h
  obtain ⟨-, left, a, right, b, hleft, hright, rfl, rfl⟩ | ⟨-, hcorrelation⟩ := hjoined
  · have hsource := (d.aliases.addThetaSource_resumes (Path.head other).1 d.thetaInstance).place
    have ha := (Aliases.resumes_walk.resolveEnclosing t.property).yields hleft
    have hb := (Aliases.resumes_walk.resolve other {}).yields hright
    refine ⟨rfl, _, rfl, trivial, fun z hz => .joined hop ⟨other, left, right, hother, ?_, ?_⟩⟩
    · exact ⟨_, _, _, ha.place.trans hsource, hright, hz.aliases⟩
    · have hafter : a.Underlies z.aliases := IsTrans.trans _ _ _ hb.underlies hz.aliases
      have hstart := Step.yields_get_bind.mp hleft
      obtain ⟨depth, hdepth, hrefers⟩ := refersFrom_of_resolveWithin hstart hafter
      rw [hsource] at hrefers
      exact .inr ⟨depth, hdepth, hrefers, rfl⟩
  · obtain ⟨right, a, left, b, o, hright, hleft, hcondition, rfl⟩ := correlation_yields hcorrelation
    have hsource := (d.aliases.addSource_resumes (Path.head other).1).place
    have ha := (Aliases.resumes_walk.resolve other {}).yields hright
    have hb := (Aliases.resumes_walk.resolve t.property o).yields hleft
    refine ⟨rfl, _, rfl, trivial, fun z hz => .joined hop
      ⟨other, left, right, hother, ?_, .inl ⟨?_, ?_⟩⟩⟩
    · exact ⟨_, _, _, hsource, hright, IsTrans.trans _ _ _ hb.underlies hz.aliases⟩
    · exact ⟨_, _, _, ha.place.trans hsource, hleft, hz.aliases⟩
    · exact hcondition.symm.imp (congrArg Atom.correlated) (congrArg Atom.correlated)

/-- A proper test without nested filters leaves its meaning. -/
theorem states_test (ht : t.isProper = true) : States (test k t) fun z s m => t.Means k z s m := by
  have hplain := Test.isAggregate_of_isProper ht
  rw [Test.isProper, hplain] at ht
  unfold test
  cases hop : t.operation with
  | eq =>
    refine (states_equality hplain t.value true).mono ?_
    rintro z s _ ⟨p, hp, rfl⟩
    exact .equal hop hp
  | ne =>
    refine (states_equality hplain t.value false).mono ?_
    rintro z s _ ⟨p, hp, rfl⟩
    exact .unequal hop hp
  | lt | gt | le | ge | like =>
    refine (states_comparison hplain t.value _).mono ?_
    rintro z s _ ⟨p, hp, rfl⟩
    exact .compared (by simp [hop]) hp
  | inList => exact states_membership hop hplain
  | isNull =>
    refine (states_nullCheck hplain true).mono ?_
    rintro z s _ ⟨p, hp, rfl⟩
    exact .null hop hp
  | notNull =>
    refine (states_nullCheck hplain false).mono ?_
    rintro z s _ ⟨p, hp, rfl⟩
    exact .notNull hop hp
  | isEmpty =>
    refine (states_emptyCheck hplain).mono ?_
    rintro z s _ ⟨r, hr, rfl⟩
    exact .empty hop hr
  | containsAll => exact states_containsAll hop hplain (by simpa [hop] using ht)
  | join => exact states_join hop
  | leftJoin => simp [hop] at ht
  | collectionCondition | subquery => exact states_fail _

end

end Draft

end ObjectQuery
