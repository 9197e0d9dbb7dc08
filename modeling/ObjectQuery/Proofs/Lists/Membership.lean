import ObjectQuery.Proofs.Compiler.Run
import ObjectQuery.Proofs.Lists.Equalities
import ObjectQuery.Proofs.Step.Failures

/-!
# Membership in a list of values

A property among several values is compared with all of them at once. Its reference and the values
that are bound are those of the equalities with the same values, and it is put into upper case where
they do so. It is not cast, though.

* `Draft.Comparable`, `Draft.Uniform`: the lists that are compared like that.
* `Draft.plainMembership_yields_uncast`: what a membership test compares.
* `Draft.membership_follows_equalities`: a membership test beside the equalities.
-/

namespace ObjectQuery

open Step

namespace Draft

variable {k : Compiler} {d : Draft} {l : Leaf} {t : Test} {r : Reference} {b : Aliases}
  {values : List Value}

/-- Values that a property can be compared with. -/
def Comparable (values : List Value) : Prop :=
  ∀ v ∈ values, v.isNull = false ∧ v.isEntity = false ∧ v.isList = false

/-- All values are texts, or none is one. -/
def Uniform (values : List Value) : Prop :=
  (∀ v ∈ values, v.isText = true) ∨ ∀ v ∈ values, v.isText = false

end Draft

namespace Value

theorem startsWithText_of_not_list {v : Value} (h : v.isList = false) :
    v.startsWithText = v.isText := by
  cases v with
  | list => cases h
  | _ => rfl

/-- A list of texts starts with a text, and a list without texts does not. -/
theorem startsWithText_of_uniform {v : Value} (hplain : ∀ w ∈ v.elements, w.isList = false)
    (huniform : Draft.Uniform v.elements) :
    ∀ w ∈ v.elements, w.startsWithText = v.startsWithText := by
  intro w hw
  rw [startsWithText_of_not_list (hplain w hw)]
  cases v with
  | list items =>
    have hitem : ∀ u ∈ items, w.isText = u.isText := by
      intro u hu
      rcases huniform with h | h
      · rw [h w hw, h u hu]
      · rw [h w hw, h u hu]
    cases items with
    | nil => cases hw
    | cons first rest =>
      rw [hitem first List.mem_cons_self]
      cases first <;> rfl
  | _ =>
    obtain rfl := List.mem_singleton.mp hw
    rfl

end Value

namespace Draft

/-- A membership test follows its property like an equality, but casts nothing. -/
theorem plainMembership_yields_uncast (hlike : t.operation ≠ .like) (hne : values ≠ [])
    (hscalar : (Aliases.isScalarCollection k.catalog d.aliases t.property).value = false)
    (h : (Aliases.resolve k.catalog t.property {}).Yields d.aliases (some r) b) :
    (plainMembership k t values).Yields d
      (.membership { reference := r, upper := folds k d t t.value }
        (List.range' d.nextParameter values.length))
      ((d.withAliases b).binding (values.map (·.foldIf (folds k d t t.value)))) := by
  have hupper := ignoresCase_yields_foldsTexts (k := k) t t.value d
  have hplain : (isScalarCollection k t.property).Yields d false d :=
    yields_get_bind.mpr (yields_ofReported.mpr ⟨hscalar.symm, rfl⟩)
  have hbound : (values.map fun v => (boundValue k t v (folds k d t t.value)).1) =
      values.map (·.foldIf (folds k d t t.value)) := by
    simp only [boundValue_fst hlike]
  have hnumbers : (bindAll (values.map fun v => (boundValue k t v (folds k d t t.value)).1)).Yields
      (d.withAliases b) (List.range' d.nextParameter values.length)
      ((d.withAliases b).binding (values.map (·.foldIf (folds k d t t.value)))) := by
    rw [hbound]
    exact bindAll_yields.mpr ⟨by rw [List.length_map]; rfl, rfl⟩
  unfold plainMembership
  rw [if_neg (by simpa using hne)]
  exact yields_bind.mpr ⟨_, _, hupper, yields_bind.mpr ⟨_, _, hplain,
    yields_bind.mpr ⟨_, _, resolve_yields_of_some h,
      yields_bind.mpr ⟨_, _, hnumbers, yields_pure.mpr ⟨rfl, rfl⟩⟩⟩⟩⟩

theorem plainMembership_fails {err : CompileError}
    (hne : values ≠ []) (hnever : NeverResolves k t.property d.aliases err) :
    (plainMembership k t values).Fails d err := by
  unfold plainMembership
  rw [if_neg (by simpa using hne)]
  have hscalar : (isScalarCollection k t.property).Yields d _ d :=
    yields_get_bind.mpr (yields_ofReported.mpr ⟨rfl, rfl⟩)
  exact (ignoresCase_yields_foldsTexts t t.value d).bind_fails
    (hscalar.bind_fails (hnever d _ rfl).bind)

theorem emit_membership (hop : l.test.operation = .inList)
    (hentities : ∀ v ∈ l.test.value.elements, v.isEntity = false) :
    emit k (.leaf l) = routed l.test.isAggregate
      (do let a ← plainMembership k l.test l.test.value.elements; predicate a) := by
  obtain ⟨t, condition, subfilter⟩ := l
  have hnone : t.value.hasEntities = false := by
    simpa [Value.hasEntities] using hentities
  rw [emit, emitLeaf, hop]
  show test k t = _
  unfold test
  rw [hop]
  show membership k t = _
  unfold membership
  rw [hnone]
  rfl

/-! ## Equalities with values that are folded alike -/

theorem equalToEach_of_folds {upper : Bool} (h : ∀ v ∈ values, folds k d t v = upper)
    (r : Reference) (first : Nat) :
    equalToEach k d t r first values = (List.range' first values.length).map fun number =>
      .atom (.comparison { reference := r, upper, cast := t.cast } "=" number none) := by
  induction values generalizing first with
  | nil => rfl
  | cons v rest ih =>
    obtain ⟨hv, hrest⟩ := List.forall_mem_cons.mp h
    rw [equalToEach_cons, ih hrest, equalTo, hv, List.length_cons, List.range'_succ, List.map_cons]

theorem folded_of_folds {upper : Bool} (h : ∀ v ∈ values, folds k d t v = upper) :
    folded k d t values = values.map (·.foldIf upper) :=
  List.map_congr_left fun v hv => by rw [h v hv]

/-- A membership test emits `R in (:a1, ..., :an)` and binds the same values where the equalities of
its property with the values emit `R = :a1`, ..., `R = :an` in turn, except that it does not cast
what it compares. Where one fails, the other fails alike. -/
theorem membership_follows_equalities (hd : d.aliases.scopes ≠ [])
    (hop : l.test.operation = .inList) (hne : l.test.value.elements ≠ [])
    (hcomparable : Comparable l.test.value.elements) (huniform : Uniform l.test.value.elements)
    (hscalar : (Aliases.isScalarCollection k.catalog d.aliases l.test.property).value = false) :
    (∃ err, (equalitiesInTurn k l l.test.value.elements).Fails d err ∧
      (emit k (.leaf l)).Fails d err) ∨
    ∃ left b, left.cast = l.test.cast ∧
      let numbers := List.range' d.nextParameter l.test.value.elements.length
      let e := (d.withAliases b).binding (l.test.value.elements.map (·.foldIf left.upper))
      Delivers l.test.property (equalitiesInTurn k l l.test.value.elements) d
        (numbers.map fun number => .atom (.comparison left "=" number none)) e ∧
      DeliversOne l.test.property (emit k (.leaf l)) d
        (.atom (.membership { left with cast := none } numbers)) e := by
  have hnull : ∀ v ∈ l.test.value.elements, v.isNull = false := fun v hv => (hcomparable v hv).1
  have hfolds : ∀ v ∈ l.test.value.elements, folds k d l.test v = folds k d l.test l.test.value := by
    intro v hv
    unfold folds
    rw [Value.startsWithText_of_uniform (fun w hw => (hcomparable w hw).2.2) huniform v hv]
  have hlike : l.test.operation ≠ .like := by
    rw [hop]
    decide
  rw [emit_membership hop fun v hv => (hcomparable v hv).2.1]
  rcases resolves_or_neverResolves k l.test.property d.aliases with hresolves | ⟨err, hnever⟩
  · obtain ⟨r, _, hr, -⟩ := hresolves d false rfl
    obtain ⟨b, hb, -⟩ := resolve_yields hr
    have hequal := equalitiesInTurn_delivers hd hne hnull hb
    rw [equalToEach_of_folds hfolds, folded_of_folds hfolds] at hequal
    refine .inr ⟨_, b, rfl, hequal, routed_delivers (fun marked => ?_) rfl⟩
    exact yields_bind.mpr ⟨_, _, plainMembership_yields_uncast (d := { d with inHaving := marked })
      hlike hne hscalar hb, predicate_yields.mpr ⟨rfl, rfl⟩⟩
  · refine .inl ⟨err, equalitiesInTurn_fails hne hnever, routed_fails fun marked => ?_⟩
    exact (plainMembership_fails (d := { d with inHaving := marked }) hne hnever).bind

/-- A property among two days, which is to be compared as a date. -/
def amongDays : Leaf :=
  .ofTest { property := "created", operation := .inList, cast := some "date",
            value := .list [.text "2024-01-01", .text "2024-01-02"] }

/-- Each equality with a day casts the property to a date, and the membership test does not. -/
theorem membership_follows_equalities_days :
    let k := Compiler.linkedAccounts
    let d := Draft.start "Identity" 0
    let l := amongDays
    d.aliases.scopes ≠ [] ∧ l.test.operation = .inList ∧ l.test.value.elements ≠ [] ∧
      Comparable l.test.value.elements ∧ Uniform l.test.value.elements ∧
      (Aliases.isScalarCollection k.catalog d.aliases l.test.property).value = false ∧
      ∃ left e, left.cast = some "date" ∧
        Delivers "created" (equalitiesInTurn k l l.test.value.elements) d
          [.atom (.comparison left "=" 0 none), .atom (.comparison left "=" 1 none)] e ∧
        DeliversOne "created" (emit k (.leaf l)) d
          (.atom (.membership { left with cast := none } [0, 1])) e := by
  intro k d l
  have hd : d.aliases.scopes ≠ [] := List.cons_ne_nil _ _
  have hne : l.test.value.elements ≠ [] := List.cons_ne_nil _ _
  have hcomparable : Comparable l.test.value.elements := by unfold Comparable; decide
  have huniform : Uniform l.test.value.elements := by unfold Uniform; decide
  have hscalar : (Aliases.isScalarCollection k.catalog d.aliases l.test.property).value = false := by
    decide +kernel
  refine ⟨hd, rfl, hne, hcomparable, huniform, hscalar, ?_⟩
  rcases membership_follows_equalities hd rfl hne hcomparable huniform hscalar with
    ⟨err, -, hfails⟩ | ⟨left, b, hcast, hequal, hone⟩
  · exact absurd hfails (not_fails_of_isSome (by decide +kernel) err)
  · exact ⟨left, _, hcast, hequal, hone⟩

end Draft

end ObjectQuery
