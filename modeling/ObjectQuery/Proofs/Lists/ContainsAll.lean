import ObjectQuery.Proofs.Compiler.Run
import ObjectQuery.Proofs.Lists.Equalities
import ObjectQuery.Proofs.Paths.Crossings
import ObjectQuery.Proofs.Paths.OwnJoins
import ObjectQuery.Proofs.Paths.Unresolvable

/-!
# Collections that contain all values

A property that has to have several values is compared with each of them through joins of its own,
so that different elements of a collection may have them.

* `Draft.Reached`: a value with the reference that it is compared with and the joins made for it.
* `Draft.separateComparisons_yields_reached`: the comparisons of a property that resolves.
* `Draft.demandsMany`: one element would have to have several values, which no element does.
* `Draft.containsAll_follows_equalities`: a property that contains all values is compared with them
  like equalities do, except for the joins and for null.
-/

namespace ObjectQuery

open Step

namespace Draft

variable {k : Compiler} {d e : Draft} {t : Test} {l : Leaf} {v : Value} {values : List Value}
  {err : CompileError} {shared : Reference} {b : Aliases}

/-! ## One value -/

theorem boundValue_withOperation (hlike : t.operation ≠ .like) (v w : Value) (upper : Bool) :
    boundValue k (t.withOperation .eq w) v upper = boundValue k t v upper := by
  have heq : (t.withOperation .eq w).operation ≠ .like := show LogicalOp.eq ≠ .like by decide
  refine Prod.ext ?_ ?_
  · rw [boundValue_fst hlike, boundValue_fst heq]
  · rw [boundValue_escape hlike, boundValue_escape heq]

/-- Only patterns depend on the operation of the test. -/
theorem equality_withOperation (hlike : t.operation ≠ .like) (v w : Value) (equal : Bool) :
    equality k (t.withOperation .eq w) v equal = equality k t v equal := by
  have hplain (operator : String) (ownJoins : Bool) :
      plainComparison k (t.withOperation .eq w) v operator ownJoins =
        plainComparison k t v operator ownJoins := by
    unfold plainComparison
    simp only [boundValue_withOperation hlike]
    rfl
  unfold equality comparison
  rw [hplain]
  rfl

/-! ## Several values -/

/-- A value that a property is compared with, the reference of the property, and the joins that have
been made for it. -/
structure Reached where
  value : Value
  reference : Reference
  joins : List Join

/-- Each reference is equal to its value, which is bound under the next number from the first one
on. -/
def equalToReached (k : Compiler) (d : Draft) (t : Test) (first : Nat) (reached : List Reached) :
    List Condition :=
  (reached.zipIdx first).map fun p => .atom (equalTo k d t p.1.reference p.1.value p.2)

theorem resolve_failsWith {path : String} {ownJoins : Bool} :
    FailsWith CompileError.IsUnresolvable (resolve k path ownJoins) := by
  refine .bind (.zoom Aliases.resolve_failsWith) fun found => ?_
  split
  · exact .pure _
  · exact .bind .get fun _ => .fail trivial

theorem equalToReached_cons (k : Compiler) (d : Draft) (t : Test) (first : Nat) (own : Reached)
    (reached : List Reached) :
    equalToReached k d t first (own :: reached) =
      .atom (equalTo k d t own.reference own.value first) ::
        equalToReached k d t (first + 1) reached := rfl

/-- A property that resolves is compared with each value through joins of its own, whatever else has
been joined before. -/
theorem separateComparisons_yields_reached (hlike : t.operation ≠ .like)
    (hresolves : Resolves k t.property d.aliases) (hd : d.aliases.Consistent)
    (hshared : (Aliases.resolve k.catalog t.property {}).Yields d.aliases (some shared) b)
    (more : List Join) (hmore : (d.aliases.joining more).Consistent) (values : List Value) :
    ∃ reached : List Reached, reached.map (·.value) = values ∧
      (∀ own ∈ reached, Aliases.Apart k.catalog t.property d.aliases b.joins shared own.reference
        own.joins) ∧
      (d.aliases.joining (more ++ reached.flatMap (·.joins))).Consistent ∧
      ∀ e : Draft, e.aliases = d.aliases.joining more → e.autoIgnoreCase = d.autoIgnoreCase →
        (separateComparisons k t values).Yields e (equalToReached k d t e.nextParameter reached)
          ((e.withAliases (d.aliases.joining (more ++ reached.flatMap (·.joins)))).binding
            (folded k d t values)) := by
  induction values generalizing more with
  | nil =>
    refine ⟨[], rfl, by simp, ?_, fun e he _ => yields_pure.mpr ⟨rfl, ?_⟩⟩
    · rwa [List.flatMap_nil, List.append_nil]
    · rw [List.flatMap_nil, List.append_nil, ← he]
      exact binding_nil e
  | cons v rest ih =>
    have hstanding : d.aliases.SameStanding (d.aliases.joining more) := rfl
    obtain ⟨own, _, hown, -⟩ := hresolves (d.withAliases (d.aliases.joining more)) true hstanding
    obtain ⟨a, ha, -⟩ := resolve_yields hown
    have hkept : a.Consistent := ((Aliases.extends_walk.resolve _ _).yields ha).2 hmore
    obtain ⟨new, rfl, hapart⟩ := Aliases.apart_of_found
      (((Aliases.strides_trails {}).resolve (fun _ _ => hd) trivial).yields hshared)
      (((Aliases.strides_branches rfl).resolve (fun _ _ => trivial) trivial).yields ha)
    rw [← Aliases.joining_append] at ha hkept
    obtain ⟨reached, hvalues, hall, hleft, hrest⟩ := ih (more ++ new) hkept
    rw [List.append_assoc] at hleft
    refine ⟨⟨v, own, new⟩ :: reached, by rw [List.map_cons, hvalues],
      List.forall_mem_cons.mpr ⟨hapart, hall⟩, hleft, fun e he hask => ?_⟩
    rw [← he] at ha hstanding
    have hfirst := plainComparison_yields_equalTo (d := e) hlike v ha
    rw [equalTo_congr hstanding hask, folded_congr hstanding hask] at hfirst
    have hbehind := hrest
      ((e.withAliases (d.aliases.joining (more ++ new))).binding (folded k d t [v])) rfl hask
    rw [nextParameter_binding, List.append_assoc] at hbehind
    rw [equalToReached_cons, folded_cons, ← binding_cons, List.flatMap_cons]
    exact yields_bind.mpr ⟨_, _, hfirst, yields_bind.mpr ⟨_, _, hbehind,
      yields_pure.mpr ⟨rfl, rfl⟩⟩⟩

theorem separateComparisons_fails (hne : values ≠ [])
    (hnever : NeverResolves k t.property d.aliases err) :
    (separateComparisons k t values).Fails d err := by
  obtain ⟨v, rest, rfl⟩ := List.exists_cons_of_ne_nil hne
  exact (plainComparison_fails hnever v "=" true).bind

/-! ## Collections -/

/-- Whether one element of a collection would have to have several values of a property. -/
def demandsMany (k : Compiler) (d : Draft) (t : Test) : Bool :=
  (decide (1 < t.value.elements.length) && d.aliases.inCollection) &&
    !(d.aliases.describe k.catalog t.property).value.crossesCollection

theorem demandsMany_iff (hmany : 1 < t.value.elements.length) :
    demandsMany k d t = true ↔ d.aliases.inCollection = true ∧
      ¬k.catalog.Crosses (d.aliases.originClass k.catalog (Path.parse t.property).inner)
        (k.catalog.pathSegments (Path.parse t.property).inner) := by
  rw [← Aliases.describe_crossesCollection, demandsMany, decide_eq_true hmany, Bool.true_and,
    Bool.and_eq_true, Bool.not_eq_true', Bool.not_eq_true]

/-- Finds out whether too much is demanded. -/
def demands (k : Compiler) (t : Test) (d : Draft) : Step Draft Bool :=
  if 1 < t.value.elements.length && d.aliases.inCollection then do
    let shape ← Step.ofReported (d.aliases.describe k.catalog t.property)
    pure (!shape.crossesCollection)
  else pure false

theorem demands_yields (k : Compiler) (t : Test) (d : Draft) :
    (demands k t d).Yields d (demandsMany k d t) d := by
  unfold demands demandsMany
  cases decide (1 < t.value.elements.length) && d.aliases.inCollection with
  | false => exact yields_pure.mpr ⟨rfl, rfl⟩
  | true =>
    exact yields_bind.mpr ⟨_, _, yields_ofReported.mpr ⟨rfl, rfl⟩, yields_pure.mpr ⟨rfl, rfl⟩⟩

/-- The comparisons with several values. -/
def separated (k : Compiler) (t : Test) : Emission :=
  routed t.isAggregate do
    let conditions ← separateComparisons k t t.value.elements
    pure (chained conditions)

/-- Unless too much is demanded, several values are compared separately. -/
theorem containsAll_eq (hmany : 1 < t.value.elements.length) :
    containsAll k t = (do
      let d ← Step.get
      let impossible ← demands k t d
      if impossible then Step.fail (.unsupportedContainsAll t.property t.value.elements.length)
      else separated k t) := by
  obtain ⟨v, w, rest, hvalues⟩ : ∃ v w rest, t.value.elements = v :: w :: rest := by
    match hvalues : t.value.elements with
    | [] => rw [hvalues] at hmany; exact absurd hmany (by simp)
    | [_] => rw [hvalues] at hmany; exact absurd hmany (by simp)
    | v :: w :: rest => exact ⟨v, w, rest, rfl⟩
  unfold containsAll demands separated
  rw [hvalues]
  refine congrArg (Step.get >>= ·) (funext fun d => ?_)
  dsimp only
  cases decide (1 < (v :: w :: rest).length) && d.aliases.inCollection with
  | false => rfl
  | true => exact (bind_assoc _ _ _).symm

section

variable (hmany : 1 < t.value.elements.length)

include hmany

theorem containsAll_fails_of_demandsMany (h : demandsMany k d t = true) :
    (containsAll k t).Fails d (.unsupportedContainsAll t.property t.value.elements.length) := by
  rw [containsAll_eq hmany]
  refine Yields.bind_fails (yields_get.mpr ⟨rfl, rfl⟩) ((demands_yields k t d).bind_fails ?_)
  rw [if_pos h]
  rfl

theorem containsAll_yields_of_separated (h : demandsMany k d t = false) {c : Option Condition}
    (hx : (separated k t).Yields d c e) : (containsAll k t).Yields d c e := by
  rw [containsAll_eq hmany]
  refine yields_bind.mpr ⟨_, _, yields_get.mpr ⟨rfl, rfl⟩,
    yields_bind.mpr ⟨_, _, demands_yields k t d, ?_⟩⟩
  rwa [if_neg (ne_true_of_eq_false h)]

theorem containsAll_fails_of_separated (h : demandsMany k d t = false)
    (hx : (separated k t).Fails d err) : (containsAll k t).Fails d err := by
  rw [containsAll_eq hmany]
  refine Yields.bind_fails (yields_get.mpr ⟨rfl, rfl⟩) ((demands_yields k t d).bind_fails ?_)
  rwa [if_neg (ne_true_of_eq_false h)]

end

theorem emit_containsAll (hop : l.test.operation = .containsAll) :
    emit k (.leaf l) = containsAll k l.test := by
  obtain ⟨t, condition, subfilter⟩ := l
  rw [emit, emitLeaf, hop]
  show test k t = _
  unfold test
  rw [hop]

/-- One value is compared like an equality compares it, also null. -/
theorem run_emit_containsAll_singleton (hop : l.test.operation = .containsAll)
    (hv : l.test.value.elements = [v]) (d : Draft) :
    (emit k (.leaf l)).run d = (emit k (.leaf (l.withOperation .eq v))).run d := by
  have hlike : l.test.operation ≠ .like := by
    rw [hop]
    decide
  rw [emit_containsAll hop, emit_equality, equality_withOperation hlike]
  unfold containsAll
  rw [hv]
  rfl

/-! ## Both -/

/-- A leaf that demands several values of its property is spread over references of its own, where
the equalities with the values share one reference. -/
structure Spreads (k : Compiler) (l : Leaf) (d : Draft) (shared : Reference) (b : Aliases)
    (reached : List Reached) : Prop where
  values : reached.map (·.value) = l.test.value.elements
  apart : ∀ own ∈ reached,
    Aliases.Apart k.catalog l.test.property d.aliases b.joins shared own.reference own.joins
  /-- The joins are new, and no two references have one in common. -/
  distinct : (((d.aliases.joining (reached.flatMap (·.joins))).joins.filter (·.isNavigated)).map
    (·.aliasName)).Nodup
  equalities : (∀ v ∈ l.test.value.elements, v.isNull = false) →
    Delivers l.test.property (equalitiesInTurn k l l.test.value.elements) d
      (equalToEach k d l.test shared d.nextParameter l.test.value.elements)
      ((d.withAliases b).binding (folded k d l.test l.test.value.elements))
  containsAll : DeliversOne l.test.property (emit k (.leaf l)) d
    (.chain (equalToReached k d l.test d.nextParameter reached))
    ((d.withAliases (d.aliases.joining (reached.flatMap (·.joins)))).binding
      (folded k d l.test l.test.value.elements))

section

variable (hop : l.test.operation = .containsAll) (hmany : 1 < l.test.value.elements.length)
  (hpossible : demandsMany k d l.test = false)

include hop hmany hpossible

theorem spreads_of_resolves (hd : d.aliases.Attained k.catalog)
    (hresolves : Resolves k l.test.property d.aliases) :
    ∃ shared b reached, Spreads k l d shared b reached := by
  have hne : l.test.value.elements ≠ [] := List.ne_nil_of_length_pos (by omega)
  have hlike : l.test.operation ≠ .like := by
    rw [hop]
    decide
  have hconsistent := hd.consistent
  obtain ⟨shared, _, hshared, -⟩ := hresolves d false rfl
  obtain ⟨b, hb, -⟩ := resolve_yields hshared
  obtain ⟨reached, hvalues, hapart, hleft, hseparate⟩ :=
    separateComparisons_yields_reached hlike hresolves hconsistent hb []
      (by rwa [Aliases.joining_nil]) l.test.value.elements
  refine ⟨shared, b, reached, hvalues, hapart, hleft.distinct,
    fun hnull => equalitiesInTurn_delivers hd.scopes_ne_nil hne hnull hb, ?_⟩
  rw [emit_containsAll hop]
  refine containsAll_yields_of_separated hmany hpossible (routed_delivers (fun marked => ?_) rfl)
  have hchained : chained (equalToReached k d l.test d.nextParameter reached) =
      some (.chain (equalToReached k d l.test d.nextParameter reached)) := by
    cases reached with
    | nil => exact absurd hvalues.symm hne
    | cons own rest => rfl
  rw [← hchained]
  exact yields_bind.mpr ⟨_, _, hseparate { d with inHaving := marked }
    (Aliases.joining_nil _).symm rfl, yields_pure.mpr ⟨rfl, rfl⟩⟩

theorem emit_containsAll_fails (hnever : NeverResolves k l.test.property d.aliases err) :
    (emit k (.leaf l)).Fails d err := by
  rw [emit_containsAll hop]
  refine containsAll_fails_of_separated hmany hpossible (routed_fails fun marked => ?_)
  exact (separateComparisons_fails (d := { d with inHaving := marked })
    (List.ne_nil_of_length_pos (by omega)) hnever).bind

end

/-- A leaf that demands all the values of a list compares its property with them like equalities do.

With one value it is the equality. With several ones it is refused exactly where one element of a
collection would have to have them all: in the scope of a collection that the property does not leave
across another one. Otherwise it fails like the equalities, or each of its comparisons has a
reference of its own in place of theirs. The values are bound alike in the same order, and null is
bound like any other. -/
theorem containsAll_follows_equalities (hd : d.aliases.Attained k.catalog)
    (hop : l.test.operation = .containsAll) (hne : l.test.value.elements ≠ []) :
    (∃ v, l.test.value.elements = [v] ∧
      (emit k (.leaf l)).run d = (emit k (.leaf (l.withOperation .eq v))).run d) ∨
    1 < l.test.value.elements.length ∧
      (∀ property n, (emit k (.leaf l)).Fails d (.unsupportedContainsAll property n) ↔
        property = l.test.property ∧ n = l.test.value.elements.length ∧
          d.aliases.inCollection = true ∧
          ¬k.catalog.Crosses (d.aliases.originClass k.catalog (Path.parse l.test.property).inner)
            (k.catalog.pathSegments (Path.parse l.test.property).inner)) ∧
      ((∃ property n, (emit k (.leaf l)).Fails d (.unsupportedContainsAll property n)) ∨
        (∃ err, (equalitiesInTurn k l l.test.value.elements).Fails d err ∧
          (emit k (.leaf l)).Fails d err) ∨
        ∃ shared b reached, Spreads k l d shared b reached) := by
  by_cases hmany : 1 < l.test.value.elements.length
  swap
  · obtain ⟨v, hv⟩ : ∃ v, l.test.value.elements = [v] :=
      List.length_eq_one_iff.mp (by have := List.length_pos_of_ne_nil hne; omega)
    exact .inl ⟨v, hv, run_emit_containsAll_singleton hop hv d⟩
  refine .inr ⟨hmany, ?_⟩
  simp only [← demandsMany_iff hmany]
  cases hdemands : demandsMany k d l.test with
  | true =>
    have hrefused := containsAll_fails_of_demandsMany hmany hdemands
    rw [← emit_containsAll hop] at hrefused
    refine ⟨fun property n => ⟨fun hfails => ?_, ?_⟩, .inl ⟨_, _, hrefused⟩⟩
    · cases hrefused.symm.trans hfails
      exact ⟨rfl, rfl, rfl⟩
    · rintro ⟨rfl, rfl, -⟩
      exact hrefused
  | false =>
    simp only [Bool.false_eq_true, and_false, iff_false]
    rcases resolves_or_neverResolves k l.test.property d.aliases with hresolves | ⟨err, hnever⟩
    · obtain ⟨shared, b, reached, hspreads⟩ := spreads_of_resolves hop hmany hdemands hd hresolves
      exact ⟨fun property n => hspreads.containsAll.not_fails,
        .inr (.inr ⟨shared, b, reached, hspreads⟩)⟩
    · have hfails := emit_containsAll_fails hop hmany hdemands hnever
      refine ⟨fun property n hrefused => ?_,
        .inr (.inl ⟨err, equalitiesInTurn_fails hne hnever, hfails⟩)⟩
      have hpath := resolve_failsWith _ _ (hnever d false rfl)
      cases hrefused.symm.trans hfails
      exact hpath

/-- Links whose native identities are all the values. -/
def linksCalled (values : List Value) : Leaf :=
  .ofTest { property := "links.nativeIdentity", operation := .containsAll, value := .list values }

/-- Both values of a list are compared with references of their own. Two texts are bound like the
equalities bind them, and null is bound like a text. -/
theorem containsAll_follows_equalities_links :
    let k := Compiler.linkedAccounts
    let d := Draft.start "Identity" 0
    let named := linksCalled [.text "admin", .text "root"]
    let withNull := linksCalled [.null, .text "root"]
    d.aliases.Attained k.catalog ∧
      (named.test.operation = .containsAll ∧ named.test.value.elements ≠ [] ∧
        ∃ shared b reached, Spreads k named d shared b reached ∧
          Delivers "links.nativeIdentity" (equalitiesInTurn k named named.test.value.elements) d
            (equalToEach k d named.test shared 0 named.test.value.elements)
            ((d.withAliases b).binding (folded k d named.test named.test.value.elements))) ∧
      withNull.test.operation = .containsAll ∧ withNull.test.value.elements ≠ [] ∧
        ∃ shared b reached, Spreads k withNull d shared b reached ∧ reached.length = 2 := by
  intro k d named withNull
  have hd : d.aliases.Attained k.catalog := .start "Identity"
  have hspreads (values : List Value) (hmany : 1 < values.length)
      (hok : ((emit k (.leaf (linksCalled values))).run d).result.toOption.isSome = true) :
      ∃ shared b reached, Spreads k (linksCalled values) d shared b reached := by
    have hnot (err : CompileError) : ¬(emit k (.leaf (linksCalled values))).Fails d err :=
      not_fails_of_isSome hok err
    have hne : values ≠ [] := List.ne_nil_of_length_pos (by omega)
    rcases containsAll_follows_equalities (l := linksCalled values) hd rfl hne with
      ⟨v, hv, -⟩ | ⟨-, -, ⟨property, n, hfails⟩ | ⟨err, -, hfails⟩ | hspreads⟩
    · have hone : values.length = 1 := congrArg List.length hv
      omega
    · exact absurd hfails (hnot _)
    · exact absurd hfails (hnot _)
    · exact hspreads
  refine ⟨hd, ⟨rfl, List.cons_ne_nil _ _, ?_⟩, rfl, List.cons_ne_nil _ _, ?_⟩
  · obtain ⟨shared, b, reached, h⟩ :=
      hspreads [.text "admin", .text "root"] (by decide) (by decide +kernel)
    exact ⟨shared, b, reached, h, h.equalities (by decide)⟩
  · obtain ⟨shared, b, reached, h⟩ := hspreads [.null, .text "root"] (by decide) (by decide +kernel)
    refine ⟨shared, b, reached, h, ?_⟩
    rw [← List.length_map, h.values]
    rfl

end Draft

end ObjectQuery
