import ObjectQuery.Proofs.Matching.Predicates
import ObjectQuery.Proofs.Optimizer.Equalities
import ObjectQuery.Proofs.Paths.Again

/-!
# Equalities on one property

A property that is compared with one value after the other. The path is resolved to the same
reference each time, and each comparison binds its value to the next parameter.

* `Draft.equalTo`: a reference compared with the value that is bound under a number.
* `Draft.placed`: where conditions on a property are left.
* `Draft.plainComparison_yields_equalTo`, `Draft.routed_delivers`: what a comparison emits, and where.
* `Draft.equalitiesInTurn_delivers`, `Draft.equalitiesInTurn_fails`: what equalities on one property
  emit in turn, whether it resolves or not.
-/

namespace ObjectQuery

open Step

namespace Draft

variable {k : Compiler} {d e : Draft} {t : Test} {r : Reference} {a b : Aliases}

/-! ## Comparisons -/

/-- Whether the test ignores case where it compares its property with the value. -/
def folds (k : Compiler) (d : Draft) (t : Test) (v : Value) : Bool :=
  v.startsWithText && foldsTexts k d t.property t.ignoreCase

/-- What the test binds for values that its property is compared with. -/
def folded (k : Compiler) (d : Draft) (t : Test) (values : List Value) : List Value :=
  values.map fun v => v.foldIf (folds k d t v)

/-- A reference, as the test asks to read it, is equal to the value that is bound under a number. -/
def equalTo (k : Compiler) (d : Draft) (t : Test) (r : Reference) (v : Value) (number : Nat) : Atom :=
  .comparison { reference := r, upper := folds k d t v, cast := t.cast } "=" number none

theorem binding_nil (d : Draft) : d.binding [] = d := by
  show { d with parameters := d.parameters ++ [] } = d
  rw [List.append_nil]

theorem folded_cons (k : Compiler) (d : Draft) (t : Test) (v : Value) (values : List Value) :
    folded k d t (v :: values) = v.foldIf (folds k d t v) :: folded k d t values := rfl

theorem folds_congr (ha : d.aliases.SameStanding e.aliases)
    (hask : e.autoIgnoreCase = d.autoIgnoreCase) (t : Test) (v : Value) :
    folds k e t v = folds k d t v := by
  unfold folds foldsTexts propertyFacts
  rw [ha.currentClass, hask]

theorem folded_congr (ha : d.aliases.SameStanding e.aliases)
    (hask : e.autoIgnoreCase = d.autoIgnoreCase) (t : Test) (values : List Value) :
    folded k e t values = folded k d t values := by
  unfold folded
  simp only [folds_congr ha hask]

theorem equalTo_congr (ha : d.aliases.SameStanding e.aliases)
    (hask : e.autoIgnoreCase = d.autoIgnoreCase) (t : Test) (r : Reference) (v : Value) :
    equalTo k e t r v = equalTo k d t r v := by
  unfold equalTo
  rw [folds_congr ha hask]

theorem resolve_yields_of_some {path : String} {ownJoins : Bool}
    (h : (Aliases.resolve k.catalog path { ownJoins }).Yields d.aliases (some r) b) :
    (resolve k path ownJoins).Yields d r (d.withAliases b) :=
  yields_bind.mpr ⟨_, _, aliased_yields.mpr ⟨b, h, rfl⟩, yields_pure.mpr ⟨rfl, rfl⟩⟩

/-- A comparison that is no pattern binds its value, folded where the test asks for it. -/
theorem plainComparison_yields_equalTo (hlike : t.operation ≠ .like) (v : Value) {ownJoins : Bool}
    (h : (Aliases.resolve k.catalog t.property { ownJoins }).Yields d.aliases (some r) b) :
    (plainComparison k t v "=" ownJoins).Yields d (equalTo k d t r v d.nextParameter)
      ((d.withAliases b).binding (folded k d t [v])) := by
  have hupper := ignoresCase_yields_foldsTexts (k := k) t v d
  have hbound : folded k d t [v] = [(boundValue k t v (folds k d t v)).1] := by
    rw [boundValue_fst hlike]
    rfl
  have hleft : equalTo k d t r v d.nextParameter =
      .comparison { reference := r, upper := folds k d t v, cast := t.cast } "=" d.nextParameter
        (boundValue k t v (folds k d t v)).2 := by
    rw [boundValue_escape hlike]
    rfl
  rw [hbound, hleft]
  exact yields_bind.mpr ⟨_, _, hupper, yields_bind.mpr ⟨_, _, resolve_yields_of_some h,
    yields_bind.mpr ⟨_, _, bind_yields.mpr ⟨rfl, rfl⟩, yields_pure.mpr ⟨rfl, rfl⟩⟩⟩⟩

/-! ## Delivers -/

/-- Where conditions on a property are left: in the clause that is being written, or each as a group
of conditions on aggregates. -/
def placed (d : Draft) (path : String) (conditions : List Condition) (e : Draft) :
    List Condition × Draft :=
  if startsGroup d path then ([], { e with having := e.having ++ conditions.map some })
  else (conditions, e)

/-- The step leaves conditions on a property in their places, and otherwise the draft `e`. -/
def Delivers (path : String) (x : Step Draft (List Condition)) (d : Draft)
    (conditions : List Condition) (e : Draft) : Prop :=
  x.Yields d (placed d path conditions e).1 (placed d path conditions e).2

/-- Likewise for one condition. -/
def DeliversOne (path : String) (x : Emission) (d : Draft) (condition : Condition) (e : Draft) :
    Prop :=
  x.Yields d (placed d path [condition] e).1.head? (placed d path [condition] e).2

section

variable {path : String} {x : Emission} {c : Condition} {cs : List Condition}

theorem placed_of_startsGroup (h : startsGroup d path = true) (cs : List Condition) (e : Draft) :
    placed d path cs e = ([], { e with having := e.having ++ cs.map some }) := by
  rw [placed, if_pos h]

theorem placed_of_not_startsGroup (h : startsGroup d path = false) (cs : List Condition)
    (e : Draft) : placed d path cs e = (cs, e) := by
  rw [placed, if_neg (ne_true_of_eq_false h)]

theorem routed_delivers
    (hx : ∀ marked, x.Yields { d with inHaving := marked } (some c) { e with inHaving := marked })
    (he : e.inHaving = d.inHaving) : DeliversOne path (routed (Text.hasChar '(' path) x) d c e := by
  unfold DeliversOne Step.Yields
  rw [run_routed]
  cases hstarts : startsGroup d path with
  | true =>
    rw [placed_of_startsGroup hstarts]
    refine yields_bind.mpr ⟨some c, e, yields_restoring.mpr ⟨_, hx true, ?_⟩,
      yields_bind.mpr ⟨(), _, yields_modify.mpr rfl, yields_pure.mpr ⟨rfl, ?_⟩⟩⟩
    · rw [← he]
    · exact (addGroup_some e c).symm
  | false =>
    rw [placed_of_not_startsGroup hstarts]
    have hplain := hx d.inHaving
    rw [show { e with inHaving := d.inHaving } = e by rw [← he]] at hplain
    exact hplain

theorem pure_delivers (path : String) (d : Draft) : Delivers path (pure []) d [] d := by
  unfold Delivers
  cases hstarts : startsGroup d path with
  | true =>
    rw [placed_of_startsGroup hstarts, List.map_nil, List.append_nil]
    exact yields_pure.mpr ⟨rfl, rfl⟩
  | false =>
    rw [placed_of_not_startsGroup hstarts]
    exact yields_pure.mpr ⟨rfl, rfl⟩

/-- A condition is placed in front of others, whatever groups there are. -/
theorem together_delivers {xs : Step Draft (List Condition)} {values : List Value}
    (hx : DeliversOne path x d c e) (he : e.inHaving = d.inHaving)
    (hxs : ∀ having, Delivers path xs { e with having } cs (binding { e with having } values)) :
    Delivers path (together x xs) d (c :: cs) (e.binding values) := by
  have hsame (having : List (Option Condition)) :
      startsGroup { e with having } path = startsGroup d path := by
    unfold startsGroup
    rw [he]
  unfold Delivers DeliversOne at *
  cases hstarts : startsGroup d path with
  | true =>
    rw [placed_of_startsGroup hstarts] at hx ⊢
    have hbehind := hxs (e.having ++ [some c])
    rw [placed_of_startsGroup ((hsame _).trans hstarts)] at hbehind
    refine yields_bind.mpr ⟨_, _, hx, yields_bind.mpr ⟨_, _, hbehind, yields_pure.mpr ⟨rfl, ?_⟩⟩⟩
    rw [List.map_cons, ← List.singleton_append, ← List.append_assoc]
    rfl
  | false =>
    rw [placed_of_not_startsGroup hstarts] at hx ⊢
    have hbehind := hxs e.having
    rw [placed_of_not_startsGroup ((hsame _).trans hstarts)] at hbehind
    exact yields_bind.mpr ⟨_, _, hx, yields_bind.mpr ⟨_, _, hbehind, yields_pure.mpr ⟨rfl, rfl⟩⟩⟩

end

/-! ## Equalities in turn -/

/-- The equalities of a leaf's property with values, visited one after the other. -/
def equalitiesInTurn (k : Compiler) (l : Leaf) (values : List Value) : Step Draft (List Condition) :=
  emitEach k .all (values.map fun v => .leaf (l.withOperation .eq v))

variable {l : Leaf} {v : Value} {values : List Value}

theorem equalitiesInTurn_cons (k : Compiler) (l : Leaf) (v : Value) (values : List Value) :
    equalitiesInTurn k l (v :: values) =
      together (emit k (.leaf (l.withOperation .eq v))) (equalitiesInTurn k l values) := by
  rw [equalitiesInTurn, List.map_cons, emitEach_cons]
  rfl

theorem emit_equality (k : Compiler) (l : Leaf) (v : Value) :
    emit k (.leaf (l.withOperation .eq v)) = equality k (l.test.withOperation .eq v) v true := by
  unfold Leaf.withOperation Leaf.ofTest
  rw [emit, emitLeaf]
  rfl

theorem equality_delivers (hnull : v.isNull = false)
    (h : (Aliases.resolve k.catalog l.test.property {}).Yields d.aliases (some r) b) :
    DeliversOne l.test.property (emit k (.leaf (l.withOperation .eq v))) d
      (.atom (equalTo k d l.test r v d.nextParameter))
      ((d.withAliases b).binding (folded k d l.test [v])) := by
  rw [emit_equality, equality, if_neg (by simp [hnull])]
  refine routed_delivers (fun marked => ?_) rfl
  have hcompared : (plainComparison k (l.test.withOperation .eq v) v "=" false).Yields
      { d with inHaving := marked } _ _ :=
    plainComparison_yields_equalTo (show LogicalOp.eq ≠ .like by decide) v h
  exact yields_bind.mpr ⟨_, _, hcompared, predicate_yields.mpr ⟨rfl, rfl⟩⟩

/-- The equalities of a reference with values that are bound from the given number on. -/
def equalToEach (k : Compiler) (d : Draft) (t : Test) (r : Reference) (first : Nat)
    (values : List Value) : List Condition :=
  (values.zipIdx first).map fun p => .atom (equalTo k d t r p.1 p.2)

theorem equalToEach_cons (k : Compiler) (d : Draft) (t : Test) (r : Reference) (first : Nat)
    (v : Value) (values : List Value) :
    equalToEach k d t r first (v :: values) =
      .atom (equalTo k d t r v first) :: equalToEach k d t r (first + 1) values := rfl

/-- Where the path leaves the aliases as they are, each equality binds the next value. -/
theorem equalitiesInTurn_settled (ha : d.aliases.SameStanding e.aliases)
    (hask : e.autoIgnoreCase = d.autoIgnoreCase) (hnull : ∀ v ∈ values, v.isNull = false)
    (h : (Aliases.resolve k.catalog l.test.property {}).Yields e.aliases (some r) e.aliases) :
    Delivers l.test.property (equalitiesInTurn k l values) e
      (equalToEach k d l.test r e.nextParameter values) (e.binding (folded k d l.test values)) := by
  induction values generalizing e with
  | nil =>
    show Delivers _ _ e [] (e.binding [])
    rw [binding_nil]
    exact pure_delivers _ e
  | cons v rest ih =>
    obtain ⟨hv, hrest⟩ := List.forall_mem_cons.mp hnull
    have hfirst := equality_delivers hv h
    rw [equalTo_congr ha hask, folded_congr ha hask] at hfirst
    rw [equalitiesInTurn_cons, equalToEach_cons, folded_cons, ← binding_cons]
    refine together_delivers hfirst rfl fun having => ?_
    have hnext : nextParameter { e.binding (folded k d l.test [v]) with having } =
        e.nextParameter + 1 :=
      nextParameter_binding e _
    rw [← hnext]
    exact ih ha hask hrest h

/-- Equalities on a property that resolves compare one reference with all the values. -/
theorem equalitiesInTurn_delivers (hd : d.aliases.scopes ≠ []) (hne : values ≠ [])
    (hnull : ∀ v ∈ values, v.isNull = false)
    (h : (Aliases.resolve k.catalog l.test.property {}).Yields d.aliases (some r) b) :
    Delivers l.test.property (equalitiesInTurn k l values) d
      (equalToEach k d l.test r d.nextParameter values)
      ((d.withAliases b).binding (folded k d l.test values)) := by
  have hstanding : d.aliases.SameStanding b := (Aliases.sameStanding_walk.resolve _ _).yields h
  have hagain : (Aliases.resolve k.catalog l.test.property {}).Yields b (some r) b :=
    (Aliases.resolve_again rfl rfl rfl _).yields hd h (.refl b)
  obtain ⟨v, rest, rfl⟩ := List.exists_cons_of_ne_nil hne
  obtain ⟨hv, hrest⟩ := List.forall_mem_cons.mp hnull
  rw [equalitiesInTurn_cons, equalToEach_cons, folded_cons, ← binding_cons]
  refine together_delivers (equality_delivers hv h) rfl fun having => ?_
  -- The first equality has joined the path, and the others find it joined.
  have hnext :
      nextParameter { (d.withAliases b).binding (folded k d l.test [v]) with having } =
        d.nextParameter + 1 :=
    nextParameter_binding (d.withAliases b) _
  rw [← hnext]
  exact equalitiesInTurn_settled hstanding rfl hrest hagain

/-! ## Properties that do not resolve -/

section

variable {path : String} {err : CompileError}

theorem routed_fails {isAggregate : Bool} {x : Emission}
    (hx : ∀ marked, x.Fails { d with inHaving := marked } err) :
    (routed isAggregate x).Fails d err := by
  have hplain : x.Fails d err := hx d.inHaving
  have hgroup : (inHavingGroup x).Fails d err := Step.Fails.bind (hx true)
  unfold routed
  refine Step.Yields.bind_fails (Step.yields_get.mpr ⟨rfl, rfl⟩) ?_
  split
  · exact hgroup
  · exact hplain

theorem plainComparison_fails (hnever : NeverResolves k t.property d.aliases err) (v : Value)
    (operator : String) (ownJoins : Bool) :
    (plainComparison k t v operator ownJoins).Fails d err :=
  (ignoresCase_yields_foldsTexts t v d).bind_fails (hnever d ownJoins rfl).bind

/-- An equality, also one with null, fails like its property. -/
theorem equality_fails (hnever : NeverResolves k t.property d.aliases err) (v : Value)
    (equal : Bool) : (equality k t v equal).Fails d err := by
  unfold equality
  split
  · exact routed_fails fun marked => (hnever { d with inHaving := marked } false rfl).bind
  · exact routed_fails fun marked =>
      (plainComparison_fails (d := { d with inHaving := marked }) hnever v _ false).bind

/-- The first of several equalities fails. -/
theorem equalitiesInTurn_fails (hne : values ≠ [])
    (hnever : NeverResolves k l.test.property d.aliases err) :
    (equalitiesInTurn k l values).Fails d err := by
  obtain ⟨v, rest, rfl⟩ := List.exists_cons_of_ne_nil hne
  rw [equalitiesInTurn_cons]
  refine Step.Fails.bind ?_
  rw [emit_equality]
  exact equality_fails (t := l.test.withOperation .eq v) hnever v true

end

end Draft

end ObjectQuery
