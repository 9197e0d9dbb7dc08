import ObjectQuery.Proofs.Emission.Leaves

/-!
# What emissions leave alone

* `Draft.Extends`: the draft with other aliases, more parameters and more groups of conditions on
  aggregates.
* `Draft.emit_extends`: a filter that is emitted only extends the draft.
* `Draft.visit_yields`: the draft that a visited filter leaves.
-/

namespace ObjectQuery

namespace Draft

/-- A draft that has grown out of another while a filter was emitted. -/
structure Extends (d e : Draft) : Prop where
  firstParameter : e.firstParameter = d.firstParameter
  conditions : e.conditions = d.conditions
  having : d.having <+: e.having
  inHaving : e.inHaving = d.inHaving
  parameters : d.parameters <+: e.parameters

namespace Extends

theorem refl (d : Draft) : d.Extends d := ⟨rfl, rfl, List.prefix_rfl, rfl, List.prefix_rfl⟩

theorem trans {d e f : Draft} (h : d.Extends e) (h' : e.Extends f) : d.Extends f :=
  ⟨h'.firstParameter.trans h.firstParameter, h'.conditions.trans h.conditions,
    h.having.trans h'.having, h'.inHaving.trans h.inHaving, h.parameters.trans h'.parameters⟩

theorem withAliases (d : Draft) (a : Aliases) : d.Extends (d.withAliases a) :=
  ⟨rfl, rfl, List.prefix_rfl, rfl, List.prefix_rfl⟩

theorem having_ne_nil {d e : Draft} (h : d.Extends e) (hd : d.having ≠ []) : e.having ≠ [] := by
  intro he
  have hprefix := h.having
  rw [he] at hprefix
  exact hd (List.prefix_nil.mp hprefix)

end Extends

theorem prefix_addGroup (d : Draft) (group : Option Condition) :
    d.having <+: (d.addGroup group).having := by
  unfold addGroup
  split
  · exact List.prefix_rfl
  · exact List.prefix_append _ _

theorem extends_addGroup {d e : Draft} {group : Option Condition}
    (h : Extends { d with inHaving := true } e) :
    d.Extends (addGroup { e with inHaving := d.inHaving } group) := by
  have hhaving := h.having.trans (prefix_addGroup { e with inHaving := d.inHaving } group)
  refine ⟨?_, ?_, hhaving, ?_, ?_⟩
  · unfold addGroup
    split <;> exact h.firstParameter
  · unfold addGroup
    split <;> exact h.conditions
  · unfold addGroup
    split <;> rfl
  · unfold addGroup
    split <;> exact h.parameters

/-- The step only extends drafts. -/
def Extending {α : Type} (x : Step Draft α) : Prop := ∀ d a e, x.Yields d a e → d.Extends e

variable {k : Compiler}

namespace Extending

theorem bind {α β : Type} {x : Step Draft α} {f : α → Step Draft β} (hx : Extending x)
    (hf : ∀ a, Extending (f a)) : Extending (x >>= f) := by
  intro d b e h
  obtain ⟨a, u, hxa, hfa⟩ := Step.yields_bind.mp h
  exact (hx d a u hxa).trans (hf a u b e hfa)

theorem pure {α : Type} (a : α) : Extending (Pure.pure a : Step Draft α) := by
  intro d b e h
  obtain ⟨-, rfl⟩ := Step.yields_pure.mp h
  exact .refl _

theorem fail {α : Type} (err : CompileError) : Extending (Step.fail err : Step Draft α) := by
  intro d a e h
  exact (Step.yields_fail.mp h).elim

theorem correlation (t : Test) (other : String) : Extending (Draft.correlation k t other) := by
  intro d condition e h
  obtain ⟨_, _, _, b, _, -, -, -, rfl⟩ := correlation_yields h
  exact .withAliases d b

/-! ## Clauses -/

section

variable {x : Emission}

theorem inHavingGroup (hx : Extending x) : Extending (Draft.inHavingGroup x) := by
  intro d c e h
  obtain ⟨-, group, u, hu, rfl⟩ := inHavingGroup_yields h
  exact extends_addGroup (hx _ _ _ hu)

theorem routed (isAggregate : Bool) (hx : Extending x) :
    Extending (Draft.routed isAggregate x) := by
  intro d c e h
  obtain h' | ⟨-, -, h'⟩ := routed_yields h
  · exact hx d c e h'
  · exact inHavingGroup hx d c e h'

theorem composite (c : Composite) {xs : Step Draft (List Condition)} (hxs : Extending xs) :
    Extending (Draft.composite c xs) := by
  have hcombined : Extending (combined c.operation xs) := by
    intro d condition e h
    obtain ⟨members, -, h' | ⟨u, h', rfl⟩⟩ := combined_yields h
    · exact hxs d members e h'
    · have hor := hxs _ members u h'
      exact ((Extends.withAliases d _).trans hor).trans (.withAliases u _)
  intro d condition e h
  obtain h' | ⟨-, -, h'⟩ := composite_yields h
  · exact hcombined d condition e h'
  · exact inHavingGroup hcombined d condition e h'

end

/-! ## Leaves -/

theorem leafRules (k : Compiler) : LeafRules k (fun _ x => Extending x) where
  pure := pure
  fail := fail
  bind := bind
  touching h d a e hx := by
    obtain ⟨_, _, _, b, values, -, rfl⟩ := h d a e hx
    exact ⟨rfl, rfl, List.prefix_rfl, rfl, List.prefix_append _ _⟩
  mono h hy d a e hx := hy d a e (h d a e hx)
  routed isAggregate _ hx := routed isAggregate hx
  composite c _ hxs := composite c hxs

theorem join (t : Test) : Extending (Draft.join k t) := by
  intro d c e h
  obtain ⟨other, condition, -, -, -, ⟨-, _, a, _, b, -, -, -, rfl⟩ | ⟨-, hcondition⟩⟩ :=
    join_yields h
  · exact ⟨rfl, rfl, List.prefix_rfl, rfl, List.prefix_rfl⟩
  · exact (Extends.withAliases d _).trans (correlation t other _ _ _ hcondition)

theorem leftJoin (t : Test) : Extending (Draft.leftJoin k t) := by
  intro d c e h
  obtain ⟨-, other, condition, u, -, -, hcondition, rfl⟩ := leftJoin_yields h
  exact ((Extends.withAliases d _).trans (correlation t other _ _ _ hcondition)).trans
    (.withAliases u _)

theorem test (t : Test) : Extending (Draft.test k t) := by
  by_cases hjoin : t.operation = .join
  · rw [Draft.test, hjoin]
    exact join t
  by_cases hleft : t.operation = .leftJoin
  · rw [Draft.test, hleft]
    exact leftJoin t
  · exact (leafRules k).test hjoin hleft

/-! ## Nested filters -/

section

variable {x : Emission}

/-- A nested select has a draft of its own. -/
theorem inSelect (reference : Reference) (negated : Bool) (className column : String) :
    Extending (Draft.inSelect k reference negated className column x) := by
  intro d c e h
  obtain ⟨_, _, _, v, -, -, -, rfl⟩ := inSelect_yields h
  exact ⟨rfl, rfl, List.prefix_rfl, rfl, List.prefix_append _ _⟩

theorem subquery (t : Test) : Extending (Draft.subquery k t x) := by
  intro d c e h
  obtain h' | ⟨className, column, -, -, h'⟩ := subquery_yields h
  · exact test t d c e h'
  · exact routed _ (bind ((leafRules k).resolve _ _) fun _ => inSelect _ _ _ _) d c e h'

theorem excluding (property : String) : Extending (Draft.excluding k property x) := by
  intro d c e h
  obtain ⟨inverse, _, element, _, -, -, -, -, h'⟩ := excluding_yields h
  exact inSelect _ _ element inverse d c e h'

theorem inScope (property : String) (outer : Bool) (hx : Extending x) :
    Extending (Draft.inScope k property outer x) := by
  intro d c e h
  obtain ⟨a, u, -, hu, rfl⟩ := inScope_yields h
  exact ((Extends.withAliases d a).trans (hx _ c u hu)).trans (.withAliases u _)

theorem keptPart (property : String) (outer : Bool) (part : Option Composite)
    {plain : Step Draft (List Condition)} (hplain : Extending plain) :
    Extending (Draft.keptPart k property outer part plain) := by
  cases part with
  | none => exact pure none
  | some part => exact inScope property outer (composite part hplain)

theorem excludedPart (property : String) (part : Option Composite)
    (negated : Step Draft (List Condition)) :
    Extending (Draft.excludedPart k property part negated) := by
  cases part with
  | none => exact pure none
  | some part => exact excluding property

theorem elementCondition (property : String) (c : Composite)
    {plain negated : Step Draft (List Condition)} (hplain : Extending plain) :
    Extending (Draft.elementCondition k property c plain negated) := by
  intro d condition e h
  obtain ⟨kept, u, excluded, v, outer, hkept, hexcluded, -, rfl⟩ := elementCondition_yields h
  obtain ⟨hfirstParameter, hconditions, hhaving, hinHaving, hparameters⟩ :=
    (keptPart property outer _ hplain _ kept u hkept).trans
      (excludedPart property _ negated u excluded v hexcluded)
  exact ⟨hfirstParameter, hconditions, hhaving, hinHaving, hparameters⟩

end

theorem closure (k : Compiler) : Closure k (fun _ => True) Extending Extending where
  nothing := pure none
  test t _ := test t
  nil := pure []
  together := (leafRules k).together
  composite := composite
  elementCondition t c _ _ _ hxs _ := elementCondition t.property c hxs
  subquery t _ _ _ := subquery t

end Extending

/-- A filter that is emitted only extends the draft. -/
theorem emit_extends {f : Filter} {d e : Draft} {c : Option Condition}
    (h : (emit k f).Yields d c e) : d.Extends e :=
  (Extending.closure k).emit ⟨fun _ _ _ _ => trivial, fun _ _ _ _ _ => trivial⟩
    (fun _ _ => trivial) d c e h

theorem emitEach_extends (selection : Selection) (fs : List Filter) :
    Extending (emitEach k selection fs) :=
  (Extending.closure k).emitEach ⟨fun _ _ _ _ => trivial, fun _ _ _ _ _ => trivial⟩
    (fun _ _ _ _ => trivial) selection

/-- The condition of a visited filter stands behind those of the draft. -/
theorem visit_yields {f : Filter} {d e : Draft} (h : (visit k f).Yields d () e) :
    ∃ c u, (emit k f).Yields d c u ∧ d.Extends u ∧
      e = { u with conditions := d.conditions ++ c.toList } := by
  obtain ⟨c, u, hemit, h₁⟩ := Step.yields_bind.mp (Step.yields_onFailure.mp h)
  obtain rfl := Step.yields_modify.mp h₁
  have hextends := emit_extends hemit
  exact ⟨c, u, hemit, hextends, by rw [addCondition, hextends.conditions]⟩

end Draft

end ObjectQuery
