import ObjectQuery.Proofs.Filter.Tests
import ObjectQuery.Proofs.Folding.Operands
import ObjectQuery.Proofs.Standing.Selects

/-!
# Equalities and the membership test they amount to

A path resolves from all drafts of a standing or from none. Equalities on a property that resolves
bind their values one after the other, as does a membership test on the property. Both leave the
standing as it is, so that they go the same way as long as the values that they bind may stand for
each other.

* `Draft.Resolves`, `Draft.NeverResolves`, `Draft.resolves_or_neverResolves`: the two ways a path
  can go.
* `Draft.Appends`: a draft with values bound, in which the same paths resolve.
* `Draft.Answers`: an emission that binds values if a path resolves, and fails like the path
  otherwise. `Draft.answers_equality`, `Draft.answers_membership`: such leaves.
* `Draft.Likeness.Admits`: the values that equalities bind may stand for those that the membership
  test binds.
* `Draft.AllAbreast.collapsed`: equalities go the same way as their membership test.
-/

namespace ObjectQuery

/-! ## Folding -/

/-- Only texts and lists that start with one are folded. -/
theorem CaseFolding.value_applies (capabilities : DatabaseCapabilities) (className property : String)
    (facts : Option PropertyFacts) (v : Value) (requested : Bool) :
    (applies capabilities className property facts v requested).value =
      (v.startsWithText &&
        (applies capabilities className property facts (.text "") requested).value) := by
  unfold applies
  rw [show (Value.text "").startsWithText = true from rfl]
  cases v.startsWithText with
  | true => rw [Bool.true_and]
  | false =>
    rw [Bool.false_and, Bool.not_false, Bool.or_true]
    rfl

/-- The tests of those filters that are leaves. -/
def Filter.leafTests (fs : List Filter) : List Test := (fs.filterMap leaf?).map (·.test)

theorem Filter.leafTests_map_leaf (leaves : List Leaf) :
    leafTests (leaves.map .leaf) = leaves.map (·.test) := by
  unfold leafTests
  rw [List.filterMap_map]
  exact congrArg (List.map _) (List.filterMap_some)

namespace Draft

variable {k : Compiler} {d e f : Draft} {path : String}

/-- Whether comparisons of a property with texts ignore case, `ask` being the wish of the test. -/
def foldsTexts (k : Compiler) (d : Draft) (property : String) (ask : Bool) : Bool :=
  (CaseFolding.applies k.capabilities (propertyFacts k d property).1 property
    (propertyFacts k d property).2 (.text "") (ask || d.autoIgnoreCase)).value

theorem ignoresCase_yields_foldsTexts (t : Test) (v : Value) (d : Draft) :
    (ignoresCase k t v).Yields d (v.startsWithText && foldsTexts k d t.property t.ignoreCase) d :=
  Step.yields_get_bind.mpr
    (Step.yields_ofReported.mpr ⟨(CaseFolding.value_applies _ _ _ _ v _).symm, rfl⟩)

/-! ## Paths -/

/-- The path resolves from all drafts of the standing. -/
def Resolves (k : Compiler) (path : String) (a : Aliases) : Prop :=
  ∀ (d : Draft) (ownJoins : Bool), a.SameStanding d.aliases →
    ∃ reference b, (resolve k path ownJoins).Yields d reference (d.withAliases b) ∧ a.SameStanding b

/-- The path resolves from no draft of the standing. -/
def NeverResolves (k : Compiler) (path : String) (a : Aliases) (err : CompileError) : Prop :=
  ∀ (d : Draft) (ownJoins : Bool), a.SameStanding d.aliases → (resolve k path ownJoins).Fails d err

theorem Resolves.congr {a b : Aliases} (h : Resolves k path a) (hab : a.SameStanding b) :
    Resolves k path b := by
  intro d ownJoins hd
  obtain ⟨reference, u, hreference, hu⟩ := h d ownJoins (hab.trans hd)
  exact ⟨reference, u, hreference, hab.symm.trans hu⟩

theorem NeverResolves.congr {a b : Aliases} {err : CompileError} (h : NeverResolves k path a err)
    (hab : a.SameStanding b) : NeverResolves k path b err :=
  fun d ownJoins hd => h d ownJoins (hab.trans hd)

theorem resolves_or_neverResolves (k : Compiler) (path : String) (a : Aliases) :
    Resolves k path a ∨ ∃ err, NeverResolves k path a err := by
  have hparallel (ownJoins : Bool) :=
    Aliases.resolve_parallel (c := k.catalog) path {} { ownJoins }
  rcases Step.yields_or_fails (Aliases.resolve k.catalog path {}) a with
    ⟨found, b, hfound⟩ | ⟨err, hfails⟩
  · cases found with
    | none =>
      refine .inr ⟨.unresolvableJoin a.currentClass path path, fun d ownJoins h => ?_⟩
      obtain ⟨found', b', hfound', hnone, hb⟩ := (hparallel ownJoins).yields h hfound
      obtain rfl : found' = none := by
        cases found' with
        | none => rfl
        | some _ => cases hnone
      refine (aliased_yields.mpr ⟨b', hfound', rfl⟩).bind_fails ?_
      have hstanding : a.SameStanding b' :=
        h.trans ((Aliases.sameStanding_walk.resolve path _).yields hfound')
      show Except.error _ = _
      rw [show (d.withAliases b').aliases.currentClass = a.currentClass from
        hstanding.currentClass.symm]
    | some reference =>
      refine .inl fun d ownJoins h => ?_
      obtain ⟨found', b', hfound', hsome, hb⟩ := (hparallel ownJoins).yields h hfound
      cases found' with
      | none => cases hsome
      | some reference' =>
        have hstanding := (Aliases.sameStanding_walk.resolve path _).yields hfound'
        exact ⟨reference', b', Step.yields_bind.mpr ⟨_, _, aliased_yields.mpr ⟨b', hfound', rfl⟩,
          Step.yields_pure.mpr ⟨rfl, rfl⟩⟩, h.trans hstanding⟩
  · exact .inr ⟨err, fun d ownJoins h => Step.Fails.bind ((hparallel ownJoins).fails h hfails)⟩

/-! ## Values bound -/

/-- The draft `e` is `d` with values bound, and with groups of conditions on aggregates added if
`grouped`. The same paths resolve in it. -/
structure Appends (d : Draft) (grouped : Bool) (values : List Value) (e : Draft) : Prop where
  firstParameter : e.firstParameter = d.firstParameter
  aliases : d.aliases.SameStanding e.aliases
  having : e.having.isEmpty = (d.having.isEmpty && !grouped)
  inHaving : e.inHaving = d.inHaving
  inTheta : e.inTheta = d.inTheta
  autoIgnoreCase : e.autoIgnoreCase = d.autoIgnoreCase
  parameters : e.parameters = d.parameters ++ numbered d.nextParameter values

theorem numbered_append (first : Nat) (values others : List Value) :
    numbered first (values ++ others) =
      numbered first values ++ numbered (first + values.length) others := by
  induction values generalizing first with
  | nil => rfl
  | cons v rest ih =>
    rw [List.cons_append, numbered, ih, numbered, List.cons_append, List.length_cons,
      Nat.add_right_comm, Nat.add_assoc]

theorem parameters_numbered {r : Likeness} {values others : List Value}
    (h : List.Forall₂ r.values values others) (first : Nat) :
    List.Forall₂ r.Parameters (numbered first values) (numbered first others) := by
  induction h generalizing first with
  | nil => exact .nil
  | cons hvalue _ ih => exact .cons ⟨rfl, hvalue⟩ (ih _)

namespace Appends

variable {grouped : Bool} {values : List Value}

theorem refl (d : Draft) : Appends d false [] d :=
  ⟨rfl, rfl, by simp, rfl, rfl, rfl, (List.append_nil _).symm⟩

theorem nextParameter (h : Appends d grouped values e) :
    e.nextParameter = d.nextParameter + values.length := by
  unfold Draft.nextParameter
  rw [h.firstParameter, h.parameters, List.length_append, length_numbered, Nat.add_assoc]

theorem trans {grouped' : Bool} {others : List Value} (h : Appends d grouped values e)
    (h' : Appends e grouped' others f) :
    Appends d (grouped || grouped') (values ++ others) f where
  firstParameter := h'.firstParameter.trans h.firstParameter
  aliases := h.aliases.trans h'.aliases
  having := by rw [h'.having, h.having, Bool.not_or, Bool.and_assoc]
  inHaving := h'.inHaving.trans h.inHaving
  inTheta := h'.inTheta.trans h.inTheta
  autoIgnoreCase := h'.autoIgnoreCase.trans h.autoIgnoreCase
  parameters := by
    rw [h'.parameters, h.parameters, h.nextParameter, numbered_append, List.append_assoc]

theorem foldsTexts (h : Appends d grouped values e) (property : String) (ask : Bool) :
    Draft.foldsTexts k e property ask = Draft.foldsTexts k d property ask := by
  unfold Draft.foldsTexts propertyFacts
  rw [h.aliases.currentClass, h.autoIgnoreCase]

end Appends

/-- Drafts stay peers if values that may stand for each other are bound in both. -/
theorem Peers.append {r : Likeness} {d' e' : Draft} {grouped : Bool} {values others : List Value}
    (h : Peers r d e) (hd : Appends d grouped values d') (he : Appends e grouped others e')
    (hvalues : List.Forall₂ r.values values others) : Peers r d' e' where
  firstParameter := by rw [hd.firstParameter, he.firstParameter, h.firstParameter]
  aliases := hd.aliases.symm.trans (h.aliases.trans he.aliases)
  having := by rw [hd.having, he.having, h.having]
  inHaving := by rw [hd.inHaving, he.inHaving, h.inHaving]
  inTheta := by rw [hd.inTheta, he.inTheta, h.inTheta]
  autoIgnoreCase := by rw [hd.autoIgnoreCase, he.autoIgnoreCase, h.autoIgnoreCase]
  parameters := by
    rw [hd.parameters, he.parameters, h.nextParameter]
    exact List.rel_append h.parameters (parameters_numbered hvalues _)

/-! ## Predicates -/

/-- The step binds values and leaves the standing as it is if the path resolves, and fails like the
path otherwise. -/
structure Binds (k : Compiler) (path : String) {α : Type} (x : Step Draft α) (d : Draft)
    (values : List Value) : Prop where
  resolved : Resolves k path d.aliases →
    ∃ a b, x.Yields d a ((d.withAliases b).binding values) ∧ d.aliases.SameStanding b
  unresolved : ∀ err, NeverResolves k path d.aliases err → x.Fails d err

theorem binds_plainComparison {t : Test} (hlike : t.operation ≠ .like) (v : Value)
    (operator : String) (d : Draft) :
    Binds k t.property (plainComparison k t v operator false) d
      [v.foldIf (v.startsWithText && foldsTexts k d t.property t.ignoreCase)] := by
  have hupper := ignoresCase_yields_foldsTexts (k := k) t v d
  refine ⟨fun hresolves => ?_, fun err hnever => hupper.bind_fails (hnever d false rfl).bind⟩
  obtain ⟨reference, b, hreference, hb⟩ := hresolves d false rfl
  rw [← boundValue_fst (k := k) hlike]
  exact ⟨_, b, Step.yields_bind.mpr ⟨_, _, hupper, Step.yields_bind.mpr ⟨_, _, hreference,
    Step.yields_bind.mpr ⟨_, _, bind_yields.mpr ⟨rfl, rfl⟩, Step.yields_pure.mpr ⟨rfl, rfl⟩⟩⟩⟩, hb⟩

theorem binds_plainMembership {t : Test} (hlike : t.operation ≠ .like) {values : List Value}
    (hne : values ≠ []) (d : Draft) :
    Binds k t.property (plainMembership k t values) d (values.map fun v =>
      v.foldIf (t.value.startsWithText && foldsTexts k d t.property t.ignoreCase)) := by
  have hupper := ignoresCase_yields_foldsTexts (k := k) t t.value d
  have hscalar : (isScalarCollection k t.property).Yields d
      (Aliases.isScalarCollection k.catalog d.aliases t.property).value d :=
    Step.yields_get_bind.mpr (Step.yields_ofReported.mpr ⟨rfl, rfl⟩)
  unfold plainMembership
  rw [if_neg (by simpa using hne)]
  refine ⟨fun hresolves => ?_, fun err hnever =>
    hupper.bind_fails (hscalar.bind_fails (hnever d _ rfl).bind)⟩
  obtain ⟨reference, b, hreference, hb⟩ := hresolves d _ rfl
  simp only [← boundValue_fst (k := k) hlike]
  exact ⟨_, b, Step.yields_bind.mpr ⟨_, _, hupper, Step.yields_bind.mpr ⟨_, _, hscalar,
    Step.yields_bind.mpr ⟨_, _, hreference, Step.yields_bind.mpr ⟨_, _,
      bindAll_yields.mpr ⟨rfl, rfl⟩, Step.yields_pure.mpr ⟨rfl, rfl⟩⟩⟩⟩⟩, hb⟩

/-! ## Leaves -/

/-- Whether a condition on the property becomes a group of its own. -/
def startsGroup (d : Draft) (path : String) : Bool := Text.hasChar '(' path && !d.inHaving

/-- The emission binds values if the path resolves, leaving a condition or a group of its own, and
fails like the path otherwise. -/
structure Answers (k : Compiler) (path : String) (x : Emission) (d : Draft) (values : List Value) :
    Prop where
  resolved : Resolves k path d.aliases →
    ∃ c e, x.Yields d c e ∧ c.isNone = startsGroup d path ∧ Appends d (startsGroup d path) values e
  unresolved : ∀ err, NeverResolves k path d.aliases err → x.Fails d err

theorem run_routed (path : String) (x : Emission) (d : Draft) :
    (routed (Text.hasChar '(' path) x).run d =
      (if startsGroup d path then inHavingGroup x else x : Emission).run d := rfl

/-- A group that holds a condition is added. -/
theorem addGroup_some (d : Draft) (c : Condition) :
    d.addGroup (some c) = { d with having := d.having ++ [some c] } := by
  unfold addGroup
  rw [Option.isNone_some, Bool.and_false]
  rfl

theorem Binds.routed {x : Step Draft Atom} {values : List Value} (h : Binds k path x d values)
    (hgroup : Binds k path x { d with inHaving := true } values) :
    Answers k path (Draft.routed (Text.hasChar '(' path) do let a ← x; predicate a) d values := by
  cases hstarts : startsGroup d path with
  | true =>
    have hrouted := run_routed path (do let a ← x; predicate a) d
    rw [if_pos hstarts] at hrouted
    constructor
    · intro hresolves
      obtain ⟨a, b, hx, hb⟩ := hgroup.resolved hresolves
      refine ⟨none, ((d.withAliases b).binding values).addGroup (some (.atom a)), ?_,
        hstarts.symm, ?_⟩
      · unfold Step.Yields
        rw [hrouted]
        exact Step.yields_bind.mpr ⟨some (.atom a), (d.withAliases b).binding values,
          Step.yields_restoring.mpr ⟨_, Step.yields_bind.mpr ⟨a, _, hx, predicate_yields.mpr
            ⟨rfl, rfl⟩⟩, rfl⟩,
          Step.yields_bind.mpr ⟨(), _, Step.yields_modify.mpr rfl, Step.yields_pure.mpr ⟨rfl, rfl⟩⟩⟩
      · rw [addGroup_some]
        refine ⟨rfl, hb, ?_, rfl, rfl, rfl, rfl⟩
        rw [hstarts, Bool.not_true, Bool.and_false]
        exact isEmpty_append_group _ _
    · intro err hnever
      unfold Step.Fails
      rw [hrouted]
      have hx : Step.Fails (do let a ← x; predicate a) { d with inHaving := true } err :=
        (hgroup.unresolved err hnever).bind
      exact Step.Fails.bind hx
  | false =>
    have hrouted := run_routed path (do let a ← x; predicate a) d
    rw [if_neg (ne_true_of_eq_false hstarts)] at hrouted
    constructor
    · intro hresolves
      obtain ⟨a, b, hx, hb⟩ := h.resolved hresolves
      refine ⟨some (.atom a), (d.withAliases b).binding values, ?_, hstarts.symm, ?_⟩
      · unfold Step.Yields
        rw [hrouted]
        exact Step.yields_bind.mpr ⟨a, _, hx, predicate_yields.mpr ⟨rfl, rfl⟩⟩
      · exact ⟨rfl, hb, by rw [hstarts, Bool.not_false, Bool.and_true]; rfl, rfl, rfl, rfl, rfl⟩
    · intro err hnever
      unfold Step.Fails
      rw [hrouted]
      exact (h.unresolved err hnever).bind

/-- An equality on the property binds its value. -/
theorem answers_equality {l : Leaf} (h : l.test.isCollapsible path = true) (d : Draft) :
    Answers k path (emit k (.leaf l)) d [l.test.value.foldIf
      (l.test.value.startsWithText && foldsTexts k d path l.test.ignoreCase)] := by
  obtain ⟨t, condition, subfilter⟩ := l
  obtain ⟨hop, rfl, -, hnull, -, -⟩ := Filter.isCollapsible_iff.mp h
  have hemit : emit k (.leaf ⟨t, condition, subfilter⟩) = comparison k t t.value "=" := by
    rw [emit, emitLeaf, hop]
    show test k t = _
    unfold test equality
    rw [hop]
    show (if t.value.isNull then _ else _) = _
    rw [hnull]
    rfl
  rw [hemit]
  have hlike : t.operation ≠ .like := by
    rw [hop]
    decide
  exact (binds_plainComparison hlike _ _ d).routed (binds_plainComparison hlike _ _ _)

/-- A membership test on the property binds the values of its list. -/
theorem answers_membership (k : Compiler) (path : String) {values : List Value} (hne : values ≠ [])
    (hentities : ∀ v ∈ values, v.isEntity = false) (ask : Bool) (d : Draft) :
    let t : Test :=
      { property := path, operation := .inList, value := .list values, ignoreCase := ask }
    Answers k path (emit k (.test t)) d (values.map fun v =>
      v.foldIf ((Value.list values).startsWithText && foldsTexts k d path ask)) := by
  intro t
  have hemit : emit k (.test t) =
      Draft.routed t.isAggregate (do let a ← plainMembership k t values; predicate a) := by
    show membership k t = _
    unfold membership
    have hnone : t.value.hasEntities = false := by
      show values.any Value.isEntity = false
      simpa using hentities
    rw [hnone]
    rfl
  rw [hemit]
  have hlike : t.operation ≠ .like := show LogicalOp.inList ≠ .like by decide
  exact (binds_plainMembership hlike hne d).routed (binds_plainMembership hlike hne _)

/-! ## Several leaves -/

theorem Appends.startsGroup {grouped : Bool} {values : List Value} (h : Appends d grouped values e)
    (path : String) : Draft.startsGroup e path = Draft.startsGroup d path := by
  unfold Draft.startsGroup
  rw [h.inHaving]

/-- Leaves on a property that resolves bind their values one after the other. -/
theorem emitEach_yields_of_answers {leaves : List Leaf} {value : Draft → Leaf → Value}
    (h : ∀ l ∈ leaves, ∀ e, Answers k path (emit k (.leaf l)) e [value e l])
    (hsame : ∀ d e grouped others, Appends d grouped others e → value e = value d)
    (hresolves : Resolves k path d.aliases) :
    ∃ cs e, (emitEach k .all (leaves.map .leaf)).Yields d cs e ∧
      cs.isEmpty = (leaves.isEmpty || startsGroup d path) ∧
      Appends d (!leaves.isEmpty && startsGroup d path) (leaves.map (value d)) e := by
  induction leaves generalizing d with
  | nil => exact ⟨[], d, Step.yields_pure.mpr ⟨rfl, rfl⟩, rfl, .refl d⟩
  | cons l rest ih =>
    obtain ⟨hl, hrest⟩ := List.forall_mem_cons.mp h
    obtain ⟨c, u, hc, hnone, hu⟩ := (hl d).resolved hresolves
    obtain ⟨cs, e, hcs, hempty, he⟩ := ih hrest (hresolves.congr hu.aliases)
    rw [hu.startsGroup] at hempty he
    rw [hsame d u _ _ hu] at he
    refine ⟨c.toList ++ cs, e, ?_, ?_, ?_⟩
    · rw [List.map_cons, emitEach_cons]
      exact Step.yields_bind.mpr ⟨c, u, hc, Step.yields_bind.mpr ⟨cs, e, hcs,
        Step.yields_pure.mpr ⟨rfl, rfl⟩⟩⟩
    · cases c with
      | none => simp [hempty, ← hnone]
      | some _ => simp [← hnone]
    · have happended := hu.trans he
      rw [show (startsGroup d path || !rest.isEmpty && startsGroup d path) = startsGroup d path by
        cases startsGroup d path <;> simp] at happended
      exact happended

theorem emitEach_fails {f : Filter} {rest : List Filter} {err : CompileError}
    (h : (emit k f).Fails d err) : (emitEach k .all (f :: rest)).Fails d err := by
  rw [emitEach_cons]
  exact h.bind

/-! ## Collapsed equalities -/

/-- The values that equalities bind, none of which is a list, may stand for those that a membership
test binds: the former fold each text, the latter all values if the first one is a text. -/
def Likeness.Admits (r : Likeness) (values : List Value) : Prop :=
  (∀ v ∈ values, v.isList = false) → ∀ upper, List.Forall₂ r.values
    (values.map fun v => v.foldIf ((Value.list values).startsWithText && upper))
    (values.map fun v => v.foldIf (v.startsWithText && upper))

/-- The equalities ask alike to ignore case, and their values may stand for those of the membership
test. -/
structure Likeness.Suits (r : Likeness) (group : List Test) : Prop where
  ask : ∀ t ∈ group, ∀ u ∈ group, t.ignoreCase = u.ignoreCase
  values : r.Admits (group.map (·.value))

theorem Peers.foldsTexts {r : Likeness} (h : Peers r d e) (property : String) (ask : Bool) :
    Draft.foldsTexts k d property ask = Draft.foldsTexts k e property ask := by
  unfold Draft.foldsTexts
  rw [h.propertyFacts, h.autoIgnoreCase]

theorem Peers.startsGroup {r : Likeness} (h : Peers r d e) (path : String) :
    Draft.startsGroup d path = Draft.startsGroup e path := by
  unfold Draft.startsGroup
  rw [h.inHaving]

/-- A leaf goes the same way as several leaves on its property if the values that it binds may stand
for theirs. -/
theorem AllAbreast.of_answers {r : Likeness} {f : Filter} {leaves : List Leaf} (hne : leaves ≠ [])
    {values : Draft → List Value} (value : Draft → Leaf → Value)
    (hone : ∀ d, Answers k path (emit k f) d (values d))
    (heach : ∀ l ∈ leaves, ∀ e, Answers k path (emit k (.leaf l)) e [value e l])
    (hsame : ∀ d e grouped others, Appends d grouped others e → value e = value d)
    (hvalues : ∀ d e, Peers r d e → List.Forall₂ r.values (values d) (leaves.map (value e))) :
    AllAbreast r (emitEach k .all [f]) (emitEach k .all (leaves.map .leaf)) := by
  intro d e hpeers
  obtain ⟨l, rest, rfl⟩ := List.exists_cons_of_ne_nil hne
  rcases resolves_or_neverResolves k path d.aliases with hresolves | ⟨err, hnever⟩
  · obtain ⟨c, d', hc, hnone, hd⟩ := (hone d).resolved hresolves
    obtain ⟨cs, e', hcs, hempty, he⟩ :=
      emitEach_yields_of_answers heach hsame (hresolves.congr hpeers.aliases)
    rw [List.isEmpty_cons, Bool.false_or, ← hpeers.startsGroup] at hempty
    rw [List.isEmpty_cons, Bool.not_false, Bool.true_and, ← hpeers.startsGroup] at he
    refine Step.Parallel.of_yields (a := c.toList) (b := cs) ?_ hcs ?_
      (hpeers.append hd he (hvalues d e hpeers))
    · rw [emitEach_cons]
      exact Step.yields_bind.mpr ⟨c, d', hc, Step.yields_bind.mpr ⟨[], d',
        Step.yields_pure.mpr ⟨rfl, rfl⟩, Step.yields_pure.mpr ⟨(List.append_nil _).symm, rfl⟩⟩⟩
    · rw [hempty, ← hnone]
      cases c <;> rfl
  · have hfirst := heach l List.mem_cons_self e
    exact Step.Parallel.of_fails (emitEach_fails ((hone d).unresolved err hnever))
      (emitEach_fails (hfirst.unresolved err (hnever.congr hpeers.aliases)))

/-- Where the leaves ask alike to ignore case, each asks as one of them does. -/
theorem ignoreCase_eq_any {leaves : List Leaf}
    (h : ∀ l ∈ leaves, ∀ l' ∈ leaves, l.test.ignoreCase = l'.test.ignoreCase) :
    ∀ l ∈ leaves, l.test.ignoreCase = leaves.any (·.test.ignoreCase) := by
  intro l hl
  cases hignore : l.test.ignoreCase with
  | true => exact (List.any_eq_true.mpr ⟨l, hl, hignore⟩).symm
  | false =>
    refine (List.any_eq_false.mpr fun l' hl' => ?_).symm
    rw [h l' hl' l hl, hignore]
    exact Bool.false_ne_true

/-- Equalities that ask alike go the same way as the membership test that they amount to. -/
theorem AllAbreast.collapsed {r : Likeness} {children : List Filter} {collapsed : Leaf}
    (h : Filter.collapse? children = some collapsed)
    (hsuits : r.Suits (Filter.leafTests children)) :
    AllAbreast r (emitEach k .all [.leaf collapsed]) (emitEach k .all children) := by
  obtain ⟨hask, hadmits⟩ := hsuits
  obtain ⟨leaves, rfl, -, first, hfirst, hall, rfl⟩ := Filter.collapse?_eq_some h
  rw [Filter.leafTests_map_leaf] at hask hadmits
  rw [List.map_map] at hadmits
  have hne : leaves ≠ [] := List.ne_nil_of_mem hfirst
  have hasks := ignoreCase_eq_any fun l hl l' hl' =>
    hask _ (List.mem_map_of_mem hl) _ (List.mem_map_of_mem hl')
  have hsimple : ∀ v ∈ leaves.map (·.test.value), v.isEntity = false ∧ v.isList = false := by
    rw [List.forall_mem_map]
    intro l hl
    obtain ⟨-, -, -, -, hsimple⟩ := Filter.isCollapsible_iff.mp (hall l hl)
    exact hsimple
  generalize leaves.any (·.test.ignoreCase) = ask at hasks ⊢
  refine AllAbreast.of_answers hne
    (fun e l => l.test.value.foldIf
      (l.test.value.startsWithText && foldsTexts k e first.test.property ask))
    (answers_membership k first.test.property (List.map_eq_nil_iff.not.mpr hne)
      (fun v hv => (hsimple v hv).1) ask)
    (fun l hl e => ?_) (fun d e _ _ happends => ?_) fun d e hpeers => ?_
  · rw [← hasks l hl]
    exact answers_equality (hall l hl) e
  · rw [happends.foldsTexts]
  · have hvalues := hadmits (fun v hv => (hsimple v hv).2)
      (foldsTexts k e first.test.property ask)
    rw [List.map_map, List.map_map] at hvalues
    rw [hpeers.foldsTexts, List.map_map]
    exact hvalues

end Draft

end ObjectQuery
