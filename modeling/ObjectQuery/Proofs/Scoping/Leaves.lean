import ObjectQuery.Proofs.Context.Emission
import ObjectQuery.Proofs.Scoping.Aliases

/-!
# The aliases that a leaf refers to

What a leaf emits refers to aliases that the draft declares, now or later on the way: sources and
joins are never taken back.

* `Select.Sound`: a nested select that declares what it refers to and lists every join of its run.
* `Condition.Within`: a condition on declared aliases, whose nested selects are sound.
* `Draft.Sound`: a draft that has gathered nothing but such conditions.
* `Draft.Refers`: a step that keeps drafts sound, with what its result refers to.
* `Draft.Refers.bind`, `Draft.Refers.composite`, ...: one rule for each way to build a step.
* `Draft.Refers.test`: leaves without other filters.
-/

namespace ObjectQuery

open Draft

/-! ## Sound selects -/

/-- Visits a filter, if there is one. -/
def Draft.visitAny (k : Compiler) (filter : Option Filter) : Step Draft Unit :=
  filter.elim (pure ()) (visit k)

/-- The select is assembled by a run that visits a filter in a fresh draft, and it lists the joins
of that run. -/
def Select.ListsJoins (k : Compiler) (s : Select) : Prop :=
  ∃ className first filter spec assembled e,
    (do visitAny k filter; assembleSelect k spec : Step Draft _).Yields (.start className first)
      assembled e ∧
    assembled.statement = s ∧ ∀ j, j ∈ s.sources.joins ↔ j ∈ e.aliases.joins

/-- The select declares what it refers to, and lists every join of its run. -/
structure Select.Sound (k : Compiler) (s : Select) : Prop where
  isScoped : s.Scoped
  listsJoins : s.ListsJoins k

/-- The condition refers to the aliases, and the selects in it are sound. -/
structure Condition.Within (k : Compiler) (declared : List String) (c : Condition) : Prop where
  aliasNames : c.aliasNames ⊆ declared
  selects : ∀ s ∈ c.selects, s.Sound k

namespace Condition.Within

variable {k : Compiler} {D D' : List String}

theorem mono {c : Condition} (h : c.Within k D) (hD : D ⊆ D') : c.Within k D' :=
  ⟨List.Subset.trans h.aliasNames hD, h.selects⟩

/-- A predicate without a nested select. -/
theorem atom {p : Atom} (h : p.aliasNames ⊆ D) (hp : p.selects = []) :
    (Condition.atom p).Within k D :=
  ⟨h, by rw [Condition.selects, hp]; simp⟩

theorem members {cs : List Condition} (h : ∀ c ∈ cs, c.Within k D) :
    conditionAliasNames cs ⊆ D ∧ ∀ s ∈ conditionSelects cs, s.Sound k := by
  rw [conditionAliasNames_eq, conditionSelects_eq]
  refine ⟨fun x hx => ?_, fun s hs => ?_⟩
  · obtain ⟨c, hc, hx⟩ := List.mem_flatMap.mp hx
    exact (h c hc).aliasNames hx
  · obtain ⟨c, hc, hs⟩ := List.mem_flatMap.mp hs
    exact (h c hc).selects s hs

theorem chain {cs : List Condition} (h : ∀ c ∈ cs, c.Within k D) :
    (Condition.chain cs).Within k D :=
  ⟨(members h).1, (members h).2⟩

theorem group {disjunctive : Bool} {cs : List Condition} (h : ∀ c ∈ cs, c.Within k D) :
    (Condition.group disjunctive cs).Within k D :=
  ⟨(members h).1, (members h).2⟩

theorem negation {c : Condition} (h : c.Within k D) : (Condition.negation c).Within k D :=
  ⟨h.aliasNames, h.selects⟩

/-- What members become under a connective. -/
theorem combine {operation : BooleanOp} {cs : List Condition} (h : ∀ c ∈ cs, c.Within k D) :
    ∀ c ∈ Draft.combine operation cs, c.Within k D := by
  unfold Draft.combine grouped
  intro c hc
  cases hempty : cs.isEmpty <;> rw [hempty] at hc <;> cases operation <;> cases hc
  · exact group h
  · exact group h
  · exact negation (group h)

end Condition.Within

namespace Draft

variable {k : Compiler} {d e : Draft}

/-! ## Sound drafts -/

/-- A draft with sound aliases, whose conditions refer to declared aliases. -/
structure Sound (k : Compiler) (d : Draft) : Prop where
  aliases : d.aliases.Sound
  conditions : ∀ c ∈ d.conditions, c.Within k d.aliases.declared
  having : ∀ g ∈ d.having, ∀ c ∈ g, c.Within k d.aliases.declared

theorem Sound.withAliases (h : d.Sound k) {a : Aliases} (ha : a.Sound)
    (hsub : d.aliases.declared ⊆ a.declared) : (d.withAliases a).Sound k :=
  ⟨ha, fun c hc => (h.conditions c hc).mono hsub, fun g hg c hc => (h.having g hg c hc).mono hsub⟩

theorem Sound.start (className : String) (first : Nat) : (Draft.start className first).Sound k :=
  ⟨.start className, by rintro _ ⟨⟩, by rintro _ ⟨⟩⟩

/-- A step from a sound draft leaves a sound draft in its context, with a result that meets `P` for
the aliases that are declared then. -/
def Refers {α : Type} (k : Compiler) (P : List String → α → Prop) (x : Step Draft α) : Prop :=
  ∀ d a e, x.Yields d a e → d.Sound k → e.Sound k ∧ d.Resumes e ∧ P e.aliases.declared a

/-- The predicate stays true when more aliases are declared. -/
def Rising {α : Type} (P : List String → α → Prop) : Prop :=
  ∀ {D D' : List String} {a : α}, D ⊆ D' → P D a → P D' a

/-- The reference goes through a declared alias. -/
def Refers.Reference (D : List String) (r : Reference) : Prop := r.aliasNames ⊆ D

/-- The correlation refers to declared aliases. -/
def Refers.Correlation (D : List String) (c : Correlation) : Prop := c.aliasNames ⊆ D

/-- The predicate refers to declared aliases. -/
def Refers.Atom (k : Compiler) (D : List String) (p : Atom) : Prop := (Condition.atom p).Within k D

/-- The condition, if there is one, refers to declared aliases. -/
def Refers.Clause (k : Compiler) (D : List String) (c : Option Condition) : Prop :=
  ∀ condition ∈ c, condition.Within k D

/-- The conditions refer to declared aliases. -/
def Refers.Clauses (k : Compiler) (D : List String) (cs : List Condition) : Prop :=
  ∀ c ∈ cs, c.Within k D

namespace Rising

theorem subset {α : Type} (f : α → List String) : Rising fun D a => f a ⊆ D :=
  fun hD h => List.Subset.trans h hD

theorem reference : Rising Refers.Reference := subset _

theorem correlation : Rising Refers.Correlation := subset _

theorem atom : Rising (Refers.Atom k) := fun hD h => h.mono hD

theorem clause : Rising (Refers.Clause k) := fun hD h c hc => (h c hc).mono hD

theorem clauses : Rising (Refers.Clauses k) := fun hD h c hc => (h c hc).mono hD

end Rising

namespace Refers

variable {α β : Type} {P : List String → α → Prop} {Q : List String → β → Prop}

theorem mono {P' : List String → α → Prop} {x : Step Draft α} (h : Refers k P x)
    (hP : ∀ D a, P D a → P' D a) : Refers k P' x := fun d a e hx hd =>
  have ⟨he, hresumes, ha⟩ := h d a e hx hd
  ⟨he, hresumes, hP _ _ ha⟩

/-- The step behind may count on what the step in front has given. -/
theorem bind {x : Step Draft α} {f : α → Step Draft β} (hx : Refers k P x) (hP : Rising P)
    (hf : ∀ a, Refers k (fun D b => P D a → Q D b) (f a)) : Refers k Q (x >>= f) := by
  intro d b e h hd
  obtain ⟨a, u, hxa, hfa⟩ := Step.yields_bind.mp h
  obtain ⟨hu, hresumes, ha⟩ := hx d a u hxa hd
  obtain ⟨he, hresumes', hb⟩ := hf a u b e hfa hu
  exact ⟨he, hresumes.trans hresumes', hb (hP hresumes'.aliases.declared ha)⟩

/-- The step in front may have given anything. -/
theorem quiet_bind {x : Step Draft α} {f : α → Step Draft β} (hx : Refers k (fun _ _ => True) x)
    (hf : ∀ a, Refers k Q (f a)) : Refers k Q (x >>= f) :=
  hx.bind (fun _ _ => trivial) fun a => (hf a).mono fun _ _ hb _ => hb

theorem pure {a : α} (h : ∀ D, P D a) : Refers k P (Pure.pure a : Step Draft α) := by
  intro d b e hx hd
  obtain ⟨rfl, rfl⟩ := Step.yields_pure.mp hx
  exact ⟨hd, .refl _, h _⟩

theorem fail (err : CompileError) : Refers k P (Step.fail err : Step Draft α) := by
  intro d a e hx
  exact (Step.yields_fail.mp hx).elim

/-- A step that leaves the draft as it is. -/
theorem of_same {x : Step Draft α} (h : ∀ {d a e}, x.Yields d a e → e = d) :
    Refers k (fun _ _ => True) x := by
  intro d a e hx hd
  obtain rfl := h hx
  exact ⟨hd, .refl _, trivial⟩

/-- A step that changes nothing but the aliases. -/
theorem of_aliases {x : Step Draft α} (hsteady : Steady x)
    (h : ∀ {d a e}, x.Yields d a e → d.aliases.Sound →
      ∃ b : Aliases, e = d.withAliases b ∧ b.Sound ∧ P b.declared a) : Refers k P x := by
  intro d a e hx hd
  have hresumes : d.Resumes e := hsteady.yields hx hd.aliases.rooted.scopes
  obtain ⟨b, rfl, hb, ha⟩ := h hx hd.aliases
  exact ⟨hd.withAliases hb hresumes.aliases.declared, hresumes, ha⟩

/-- A step that binds values. -/
theorem of_binding {x : Step Draft α}
    (h : ∀ {d a e}, x.Yields d a e → ∃ values, e = d.binding values) :
    Refers k (fun _ _ => True) x := by
  intro d a e hx hd
  obtain ⟨values, rfl⟩ := h hx
  exact ⟨⟨hd.aliases, hd.conditions, hd.having⟩, ⟨.refl _, rfl, rfl, rfl, rfl, List.prefix_rfl,
    List.prefix_rfl, List.prefix_append _ _⟩, trivial⟩

/-! ## Parts of predicates -/

theorem reference_of_found {D : List String} {r : ObjectQuery.Reference}
    (h : ∀ y ∈ (some r).bind ObjectQuery.Reference.alias?, y ∈ D) : Refers.Reference D r :=
  fun y hy => h y (Option.mem_toList.mp hy)

theorem resolve (path : String) (ownJoins : Bool) :
    Refers k Refers.Reference (Draft.resolve k path ownJoins) := by
  refine of_aliases ((continues k).resolve _ _) fun hx ha => ?_
  obtain ⟨a, hr, rfl⟩ := resolve_yields hx
  obtain ⟨hb, hdeclared⟩ := ha.resolve hr
  exact ⟨a, rfl, hb, reference_of_found hdeclared⟩

theorem resolveCollection (path : String) :
    Refers k Refers.Reference (Draft.resolveCollection k path) := by
  refine of_aliases ((continues k).resolveCollection _) fun hx ha => ?_
  obtain ⟨a, hr, rfl⟩ := resolveCollection_yields hx
  obtain ⟨hb, hdeclared⟩ := ha.resolve hr
  exact ⟨a, rfl, hb, reference_of_found hdeclared⟩

theorem ignoresCase (t : Test) (v : Value) :
    Refers k (fun _ _ => True) (Draft.ignoresCase k t v) :=
  of_same ignoresCase_yields

theorem isScalarCollection (path : String) :
    Refers k (fun _ _ => True) (Draft.isScalarCollection k path) :=
  of_same fun h => (isScalarCollection_yields h).2

theorem bindOne (v : Value) : Refers k (fun _ _ => True) (Draft.bind v) :=
  of_binding fun h => ⟨[v], (bind_yields.mp h).2⟩

theorem bindAll (values : List Value) : Refers k (fun _ _ => True) (Draft.bindAll values) :=
  of_binding fun h => ⟨values, (bindAll_yields.mp h).2⟩

theorem plainComparison (t : Test) (v : Value) (operator : String) (ownJoins : Bool) :
    Refers k (Refers.Atom k) (Draft.plainComparison k t v operator ownJoins) :=
  (ignoresCase t v).quiet_bind fun _ => (resolve _ _).bind Rising.reference fun _ =>
    (bindOne _).quiet_bind fun _ => pure fun _ hr => .atom hr rfl

theorem plainMembership (t : Test) (values : List Value) :
    Refers k (Refers.Atom k) (Draft.plainMembership k t values) := by
  unfold Draft.plainMembership
  split
  · exact pure fun D => .atom (List.nil_subset D) rfl
  · exact (ignoresCase t _).quiet_bind fun _ => (isScalarCollection _).quiet_bind fun _ =>
      (resolve _ _).bind Rising.reference fun _ => (bindAll _).quiet_bind fun _ =>
      pure fun _ hr => .atom hr rfl

theorem correlation (t : Test) (other : String) :
    Refers k Refers.Correlation (Draft.correlation k t other) := by
  refine (resolve _ _).bind Rising.reference fun right =>
    (isScalarCollection _).quiet_bind fun _ => ?_
  split
  · exact (resolveCollection _).bind Rising.reference fun _ => pure fun _ hleft hright =>
      List.append_subset.mpr ⟨hright, hleft⟩
  · exact (resolve _ _).bind Rising.reference fun _ => pure fun _ hleft hright =>
      List.append_subset.mpr ⟨hleft, hright⟩

/-! ## Clauses -/

/-- What is known of a predicate is known of the condition that it becomes. -/
theorem predicate {p : ObjectQuery.Atom} {K : List String → Prop}
    (h : ∀ D, K D → Refers.Atom k D p) :
    Refers k (fun D c => K D → Refers.Clause k D c) (Draft.predicate p) := by
  refine pure fun D hD c hc => ?_
  cases hc
  exact h D hD

section

variable {x : Emission}

theorem inHavingGroup (hx : Refers k (Clause k) x) :
    Refers k (Clause k) (Draft.inHavingGroup x) := by
  intro d c e h hd
  obtain ⟨rfl, group, u, hu, rfl⟩ := inHavingGroup_yields h
  obtain ⟨he, hresumes, hgroup⟩ := hx _ _ _ hu ⟨hd.aliases, hd.conditions, hd.having⟩
  have hback : d.Resumes { u with inHaving := d.inHaving } :=
    ⟨hresumes.aliases, hresumes.firstParameter, rfl, hresumes.inTheta, hresumes.autoIgnoreCase,
      hresumes.conditions, hresumes.having, hresumes.parameters⟩
  refine ⟨?_, hback.trans (addGroup_resumes _ _), by rintro _ ⟨⟩⟩
  unfold addGroup
  split
  · exact ⟨he.aliases, he.conditions, he.having⟩
  · exact ⟨he.aliases, he.conditions,
      List.forall_mem_append.mpr ⟨he.having, List.forall_mem_singleton.mpr hgroup⟩⟩

theorem routed (isAggregate : Bool) (hx : Refers k (Clause k) x) :
    Refers k (Clause k) (Draft.routed isAggregate x) := by
  intro d c e h hd
  obtain h' | ⟨-, -, h'⟩ := routed_yields h
  · exact hx _ _ _ h' hd
  · exact inHavingGroup hx _ _ _ h' hd

theorem combined (operation : BooleanOp) {xs : Step Draft (List Condition)}
    (hxs : Refers k (Clauses k) xs) : Refers k (Clause k) (Draft.combined operation xs) := by
  intro d c e h hd
  obtain ⟨members, rfl, h' | ⟨u, h', rfl⟩⟩ := combined_yields h
  · obtain ⟨he, hresumes, hmembers⟩ := hxs _ _ _ h' hd
    exact ⟨he, hresumes, Condition.Within.combine hmembers⟩
  · have hor : (d.withAliases { d.aliases with insideOr := true }).Sound k :=
      hd.withAliases (hd.aliases.insideOr true) (List.Subset.refl _)
    obtain ⟨hu, hresumes, hmembers⟩ := hxs _ _ _ h' hor
    have ha := hresumes.aliases
    refine ⟨hu.withAliases (hu.aliases.insideOr _) (List.Subset.refl _), ?_,
      Condition.Within.combine hmembers⟩
    exact ⟨⟨ha.queryClass, ha.frames, rfl, ha.sources, ha.joins⟩, hresumes.firstParameter,
      hresumes.inHaving, hresumes.inTheta, hresumes.autoIgnoreCase, hresumes.conditions,
      hresumes.having, hresumes.parameters⟩

theorem composite (c : Composite) {xs : Step Draft (List Condition)}
    (hxs : Refers k (Clauses k) xs) : Refers k (Clause k) (Draft.composite c xs) := by
  intro d condition e h hd
  obtain h' | ⟨-, -, h'⟩ := composite_yields h
  · exact combined _ hxs _ _ _ h' hd
  · exact inHavingGroup (combined _ hxs) _ _ _ h' hd

theorem together {xs : Step Draft (List Condition)} (hx : Refers k (Clause k) x)
    (hxs : Refers k (Clauses k) xs) : Refers k (Clauses k) (Draft.together x xs) :=
  hx.bind Rising.clause fun _ => hxs.bind Rising.clauses fun _ =>
    pure fun _ hrest hfirst => List.forall_mem_append.mpr
      ⟨fun c hc => hfirst c (Option.mem_toList.mp hc), hrest⟩

end

/-! ## Leaves -/

theorem comparison (t : Test) (v : Value) (operator : String) :
    Refers k (Clause k) (Draft.comparison k t v operator) :=
  routed _ ((plainComparison _ _ _ _).bind Rising.atom fun _ => predicate fun _ hp => hp)

theorem nullCheck (t : Test) (isNull : Bool) :
    Refers k (Clause k) (Draft.nullCheck k t isNull) :=
  routed _ ((resolve _ _).bind Rising.reference fun _ => predicate fun _ hr => .atom hr rfl)

theorem equality (t : Test) (v : Value) (equal : Bool) :
    Refers k (Clause k) (Draft.equality k t v equal) := by
  unfold Draft.equality
  split
  · exact nullCheck t equal
  · exact comparison t v _

theorem emptyCheck (t : Test) : Refers k (Clause k) (Draft.emptyCheck k t) :=
  routed _ ((resolveCollection _).bind Rising.reference fun _ => predicate fun _ hr => .atom hr rfl)

theorem equalities (t : Test) (values : List Value) :
    Refers k (Clauses k) (Draft.equalities k t values) := by
  induction values with
  | nil => exact pure fun _ _ hc => absurd hc List.not_mem_nil
  | cons v rest ih => exact together (equality _ v true) ih

theorem membership (t : Test) : Refers k (Clause k) (Draft.membership k t) := by
  unfold Draft.membership
  dsimp only
  split
  · split
    · exact equality _ _ true
    · exact composite _ (equalities t _)
  · exact routed _ ((plainMembership t _).bind Rising.atom fun _ => predicate fun _ hp => hp)

theorem separateComparisons (t : Test) (values : List Value) :
    Refers k (Clauses k) (Draft.separateComparisons k t values) := by
  induction values with
  | nil => exact pure fun _ _ hc => absurd hc List.not_mem_nil
  | cons v rest ih =>
    exact (plainComparison _ _ _ _).bind Rising.atom fun _ => ih.bind Rising.clauses fun _ =>
      pure fun _ hrest hfirst => List.forall_mem_cons.mpr ⟨hfirst, hrest⟩

theorem containsAll (t : Test) : Refers k (Clause k) (Draft.containsAll k t) := by
  have hchained (cs : List Condition) :
      Refers k (fun D c => Clauses k D cs → Clause k D c) (Pure.pure (chained cs)) := by
    refine pure fun D hcs c hc => ?_
    unfold chained at hc
    split at hc <;> cases hc
    exact .chain hcs
  intro d c e h hd
  obtain ⟨v, -, h'⟩ | ⟨-, h'⟩ := containsAll_yields h
  · exact equality t v true _ _ _ h' hd
  · exact routed _ ((separateComparisons t _).bind Rising.clauses hchained) _ _ _ h' hd

/-! ## Joins -/

/-- A class is listed before the correlation refers to it. -/
theorem join (t : Test) : Refers k (Clause k) (Draft.join k t) := by
  intro d c e h hd
  have hresumes : d.Resumes e := ((continues k).join t).yields h hd.aliases.rooted.scopes
  obtain ⟨other, condition, -, -, rfl, ⟨-, left, a, right, b, ha, hb, rfl, rfl⟩ | ⟨-, h'⟩⟩ :=
    join_yields h
  · obtain ⟨ha, hleft⟩ := (hd.aliases.addThetaSource _ _).resolveEnclosing ha
    have hgrows : a.Resumes b := (Aliases.resumes_walk.resolve _ _).yields hb
    obtain ⟨hb, hright⟩ := ha.resolve hb
    have hwithin := hd.withAliases hb hresumes.aliases.declared
    refine ⟨⟨hb, hwithin.conditions, hwithin.having⟩, hresumes, ?_⟩
    rintro _ ⟨⟩
    refine .atom (List.append_subset.mpr ⟨fun y hy => ?_, reference_of_found hright⟩) rfl
    exact hgrows.declared (hleft y (Option.mem_toList.mp hy))
  · have hlisted := hd.withAliases (hd.aliases.addSource (Path.head other).1)
      (d.aliases.addSource_resumes _).declared
    obtain ⟨he, -, hcondition⟩ := correlation t other _ _ _ h' hlisted
    refine ⟨he, hresumes, ?_⟩
    rintro _ ⟨⟩
    exact .atom hcondition rfl

/-- The correlation may refer to the class that is joined by it. -/
theorem leftJoin (t : Test) : Refers k (Clause k) (Draft.leftJoin k t) := by
  intro d c e h hd
  have hresumes : d.Resumes e := ((continues k).leftJoin t).yields h hd.aliases.rooted.scopes
  obtain ⟨rfl, other, condition, u, -, -, h', rfl⟩ := leftJoin_yields h
  obtain ⟨right, a, left, b, o, ha, hb, hcondition, rfl⟩ := correlation_yields h'
  have hanchored := hd.aliases.orderly.obtainClassAlias (Path.head other).1
  obtain ⟨⟨hgrows, ha'⟩, hright⟩ := Aliases.finds_resolve _ _ ha hanchored
  obtain ⟨⟨hgrows', hb'⟩, hleft⟩ := Aliases.finds_resolve _ _ hb ha'
  have hordered : b.Ordered := (Aliases.keepsOrder_walk.resolve _ _).yields hb
    ((Aliases.keepsOrder_walk.resolve _ _).yields ha (hd.aliases.ordered.of_joins
      (d.aliases.obtainClassAlias_keeps _).1.2))
  have hsound := hd.aliases.addOnJoin (hgrows.trans hgrows') hordered hb' (Path.tail other)
    condition ?known
  case known =>
    intro y hy
    have hsides : y ∈ right.aliasNames ∨ y ∈ left.aliasNames := by
      obtain rfl | rfl := hcondition
      · exact List.mem_append.mp hy
      · exact (List.mem_append.mp hy).symm
    obtain hy | hy := hsides
    · exact (hright y (Option.mem_toList.mp hy)).mono hgrows'
    · exact hleft y (Option.mem_toList.mp hy)
  exact ⟨hd.withAliases hsound hresumes.aliases.declared, hresumes, by rintro _ ⟨⟩⟩

theorem test (t : Test) : Refers k (Clause k) (Draft.test k t) := by
  unfold Draft.test
  split
  case h_1 | h_2 => exact equality t _ _
  case h_3 | h_4 | h_5 | h_6 | h_7 => exact comparison t _ _
  case h_8 => exact membership t
  case h_9 | h_10 => exact nullCheck t _
  case h_11 => exact emptyCheck t
  case h_12 => exact containsAll t
  case h_13 => exact join t
  case h_14 => exact leftJoin t
  case h_15 | h_16 => exact fail _

end Refers

end Draft

end ObjectQuery
