import ObjectQuery.Proofs.Emission.Induction
import ObjectQuery.Proofs.Step.Run

/-!
# Runs of the steps of a draft

What each step of a compilation leaves behind when it succeeds. Only aliases are resolved and
parameters bound on the way to a predicate; everything else in the draft stays.

* `Aliases.Enters`: the scope of a condition on a collection.
* `Draft.resolve_yields`, `Draft.plainComparison_yields`, ...: steps that give a part of a
  predicate.
* `Draft.routed_yields`, `Draft.composite_yields`, `Draft.inSelect_yields`, ...: steps around other
  emissions.
-/

namespace ObjectQuery

/-- The innermost scope is put back behind the step. -/
theorem Aliases.enclosing_yields {α : Type} {x : Step Aliases α} {a b : Aliases} {r : α}
    (h : (enclosing x).Yields a r b) :
    (a.scopes = [] ∧ x.Yields a r b) ∨
      ∃ inner outer u, a.scopes = inner :: outer ∧ x.Yields { a with scopes := outer } r u ∧
        b = { u with scopes := inner :: u.scopes } := by
  unfold Step.Yields Step.run enclosing at h
  split at h
  · rename_i hscopes
    exact .inl ⟨hscopes, h⟩
  · rename_i inner outer hscopes
    obtain ⟨hresult, rfl⟩ := h
    exact .inr ⟨inner, outer, _, hscopes, ⟨hresult, rfl⟩, rfl⟩

/-- The aliases in the scope that a condition on a property opens. -/
inductive Aliases.Enters (c : Catalog) (property : String) (a : Aliases) : Aliases → Prop where
  | theta : Draft.namesClass property = true → c.isKnown property = true →
      Enters c property a a.pushTheta
  | collection {b : Aliases} {joinType : JoinType} {aliasName : String} :
      Draft.namesClass property = false →
      (pushCollection c property joinType).Yields a aliasName b → Enters c property a b

namespace Draft

variable {k : Compiler} {d e : Draft}

/-- The draft with other aliases. -/
def withAliases (d : Draft) (aliases : Aliases) : Draft := { d with aliases }

/-- Values under the numbers from `first` on. -/
def numbered (first : Nat) : List Value → List Parameter
  | [] => []
  | v :: rest => ⟨first, v⟩ :: numbered (first + 1) rest

/-- The draft with values bound to the next parameters. -/
def binding (d : Draft) (values : List Value) : Draft :=
  { d with parameters := d.parameters ++ numbered d.nextParameter values }

/-! ## Basic steps -/

@[simp] theorem aliased_yields {α : Type} {x : Step Aliases α} {a : α} :
    (aliased x).Yields d a e ↔ ∃ b, x.Yields d.aliases a b ∧ e = d.withAliases b :=
  Step.yields_zoom

@[simp] theorem changeAliases_yields {α : Type} {f : Aliases → α × Aliases} {a : α} :
    (changeAliases f).Yields d a e ↔
      a = (f d.aliases).1 ∧ e = d.withAliases (f d.aliases).2 := by
  constructor
  · rintro ⟨h, rfl⟩
    cases h
    exact ⟨rfl, rfl⟩
  · rintro ⟨rfl, rfl⟩
    exact ⟨rfl, rfl⟩

theorem length_numbered (first : Nat) (values : List Value) :
    (numbered first values).length = values.length := by
  induction values generalizing first with
  | nil => rfl
  | cons v rest ih => rw [numbered, List.length_cons, ih, List.length_cons]

theorem number_numbered (first : Nat) (values : List Value) :
    (numbered first values).map (·.number) = List.range' first values.length := by
  induction values generalizing first with
  | nil => rfl
  | cons v rest ih => rw [numbered, List.map_cons, ih, List.length_cons, List.range'_succ]

theorem nextParameter_binding (d : Draft) (values : List Value) :
    (d.binding values).nextParameter = d.nextParameter + values.length := by
  simp only [binding, nextParameter, List.length_append, length_numbered, Nat.add_assoc]

theorem binding_cons (d : Draft) (v : Value) (rest : List Value) :
    (d.binding [v]).binding rest = d.binding (v :: rest) := by
  show Draft.mk _ _ _ _ _ (_ ++ numbered (d.binding [v]).nextParameter rest) _ _ _ = _
  rw [nextParameter_binding]
  simp only [binding, numbered, List.append_assoc, List.length_cons, List.length_nil,
    List.cons_append, List.nil_append]

@[simp] theorem bind_yields {v : Value} {number : Nat} :
    (bind v).Yields d number e ↔ number = d.nextParameter ∧ e = d.binding [v] := by
  constructor
  · rintro ⟨h, rfl⟩
    cases h
    exact ⟨rfl, rfl⟩
  · rintro ⟨rfl, rfl⟩
    exact ⟨rfl, rfl⟩

@[simp] theorem bindAll_yields {values : List Value} {numbers : List Nat} :
    (bindAll values).Yields d numbers e ↔
      numbers = List.range' d.nextParameter values.length ∧ e = d.binding values := by
  induction values generalizing d e numbers with
  | nil => simp [bindAll, binding, numbered]
  | cons v rest ih =>
    rw [bindAll, ← binding_cons]
    simp only [Step.yields_bind, bind_yields, ih, Step.yields_pure]
    constructor
    · rintro ⟨_, _, ⟨rfl, rfl⟩, _, _, ⟨rfl, rfl⟩, rfl, rfl⟩
      rw [nextParameter_binding, @List.length_cons _ v rest, List.range'_succ]
      exact ⟨rfl, rfl⟩
    · rintro ⟨rfl, rfl⟩
      refine ⟨_, _, ⟨rfl, rfl⟩, _, _, ⟨rfl, rfl⟩, ?_, rfl⟩
      rw [nextParameter_binding, @List.length_cons _ v rest, List.range'_succ]
      rfl

/-! ## Parts of predicates -/

/-- A step on the aliases that has to find something, with what follows if it finds nothing. -/
theorem aliased_found_yields {α : Type} {x : Step Aliases (Option α)} {f : Option α → Step Draft α}
    {r : α} (hsome : ∀ a, f (some a) = pure a) (hnone : ∀ u, ¬(f none).Yields u r e)
    (h : (aliased x >>= f).Yields d r e) :
    ∃ a, x.Yields d.aliases (some r) a ∧ e = d.withAliases a := by
  obtain ⟨o, u, hx, hrest⟩ := Step.yields_bind.mp h
  obtain ⟨a, ha, rfl⟩ := aliased_yields.mp hx
  cases o with
  | none => exact absurd hrest (hnone _)
  | some found =>
    rw [hsome] at hrest
    obtain ⟨rfl, rfl⟩ := Step.yields_pure.mp hrest
    exact ⟨a, ha, rfl⟩

theorem resolve_yields {path : String} {ownJoins : Bool} {r : Reference}
    (h : (resolve k path ownJoins).Yields d r e) :
    ∃ a, (Aliases.resolve k.catalog path { ownJoins }).Yields d.aliases (some r) a ∧
      e = d.withAliases a :=
  aliased_found_yields (fun _ => rfl) (by simp) h

theorem resolveCollection_yields {path : String} {r : Reference}
    (h : (resolveCollection k path).Yields d r e) :
    ∃ a, (Aliases.resolve k.catalog path { keepCollection := true }).Yields d.aliases (some r) a ∧
      e = d.withAliases a :=
  aliased_found_yields (fun _ => rfl) (by simp) h

theorem isScalarCollection_yields {path : String} {b : Bool}
    (h : (isScalarCollection k path).Yields d b e) :
    b = (Aliases.isScalarCollection k.catalog d.aliases path).value ∧ e = d := by
  have h₁ := Step.yields_get_bind.mp h
  exact Step.yields_ofReported.mp h₁

theorem ignoresCase_yields {t : Test} {v : Value} {upper : Bool}
    (h : (ignoresCase k t v).Yields d upper e) : e = d := by
  have h₁ := Step.yields_get_bind.mp h
  exact (Step.yields_ofReported.mp h₁).2

/-- A comparison binds one parameter. -/
theorem plainComparison_yields {t : Test} {v : Value} {operator : String} {ownJoins : Bool} {p : Atom}
    (h : (plainComparison k t v operator ownJoins).Yields d p e) :
    ∃ upper r a, (Aliases.resolve k.catalog t.property { ownJoins }).Yields d.aliases (some r) a ∧
      p = .comparison { reference := r, upper, cast := t.cast } operator d.nextParameter
        (boundValue k t v upper).2 ∧
      e = (d.withAliases a).binding [(boundValue k t v upper).1] := by
  obtain ⟨upper, u, hupper, h₁⟩ := Step.yields_bind.mp h
  obtain rfl := ignoresCase_yields hupper
  obtain ⟨r, w, hresolve, h₂⟩ := Step.yields_bind.mp h₁
  obtain ⟨a, ha, rfl⟩ := resolve_yields hresolve
  obtain ⟨number, w, hbind, h₃⟩ := Step.yields_bind.mp h₂
  obtain ⟨rfl, rfl⟩ := bind_yields.mp hbind
  obtain ⟨rfl, rfl⟩ := Step.yields_pure.mp h₃
  exact ⟨upper, r, a, ha, rfl, rfl⟩

/-- A membership binds every value, and holds never if there is none. -/
theorem plainMembership_yields {t : Test} {values : List Value} {p : Atom}
    (h : (plainMembership k t values).Yields d p e) :
    (values = [] ∧ p = .never ∧ e = d) ∨
      (values ≠ [] ∧ ∃ upper ownJoins r a,
        (Aliases.resolve k.catalog t.property { ownJoins }).Yields d.aliases (some r) a ∧
        p = .membership { reference := r, upper } (List.range' d.nextParameter values.length) ∧
        e = (d.withAliases a).binding (values.map fun v => (boundValue k t v upper).1)) := by
  unfold plainMembership at h
  split at h
  · rename_i hempty
    obtain ⟨rfl, rfl⟩ := Step.yields_pure.mp h
    exact .inl ⟨List.isEmpty_iff.mp hempty, rfl, rfl⟩
  · rename_i hne
    obtain ⟨upper, u, hupper, h₁⟩ := Step.yields_bind.mp h
    obtain rfl := ignoresCase_yields hupper
    obtain ⟨ownJoins, u, hscalar, h₂⟩ := Step.yields_bind.mp h₁
    obtain ⟨-, rfl⟩ := isScalarCollection_yields hscalar
    obtain ⟨r, w, hresolve, h₃⟩ := Step.yields_bind.mp h₂
    obtain ⟨a, ha, rfl⟩ := resolve_yields hresolve
    obtain ⟨numbers, w, hbind, h₄⟩ := Step.yields_bind.mp h₃
    obtain ⟨rfl, rfl⟩ := bindAll_yields.mp hbind
    obtain ⟨rfl, rfl⟩ := Step.yields_pure.mp h₄
    rw [List.length_map]
    exact .inr ⟨by simpa using hne, upper, ownJoins, r, a, ha, rfl, rfl⟩

theorem joinProperty_yields {t : Test} {other : String} (h : (joinProperty t).Yields d other e) :
    t.joinProperty = some other ∧ e = d :=
  Step.yields_orFail.mp h

theorem joinClass_yields {other className : String}
    (h : (joinClass k other).Yields d className e) :
    className = (Path.head other).1 ∧ k.catalog.isKnown (Path.head other).1 = true ∧ e = d := by
  unfold joinClass at h
  dsimp only at h
  split at h
  · rename_i hknown
    obtain ⟨rfl, rfl⟩ := Step.yields_pure.mp h
    exact ⟨rfl, hknown, rfl⟩
  · simp at h

/-- A correlation resolves the other side first. -/
theorem correlation_yields {t : Test} {other : String} {condition : Correlation}
    (h : (correlation k t other).Yields d condition e) :
    ∃ right a left b o, (Aliases.resolve k.catalog other {}).Yields d.aliases (some right) a ∧
      (Aliases.resolve k.catalog t.property o).Yields a (some left) b ∧
      (condition = .element right left ∨ condition = .equal left right) ∧
      e = d.withAliases b := by
  obtain ⟨right, u, hright, h₁⟩ := Step.yields_bind.mp h
  obtain ⟨a, ha, rfl⟩ := resolve_yields hright
  obtain ⟨isScalar, u, hscalar, h₂⟩ := Step.yields_bind.mp h₁
  obtain ⟨-, rfl⟩ := isScalarCollection_yields hscalar
  split at h₂
  · obtain ⟨left, u, hleft, h₃⟩ := Step.yields_bind.mp h₂
    obtain ⟨b, hb, rfl⟩ := resolveCollection_yields hleft
    obtain ⟨rfl, rfl⟩ := Step.yields_pure.mp h₃
    exact ⟨right, a, left, b, _, ha, hb, .inl rfl, rfl⟩
  · obtain ⟨left, u, hleft, h₃⟩ := Step.yields_bind.mp h₂
    obtain ⟨b, hb, rfl⟩ := resolve_yields hleft
    obtain ⟨rfl, rfl⟩ := Step.yields_pure.mp h₃
    exact ⟨right, a, left, b, _, ha, hb, .inr rfl, rfl⟩

/-! ## Clauses -/

@[simp] theorem predicate_yields {p : Atom} {c : Option Condition} :
    (predicate p).Yields d c e ↔ c = some (.atom p) ∧ e = d :=
  Step.yields_pure

section

variable {x : Emission} {c : Option Condition}

theorem inHavingGroup_yields (h : (inHavingGroup x).Yields d c e) :
    c = none ∧ ∃ group u, x.Yields { d with inHaving := true } group u ∧
      e = addGroup { u with inHaving := d.inHaving } group := by
  obtain ⟨group, w, hx, h₁⟩ := Step.yields_bind.mp h
  obtain ⟨u, hgroup, rfl⟩ := Step.yields_restoring.mp hx
  obtain ⟨_, w, hadd, h₂⟩ := Step.yields_bind.mp h₁
  obtain rfl := Step.yields_modify.mp hadd
  obtain ⟨rfl, rfl⟩ := Step.yields_pure.mp h₂
  exact ⟨rfl, group, u, hgroup, rfl⟩

/-- A condition on an aggregate becomes a group unless a group is being written. -/
theorem routed_yields {isAggregate : Bool} (h : (routed isAggregate x).Yields d c e) :
    x.Yields d c e ∨ isAggregate = true ∧ d.inHaving = false ∧ (inHavingGroup x).Yields d c e := by
  have h₁ := Step.yields_get_bind.mp h
  split at h₁
  · rename_i hboth
    rw [Bool.and_eq_true, Bool.not_eq_true'] at hboth
    exact .inr ⟨hboth.1, hboth.2, h₁⟩
  · exact .inl h₁

theorem insideOr_yields (h : (insideOr x).Yields d c e) :
    ∃ u, x.Yields (d.withAliases { d.aliases with insideOr := true }) c u ∧
      e = u.withAliases { u.aliases with insideOr := d.aliases.insideOr } :=
  Step.yields_restoring.mp h

/-- What the members of a composite become. -/
def combine (operation : BooleanOp) (members : List Condition) : Option Condition :=
  match operation with
  | .and => grouped false members
  | .or => grouped true members
  | .not => (grouped false members).map .negation

/-- Members are emitted under a disjunction if the connective is one. -/
theorem combined_yields {operation : BooleanOp} {xs : Step Draft (List Condition)}
    (h : (combined operation xs).Yields d c e) :
    ∃ members, c = combine operation members ∧
      (xs.Yields d members e ∨
        ∃ u, xs.Yields (d.withAliases { d.aliases with insideOr := true }) members u ∧
          e = u.withAliases { u.aliases with insideOr := d.aliases.insideOr }) := by
  cases operation with
  | and =>
    obtain ⟨members, _, hxs, h₁⟩ := Step.yields_bind.mp h
    obtain ⟨rfl, rfl⟩ := Step.yields_pure.mp h₁
    exact ⟨members, rfl, .inl hxs⟩
  | or =>
    obtain ⟨u, hor, rfl⟩ := insideOr_yields h
    obtain ⟨members, _, hxs, h₁⟩ := Step.yields_bind.mp hor
    obtain ⟨rfl, rfl⟩ := Step.yields_pure.mp h₁
    exact ⟨members, rfl, .inr ⟨_, hxs, rfl⟩⟩
  | not =>
    obtain ⟨members, _, hxs, h₁⟩ := Step.yields_bind.mp h
    obtain ⟨rfl, rfl⟩ := Step.yields_pure.mp h₁
    exact ⟨members, rfl, .inl hxs⟩

/-- A composite of aggregates becomes a group, any other combines its members. -/
theorem composite_yields {group : Composite} {xs : Step Draft (List Condition)}
    (h : (composite group xs).Yields d c e) :
    (combined group.operation xs).Yields d c e ∨
      Filter.areAggregateOnly group.children = true ∧ group.children ≠ [] ∧
        (inHavingGroup (combined group.operation xs)).Yields d c e := by
  have h₁ := Step.yields_get_bind.mp h
  split at h₁
  · exact .inl h₁
  · split at h₁
    · rename_i honly
      split at h₁
      · exact .inl h₁
      · rename_i hne
        exact .inr ⟨honly, by simpa using hne, h₁⟩
    · split at h₁
      · exact (Step.yields_fail.mp h₁).elim
      · exact .inl h₁

/-! ## Leaves of several values, and joins -/

theorem elements_ne_nil_of_hasEntities {v : Value} (h : v.hasEntities = true) : v.elements ≠ [] := by
  intro hnil
  rw [Value.hasEntities, hnil] at h
  cases h

/-- A step that goes on goes on in the same draft. -/
theorem unlessImpossible_yields {several : Bool} {shape : Reported PathShape} {err : CompileError}
    {x : Emission} {c : Option Condition}
    (h : (do
        let impossible ← if several then do
            let shape ← Step.ofReported shape
            pure (!shape.crossesCollection)
          else pure false
        if impossible then Step.fail err else x).Yields d c e) : x.Yields d c e := by
  have hrest : ∀ impossible : Bool,
      (if impossible then Step.fail err else x).Yields d c e → x.Yields d c e := by
    intro impossible h
    split at h
    · exact (Step.yields_fail.mp h).elim
    · exact h
  split at h
  · obtain ⟨_, _, hshape, h₁⟩ := Step.yields_bind.mp h
    obtain ⟨-, rfl⟩ := Step.yields_ofReported.mp hshape
    obtain ⟨impossible, _, himpossible, h₂⟩ := Step.yields_bind.mp h₁
    obtain ⟨-, rfl⟩ := Step.yields_pure.mp himpossible
    exact hrest impossible h₂
  · obtain ⟨impossible, _, himpossible, h₁⟩ := Step.yields_bind.mp h
    obtain ⟨-, rfl⟩ := Step.yields_pure.mp himpossible
    exact hrest impossible h₁

/-- One value is compared, several are compared separately. -/
theorem containsAll_yields {t : Test} (h : (containsAll k t).Yields d c e) :
    (∃ v, t.value.elements = [v] ∧ (equality k t v true).Yields d c e) ∨
      ((∀ v, t.value.elements ≠ [v]) ∧ (routed t.isAggregate do
        let conditions ← separateComparisons k t t.value.elements
        pure (chained conditions)).Yields d c e) := by
  have h₁ := unlessImpossible_yields (Step.yields_get_bind.mp h)
  split at h₁
  · rename_i v hv
    exact .inl ⟨v, hv, h₁⟩
  · rename_i hne
    exact .inr ⟨hne, h₁⟩

/-- A join lists its class among the sources. -/
theorem join_yields {t : Test} (h : (join k t).Yields d c e) :
    ∃ other condition, t.joinProperty = some other ∧
      k.catalog.isKnown (Path.head other).1 = true ∧ c = some (.atom (.correlated condition)) ∧
      (d.inTheta = true ∧ (∃ left a right b, (Aliases.resolveEnclosing k.catalog t.property).Yields
          (d.aliases.addThetaSource (Path.head other).1 d.thetaInstance).2 left a ∧
          (Aliases.resolve k.catalog other {}).Yields a (some right) b ∧
          condition = .equal left right ∧
          e = { d.withAliases b with thetaInstance := d.thetaInstance + 1 }) ∨
        d.inTheta = false ∧ (correlation k t other).Yields
          (d.withAliases (d.aliases.addSource (Path.head other).1).2) condition e) := by
  obtain ⟨other, _, hproperty, h₁⟩ := Step.yields_bind.mp h
  obtain ⟨hother, rfl⟩ := joinProperty_yields hproperty
  obtain ⟨className, _, hclass, h₂⟩ := Step.yields_bind.mp h₁
  obtain ⟨rfl, hknown, rfl⟩ := joinClass_yields hclass
  have h₃ := Step.yields_get_bind.mp h₂
  split at h₃
  · rename_i htheta
    obtain ⟨_, _, hsource, h₄⟩ := Step.yields_bind.mp h₃
    obtain ⟨-, rfl⟩ := changeAliases_yields.mp hsource
    obtain ⟨_, _, hinstance, h₅⟩ := Step.yields_bind.mp h₄
    obtain rfl := Step.yields_modify.mp hinstance
    obtain ⟨left, _, hleft, h₆⟩ := Step.yields_bind.mp h₅
    obtain ⟨a, ha, rfl⟩ := aliased_yields.mp hleft
    obtain ⟨right, _, hright, h₇⟩ := Step.yields_bind.mp h₆
    obtain ⟨b, hb, rfl⟩ := resolve_yields hright
    obtain ⟨rfl, rfl⟩ := predicate_yields.mp h₇
    exact ⟨other, _, hother, hknown, rfl,
      .inl ⟨htheta, left, a, right, b, ha, hb, rfl, rfl⟩⟩
  · rename_i htheta
    obtain ⟨_, _, hsource, h₄⟩ := Step.yields_bind.mp h₃
    obtain ⟨-, rfl⟩ := changeAliases_yields.mp hsource
    obtain ⟨condition, _, hcondition, h₅⟩ := Step.yields_bind.mp h₄
    obtain ⟨rfl, rfl⟩ := predicate_yields.mp h₅
    exact ⟨other, condition, hother, hknown, rfl, .inr ⟨by simpa using htheta, hcondition⟩⟩

/-- An outer join leaves no condition. -/
theorem leftJoin_yields {t : Test} (h : (leftJoin k t).Yields d c e) :
    c = none ∧ ∃ other condition u, t.joinProperty = some other ∧
      k.catalog.isKnown (Path.head other).1 = true ∧ (correlation k t other).Yields
        (d.withAliases (d.aliases.obtainClassAlias (Path.head other).1).2) condition u ∧
      e = u.withAliases (u.aliases.addOnJoin (Path.head other).1 (Path.tail other)
        (d.aliases.obtainClassAlias (Path.head other).1).1 condition) := by
  obtain ⟨other, _, hproperty, h₁⟩ := Step.yields_bind.mp h
  obtain ⟨hother, rfl⟩ := joinProperty_yields hproperty
  obtain ⟨className, _, hclass, h₂⟩ := Step.yields_bind.mp h₁
  obtain ⟨rfl, hknown, rfl⟩ := joinClass_yields hclass
  obtain ⟨aliasName, _, halias, h₃⟩ := Step.yields_bind.mp h₂
  obtain ⟨rfl, rfl⟩ := changeAliases_yields.mp halias
  obtain ⟨condition, u, hcondition, h₄⟩ := Step.yields_bind.mp h₃
  obtain ⟨_, _, hjoin, h₅⟩ := Step.yields_bind.mp h₄
  obtain ⟨-, rfl⟩ := changeAliases_yields.mp hjoin
  obtain ⟨rfl, rfl⟩ := Step.yields_pure.mp h₅
  exact ⟨rfl, other, condition, u, hother, hknown, hcondition, rfl⟩

/-! ## Nested selects -/

/-- A nested select continues the numbering and hands its parameters over. -/
theorem inSelect_yields {reference : Reference} {negated : Bool} {className column : String}
    (h : (inSelect k reference negated className column x).Yields d c e) :
    ∃ condition u query v, x.Yields (.start className d.nextParameter) condition u ∧
      (assembleSelect k { columns := [column] }).Yields (u.addCondition condition) query v ∧
      c = some (.atom (.inSelect reference negated query.statement)) ∧
      e = { d with parameters := d.parameters ++ v.parameters } := by
  have h₁ := Step.yields_get_bind.mp h
  obtain ⟨_, _, hclass, h₂⟩ := Step.yields_bind.mp h₁
  obtain ⟨-, rfl⟩ := Step.yields_ofExcept.mp hclass
  obtain ⟨⟨query, v⟩, _, hnested, h₃⟩ := Step.yields_bind.mp h₂
  obtain ⟨hquery, rfl⟩ := Step.yields_isolated.mp hnested
  obtain ⟨condition, u, hx, hquery₁⟩ := Step.yields_bind.mp hquery
  obtain ⟨_, _, hadd, hquery₂⟩ := Step.yields_bind.mp hquery₁
  obtain rfl := Step.yields_modify.mp hadd
  obtain ⟨_, _, hparameters, h₄⟩ := Step.yields_bind.mp h₃
  obtain rfl := Step.yields_modify.mp hparameters
  obtain ⟨rfl, rfl⟩ := predicate_yields.mp h₄
  exact ⟨condition, u, query, v, hx, hquery₂, rfl, rfl⟩

theorem subquery_yields {t : Test} (h : (subquery k t x).Yields d c e) :
    (test k t).Yields d c e ∨
      ∃ className column, t.subqueryClass = some className ∧ t.subqueryProperty = some column ∧
        (routed t.isAggregate do
          let reference ← resolve k t.property false
          inSelect k reference false className column x).Yields d c e := by
  unfold subquery at h
  split at h
  · rename_i className column hclass hcolumn
    exact .inr ⟨className, column, hclass, hcolumn, h⟩
  · exact .inl h

/-- Owners are excluded by a select of the inverse property over the elements' class. -/
theorem excluding_yields {property : String} (h : (excluding k property x).Yields d c e) :
    let collection := (Text.dropStart? property (d.aliases.queryClass ++ ".")).getD property
    ∃ inverse declared element aliasName,
      k.catalog.inverse? d.aliases.currentClass collection = some inverse ∧
      k.catalog.property? d.aliases.currentClass collection = some declared ∧
      declared.kind.target = some element ∧ d.aliases.currentAlias = some aliasName ∧
      (inSelect k (.ofAlias aliasName) true element inverse x).Yields d c e := by
  have h₁ := Step.yields_get_bind.mp h
  obtain ⟨_, _, hlook, h₂⟩ := Step.yields_bind.mp h₁
  obtain ⟨rfl, rfl⟩ := Step.yields_ofReported.mp hlook
  obtain ⟨inverse, _, hinverse, h₃⟩ := Step.yields_bind.mp h₂
  obtain ⟨hinverse, rfl⟩ := Step.yields_orFail.mp hinverse
  obtain ⟨_, _, hlook, h₄⟩ := Step.yields_bind.mp h₃
  obtain ⟨rfl, rfl⟩ := Step.yields_ofReported.mp hlook
  obtain ⟨element, _, helement, h₅⟩ := Step.yields_bind.mp h₄
  obtain ⟨helement, rfl⟩ := Step.yields_orFail.mp helement
  obtain ⟨aliasName, _, halias, h₆⟩ := Step.yields_bind.mp h₅
  obtain ⟨halias, rfl⟩ := Step.yields_orFail.mp halias
  obtain ⟨declared, hdeclared, htarget⟩ := Option.bind_eq_some_iff.mp helement
  exact ⟨inverse, declared, element, aliasName, hinverse, hdeclared, htarget, halias, h₆⟩

/-! ## Conditions on collections -/

/-- The step runs in a scope that is opened before it and popped after it. -/
theorem inScope_yields {property : String} {outer : Bool}
    (h : (inScope k property outer x).Yields d c e) :
    ∃ a u, d.aliases.Enters k.catalog property a ∧ x.Yields (d.withAliases a) c u ∧
      e = u.withAliases u.aliases.pop := by
  have h₁ := Step.yields_get_bind.mp h
  split at h₁
  · rename_i hnames
    split at h₁
    · rename_i hknown
      obtain ⟨_, _, hpush, h₂⟩ := Step.yields_bind.mp h₁
      obtain ⟨-, rfl⟩ := changeAliases_yields.mp hpush
      obtain ⟨u, hx, rfl⟩ := Step.yields_restoring.mp h₂
      exact ⟨_, u, .theta hnames hknown, hx, rfl⟩
    · exact (Step.yields_fail.mp h₁).elim
  · rename_i hnames
    obtain ⟨aliasName, _, hpush, h₂⟩ := Step.yields_bind.mp h₁
    obtain ⟨a, hcollection, rfl⟩ := aliased_yields.mp hpush
    obtain ⟨u, hx, rfl⟩ := Step.yields_restoring.mp h₂
    exact ⟨a, u, .collection (by simpa using hnames) hcollection, hx, rfl⟩

/-- The plain part is emitted first, then the negated one. -/
theorem elementCondition_yields {property : String} {group : Composite}
    {plain negated : Step Draft (List Condition)}
    (h : (elementCondition k property group plain negated).Yields d c e) :
    ∃ kept u excluded v outer,
      (keptPart k property outer group.split.1 plain).Yields
        { d with inTheta := namesClass property } kept u ∧
      (excludedPart k property group.split.2 negated).Yields u excluded v ∧
      c = joinParts (group.operation == .or) kept excluded ∧
      e = { v with inTheta := d.inTheta } := by
  rw [elementCondition_eq] at h
  obtain ⟨v, h₁, rfl⟩ := Step.yields_restoring.mp h
  obtain ⟨kept, u, hkept, h₂⟩ := Step.yields_bind.mp h₁
  obtain ⟨excluded, w, hexcluded, h₃⟩ := Step.yields_bind.mp h₂
  obtain ⟨rfl, rfl⟩ := Step.yields_pure.mp h₃
  exact ⟨kept, u, excluded, v, _, hkept, hexcluded, rfl, rfl⟩

/-! ## Several children -/

theorem together_yields {xs : Step Draft (List Condition)} {cs : List Condition}
    (h : (together x xs).Yields d cs e) :
    ∃ condition u rest, x.Yields d condition u ∧ xs.Yields u rest e ∧
      cs = condition.toList ++ rest := by
  obtain ⟨condition, u, hx, h₁⟩ := Step.yields_bind.mp h
  obtain ⟨rest, v, hxs, h₂⟩ := Step.yields_bind.mp h₁
  obtain ⟨rfl, rfl⟩ := Step.yields_pure.mp h₂
  exact ⟨condition, u, rest, hx, hxs, rfl⟩

end

end Draft

end ObjectQuery
