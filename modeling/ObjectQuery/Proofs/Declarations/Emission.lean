import ObjectQuery.Proofs.Declarations.Advances

/-!
# The namings that a filter makes

A filter adds its joins with other classes to the record of the aliases, one behind the other, and
leaves the scopes as it found them.

* `Draft.Adds`: a step that adds namings to the record of a draft's aliases.
* `Draft.Framed.namingRules`: records with given scopes meet the rules for namings.
* `Draft.adds_emit`: a filter adds `Filter.namings`.
* `Draft.assembleSelect_records`, `Draft.assembleDelete_records`: a statement lists the sources and
  joins of the record.
-/

namespace ObjectQuery

namespace Aliases

variable {a b u : Aliases} {c : Catalog} {ns : List Naming} {instances : Nat}

/-! ## Records and scopes -/

/-- Whether joins are made under a disjunction does not matter. -/
theorem Records.insideOr (h : a.Records c ns instances) (insideOr : Bool) :
    Records c ns instances { a with insideOr } :=
  have ho := h.orderly
  h.navigates ⟨rfl, rfl, rfl, [], (List.append_nil _).symm, by simp⟩
    ⟨ho.classAliases, ho.scopes, ho.roots, ho.distinct, ho.numbered⟩

/-- A path that is resolved leaves the record alone. -/
theorem Records.roams {α : Type} {x : Step Aliases α} {r : α} (h : a.Records c ns instances)
    (hx : Roams x) (hr : x.Yields a r b) : b.Records c ns instances ∧ b.frames = a.frames :=
  have ⟨hgrows, hb⟩ := hx hr h.orderly
  ⟨h.navigates hgrows hb, hgrows.frames⟩

/-- A new innermost scope leaves the root scope alone. -/
theorem Rooted.push (h : u.Rooted) (scope : Scope) :
    Rooted { u with scopes := scope :: u.scopes } := by
  have hroot : rootAlias { u with scopes := scope :: u.scopes } = u.rootAlias := by
    obtain ⟨outer, rest, hscopes⟩ := List.exists_cons_of_ne_nil h.scopes
    unfold rootAlias
    rw [hscopes, List.getLast?_cons_cons]
  refine ⟨List.cons_ne_nil _ _, ?_, ?_⟩
  · rw [hroot]
    exact h.root
  · rw [hroot]
    exact h.outer

theorem Records.push (h : a.Records c ns instances) (hgrows : a.Navigates u) {scope : Scope}
    (horderly : Orderly (· ∈ a.classesDeclared) { u with scopes := scope :: u.scopes }) :
    Records c ns instances { u with scopes := scope :: u.scopes } := by
  refine ⟨h.known, ?_, ?_, (hgrows.rooted h.rooted).push scope⟩
  · have hhistory := hgrows.history h.history
    exact ⟨hhistory.named, hhistory.listed, hhistory.names, hhistory.distinct⟩
  · have hsame : classesDeclared { u with scopes := scope :: u.scopes } = a.classesDeclared :=
      hgrows.classesDeclared
    rwa [hsame]

theorem Records.pushTheta (h : a.Records c ns instances) : a.pushTheta.Records c ns instances := by
  refine h.push (.refl a) (h.orderly.withScopes ?_)
  refine List.forall_mem_cons.mpr ⟨⟨?_, ?_⟩, h.orderly.scopes⟩
  · rintro _ ⟨⟩
  · exact fun entry hentry => absurd hentry List.not_mem_nil

/-- The innermost scope is closed again: the scopes behind it are the others. -/
theorem pop_eq (frame : Scope) (hframes : b.frames = frame :: a.frames) (ha : a.scopes ≠ []) :
    ∃ inner scopes, b.scopes = inner :: scopes ∧ scopes ≠ [] ∧ b.pop = { b with scopes } ∧
      b.pop.frames = a.frames := by
  obtain ⟨inner, scopes, hb, -, houter⟩ := List.map_eq_cons_iff.mp hframes
  obtain ⟨outer, rest, rfl⟩ : ∃ outer rest, scopes = outer :: rest := by
    refine List.exists_cons_of_ne_nil ?_
    rintro rfl
    exact ha (List.map_eq_nil_iff.mp houter.symm)
  have hpop : b.pop = { b with scopes := outer :: rest } := by
    unfold Aliases.pop
    rw [hb]
  exact ⟨inner, _, hb, List.cons_ne_nil _ _, hpop, by rw [hpop]; exact houter⟩

theorem Rooted.pop (h : b.Rooted) {inner : Scope} {scopes : List Scope}
    (hb : b.scopes = inner :: scopes) (hne : scopes ≠ []) : Rooted { b with scopes } := by
  obtain ⟨outer, rest, rfl⟩ := List.exists_cons_of_ne_nil hne
  have hroot : rootAlias { b with scopes := outer :: rest } = b.rootAlias := by
    unfold rootAlias
    rw [hb, List.getLast?_cons_cons]
  refine ⟨hne, ?_, ?_⟩
  · rw [hroot]
    exact h.root
  · rw [hroot]
    exact h.outer

theorem Records.pop (h : b.Records c ns instances) {frame : Scope}
    (hframes : b.frames = frame :: a.frames) (ha : a.scopes ≠ []) :
    b.pop.Records c ns instances ∧ b.pop.frames = a.frames := by
  obtain ⟨inner, scopes, hb, hne, hpop, hpopframes⟩ := pop_eq _ hframes ha
  have hscopes := h.orderly.scopes
  rw [hb] at hscopes
  refine ⟨?_, hpopframes⟩
  rw [hpop]
  refine ⟨h.known, ?_, h.orderly.withScopes (List.forall_mem_cons.mp hscopes).2,
    h.rooted.pop hb hne⟩
  exact ⟨h.history.named, h.history.listed, h.history.names, h.history.distinct⟩

end Aliases

namespace Draft

open Aliases

variable {k : Compiler} {d e : Draft} {ns : List Naming}

/-- The aliases of the draft go back to namings, and so do the numbers of the correlated classes. -/
def Records (k : Compiler) (ns : List Naming) (d : Draft) : Prop :=
  d.aliases.Records k.catalog ns d.thetaInstance

/-- The step adds namings, which depend on the mark of theta joins, and leaves the mark and the
scopes as they were. -/
def Adds {α : Type} (k : Compiler) (namings : Bool → List Naming) (x : Step Draft α) : Prop :=
  ∀ ns d a e, x.Yields d a e → d.Records k ns →
    e.Records k (ns ++ namings d.inTheta) ∧ e.aliases.frames = d.aliases.frames ∧
      e.inTheta = d.inTheta

/-- A draft with a record and with given scopes. -/
def Framed (k : Compiler) (frames : List Scope) (ns : List Naming) (d : Draft) : Prop :=
  d.Records k ns ∧ d.aliases.frames = frames

theorem Adds.of_advances {α : Type} {namings : Bool → List Naming} {x : Step Draft α}
    (h : Advances (Framed k) namings x) : Adds k namings x := by
  intro ns d a e hx hd
  obtain ⟨⟨he, hframes⟩, htheta⟩ := h hx ⟨hd, rfl⟩
  exact ⟨he, hframes, htheta⟩

namespace Framed

variable {frames : List Scope} {x : Emission}

/-- A path that is resolved leaves the record and the scopes alone. -/
theorem touches (hd : d.Framed k frames ns) (h : d.Touches k e) : e.Framed k frames ns := by
  obtain ⟨_, _, _, a, _, ha, rfl⟩ := h
  obtain ⟨hrecords, hframes⟩ := hd.1.roams (roams_resolve _ _) ha
  exact ⟨hrecords, hframes.trans hd.2⟩

/-- A correlation resolves two paths. -/
theorem correlation {t : Test} {other : String} {condition : Correlation}
    (h : (Draft.correlation k t other).Yields d condition e) {A : String → Prop}
    (hd : d.aliases.Orderly A) :
    (d.aliases.Navigates e.aliases ∧ e.aliases.Orderly A) ∧
      e.thetaInstance = d.thetaInstance ∧ e.inTheta = d.inTheta := by
  obtain ⟨_, a, _, b, _, ha, hb, -, rfl⟩ := correlation_yields h
  obtain ⟨hgrows, horderly⟩ := roams_resolve _ _ ha hd
  obtain ⟨hgrows', horderly'⟩ := roams_resolve _ _ hb horderly
  exact ⟨⟨hgrows.trans hgrows', horderly'⟩, rfl, rfl⟩

/-- A class is correlated inside a condition on a class, and listed elsewhere. -/
theorem join (hk : k.catalog.Distinct) {t : Test} (ht : t.operation = .join) :
    Advances (Framed k) (Test.namings · t) (Draft.join k t) := by
  rintro _ ns d c e h ⟨hd, rfl⟩
  obtain ⟨other, condition, hother, hknown, -, hcases⟩ := join_yields h
  show e.Framed k _ (ns ++ t.namings d.inTheta) ∧ _
  rw [Test.namings, ht, hother]
  obtain ⟨htheta, _, a, _, b, ha, hb, -, rfl⟩ | ⟨htheta, hcondition⟩ := hcases
  · rw [htheta]
    have hlisted := Aliases.Records.addThetaSource hd hknown
    obtain ⟨ha, hframes⟩ := hlisted.roams (roams_resolveEnclosing _) ha
    obtain ⟨hb, hframes'⟩ := ha.roams (roams_resolve _ _) hb
    exact ⟨⟨hb, hframes'.trans hframes⟩, htheta⟩
  · rw [htheta]
    have hlisted := Aliases.Records.addSource hd hk hknown
    obtain ⟨⟨hgrows, horderly⟩, hinstance, hmark⟩ := correlation hcondition hlisted.orderly
    have hframes := d.aliases.frames_addSource (Path.head other).1
    refine ⟨⟨?_, hgrows.frames.trans hframes⟩, hmark.trans htheta⟩
    rw [Records, hinstance]
    exact hlisted.navigates hgrows horderly

theorem leftJoin (hk : k.catalog.Distinct) {t : Test} (ht : t.operation = .leftJoin) :
    Advances (Framed k) (Test.namings · t) (Draft.leftJoin k t) := by
  rintro _ ns d c e h ⟨hd, rfl⟩
  obtain ⟨-, other, condition, u, hother, hknown, hcondition, rfl⟩ := leftJoin_yields h
  obtain ⟨⟨hgrows, horderly⟩, hinstance, hmark⟩ :=
    correlation hcondition (hd.orderly.obtainClassAlias (Path.head other).1)
  have hframes := d.aliases.frames_obtainClassAlias (Path.head other).1
  refine ⟨⟨?_, hgrows.frames.trans hframes⟩, hmark⟩
  show Aliases.Records _ (ns ++ t.namings d.inTheta) u.thetaInstance _
  rw [Test.namings, ht, hother, hinstance]
  exact Aliases.Records.addOnJoin hd hk hknown hgrows horderly _ condition

/-- A step adds the same namings in a scope of its own, which is closed again behind it. -/
theorem inScope {namings : Bool → List Naming} (property : String) (outer : Bool)
    (hx : Advances (Framed k) namings x) :
    Advances (Framed k) namings (Draft.inScope k property outer x) := by
  rintro _ ns d c e h ⟨hd, rfl⟩
  obtain ⟨a, u, hpush, hu, rfl⟩ := inScope_yields h
  obtain ⟨frame, hframes, ha⟩ : ∃ frame, a.frames = frame :: d.aliases.frames ∧
      a.Records k.catalog ns d.thetaInstance := by
    cases hpush with
    | theta => exact ⟨_, rfl, Aliases.Records.pushTheta hd⟩
    | collection _ hcollection =>
      obtain ⟨v, scope, hgrows, rfl, horderly⟩ := pushCollection_yields hd.orderly hcollection
      exact ⟨scope.frame, congrArg (scope.frame :: ·) hgrows.frames,
        Aliases.Records.push hd hgrows horderly⟩
  obtain ⟨⟨hrecords, hframes'⟩, htheta⟩ := hx hu ⟨ha, hframes⟩
  exact ⟨Aliases.Records.pop hrecords hframes' hd.rooted.scopes, htheta⟩

/-- Order, projection and grouping keep the record and the scopes. -/
theorem clauseRules (k : Compiler) :
    ClauseRules k fun _ => Advances (Framed k) fun _ => [] :=
  Advances.clauseRules fun _ _ _ _ => touches

theorem namingRules (hk : k.catalog.Distinct) : NamingRules k (Framed k) where
  same := fun {_ _ d e} ⟨hd, hframes⟩ haliases hinstance => by
    rw [Framed, Records, haliases, hinstance]
    exact ⟨hd, hframes⟩
  insideOr b hd := ⟨Aliases.Records.insideOr hd.1 b, hd.2⟩
  touches _ _ _ _ := touches
  join := join hk
  leftJoin := leftJoin hk
  inScope property outer _ _ := inScope property outer

end Framed

/-- A filter adds its joins with other classes. -/
theorem adds_emit (hk : k.catalog.Distinct) (f : Filter) :
    Adds k (Filter.namings · f) (emit k f) :=
  .of_advances ((Framed.namingRules hk).emit f)

/-! ## Assembling -/

/-- The select lists the sources of the aliases that its own paths have left. -/
theorem assembleSelect_records {spec : SelectSpec} {assembled : Assembled Select}
    (h : (assembleSelect k spec).Yields d assembled e) (hd : d.Records k ns) :
    e.Records k ns ∧ assembled.statement.sources = e.aliases.sourceList := by
  have h₁ := Step.yields_get_bind.mp h
  split at h₁
  · exact (Step.yields_fail.mp h₁).elim
  · obtain ⟨orderBy, u, horder, h₂⟩ := Step.yields_bind.mp h₁
    obtain ⟨items, v, hselect, h₃⟩ := Step.yields_bind.mp h₂
    obtain ⟨groupBy, w, hgroup, h₄⟩ := Step.yields_bind.mp h₃
    have h₅ := Step.yields_get_bind.mp h₄
    obtain ⟨rfl, rfl⟩ := Step.yields_pure.mp h₅
    obtain ⟨hu, -⟩ := (Framed.clauseRules k).orderTerms _ horder ⟨hd, rfl⟩
    obtain ⟨hv, -⟩ := (Framed.clauseRules k).selectList _ _ hselect hu
    obtain ⟨⟨hw, -⟩, -⟩ := (Framed.clauseRules k).groupTerms _ hgroup hv
    simp only [List.append_nil] at hw
    exact ⟨hw, rfl⟩

theorem assembleDelete_records {assembled : Assembled Delete}
    (h : assembleDelete.Yields d assembled e) (hd : d.Records k ns) :
    e.Records k ns ∧ assembled.statement.sources = e.aliases.sourceList := by
  have h₁ := Step.yields_get_bind.mp h
  split at h₁
  · exact (Step.yields_fail.mp h₁).elim
  · obtain ⟨rfl, rfl⟩ := Step.yields_pure.mp h₁
    exact ⟨hd, rfl⟩

end Draft

end ObjectQuery
