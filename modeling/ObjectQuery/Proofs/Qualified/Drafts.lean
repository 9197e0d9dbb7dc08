import ObjectQuery.Proofs.Matching.Drafts
import ObjectQuery.Proofs.Qualified.Paths

/-!
# Steps that concur at home

Outside conditions on collections, and as long as no condition on a class has taken the alias of the
query class over, a draft is at home in its class. Two steps concur if they have the same successful
runs from there.

* `Draft.AtHome`: drafts that are at home in a class.
* `Draft.AtHome.kept`: steps that keep to the context of a draft and do not correlate the class lead
  home.
* `Draft.Concurs`: steps with the same successful runs, which lead home. The rules put such steps
  together.
-/

namespace ObjectQuery

open Step Aliases

namespace Draft

variable {C : String} {d e : Draft} {α : Type}

/-- The query is over the class, no scope is open but the root one, and no instance of the class is
correlated. -/
structure AtHome (C : String) (d : Draft) : Prop where
  queryClass : d.aliases.queryClass = C
  frames : d.aliases.frames = (Aliases.start C).frames
  inTheta : d.inTheta = false
  namings : ∃ ns, d.Reflects ns ∧ .correlated C ∉ ns ∧ Naming.names C ns = true

namespace AtHome

theorem start (C : String) (first : Nat) : (Draft.start C first).AtHome C where
  queryClass := rfl
  frames := rfl
  inTheta := rfl
  namings := ⟨[.listed C], ⟨.start C, rfl⟩, by simp,
    Naming.names_iff.mpr ⟨_, List.mem_singleton.mpr rfl, rfl⟩⟩

/-- The class has the alias that it has from the start. -/
theorem aliases (h : d.AtHome C) : d.aliases.AtHome C := by
  obtain ⟨ns, hreflects, hcorrelated, hnamed⟩ := h.namings
  refine ⟨h.queryClass, h.frames, ?_⟩
  rw [hreflects.aliases.classAliases, Naming.aliasOf, Naming.aliasFrom_of_not_mem hcorrelated, hnamed]
  rfl

theorem scopes_ne_nil (h : d.AtHome C) : d.aliases.scopes ≠ [] := by
  obtain ⟨joined, hscopes⟩ := h.aliases.scope
  rw [hscopes]
  exact List.cons_ne_nil _ _

/-- Only the context of the draft matters. -/
theorem same (h : d.AtHome C) (haliases : e.aliases = d.aliases)
    (hinstance : e.thetaInstance = d.thetaInstance) (htheta : e.inTheta = d.inTheta) :
    e.AtHome C := by
  obtain ⟨ns, hreflects, hnamings⟩ := h.namings
  refine ⟨?_, ?_, htheta.trans h.inTheta, ns, ?_, hnamings⟩
  · rw [haliases, h.queryClass]
  · rw [haliases, h.frames]
  · exact hreflects.same (haliases ▸ Std.Refl.refl _) hinstance

/-- A draft that resumes one at home, behind namings that do not correlate the class. -/
theorem resumed (h : d.AtHome C) (hresumes : d.Resumes e)
    (hnamings : ∀ ns, d.Reflects ns → ∃ more, e.Reflects (ns ++ more) ∧ .correlated C ∉ more) :
    e.AtHome C := by
  obtain ⟨ns, hreflects, hcorrelated, hnamed⟩ := h.namings
  obtain ⟨more, hmore, hmore'⟩ := hnamings ns hreflects
  refine ⟨hresumes.aliases.queryClass.trans h.queryClass, hresumes.aliases.frames.trans h.frames,
    hresumes.inTheta.trans h.inTheta, ns ++ more, hmore, ?_, ?_⟩
  · exact fun hmem => (List.mem_append.mp hmem).elim hcorrelated hmore'
  · rw [Naming.names_append, hnamed, Bool.true_or]

/-- A step that keeps to the context and does not correlate the class leads home. -/
theorem kept {x : Step Draft α} {namings : Bool → List Naming} (hsteady : Steady x)
    (hprogresses : Progresses namings x) (hcorrelated : .correlated C ∉ namings false) :
    ∀ d a e, x.Yields d a e → d.AtHome C → e.AtHome C := by
  intro d a e hx h
  refine h.resumed (hsteady.yields hx h.scopes_ne_nil) fun ns hreflects => ?_
  have hmore := (hprogresses (i := ()) hx hreflects).1
  rw [h.inTheta] at hmore
  exact ⟨namings false, hmore, hcorrelated⟩

end AtHome

/-- From drafts at home in the class both steps have the same successful runs, which lead home. -/
abbrev Concurs (C : String) (x y : Step Draft α) : Prop :=
  Step.Coincides (AtHome C) (AtHome C) x y

namespace Concurs

/-! ## Basic steps -/

/-- A step concurs with itself if it keeps to the context and makes no joins with other classes. -/
theorem quiet {x : Step Draft α} (hsteady : Steady x) (hprogresses : Progresses (fun _ => []) x) :
    Concurs C x x :=
  .refl (AtHome.kept hsteady hprogresses List.not_mem_nil)

theorem aliased {x y : Step Aliases α}
    (h : Coincides (Aliases.AtHome C) (Aliases.AtHome C) x y)
    (hclasses : Leads SameClasses SameClasses x) :
    Concurs C (Draft.aliased x) (Draft.aliased y) := by
  intro d hd r e
  rw [aliased_yields, aliased_yields]
  have hrun := h hd.aliases r
  refine ⟨exists_congr fun a => and_congr_left fun _ => (hrun a).1, ?_⟩
  rintro ⟨a, ha, rfl⟩
  have hhome := (hrun a).2 ha
  obtain ⟨ns, hreflects, hnamings⟩ := hd.namings
  exact ⟨hhome.queryClass, hhome.frames, hd.inTheta, ns,
    hreflects.same (hclasses.yields ha) rfl, hnamings⟩

/-- Classes are given aliases or are listed among the sources, and no instance of one is
correlated. -/
theorem changeAliases {f : Aliases → α × Aliases} (more : List Naming)
    (hmore : Naming.instances more = 0) (hresumes : ∀ a : Aliases, a.Resumes (f a).2)
    (hreflects : ∀ {a : Aliases} {ns}, a.Reflects ns → (f a).2.Reflects (ns ++ more)) :
    Concurs C (Draft.changeAliases f) (Draft.changeAliases f) := by
  refine .refl fun d r e hx hd => ?_
  obtain ⟨-, rfl⟩ := changeAliases_yields.mp hx
  refine hd.resumed (.withAliases (hresumes _)) fun ns hd =>
    ⟨more, ⟨hreflects hd.aliases, ?_⟩, fun hmem => ?_⟩
  · rw [Naming.instances_append, hmore]
    exact hd.instances
  · exact List.countP_eq_zero.mp hmore _ hmem rfl

theorem bindValue (v : Value) : Concurs C (Draft.bind v) (Draft.bind v) :=
  .get_bind fun _ _ => .bind (.modify fun _ hd => hd.same rfl rfl rfl) fun _ => .pure _

theorem bindAll (values : List Value) : Concurs C (Draft.bindAll values) (Draft.bindAll values) := by
  induction values with
  | nil => exact .pure []
  | cons v rest ih => exact .bind (bindValue v) fun _ => .bind ih fun _ => .pure _

/-! ## Clauses -/

theorem predicate (a : Atom) : Concurs C (Draft.predicate a) (Draft.predicate a) := .pure _

theorem inHavingGroup {x y : Emission} (hx : Concurs C x y) :
    Concurs C (Draft.inHavingGroup x) (Draft.inHavingGroup y) := by
  refine .bind (.restoring hx (fun _ hd => hd.same rfl rfl rfl) fun _ _ _ hd => hd.same rfl rfl rfl)
    fun group => .bind (.modify fun d hd => ?_) fun _ => .pure _
  unfold addGroup
  split
  · exact hd
  · exact hd.same rfl rfl rfl

theorem insideOr {x y : Emission} (hx : Concurs C x y) :
    Concurs C (Draft.insideOr x) (Draft.insideOr y) := by
  have hmark : ∀ (d : Draft) (insideOr : Bool), d.AtHome C →
      (d.withAliases { d.aliases with insideOr }).AtHome C := by
    intro d insideOr hd
    obtain ⟨ns, hreflects, hnamings⟩ := hd.namings
    exact ⟨hd.queryClass, hd.frames, hd.inTheta, ns, hreflects.same ⟨rfl, rfl⟩ rfl, hnamings⟩
  exact .restoring hx (fun d hd => hmark d true hd) fun _ u _ hu => hmark u _ hu

theorem combined (operation : BooleanOp) {xs ys : Step Draft (List Condition)}
    (h : Concurs C xs ys) :
    Concurs C (Draft.combined operation xs) (Draft.combined operation ys) := by
  cases operation with
  | and => exact .bind h fun _ => .pure _
  | or => exact insideOr (.bind h fun _ => .pure _)
  | not => exact .bind h fun _ => .pure _

theorem composite {c c' : Composite} (hc : Matches.RoutedAlike c c')
    {xs ys : Step Draft (List Condition)} (h : Concurs C xs ys) :
    Concurs C (Draft.composite c xs) (Draft.composite c' ys) := by
  unfold Draft.composite routedComposite
  rw [hc.operation, hc.isEmpty, hc.areAggregateOnly, hc.anyHasAggregate]
  have hx := combined c.operation h
  refine .get_bind fun d _ => ?_
  split
  · exact hx
  · split
    · split
      · exact hx
      · exact inHavingGroup hx
    · split
      · exact .fail _ _
      · exact hx

theorem together {x y : Emission} {xs ys : Step Draft (List Condition)} (hx : Concurs C x y)
    (hxs : Concurs C xs ys) : Concurs C (Draft.together x xs) (Draft.together y ys) :=
  .bind hx fun _ => .bind hxs fun _ => .pure _

end Concurs

end Draft

end ObjectQuery
