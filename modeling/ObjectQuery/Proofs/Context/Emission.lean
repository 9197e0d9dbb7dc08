import ObjectQuery.Proofs.Compiler.Run
import ObjectQuery.Proofs.Context.Aliases
import ObjectQuery.Proofs.Context.Visits
import ObjectQuery.Proofs.Parameters.Rendering

/-!
# What a filter leaves of the context

A filter that is visited leaves the context of the draft as it found it, also where it fails on the
way: the scopes, the marks of disjunctions and theta joins, and the group that is being written.
Everything else in the draft only grows at the end.

* `Draft.Resumes`: a draft in the context of another that has grown at the end.
* `Draft.Steady`: a step that leaves such drafts behind in any case.
* `Draft.continues`: each change of a visit does so.
* `Draft.visit_resumes`: so does the visit of a filter.
* `Draft.Underlies`: what a draft has gathered is kept in another, which may stand in other scopes.
-/

namespace ObjectQuery

open Step

/-- Pieces behind other pieces are written behind their text. -/
theorem Text.joinWith_append (separator : String) (pieces others : List String) :
    ∃ more, joinWith separator (pieces ++ others) = joinWith separator pieces ++ more := by
  match pieces with
  | [] => exact ⟨_, (String.empty_append).symm⟩
  | [s] =>
    cases others with
    | nil => exact ⟨"", (String.append_empty).symm⟩
    | cons t rest => exact ⟨separator ++ joinWith separator (t :: rest), String.append_assoc ..⟩
  | s :: t :: rest =>
    obtain ⟨more, hmore⟩ := joinWith_append separator (t :: rest) others
    refine ⟨more, ?_⟩
    show s ++ separator ++ joinWith separator ((t :: rest) ++ others) = _
    rw [hmore, ← String.append_assoc]
    rfl

namespace Draft

/-- A draft in the context of another, with more of everything that is gathered behind what was
gathered before. -/
structure Resumes (d e : Draft) : Prop where
  aliases : d.aliases.Resumes e.aliases
  firstParameter : e.firstParameter = d.firstParameter
  inHaving : e.inHaving = d.inHaving
  inTheta : e.inTheta = d.inTheta
  autoIgnoreCase : e.autoIgnoreCase = d.autoIgnoreCase
  conditions : d.conditions <+: e.conditions
  having : d.having <+: e.having
  parameters : d.parameters <+: e.parameters

namespace Resumes

variable {d e f : Draft}

theorem refl (d : Draft) : d.Resumes d :=
  ⟨.refl _, rfl, rfl, rfl, rfl, List.prefix_rfl, List.prefix_rfl, List.prefix_rfl⟩

theorem trans (h : d.Resumes e) (h' : e.Resumes f) : d.Resumes f :=
  ⟨h.aliases.trans h'.aliases, h'.firstParameter.trans h.firstParameter,
    h'.inHaving.trans h.inHaving, h'.inTheta.trans h.inTheta,
    h'.autoIgnoreCase.trans h.autoIgnoreCase, h.conditions.trans h'.conditions,
    h.having.trans h'.having, h.parameters.trans h'.parameters⟩

theorem withAliases {a : Aliases} (h : d.aliases.Resumes a) : d.Resumes (d.withAliases a) :=
  { refl d with aliases := h }

/-- Other aliases that resume those of the first draft. -/
theorem realias (h : d.Resumes e) {a : Aliases} (ha : d.aliases.Resumes a) :
    d.Resumes (e.withAliases a) :=
  { h with aliases := ha }

end Resumes

theorem addGroup_resumes (d : Draft) (group : Option Condition) : d.Resumes (d.addGroup group) := by
  unfold addGroup
  split
  · exact .refl d
  · exact { Resumes.refl d with having := List.prefix_append _ _ }

/-- From an open scope on, the draft is resumed. The root scope of a draft is always open. -/
def Continues (d e : Draft) : Prop := d.aliases.scopes ≠ [] → d.Resumes e

instance : IsPreorder Draft Continues where
  refl d _ := .refl d
  trans _ _ _ h h' hd :=
    have hde := h hd
    hde.trans (h' (hde.aliases.scopes_ne_nil hd))

/-- The step leaves a draft that resumes the one it starts from, also where it fails. -/
abbrev Steady {α : Type} (x : Step Draft α) : Prop := Leads Continues Continues x

theorem steady_aliased {α : Type} {x : Step Aliases α}
    (hx : Leads Aliases.Resumes Aliases.Resumes x) : Steady (aliased x) := fun d =>
  (hx d.aliases).zoom (fun _ hu _ => .withAliases hu) fun _ hu _ => .withAliases hu

/-- The paths of clauses resume the draft, too. -/
theorem steady_resolveClause (k : Compiler) (path : String) (outer : Bool) :
    Steady (resolveClause k path outer) := by
  refine (steady_aliased (Aliases.resumes_walk.resolve path _)).bind fun found => ?_
  split
  · exact .pure _
  · exact Leads.get.bind fun _ => .fail _

/-- A scope that has been opened is closed again. -/
theorem Continues.closed {d u : Draft} {a : Aliases} (ha : d.aliases.Opens a)
    (h : Continues (d.withAliases a) u) : d.Continues (u.withAliases u.aliases.pop) := by
  intro hd
  have hopen : (d.withAliases a).aliases.scopes ≠ [] := by
    obtain ⟨v, scope, -, rfl⟩ := ha
    exact List.cons_ne_nil _ _
  have hu := h hopen
  exact { hu with aliases := ha.pop hu.aliases hd }

/-- Each change of a visit resumes the draft. -/
theorem continues (k : Compiler) : VisitRules k Continues where
  path path o _ := steady_aliased (Aliases.resumes_walk.resolve path o)
  enclosingPath path := steady_aliased (Aliases.resumes_walk.resolveEnclosing path)
  obtainClassAlias d className _ := .withAliases (d.aliases.obtainClassAlias_resumes className)
  addSource d className _ := .withAliases (d.aliases.addSource_resumes className)
  addThetaSource d className number _ :=
    .withAliases (d.aliases.addThetaSource_resumes className number)
  addOnJoin d className property aliasName condition _ :=
    .withAliases (d.aliases.addOnJoin_resumes className property aliasName condition)
  thetaInstance d _ _ := { Resumes.refl d with }
  parameters d _ _ := { Resumes.refl d with parameters := List.prefix_append _ _ }
  addGroup d group _ := addGroup_resumes d group
  addCondition d _ _ := { Resumes.refl d with conditions := List.prefix_append _ _ }
  inHaving _ hu hd := { hu hd with inHaving := rfl }
  inTheta _ hu hd := { hu hd with inTheta := rfl }
  insideOr _ hu hd := { hu hd with aliases := { (hu hd).aliases with insideOr := rfl } }
  thetaScope hu := Continues.closed ⟨_, _, .refl _, rfl⟩ hu
  collectionScope d property joinType := by
    have hpush := Aliases.resumes_walk.pushCollection (c := k.catalog) property joinType d.aliases
    exact hpush.zoom (fun u hu _ => .withAliases hu) fun a ha u => Continues.closed ha

/-- Whatever a filter emits, and wherever it fails, the draft is resumed. -/
theorem steady_emit (k : Compiler) (f : Filter) : Steady (emit k f) := (continues k).emit f

theorem steady_visit (k : Compiler) (f : Filter) : Steady (visit k f) := (continues k).visit f

/-! ## What has been gathered -/

/-- What a draft has gathered is the beginning of what another draft of the query has, in whichever
scopes that one stands and whatever it writes. -/
structure Underlies (d z : Draft) : Prop where
  aliases : d.aliases.Underlies z.aliases
  firstParameter : z.firstParameter = d.firstParameter
  parameters : d.parameters <+: z.parameters

instance : IsPreorder Draft Underlies where
  refl _ := ⟨Std.Refl.refl _, rfl, List.prefix_rfl⟩
  trans _ _ _ h h' :=
    ⟨IsTrans.trans _ _ _ h.aliases h'.aliases, h'.firstParameter.trans h.firstParameter,
      h.parameters.trans h'.parameters⟩

namespace Underlies

variable {d e z : Draft}

theorem refl (d : Draft) : d.Underlies d := Std.Refl.refl d

theorem trans (h : d.Underlies e) (h' : e.Underlies z) : d.Underlies z := IsTrans.trans _ _ _ h h'

theorem withAliases {a : Aliases} (h : d.aliases.Underlies a) : d.Underlies (d.withAliases a) :=
  { refl d with aliases := h }

theorem addGroup (d : Draft) (group : Option Condition) : d.Underlies (d.addGroup group) := by
  unfold Draft.addGroup
  split <;> exact ⟨Std.Refl.refl _, rfl, List.prefix_rfl⟩

/-- The scope that has been opened is closed again. -/
theorem pop (h : d.Underlies e) : d.Underlies (e.withAliases e.aliases.pop) :=
  h.trans (withAliases e.aliases.underlies_pop)

end Underlies

theorem underlies_aliased {α : Type} {x : Step Aliases α}
    (hx : Leads Aliases.Resumes Aliases.Resumes x) : Leads Underlies Underlies (aliased x) :=
  fun d => (hx d.aliases).zoom (fun _ hu => .withAliases hu.underlies)
    fun _ hu => .withAliases hu.underlies

/-- No change of a visit takes away what has been gathered. -/
theorem underlies (k : Compiler) : VisitRules k Underlies where
  path path o _ := underlies_aliased (Aliases.resumes_walk.resolve path o)
  enclosingPath path := underlies_aliased (Aliases.resumes_walk.resolveEnclosing path)
  obtainClassAlias d className :=
    .withAliases (d.aliases.obtainClassAlias_resumes className).underlies
  addSource d className := .withAliases (d.aliases.addSource_resumes className).underlies
  addThetaSource d className number :=
    .withAliases (d.aliases.addThetaSource_resumes className number).underlies
  addOnJoin d className property aliasName condition :=
    .withAliases (d.aliases.addOnJoin_resumes className property aliasName condition).underlies
  thetaInstance d _ := { Underlies.refl d with }
  parameters d _ := { Underlies.refl d with parameters := List.prefix_append _ _ }
  addGroup := .addGroup
  addCondition d _ := { Underlies.refl d with }
  inHaving _ hu := { hu with }
  inTheta _ hu := { hu with }
  insideOr _ hu := { hu with aliases := { hu.aliases with } }
  thetaScope {d u} hu := { hu.pop with aliases := { hu.pop.aliases with } }
  collectionScope d property joinType := by
    have hpush := Aliases.resumes_walk.pushCollection (c := k.catalog) property joinType d.aliases
    refine hpush.zoom (fun u hu => .withAliases hu.underlies) fun a ha u hu => ?_
    exact ((Underlies.withAliases (Aliases.Opens.underlies ha)).trans hu).pop

/-- Drafts that write the same clause from the same scopes. -/
structure SameClause (d u : Draft) : Prop where
  scopes : u.aliases.scopes = d.aliases.scopes
  inHaving : u.inHaving = d.inHaving
  having : u.having = d.having

/-- The members of a composite are emitted in its course, from where it stands itself. -/
theorem combined_course {operation : BooleanOp} {xs : Step Draft (List Condition)} {d e : Draft}
    {c : Option Condition} (h : (combined operation xs).Yields d c e) :
    ∃ members u v, c = combine operation members ∧ xs.Yields u members v ∧
      d.Underlies u ∧ d.SameClause u ∧ v.Underlies e ∧ e.having = v.having := by
  obtain ⟨members, hcombine, hmembers | ⟨v, hmembers, rfl⟩⟩ := combined_yields h
  · exact ⟨members, d, e, hcombine, hmembers, .refl d, ⟨rfl, rfl, rfl⟩, .refl e, rfl⟩
  · have hmark (d : Draft) (insideOr : Bool) :
        d.Underlies (d.withAliases { d.aliases with insideOr }) :=
      .withAliases ⟨rfl, List.prefix_rfl, List.prefix_rfl⟩
    exact ⟨members, _, v, hcombine, hmembers, hmark d _, ⟨rfl, rfl, rfl⟩, hmark v _, rfl⟩

/-! ## Texts -/

theorem Resumes.conditionsText {d e : Draft} (h : d.Resumes e) :
    ∃ more, conditionsText e.conditions = conditionsText d.conditions ++ more := by
  obtain ⟨added, hadded⟩ := h.conditions
  rw [ObjectQuery.conditionsText, ObjectQuery.conditionsText, ← hadded, renderConditions_eq,
    renderConditions_eq, List.map_append]
  exact Text.joinWith_append _ _ _

theorem Resumes.havingText {d e : Draft} (h : d.Resumes e) :
    ∃ more, havingText e.having = havingText d.having ++ more := by
  obtain ⟨added, hadded⟩ := h.having
  rw [ObjectQuery.havingText, ObjectQuery.havingText, ← hadded, renderGroups_eq, renderGroups_eq,
    List.map_append]
  exact Text.joinWith_append _ _ _

/-- A filter that is visited leaves the context of the draft as it found it, whether it succeeds or
fails. The clauses, parameters, sources and joins only grow at their ends, and so do the texts of
the clauses. The root scope is open in every draft of a compilation: it is so from the start, and a
draft that resumes another has its scopes. -/
theorem visit_resumes (k : Compiler) (f : Filter) {d : Draft} (hd : d.aliases.scopes ≠ []) :
    let e := ((visit k f).run d).state
    d.Resumes e ∧
      (∃ more, conditionsText e.conditions = conditionsText d.conditions ++ more) ∧
      ∃ more, havingText e.having = havingText d.having ++ more :=
  have h := (steady_visit k f d).state hd
  ⟨h, h.conditionsText, h.havingText⟩

/-- A comparison in front of one of an account that has no such property. -/
def comparedThenUnresolvable : Filter :=
  .and [.compare .eq "name" (.text "x"), .compare .eq "links.owner.name" (.text "y")]

/-- The context is kept where the second of two comparisons fails. The first one has bound a value
and stays in the text, without the brackets of the conjunction. -/
theorem visit_resumes_unresolvable :
    let k := Compiler.linkedAccounts
    let d := Draft.start "Identity" 0
    let o := (visit k comparedThenUnresolvable).run d
    d.aliases.scopes ≠ [] ∧
      o.result = .error (.unresolvableJoin "Link" "owner" "links.owner.name") ∧
      o.state.parameters.length = 1 ∧
      conditionsText o.state.conditions = "identityAlias.name = :param0" ∧ d.Resumes o.state := by
  intro k d o
  have hd : d.aliases.scopes ≠ [] := List.cons_ne_nil _ _
  exact ⟨hd, rfl, by decide +kernel, by decide +kernel,
    (visit_resumes k comparedThenUnresolvable hd).1⟩

/-- The connective in front of a group stays where the group fails before anything stands in it. -/
example :
    let counted : Filter := .compare .gt "count(links)" (.int 5)
    let misspelt : Filter := .compare .gt "count(roles.id)" (.int 5)
    let d := ((visit .linkedAccounts counted).run (.start "Identity" 0)).state
    havingText ((visit .linkedAccounts misspelt).run d).state.having =
      "count(identity_linksAlias0) > :param0 and " := by
  decide +kernel

end Draft

end ObjectQuery
