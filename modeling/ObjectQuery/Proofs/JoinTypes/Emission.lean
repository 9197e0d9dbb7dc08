import ObjectQuery.Proofs.Context.Operations
import ObjectQuery.Proofs.Context.Emission
import ObjectQuery.Proofs.JoinTypes.Sites
import ObjectQuery.Proofs.Paths.Histories
import ObjectQuery.Proofs.Paths.Joining

/-!
# Outer and inner joins of a visit

A visit joins associations by outer joins where the condition may also accept objects without the
association: under its disjunctions, and for the elements of a collection if the condition on them is
a disjunction. All other joins of associations are inner ones.

* `Draft.JoinsAsMarked`: a draft with joins added as the mark of disjunctions asks for.
* `Draft.Inside`: a draft of a visit inside composites.
* `Draft.Accounted`: joins that are added, each with the site where it is made.
* `Draft.emit_accounted`: the joins that a filter adds.
* `Draft.visit_joinTypes`: the joins of a whole visit.
-/

namespace ObjectQuery

open Step

namespace Draft

variable {k : Compiler} {d e u : Draft} {around : List BooleanOp}

/-! ## Leaves -/

/-- The draft has joins behind those of the other one. Those that navigate associations are outer
joins if the mark of disjunctions is set, and inner ones otherwise. -/
structure JoinsAsMarked (d e : Draft) : Prop where
  insideOr : e.aliases.insideOr = d.aliases.insideOr
  joins : ∃ added, e.aliases.joins = d.aliases.joins ++ added ∧
    ∀ j ∈ added, j.isNavigated = true → j.joinType = d.aliases.joinTypeFor false

theorem JoinsAsMarked.of_same (hinside : e.aliases.insideOr = d.aliases.insideOr)
    (hjoins : e.aliases.joins = d.aliases.joins) : JoinsAsMarked d e :=
  ⟨hinside, [], by rw [hjoins, List.append_nil], by simp⟩

instance : IsPreorder Draft JoinsAsMarked where
  refl _ := .of_same rfl rfl
  trans d e u h h' := by
    obtain ⟨added, hjoins, hkinds⟩ := h.joins
    obtain ⟨added', hjoins', hkinds'⟩ := h'.joins
    rw [Aliases.joinTypeFor_congr h.insideOr] at hkinds'
    refine ⟨h'.insideOr.trans h.insideOr, added ++ added', ?_, ?_⟩
    · rw [hjoins', hjoins, List.append_assoc]
    · exact List.forall_mem_append.mpr ⟨hkinds, hkinds'⟩

theorem JoinsAsMarked.of_joining {a : Aliases} (h : Aliases.Joining false d.aliases a) :
    JoinsAsMarked d (d.withAliases a) := by
  obtain ⟨added, hjoins, hkinds⟩ := h.joins
  exact ⟨h.insideOr, added, hjoins, fun j hj _ => (hkinds j hj).2⟩

theorem joinsAsMarked_aliased {α : Type} {x : Step Aliases α}
    (hx : Leads (Aliases.Joining false) (Aliases.Joining false) x) :
    Leads JoinsAsMarked JoinsAsMarked (aliased x) := fun d =>
  (hx d.aliases).zoom (fun _ => .of_joining) fun _ => .of_joining

/-- A leaf joins associations as the mark asks for, as its paths ask for nothing else. Its joins with
classes navigate no associations. -/
theorem joinsAsMarked (k : Compiler) : TestRules k JoinsAsMarked where
  path path o ho := joinsAsMarked_aliased (ho ▸ Aliases.resolve_joining path o)
  enclosingPath path := joinsAsMarked_aliased (Aliases.resolveEnclosing_joining path)
  obtainClassAlias d className := by
    obtain ⟨x, -, heq⟩ | ⟨-, heq⟩ := d.aliases.obtainClassAlias_eq className <;> rw [heq] <;>
      exact .of_same rfl rfl
  addSource d className := by
    unfold Aliases.addSource
    split
    · exact .of_same rfl rfl
    · obtain ⟨x, -, heq⟩ | ⟨-, heq⟩ := d.aliases.obtainClassAlias_eq className <;> rw [heq] <;>
        exact .of_same rfl rfl
  addThetaSource _ _ _ := .of_same rfl rfl
  addOnJoin _ _ _ _ _ :=
    ⟨rfl, _, rfl, List.forall_mem_singleton.mpr fun hnavigated => by cases hnavigated⟩
  thetaInstance _ _ := .of_same rfl rfl
  parameters _ _ := .of_same rfl rfl
  addGroup d group := by
    unfold addGroup
    split <;> exact .of_same rfl rfl
  inHaving _ hu := ⟨hu.insideOr, hu.joins⟩

/-! ## Joins with their sites -/

/-- A draft of a visit inside composites with the connectives: its aliases are attained, and the mark
of disjunctions is set where one of the composites is a disjunction. -/
structure Inside (k : Compiler) (around : List BooleanOp) (d : Draft) : Prop where
  attained : d.aliases.Attained k.catalog
  insideOr : d.aliases.insideOr = around.contains .or

/-- The draft has joins behind those of another one, each with the site where it is made: those that
navigate associations are outer joins exactly where the site asks for it, and those that open a scope
do so for the conditions, one after the other. -/
structure Accounted (d e : Draft) (made : List (JoinSite × Join))
    (conditions : List (String × Composite)) : Prop where
  joins : e.aliases.joins = d.aliases.joins ++ made.map (·.2)
  kinds : ∀ m ∈ made, m.2.isNavigated = true → (m.2.joinType = .leftOuter ↔ m.1.AsksOuter)
  scopes : made.filterMap (·.1.scopeOf) = conditions
  navigates : ∀ m ∈ made, m.1.scopeOf.isSome = true → m.2.isNavigated = true

namespace Inside

theorem emit (h : Inside k around d) {f : Filter} {r : Option Condition}
    (hf : (Draft.emit k f).Yields d r e) : Inside k around e where
  attained := ((keepsAttained k).emit f).yields hf h.attained
  insideOr :=
    ((steady_emit k f).yields hf h.attained.scopes_ne_nil).aliases.insideOr.trans h.insideOr

theorem entering (h : Inside k around d) (c : Composite) :
    Inside k (c.operation :: around) (d.entering c) where
  attained := by
    rw [entering_aliases]
    exact h.attained.perform (.insideOr _)
  insideOr := by
    rw [entering_aliases, List.contains_cons, h.insideOr, Bool.or_comm]
    cases c.operation <;> rfl

theorem opening (h : Inside k around d) (property : String) (c : Composite) :
    Inside k around (d.opening k property c) where
  attained := by
    unfold Draft.opening
    split
    · exact h.attained.perform .pushTheta
    · exact h.attained.perform (.pushCollection property _)
  insideOr := by
    unfold Draft.opening
    split
    · exact h.insideOr
    · have hpushed := Aliases.resumes_walk.pushCollection (c := k.catalog) property
        (d.scopeJoinType c) d.aliases
      refine Eq.trans ?_ h.insideOr
      refine (hpushed.mono (fun b hb => hb.insideOr) ?_).state
      rintro _ ⟨u, scope, hu, rfl⟩
      exact hu.insideOr

end Inside

namespace Accounted

variable {made made' : List (JoinSite × Join)} {conditions conditions' : List (String × Composite)}

theorem of_same (h : e.aliases.joins = d.aliases.joins) : Accounted d e [] [] :=
  ⟨by rw [h, List.map_nil, List.append_nil], by simp, rfl, by simp⟩

theorem trans (h : Accounted d u made conditions) (h' : Accounted u e made' conditions') :
    Accounted d e (made ++ made') (conditions ++ conditions') where
  joins := by rw [h'.joins, h.joins, List.map_append, List.append_assoc]
  kinds := List.forall_mem_append.mpr ⟨h.kinds, h'.kinds⟩
  scopes := by rw [List.filterMap_append, h.scopes, h'.scopes]
  navigates := List.forall_mem_append.mpr ⟨h.navigates, h'.navigates⟩

/-- Nothing but the joins of the drafts matters. -/
theorem congr {d' e' : Draft} (h : Accounted d e made conditions)
    (hd : d'.aliases.joins = d.aliases.joins) (he : e'.aliases.joins = e.aliases.joins) :
    Accounted d' e' made conditions :=
  ⟨by rw [hd, he, h.joins], h.kinds, h.scopes, h.navigates⟩

end Accounted

/-! ## Leaves and the scopes of collections -/

theorem asksOuter_of_none {around : List BooleanOp} :
    (⟨around, none⟩ : JoinSite).AsksOuter ↔ .or ∈ around := by
  simp [JoinSite.AsksOuter]

theorem asksOuter_of_some {property : String} {c : Composite} :
    (⟨around, some (property, c)⟩ : JoinSite).AsksOuter ↔
      (c.operation == .or && 1 < c.children.length) = true ∨ .or ∈ around := by
  rw [JoinSite.AsksOuter, or_comm, Bool.and_eq_true, beq_iff_eq, decide_eq_true_eq]
  refine or_congr_left ⟨?_, fun h => ⟨property, c, rfl, h⟩⟩
  rintro ⟨_, _, ⟨⟩, h⟩
  exact h

theorem map_snd_sited (site : JoinSite) (added : List Join) :
    (added.map (site, ·)).map (·.2) = added := by
  rw [List.map_map]
  exact List.map_id _

theorem addedJoins_eq {added : List Join} (h : e.aliases.joins = d.aliases.joins ++ added) :
    d.addedJoins e = added := by
  rw [addedJoins, h, List.drop_left]

/-- Joins that are made as the mark asks for are made for no scope. -/
theorem Inside.accounted (hd : Inside k around d) (h : JoinsAsMarked d e) :
    Accounted d e ((d.addedJoins e).map (⟨around, none⟩, ·)) [] := by
  obtain ⟨added, hjoins, hkinds⟩ := h.joins
  rw [addedJoins_eq hjoins]
  refine ⟨by rw [map_snd_sited, hjoins], fun m hm hnavigated => ?_, by simp, by simp⟩
  obtain ⟨j, hj, rfl⟩ := List.mem_map.mp hm
  rw [hkinds j hj hnavigated, Aliases.joinTypeFor_eq_leftOuter, asksOuter_of_none, hd.insideOr]
  simp

/-- A collection is joined as its site asks for, and its join alone opens the scope. The aliases of
the associations on the way to it are different ones. -/
theorem Inside.accounted_opening (hd : Inside k around d) {property aliasName : String}
    {c : Composite} (h : (Aliases.pushCollection k.catalog property (d.scopeJoinType c)).Yields
      d.aliases aliasName (d.opening k property c).aliases) :
    Accounted d (d.opening k property c) (openingJoins k around property c d) [(property, c)] := by
  obtain ⟨-, -, way, last, hjoins, hway, hlast, hkind, halias⟩ := Aliases.pushCollection_joins h
  have hdistinct := (hd.opening property c).attained.consistent.distinct
  have hothers : ∀ j ∈ way, j.aliasName ≠ last.aliasName := by
    have hfilter : (way ++ [last]).filter (·.isNavigated) = way ++ [last] := by
      refine List.filter_eq_self.mpr (List.forall_mem_append.mpr ⟨fun j hj => (hway j hj).1, ?_⟩)
      exact List.forall_mem_singleton.mpr hlast
    rw [hjoins, List.filter_append, hfilter, List.map_append, List.map_append] at hdistinct
    have hbehind := (List.nodup_append.mp hdistinct).2.1
    intro j hj
    exact (List.nodup_append.mp hbehind).2.2 _ (List.mem_map_of_mem hj) _
      (List.mem_singleton.mpr rfl)
  have hmade : openingJoins k around property c d =
      way.map (⟨around, none⟩, ·) ++ [(⟨around, some (property, c)⟩, last)] := by
    unfold openingJoins
    dsimp only
    rw [addedJoins_eq hjoins, List.map_append, List.map_singleton, halias, if_pos rfl]
    congr 1
    refine List.map_congr_left fun j hj => ?_
    rw [if_neg fun heq => hothers j hj (Option.some.inj heq).symm]
  rw [hmade]
  refine ⟨by rw [List.map_append, map_snd_sited, hjoins]; rfl, ?_, by simp,
    List.forall_mem_append.mpr ⟨by simp, List.forall_mem_singleton.mpr fun _ => hlast⟩⟩
  refine List.forall_mem_append.mpr ⟨?_, List.forall_mem_singleton.mpr fun _ => ?_⟩
  · intro m hm _
    obtain ⟨j, hj, rfl⟩ := List.mem_map.mp hm
    rw [(hway j hj).2, Aliases.joinTypeFor_eq_leftOuter, asksOuter_of_none, hd.insideOr]
    simp
  · rw [hkind, scopeJoinType, Aliases.joinTypeFor_eq_leftOuter, asksOuter_of_some, hd.insideOr]
    simp

/-! ## What leaves emit -/

theorem test_joinsAsMarked {t : Test} (ht : ¬t.listsEntities = true) :
    Leads JoinsAsMarked JoinsAsMarked (test k t) := by
  refine (joinsAsMarked k).test t fun hop hentities hseveral => absurd ?_ ht
  have hlength : 1 < t.value.elements.length := by
    rcases hv : t.value.elements with _ | ⟨v, _ | ⟨w, rest⟩⟩
    · exact absurd hv (elements_ne_nil_of_hasEntities hentities)
    · exact absurd hv (hseveral v)
    · simp
  simp [Test.listsEntities, hop, hentities, hlength]

/-- A list of entities is compared under a disjunction of its own. -/
theorem Inside.accounted_entities (hd : Inside k around d) {t : Test} (ht : t.listsEntities = true)
    {r : Option Condition} (h : (test k t).Yields d r e) :
    Accounted d e ((d.addedJoins e).map (⟨.or :: around, none⟩, ·)) [] := by
  rw [Test.listsEntities, Bool.and_eq_true, Bool.and_eq_true, beq_iff_eq, decide_eq_true_eq] at ht
  obtain ⟨⟨hop, hentities⟩, hlength⟩ := ht
  unfold test at h
  rw [hop] at h
  dsimp only at h
  unfold membership at h
  rw [if_pos hentities] at h
  split at h
  · rename_i v hv
    rw [hv] at hlength
    exact absurd hlength (by simp)
  · obtain ⟨members, u, hmembers, hjoins⟩ := composite_entering h
    have hmade := (hd.entering _).accounted (((joinsAsMarked k).equalities t _).yields hmembers)
    have hentered : ∀ c : Composite, (d.entering c).aliases.joins = d.aliases.joins := fun c => by
      rw [entering_aliases]
    unfold addedJoins at hmade ⊢
    rw [hentered, ← hjoins] at hmade
    exact hmade.congr (hentered _).symm hjoins

/-- A leaf without a condition on a collection opens no scope. -/
theorem Inside.accounted_leaf (hd : Inside k around d) {t : Test} {condition : Option Composite}
    {subfilter : Option Filter} {r : Option Condition} (hop : t.operation ≠ .collectionCondition)
    (h : (emitLeaf k ⟨t, condition, subfilter⟩).Yields d r e) :
    Accounted d e (sitedJoinsOfLeaf k around ⟨t, condition, subfilter⟩ d) [] := by
  have hleft : ((emitLeaf k ⟨t, condition, subfilter⟩).run d).state = e := h.2
  rw [sitedJoinsOfLeaf]
  split
  · rename_i hcollection
    exact absurd hcollection hop
  · dsimp only
    rw [hleft]
    rw [emitLeaf] at h
    by_cases hlist : t.listsEntities = true
    · have hin : t.operation = .inList := by
        simp only [Test.listsEntities, Bool.and_eq_true, beq_iff_eq] at hlist
        exact hlist.1.1
      rw [if_pos hlist]
      rw [hin] at h
      exact hd.accounted_entities hlist h
    · rw [if_neg hlist]
      have htest : Leads JoinsAsMarked JoinsAsMarked (test k t) := test_joinsAsMarked hlist
      refine hd.accounted ?_
      split at h
      · rename_i hcollection
        exact absurd hcollection hop
      · cases subfilter with
        | none => exact ((joinsAsMarked k).subquery htest).yields h
        | some f => exact ((joinsAsMarked k).subquery htest).yields h
      · exact htest.yields h

/-! ## What filters emit -/

/-- Wherever the filter is emitted, its joins are those of its sites, and the scopes that they open
are those of its conditions. -/
def Accounts (k : Compiler) (f : Filter) : Prop :=
  ∀ {around d r e}, Inside k around d → (emit k f).Yields d r e →
    Accounted d e (sitedJoins k around f d) f.scopedConditions

/-- The joins of several filters come one behind the other. -/
theorem Inside.accounted_each {fs : List Filter} (hfs : ∀ f ∈ fs, Accounts k f)
    (hd : Inside k around d) {cs : List Condition} (h : (emitEach k .all fs).Yields d cs e) :
    Accounted d e (sitedJoinsOfEach k around false fs d)
      (Filter.scopedConditionsOfEach false fs) := by
  induction fs generalizing d cs with
  | nil =>
    obtain ⟨-, rfl⟩ := yields_pure.mp h
    exact .of_same rfl
  | cons f rest ih =>
    obtain ⟨hf, hrest⟩ := List.forall_mem_cons.mp hfs
    rw [emitEach_cons] at h
    obtain ⟨condition, u, conditions, hx, hxs, -⟩ := together_yields h
    have hleft : ((Draft.emit k f).run d).state = u := hx.2
    rw [sitedJoinsOfEach, Filter.scopedConditionsOfEach, Bool.false_and,
      if_neg Bool.false_ne_true, if_neg Bool.false_ne_true, hleft]
    exact (hf hd hx).trans (ih hrest (hd.emit hx) hxs)

/-- The members of a composite make their joins inside it. -/
theorem Inside.accounted_composite {c : Composite} (hchildren : ∀ f ∈ c.children, Accounts k f)
    (hd : Inside k around d) {r : Option Condition}
    (h : (composite c (emitEach k .all c.children)).Yields d r e) :
    Accounted d e (sitedJoinsOfEach k (c.operation :: around) false c.children (d.entering c))
      (Filter.scopedConditionsOfEach false c.children) := by
  obtain ⟨members, u, hmembers, hjoins⟩ := composite_entering h
  refine ((hd.entering c).accounted_each hchildren hmembers).congr ?_ hjoins
  rw [entering_aliases]

/-! ## Conditions on collections -/

/-- The draft has the aliases of the other one. -/
def SameAliases (d e : Draft) : Prop := e.aliases = d.aliases

instance : IsPreorder Draft SameAliases where
  refl _ := rfl
  trans _ _ _ h h' := h'.trans h

/-- Owners are excluded by a nested select, which has aliases of its own. -/
theorem excluding_sameAliases {property : String} {x : Emission} :
    Leads SameAliases SameAliases (excluding k property x) :=
  leads_excluding fun _ _ => rfl

/-- A condition without a plain part changes no aliases, also where it fails. -/
theorem emitCondition_sameAliases {t : Test} {c : Composite} (hc : c.split.1 = none) (d : Draft) :
    SameAliases d ((emitCondition k t (some c)).run d).state := by
  have hparts (outer disjunctive : Bool) : Leads SameAliases SameAliases
      (emitParts k t.property outer disjunctive c.split) := by
    rcases hsplit : c.split with ⟨plain, negated⟩
    rw [hsplit] at hc
    cases hc
    refine (Leads.pure none).bind fun kept => ?_
    cases negated with
    | none => exact (Leads.pure none).bind fun _ => .pure _
    | some part => exact excluding_sameAliases.bind fun _ => .pure _
  rw [emitCondition_eq]
  exact (hparts _ _ { d with inTheta := namesClass t.property }).state

/-- Opening a scope makes the joins for the collection, and none for a class. -/
theorem Inside.accounted_opened (hd : Inside k around d) {property : String} {c : Composite}
    (h : namesClass property = true ∧ (d.opening k property c).aliases = d.aliases.pushTheta ∨
      namesClass property = false ∧ ∃ aliasName,
        (Aliases.pushCollection k.catalog property (d.scopeJoinType c)).Yields d.aliases aliasName
          (d.opening k property c).aliases) :
    Accounted d (d.opening k property c) (openingJoins k around property c d)
      (if namesClass property then [] else [(property, c)]) := by
  obtain ⟨hclass, haliases⟩ | ⟨hclass, aliasName, hpush⟩ := h
  · have hsame : (d.opening k property c).aliases.joins = d.aliases.joins := by
      rw [haliases]
      rfl
    have hnothing : openingJoins k around property c d = [] := by
      unfold openingJoins
      dsimp only
      rw [addedJoins_eq (hsame.trans (List.append_nil _).symm), List.map_nil]
    rw [hnothing, hclass]
    exact .of_same hsame
  · rw [hclass]
    exact hd.accounted_opening hpush

/-- A condition on a collection's elements makes the joins of its plain part, in a scope that it
opens before and closes behind it. -/
theorem Inside.accounted_condition {t : Test} {operation : BooleanOp} {children : List Filter}
    (hchildren : ∀ f ∈ children, Accounts k f) (hd : Inside k around d) {r : Option Condition}
    (h : (emitCondition k t (some ⟨operation, children⟩)).Yields d r e) :
    Accounted d e (sitedJoinsOfCondition k around t.property (some ⟨operation, children⟩) d)
      (Filter.scopedConditionsOfCondition t.property (some ⟨operation, children⟩)) := by
  rw [emitCondition_eq] at h
  obtain ⟨v, hparts, rfl⟩ := yields_restoring.mp h
  obtain ⟨kept, u, excluded, -, hplain, hnegated⟩ := emitParts_yields hparts
  have hjoins : v.aliases.joins = u.aliases.joins := by
    obtain ⟨-, -, rfl⟩ | ⟨negated, -, hexcluded⟩ := hnegated
    · rfl
    · rw [excluding_sameAliases.yields hexcluded]
  rw [sitedJoinsOfCondition, Filter.scopedConditionsOfCondition]
  obtain ⟨hnone, -, rfl⟩ | ⟨part, hpart, hscope⟩ := hplain
  · rw [hnone]
    exact .of_same hjoins
  · rw [hpart]
    obtain rfl := Composite.eq_of_split_plain hpart
    obtain ⟨w, hmembers, rfl, hopened⟩ := inScope_opened hscope
    have hplainChildren : ∀ f ∈ Composite.plainChildren ⟨operation, children⟩, Accounts k f :=
      fun f hf => hchildren f (List.mem_filter.mp hf).1
    have hmade := (hd.opening t.property ⟨operation, children⟩).accounted_composite
      (c := ⟨operation, Composite.plainChildren ⟨operation, children⟩⟩) hplainChildren hmembers
    dsimp only
    rw [sitedJoinsOfEach_plain, Filter.scopedConditionsOfEach_plain]
    refine ((hd.accounted_opened hopened).trans hmade).congr rfl (hjoins.trans ?_)
    exact Aliases.joins_pop w.aliases

/-- The joins of a filter are those of its sites. -/
theorem emit_accounted (k : Compiler) (f : Filter) : Accounts k f := by
  induction f using Filter.induction with
  | leaf t condition subfilter ihc ihs =>
    intro around d r e hd h
    rw [emit] at h
    rw [sitedJoins, Filter.scopedConditions, Filter.scopedConditionsOfLeaf]
    by_cases hop : t.operation = .collectionCondition
    · rw [emitLeaf, hop] at h
      rw [sitedJoinsOfLeaf, hop]
      rcases condition with _ | ⟨operation, children⟩
      · rw [emitCondition, test, hop] at h
        exact (yields_fail.mp h).elim
      · exact hd.accounted_condition (ihc _ rfl) h
    · split
      · rename_i hcollection
        exact absurd hcollection hop
      · exact hd.accounted_leaf hop h
  | composite operation children ih =>
    intro around d r e hd h
    rw [emit, emitComposite] at h
    rw [sitedJoins, sitedJoinsOfComposite, Filter.scopedConditions,
      Filter.scopedConditionsOfComposite]
    exact hd.accounted_composite ih h

/-! ## Whole visits -/

/-- A visit that succeeds adds joins at its sites. A join that navigates an association is an outer
one exactly where it stands under a disjunction of the visit, or opens the scope of a collection
whose condition is a disjunction of several conditions. Each condition with a plain part opens one
scope, with a join of its own, and a condition without one leaves sources and joins alone. -/
theorem visit_joinTypes {f : Filter} {className : String} {first : Nat} {autoIgnoreCase : Bool}
    (h : (visit k f).Yields { Draft.start className first with autoIgnoreCase } () e) :
    let made := sitedJoins k [] f { Draft.start className first with autoIgnoreCase }
    e.aliases.joins = made.map (·.2) ∧
      (∀ m ∈ made, m.2.isNavigated = true → (m.2.joinType = .leftOuter ↔ m.1.AsksOuter)) ∧
      made.filterMap (·.1.scopeOf) = f.scopedConditions ∧
      ((made.filter (·.1.scopeOf.isSome)).map (·.2.aliasName)).Nodup ∧
      ∀ (t : Test) (c : Composite) (d : Draft), c.split.1 = none →
        ((emitCondition k t (some c)).run d).state.aliases = d.aliases := by
  intro made
  obtain ⟨condition, u, hemit, hadd⟩ := yields_bind.mp (yields_onFailure.mp h)
  obtain rfl := yields_modify.mp hadd
  have hstart : Inside k [] { Draft.start className first with autoIgnoreCase } :=
    ⟨.start className, rfl⟩
  have hmade := emit_accounted k f hstart hemit
  refine ⟨hmade.joins, hmade.kinds, hmade.scopes, ?_,
    fun t c d hc => emitCondition_sameAliases hc d⟩
  have hdistinct : ((made.filter (·.2.isNavigated)).map (·.2.aliasName)).Nodup := by
    have hattained := (hstart.emit hemit).attained.consistent.distinct
    rw [show u.aliases.joins = made.map (·.2) from hmade.joins, List.filter_map,
      List.map_map] at hattained
    exact hattained
  have hnavigated : made.filter (·.1.scopeOf.isSome) =
      (made.filter (·.2.isNavigated)).filter (·.1.scopeOf.isSome) := by
    rw [List.filter_filter]
    refine List.filter_congr fun m hm => ?_
    cases hscope : m.1.scopeOf.isSome with
    | false => rfl
    | true => rw [hmade.navigates m hm hscope, Bool.and_self]
  rw [hnavigated]
  exact hdistinct.sublist (List.filter_sublist.map _)

/-- Identities by their managers and reports. -/
def managersOrReports : Filter :=
  .and [.or [.compare .eq "manager.name" (.text "Ann"),
      .collectionCondition "reports" (.compare .eq "name" (.text "Bob"))],
    .collectionCondition "reports"
      (.or [.compare .eq "name" (.text "Bob"), .compare .eq "manager.name" (.text "Eve")]),
    .collectionCondition "reports" (.compare .ne "name" (.text "Zed")),
    .compare .eq "manager.manager.name" (.text "Kim")]

/-- All joins but the last one stand under a disjunction or open the scope of one. The excluded
reports are not joined. -/
theorem visit_joinTypes_managersOrReports :
    let k := Compiler.ofCatalog Aliases.staff
    let d := { Draft.start "Identity" 0 with autoIgnoreCase := false }
    let made := sitedJoins k [] managersOrReports d
    ∃ e, (visit k managersOrReports).Yields d () e ∧
      made.map (fun m => (m.2.aliasName, m.2.joinType, m.1.around, m.1.scopeOf.map (·.1))) =
        [("identity_managerAlias0", .leftOuter, [.or, .and], none),
          ("identity_reportsAlias0", .leftOuter, [.or, .and], some "reports"),
          ("identity_reportsAlias1", .leftOuter, [.and], some "reports"),
          ("identity_reports_managerAlias0", .leftOuter, [.or, .and], none),
          ("identity_manager_managerAlias0", .inner, [.and], none)] ∧
      e.aliases.joins = made.map (·.2) ∧
      ∀ m ∈ made, m.2.isNavigated = true → (m.2.joinType = .leftOuter ↔ m.1.AsksOuter) := by
  intro k d made
  have hresult : ((visit k managersOrReports).run d).result.toOption = some () := by decide +kernel
  have hyields := yields_of_toOption hresult
  obtain ⟨hjoins, hkinds, -⟩ := visit_joinTypes hyields
  exact ⟨_, hyields, by decide +kernel, hjoins, hkinds⟩

end Draft

end ObjectQuery
