import ObjectQuery.Proofs.Context.Emission
import ObjectQuery.Proofs.Declarations.Advances
import ObjectQuery.Proofs.Having.Clause
import ObjectQuery.Proofs.Theta.Aliases
import ObjectQuery.Proofs.Theta.Visits

/-!
# The aliases of classes while a filter is emitted

* `Draft.Reflects`: a draft in which classes have the aliases that namings give them.
* `Draft.Progresses`: a step that adds namings to those that a draft reflects.
* `Draft.WritesAfter`: the predicates that a leaf writes behind namings.
* `Draft.tells_emit`: a filter writes what its leaves write, each behind the namings before it, and
  selects of excluded owners.
-/

namespace ObjectQuery

open Step

namespace Aliases

/-- The classes have the same aliases, and the sources are the same. -/
structure SameClasses (a b : Aliases) : Prop where
  classAliases : b.classAliases = a.classAliases
  sources : b.sources = a.sources

instance : IsPreorder Aliases SameClasses where
  refl _ := ⟨rfl, rfl⟩
  trans _ _ _ h h' := ⟨h'.classAliases.trans h.classAliases, h'.sources.trans h.sources⟩

/-- Paths name no classes. -/
theorem sameClasses_walk : WalkRules SameClasses where
  createJoin _ _ _ _ _ := ⟨rfl, rfl⟩
  remember a cursor segment target joinType _ := by
    unfold remember
    split <;> exact ⟨rfl, rfl⟩
  enclosing _ hu := ⟨hu.classAliases, hu.sources⟩

/-! ## Aliases behind namings -/

/-- The classes have the aliases that namings give them, and the instances of classes among the
sources are those of the namings. -/
structure Reflects (ns : List Naming) (a : Aliases) : Prop where
  classAliases : ∀ C, a.classAlias? C = Naming.aliasOf ns C
  listed : ∀ s ∈ a.sources, s.theta = false → Naming.names s.className ns = true
  instances : a.sources.filter (·.theta) = Naming.thetaSources 0 ns

namespace Reflects

variable {ns : List Naming} {a b : Aliases}

theorem same (h : a.Reflects ns) (hb : a.SameClasses b) : b.Reflects ns := by
  refine ⟨fun C => ?_, ?_, ?_⟩
  · rw [classAlias?, hb.classAliases]
    exact h.classAliases C
  · rw [hb.sources]
    exact h.listed
  · rw [hb.sources]
    exact h.instances

theorem start (className : String) : (Aliases.start className).Reflects [.listed className] := by
  rw [start_eq]
  refine ⟨fun C => ?_, ?_, rfl⟩
  · by_cases hC : className = C
    · subst hC
      simp [classAlias?, Dictionary.find?, Naming.aliasOf, Naming.aliasFrom, Naming.next]
    · simp [classAlias?, Dictionary.find?, Naming.aliasOf, Naming.aliasFrom, Naming.next, hC]
  · simp [Naming.names, Naming.className]

/-- One more naming, which gives its class the alias `x`. -/
theorem snoc (h : a.Reflects ns) (n : Naming) {x : Option String}
    (hx : Naming.next n.className (Naming.instances ns) (Naming.aliasOf ns n.className) n = x)
    (hself : b.classAlias? n.className = x)
    (hother : ∀ C, n.className ≠ C → b.classAlias? C = a.classAlias? C)
    (hlisted : ∀ s ∈ b.sources, s.theta = false → s ∈ a.sources ∨ s.className = n.className)
    (hinstances : b.sources.filter (·.theta) =
      a.sources.filter (·.theta) ++ Naming.thetaSources (Naming.instances ns) [n]) :
    b.Reflects (ns ++ [n]) := by
  refine ⟨fun C => ?_, fun s hs htheta => ?_, ?_⟩
  · rw [Naming.aliasOf_snoc]
    by_cases hC : n.className = C
    · rw [← hC, hself, hx]
    · rw [hother C hC, h.classAliases C]
      cases n <;> exact (if_neg hC).symm
  · rw [Naming.names_append, Bool.or_eq_true]
    obtain hmem | hclass := hlisted s hs htheta
    · exact .inl (h.listed s hmem htheta)
    · exact .inr (Naming.names_iff.mpr ⟨n, List.mem_singleton.mpr rfl, hclass.symm⟩)
  · rw [hinstances, h.instances, Naming.thetaSources_append, Nat.zero_add]

theorem classAlias?_setClassAlias_self (a : Aliases) (C : String) (number : Option Nat) :
    (a.setClassAlias C number).2.classAlias? C = some (classAliasName C number) :=
  Dictionary.find?_insert_self _ _ _

theorem classAlias?_setClassAlias_of_ne {C C' : String} (hC : C ≠ C') (a : Aliases)
    (number : Option Nat) : (a.setClassAlias C number).2.classAlias? C' = a.classAlias? C' :=
  Dictionary.find?_insert_of_ne hC.symm _ _

/-- An instance takes the alias of its class over. -/
theorem addThetaSource (h : a.Reflects ns) (C : String) :
    (a.addThetaSource C (Naming.instances ns)).2.Reflects (ns ++ [.correlated C]) := by
  refine h.snoc (.correlated C) (if_pos rfl) (classAlias?_setClassAlias_self a C _)
    (fun C' hC => classAlias?_setClassAlias_of_ne hC a _) (fun s hs htheta => ?_) ?_
  · rcases List.mem_append.mp hs with hs | hs
    · exact .inl hs
    · rw [List.mem_singleton.mp hs] at htheta
      cases htheta
  · exact List.filter_append _ _

/-- A class is given an alias if it has none. -/
theorem classAlias?_obtainClassAlias (h : a.Reflects ns) (C : String) :
    (a.obtainClassAlias C).2.classAlias? C =
        (Naming.aliasOf ns C).or (some (classAliasName C none)) ∧
      ∀ C', C ≠ C' → (a.obtainClassAlias C).2.classAlias? C' = a.classAlias? C' := by
  obtain ⟨x, hx, heq⟩ | ⟨hnone, heq⟩ := a.obtainClassAlias_eq C
  · rw [heq, ← h.classAliases, hx]
    exact ⟨rfl, fun _ _ => rfl⟩
  · rw [heq, ← h.classAliases, hnone]
    exact ⟨classAlias?_setClassAlias_self a C none,
      fun _ hC => classAlias?_setClassAlias_of_ne hC a none⟩

theorem obtainClassAlias (h : a.Reflects ns) (C : String) :
    (a.obtainClassAlias C).2.Reflects (ns ++ [.outer C]) := by
  obtain ⟨hself, hother⟩ := h.classAlias?_obtainClassAlias C
  have hsources := (a.obtainClassAlias_keeps C).1.1
  refine h.snoc (.outer C) (if_pos rfl) hself hother (fun s hs _ => .inl ?_) ?_
  · rwa [← hsources]
  · rw [hsources]
    exact (List.append_nil _).symm

theorem addSource (h : a.Reflects ns) (C : String) :
    (a.addSource C).2.Reflects (ns ++ [.listed C]) := by
  unfold Aliases.addSource
  split
  · rename_i s hfind
    have hs := List.find?_some hfind
    rw [Bool.and_eq_true, Bool.not_eq_true', beq_iff_eq] at hs
    -- A class that is listed already has an alias, which stays.
    have hnamed : (Naming.aliasOf ns C).isSome = true := by
      rw [Naming.isSome_aliasOf, ← hs.2]
      exact h.listed s (List.mem_of_find?_eq_some hfind) hs.1
    obtain ⟨x, hx⟩ := Option.isSome_iff_exists.mp hnamed
    refine h.snoc (.listed C) (x := some x) ?_ ((h.classAliases C).trans hx) (fun _ _ => rfl)
      (fun s hs _ => .inl hs) (List.append_nil _).symm
    show (if C = C then _ else _) = _
    rw [if_pos rfl]
    show (Naming.aliasOf ns C).or _ = some x
    rw [hx, Option.some_or]
  · obtain ⟨hself, hother⟩ := h.classAlias?_obtainClassAlias C
    have hsources := (a.obtainClassAlias_keeps C).1.1
    dsimp only
    refine h.snoc (.listed C) (if_pos rfl) hself hother (fun s hs _ => ?_) ?_
    · rcases List.mem_append.mp hs with hs | hs
      · exact .inl (by rwa [← hsources])
      · exact .inr (by rw [List.mem_singleton.mp hs]; rfl)
    · show List.filter _ ((a.obtainClassAlias C).2.sources ++ [_]) = _
      rw [List.filter_append, hsources]
      rfl

end Reflects

end Aliases

namespace Draft

open Aliases

variable {k : Compiler} {x : Emission} {d e : Draft} {ns : List Naming}

/-! ## Steps behind namings -/

/-- The draft has gone through the namings. -/
structure Reflects (ns : List Naming) (d : Draft) : Prop where
  aliases : d.aliases.Reflects ns
  instances : d.thetaInstance = Naming.instances ns

/-- The step goes through further namings, which depend on the mark of theta joins, and leaves the
mark as it was. -/
abbrev Progresses {α : Type} (namings : Bool → List Naming) (y : Step Draft α) : Prop :=
  Advances (fun (_ : Unit) => Reflects) namings y

namespace Reflects

theorem same (hd : d.Reflects ns) (haliases : d.aliases.SameClasses e.aliases)
    (hinstance : e.thetaInstance = d.thetaInstance) : e.Reflects ns :=
  ⟨hd.aliases.same haliases, hinstance.trans hd.instances⟩

/-- A correlation resolves two paths. -/
theorem correlation {t : Test} {other : String} {condition : Correlation}
    (h : (Draft.correlation k t other).Yields d condition e) (hd : d.Reflects ns) :
    e.Reflects ns ∧ e.inTheta = d.inTheta := by
  obtain ⟨_, a, _, b, _, ha, hb, -, rfl⟩ := correlation_yields h
  have hsame := (sameClasses_walk.resolve _ _).yields ha
  have hsame' := (sameClasses_walk.resolve _ _).yields hb
  exact ⟨(hd.same (e := d.withAliases a) hsame rfl).same hsame' rfl, rfl⟩

theorem join {t : Test} (ht : t.operation = .join) :
    Progresses (Test.namings · t) (Draft.join k t) := by
  intro _ ns d c e h hd
  obtain ⟨other, condition, hother, -, -, hcases⟩ := join_yields h
  show e.Reflects (ns ++ t.namings d.inTheta) ∧ _
  rw [Test.namings, ht, hother]
  obtain ⟨htheta, _, a, _, b, ha, hb, -, rfl⟩ | ⟨htheta, hcondition⟩ := hcases
  · rw [htheta]
    rw [hd.instances] at ha
    have hsame := (sameClasses_walk.resolveEnclosing _).yields ha
    have hsame' := (sameClasses_walk.resolve _ _).yields hb
    refine ⟨⟨((hd.aliases.addThetaSource _).same hsame).same hsame', ?_⟩, htheta⟩
    rw [Naming.instances_append]
    exact congrArg (· + 1) hd.instances
  · rw [htheta]
    have hlisted : Reflects (ns ++ [.listed (Path.head other).1])
        (d.withAliases (d.aliases.addSource (Path.head other).1).2) := by
      refine ⟨hd.aliases.addSource _, ?_⟩
      rw [Naming.instances_append]
      exact hd.instances
    obtain ⟨he, hmark⟩ := correlation hcondition hlisted
    exact ⟨he, hmark.trans htheta⟩

theorem leftJoin {t : Test} (ht : t.operation = .leftJoin) :
    Progresses (Test.namings · t) (Draft.leftJoin k t) := by
  intro _ ns d c e h hd
  obtain ⟨-, other, condition, u, hother, -, hcondition, rfl⟩ := leftJoin_yields h
  have hnamed : Reflects (ns ++ [.outer (Path.head other).1])
      (d.withAliases (d.aliases.obtainClassAlias (Path.head other).1).2) := by
    refine ⟨hd.aliases.obtainClassAlias _, ?_⟩
    rw [Naming.instances_append]
    exact hd.instances
  obtain ⟨hu, hmark⟩ := correlation hcondition hnamed
  show Reflects (ns ++ t.namings d.inTheta) _ ∧ _
  rw [Test.namings, ht, hother]
  exact ⟨hu.same ⟨rfl, rfl⟩ rfl, hmark⟩

/-- A scope names no class. -/
theorem push {property : String} {a : Aliases} (hd : d.Reflects ns)
    (h : d.aliases.Enters k.catalog property a) : (d.withAliases a).Reflects ns := by
  refine hd.same ?_ rfl
  cases h with
  | theta => exact ⟨rfl, rfl⟩
  | collection _ hcollection =>
    obtain ⟨v, scope, hv, rfl⟩ := (sameClasses_walk.pushCollection _ _).yields hcollection
    exact ⟨hv.classAliases, hv.sources⟩

theorem inScope {namings : Bool → List Naming} (property : String) (outer : Bool)
    (hx : Progresses namings x) : Progresses namings (Draft.inScope k property outer x) := by
  intro _ ns d c e h hd
  obtain ⟨a, u, hpush, hu, rfl⟩ := inScope_yields h
  obtain ⟨hu, htheta⟩ := hx (i := ()) hu (hd.push hpush)
  refine ⟨hu.same ?_ rfl, htheta⟩
  show u.aliases.SameClasses u.aliases.pop
  unfold Aliases.pop
  split <;> exact ⟨rfl, rfl⟩

theorem namingRules (k : Compiler) : NamingRules k fun (_ : Unit) => Reflects where
  same hd haliases hinstance := hd.same (haliases ▸ Std.Refl.refl _) hinstance
  insideOr _ hd := hd.same ⟨rfl, rfl⟩ rfl
  touches _ _ _ _ hd h := by
    obtain ⟨_, _, _, _, _, ha, rfl⟩ := h
    exact hd.same ((sameClasses_walk.resolve _ _).yields ha) rfl
  join := join
  leftJoin := leftJoin
  inScope property outer _ _ := inScope property outer

end Reflects

/-! ## What leaves write -/

/-- The predicates of the having clause. -/
def havingPredicates (d : Draft) : List Atom := d.having.flatMap groupPredicates

theorem havingPredicates_addGroup (d : Draft) (group : Option Condition) :
    (d.addGroup group).havingPredicates = d.havingPredicates ++ groupPredicates group := by
  unfold havingPredicates
  rw [having_addGroup]
  unfold appendGroup
  split
  · rename_i hnone
    rw [Bool.and_eq_true, Option.isNone_iff_eq_none] at hnone
    rw [hnone.2]
    exact (List.append_nil _).symm
  · rw [List.flatMap_append, List.flatMap_singleton]

/-- A predicate that excludes owners by a select of their elements. -/
def IsExclusion (p : Atom) : Prop :=
  ∃ aliasName query, p = .inSelect (.ofAlias aliasName) true query

/-- Behind the namings, and with the mark of theta joins, the leaf writes the predicates, in
whatever clause. -/
def WritesAfter (k : Compiler) (ns : List Naming) (theta : Bool) (l : Leaf) (ps : List Atom) :
    Prop :=
  ∃ d c e, d.Reflects ns ∧ d.inTheta = theta ∧ (emit k (.leaf l)).Yields d c e ∧
    (e.havingPredicates ++ groupPredicates c).Perm (d.havingPredicates ++ ps)

/-- The step visits leaves, depending on the mark of theta joins. The predicates that it gives and
adds to the having clause are those that the leaves write behind the namings before them, and
exclusions of owners. -/
def Tells {α : Type} (k : Compiler) (visits : Bool → List Visit) (predicates : α → List Atom)
    (y : Step Draft α) : Prop :=
  ∀ ⦃ns d a e⦄, y.Yields d a e → d.Reflects ns → ∃ pieces exclusions,
    List.Forall₂ (fun v ps => WritesAfter k (ns ++ v.before) v.theta v.leaf ps)
      (visits d.inTheta) pieces ∧
    (∀ p ∈ exclusions, IsExclusion p) ∧
    (e.havingPredicates ++ predicates a).Perm
      (d.havingPredicates ++ (pieces.flatten ++ exclusions))

namespace Tells

variable {namings : Bool → List Naming} {visits visits' : Bool → List Visit}
  {xs : Step Draft (List Condition)}

theorem nil : Tells k (fun _ => []) predicatesOf (Pure.pure [] : Step Draft (List Condition)) := by
  intro ns d a e h hd
  obtain ⟨rfl, rfl⟩ := Step.yields_pure.mp h
  exact ⟨[], [], .nil, fun p hp => absurd hp List.not_mem_nil, .refl _⟩

theorem together (hnamings : Progresses namings x) (hx : Tells k visits groupPredicates x)
    (hxs : Tells k visits' predicatesOf xs) :
    Tells k (fun theta => visits theta ++ (visits' theta).map (Visit.behind (namings theta)))
      predicatesOf (Draft.together x xs) := by
  intro ns d cs e h hd
  obtain ⟨c, u, rest, hc, hrest, rfl⟩ := together_yields h
  obtain ⟨hu, htheta⟩ := hnamings (i := ()) hc hd
  obtain ⟨pieces, exclusions, hpieces, hexclusions, hperm⟩ := hx hc hd
  obtain ⟨pieces', exclusions', hpieces', hexclusions', hperm'⟩ := hxs hrest hu
  rw [htheta] at hpieces'
  refine ⟨pieces ++ pieces', exclusions ++ exclusions', List.rel_append hpieces ?_,
    List.forall_mem_append.mpr ⟨hexclusions, hexclusions'⟩, ?_⟩
  · rw [List.forall₂_map_left_iff]
    refine hpieces'.imp fun v ps h => ?_
    rwa [List.append_assoc] at h
  · rw [predicatesOf_append, predicatesOf_toList, List.flatten_append]
    refine (perm_together hperm hperm').trans (List.Perm.append_left _ ?_)
    -- The exclusions come behind what the leaves write.
    rw [List.append_assoc, List.append_assoc]
    exact (List.perm_append_comm_assoc ..).append_left _

/-! ## Clauses -/

theorem inHavingGroup (hx : Tells k visits groupPredicates x) :
    Tells k visits groupPredicates (Draft.inHavingGroup x) := by
  intro ns d c e h hd
  obtain ⟨rfl, group, u, hu, rfl⟩ := inHavingGroup_yields h
  obtain ⟨pieces, exclusions, hpieces, hexclusions, hperm⟩ := hx hu ⟨hd.aliases, hd.instances⟩
  refine ⟨pieces, exclusions, hpieces, hexclusions, ?_⟩
  rw [havingPredicates_addGroup, groupPredicates, List.append_nil]
  exact hperm

theorem combined {operation : BooleanOp} (hxs : Tells k visits predicatesOf xs) :
    Tells k visits groupPredicates (Draft.combined operation xs) := by
  intro ns d c e h hd
  obtain ⟨members, rfl, h' | ⟨u, h', rfl⟩⟩ := combined_yields h
  · rw [groupPredicates_combine]
    exact hxs h' hd
  · rw [groupPredicates_combine]
    have hor := (Reflects.namingRules k).insideOr (i := ()) true hd
    obtain ⟨pieces, exclusions, htold⟩ := hxs h' hor
    exact ⟨pieces, exclusions, htold⟩

theorem composite (c : Composite) (hxs : Tells k visits predicatesOf xs) :
    Tells k visits groupPredicates (Draft.composite c xs) := by
  intro ns d condition e h hd
  obtain h' | ⟨-, -, h'⟩ := composite_yields h
  · exact combined hxs h' hd
  · exact inHavingGroup (combined hxs) h' hd

/-! ## Filters -/

/-- A leaf writes what it emits and what it adds to the having clause. -/
theorem leaf (t : Test) (condition : Option Composite) (subfilter : Option Filter) :
    Tells k (fun theta => [⟨⟨t, condition, subfilter⟩, theta, [], []⟩]) groupPredicates
      (emit k (.leaf ⟨t, condition, subfilter⟩)) := by
  intro ns d c e h hd
  obtain ⟨new, hnew⟩ := (emit_extends h).having
  have hperm : (e.havingPredicates ++ groupPredicates c).Perm
      (d.havingPredicates ++ (new.flatMap groupPredicates ++ groupPredicates c)) := by
    unfold havingPredicates
    rw [← hnew, List.flatMap_append, List.append_assoc]
  refine ⟨[new.flatMap groupPredicates ++ groupPredicates c], [], .cons ⟨d, c, e, ?_, rfl, h, hperm⟩
    .nil, fun p hp => absurd hp List.not_mem_nil, ?_⟩
  · rwa [List.append_nil]
  · simpa using hperm

theorem emitEach {fs : List Filter}
    (h : ∀ f ∈ fs, Tells k (Filter.visits · f) groupPredicates (emit k f)) :
    Tells k (Filter.allVisits · fs) predicatesOf (Draft.emitEach k .all fs) := by
  induction fs with
  | nil => exact nil
  | cons f rest ih =>
    obtain ⟨hf, hrest⟩ := List.forall_mem_cons.mp h
    rw [emitEach_cons]
    exact together ((Reflects.namingRules k).emit f) hf (ih hrest)

theorem emitComposite {c : Composite}
    (h : ∀ f ∈ c.children, Tells k (Filter.visits · f) groupPredicates (emit k f)) :
    Tells k (Filter.visits · (.composite c)) groupPredicates (emit k (.composite c)) := by
  obtain ⟨operation, children⟩ := c
  exact composite ⟨operation, children⟩ (emitEach h)

/-- A step tells the same in a scope of its own. -/
theorem inScope (property : String) (outer : Bool) (hx : Tells k visits groupPredicates x) :
    Tells k visits groupPredicates (Draft.inScope k property outer x) := by
  intro ns d c e h hd
  obtain ⟨a, u, hpush, hu, rfl⟩ := inScope_yields h
  obtain ⟨pieces, exclusions, htold⟩ := hx hu (hd.push hpush)
  exact ⟨pieces, exclusions, htold⟩

/-- The negated part of a condition is one exclusion. -/
theorem excluding {property : String} {c : Option Condition}
    (h : (Draft.excluding k property x).Yields d c e) :
    e.havingPredicates = d.havingPredicates ∧ ∀ p ∈ groupPredicates c, IsExclusion p := by
  obtain ⟨_, _, _, _, -, -, -, -, h'⟩ := excluding_yields h
  obtain ⟨_, _, _, _, -, -, rfl, rfl⟩ := inSelect_yields h'
  refine ⟨rfl, fun p hp => ?_⟩
  rw [List.mem_singleton.mp hp]
  exact ⟨_, _, rfl⟩

theorem groupPredicates_joinParts (disjunctive : Bool) (kept excluded : Option Condition) :
    groupPredicates (joinParts disjunctive kept excluded) =
      groupPredicates kept ++ groupPredicates excluded := by
  cases kept <;> cases excluded <;>
    simp [joinParts, groupPredicates, Condition.predicates, predicatesOf]

/-- The parts of a condition tell what the plain one does, and an exclusion. -/
theorem emitParts {property : String} {outer disjunctive : Bool} {c : Composite}
    (h : ∀ f ∈ c.children, Tells k (Filter.visits · f) groupPredicates (emit k f)) :
    Tells k (Filter.conditionVisits · (some c)) groupPredicates
      (Draft.emitParts k property outer disjunctive c.split) := by
  intro ns d condition e hx hd
  obtain ⟨kept, u, excluded, rfl, hkept, hexcluded⟩ := emitParts_yields hx
  obtain ⟨pieces, exclusions, hpieces, hexclusions, hperm⟩ : ∃ pieces exclusions,
      List.Forall₂ (fun v ps => WritesAfter k (ns ++ v.before) v.theta v.leaf ps)
        (Filter.conditionVisits d.inTheta (some c)) pieces ∧
      (∀ p ∈ exclusions, IsExclusion p) ∧
      (u.havingPredicates ++ groupPredicates kept).Perm
        (d.havingPredicates ++ (pieces.flatten ++ exclusions)) := by
    rw [Filter.conditionVisits_some]
    obtain ⟨hnone, rfl, rfl⟩ | ⟨part, hpart, hkept⟩ := hkept
    · rw [hnone]
      exact ⟨[], [], .nil, fun p hp => absurd hp List.not_mem_nil, .refl _⟩
    · rw [hpart]
      have hchildren := fun f hf => h f ((Composite.split_plain hpart).2 f hf)
      exact inScope _ _ (emitComposite hchildren) hkept hd
  rw [groupPredicates_joinParts]
  obtain ⟨-, rfl, rfl⟩ | ⟨part, -, hexcluded⟩ := hexcluded
  · rw [groupPredicates, List.append_nil]
    exact ⟨pieces, exclusions, hpieces, hexclusions, hperm⟩
  · obtain ⟨hhaving, hexcluded⟩ := excluding hexcluded
    refine ⟨pieces, exclusions ++ groupPredicates excluded, hpieces,
      List.forall_mem_append.mpr ⟨hexclusions, hexcluded⟩, ?_⟩
    rw [hhaving, ← List.append_assoc, ← List.append_assoc, ← List.append_assoc]
    rw [← List.append_assoc] at hperm
    exact hperm.append_right _

theorem withTheta (theta : Bool) (hx : Tells k visits groupPredicates x) :
    Tells k (fun _ => visits theta) groupPredicates (Draft.withTheta theta x) := by
  intro ns d c e h hd
  obtain ⟨u, hu, rfl⟩ := Step.yields_restoring.mp h
  obtain ⟨pieces, exclusions, htold⟩ := hx hu ⟨hd.aliases, hd.instances⟩
  exact ⟨pieces, exclusions, htold⟩

/-- What is around the leaves does not matter. -/
theorem inTheta {α : Type} {predicates : α → List Atom} {y : Step Draft α}
    (hy : Tells k visits predicates y) (ks : List Naming) :
    Tells k (fun theta => (visits theta).map (Visit.inTheta ks)) predicates y := by
  intro ns d a e h hd
  obtain ⟨pieces, exclusions, hpieces, hrest⟩ := hy h hd
  exact ⟨pieces, exclusions, List.forall₂_map_left_iff.mpr hpieces, hrest⟩

theorem emitCondition {t : Test} (ht : t.operation = .collectionCondition) {c : Composite}
    (subfilter : Option Filter)
    (h : ∀ f ∈ c.children, Tells k (Filter.visits · f) groupPredicates (emit k f)) :
    Tells k (Filter.visits · (.leaf ⟨t, some c, subfilter⟩)) groupPredicates
      (Draft.emitCondition k t (some c)) := by
  have hparts : Tells k (fun _ => Filter.conditionVisits (namesClass t.property) (some c))
      groupPredicates (Draft.withTheta (namesClass t.property) (Draft.emitParts k t.property
        (c.operation == .or && 1 < c.children.length) (c.operation == .or) c.split)) :=
    withTheta (namesClass t.property) (emitParts h)
  rw [emitCondition_eq, funext (Filter.visits_condition ht)]
  cases hclass : namesClass t.property with
  | true =>
    rw [hclass] at hparts
    exact hparts.inTheta _
  | false =>
    rw [hclass] at hparts
    exact hparts

end Tells

/-- A filter writes what its leaves write behind the joins with other classes before them. -/
theorem tells_emit (k : Compiler) (f : Filter) :
    Tells k (Filter.visits · f) groupPredicates (emit k f) := by
  induction f using Filter.induction with
  | leaf t condition subfilter ih _ =>
    by_cases hop : t.operation = .collectionCondition
    · rw [emit, emitLeaf, hop]
      rcases condition with _ | c
      · intro ns d a e h
        rw [emitCondition, test, hop] at h
        exact (Step.yields_fail.mp h).elim
      · exact .emitCondition hop subfilter (ih c rfl)
    · rw [funext (Filter.visits_leaf hop)]
      exact .leaf t condition subfilter
  | composite operation children ih => exact .emitComposite ih

end Draft

end ObjectQuery
