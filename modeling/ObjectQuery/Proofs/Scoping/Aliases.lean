import ObjectQuery.Proofs.Context.Aliases
import ObjectQuery.Proofs.Scoping.Statement

/-!
# Sound aliases

The sources and joins of a query are listed such that every alias in use is declared, and each join
behind what it is joined from.

* `Aliases.Ordered`: among the joins of a source, each stands behind the alias joined from.
* `Aliases.Sound`: moreover, paths start from declared aliases, and conditions of joins refer to
  declared aliases.
* `Aliases.Sound.resolve`, `Aliases.Sound.pushCollection`, `Aliases.Sound.addSource`, ...: each
  change of the aliases keeps them sound.
* `Aliases.Sound.declared_sourceList`, `Aliases.Sound.inOrder`: the sources listed by sound aliases.
-/

namespace ObjectQuery

open Step

namespace Aliases

variable {a b u : Aliases} {c : Catalog}

/-! ## Order of joins -/

/-- Among the joins that hang off an alias, each stands behind the alias that it is joined from. -/
def Ordered (a : Aliases) : Prop := ∀ x, JoinsInOrder [x] (a.joinsOf x)

/-- The order of joins is kept. -/
def KeepsOrder (a b : Aliases) : Prop := a.Ordered → b.Ordered

instance : IsPreorder Aliases KeepsOrder where
  refl _ := id
  trans _ _ _ h h' := h' ∘ h

theorem Ordered.of_joins (h : a.Ordered) (hjoins : b.joins = a.joins) : b.Ordered := by
  intro x
  rw [joinsOf, hjoins]
  exact h x

/-- One more join comes in behind those of its source. -/
theorem Ordered.append (h : a.Ordered) {j : Join}
    (hj : ∀ owner ∈ j.owner?, owner ∈ j.rootAlias :: (a.joinsOf j.rootAlias).map (·.aliasName)) :
    Ordered { a with joins := a.joins ++ [j] } := by
  intro x
  have hjoins : joinsOf { a with joins := a.joins ++ [j] } x =
      a.joinsOf x ++ if j.rootAlias = x then [j] else [] := by
    unfold joinsOf
    rw [List.filter_append]
    by_cases hx : j.rootAlias = x
    · rw [if_pos hx, List.filter_cons_of_pos (by simp [hx]), List.filter_nil]
    · rw [if_neg hx, List.filter_cons_of_neg (by simp [hx]), List.filter_nil]
  rw [hjoins]
  refine (h x).append ?_
  split
  · rename_i hx
    subst hx
    exact ⟨hj, trivial⟩
  · trivial

/-- An alias is a source of its own, or belongs to a join of its source. -/
theorem mem_joinsOf_rootOf (a : Aliases) (aliasName : String) :
    aliasName ∈ a.rootOf aliasName :: (a.joinsOf (a.rootOf aliasName)).map (·.aliasName) := by
  unfold rootOf
  split
  · rename_i j hfind
    have hj := List.find?_some hfind
    rw [Bool.and_eq_true, beq_iff_eq] at hj
    rw [← hj.1]
    exact List.mem_cons_of_mem _ (List.mem_map_of_mem
      (mem_joinsOf.mpr ⟨List.mem_of_find?_eq_some hfind, rfl⟩))
  · exact List.mem_cons_self

/-- An association is joined behind the alias that it is joined from. -/
theorem Ordered.createJoin (h : a.Ordered) (cursor : Cursor) (segment : String)
    (target : Option String) (joinType : JoinType) :
    (a.createJoin cursor segment target joinType).2.Ordered := by
  refine h.append ?_
  rintro _ ⟨⟩
  exact a.mem_joinsOf_rootOf cursor.aliasName

/-- Paths keep joins in order. -/
theorem keepsOrder_walk : WalkRules KeepsOrder where
  createJoin a cursor segment target joinType h := h.createJoin cursor segment target joinType
  remember a cursor segment target joinType _ h := by
    have hcreated := h.createJoin cursor segment target joinType
    unfold remember
    split
    · exact hcreated
    · exact hcreated
  enclosing _ hu h := hu h

theorem Ordered.addOnJoin (h : a.Ordered) (className property aliasName : String)
    (condition : Correlation) : (a.addOnJoin className property aliasName condition).Ordered := by
  refine h.append ?_
  rintro _ ⟨⟩

/-! ## Declared aliases -/

theorem declared_mono (hsources : a.sources ⊆ b.sources) (hjoins : a.joins ⊆ b.joins) :
    a.declared ⊆ b.declared :=
  List.append_subset.mpr
    ⟨List.Subset.trans (List.map_subset _ hsources) (List.subset_append_left _ _),
      List.Subset.trans (List.map_subset _ hjoins) (List.subset_append_right _ _)⟩

theorem Resumes.declared (h : a.Resumes b) : a.declared ⊆ b.declared :=
  declared_mono (fun _ => h.sources.mem) fun _ => h.joins.mem

theorem declared_pop (a : Aliases) : a.pop.declared = a.declared := by
  unfold pop
  split <;> rfl

theorem classesDeclared_subset (a : Aliases) : a.classesDeclared ⊆ a.declared :=
  List.append_subset.mpr
    ⟨List.subset_append_left _ _,
      List.Subset.trans (List.map_subset _ (List.filter_subset_self _))
        (List.subset_append_right _ _)⟩

theorem Known.mem_declared {x : String} (h : a.Known (· ∈ a.classesDeclared) x) :
    x ∈ a.declared := by
  obtain hclass | ⟨j, hj, -, rfl⟩ := h
  · exact a.classesDeclared_subset hclass
  · exact List.mem_append_right _ (List.mem_map_of_mem hj)

/-- Joined associations have no conditions. -/
theorem Navigates.mentioned (hgrows : a.Navigates b)
    (h : ∀ j ∈ a.joins, j.mentioned ⊆ a.declared) : ∀ j ∈ b.joins, j.mentioned ⊆ b.declared := by
  obtain ⟨new, hnew, hnavigated⟩ := hgrows.joins
  have hdeclared : a.declared ⊆ b.declared := declared_mono
    (by rw [hgrows.sources]; exact List.Subset.refl _)
    (by rw [hnew]; exact List.subset_append_left _ _)
  rw [hnew]
  refine List.forall_mem_append.mpr
    ⟨fun j hj => List.Subset.trans (h j hj) hdeclared, fun j hj => ?_⟩
  have hnone : j.condition? = none := Option.isNone_iff_eq_none.mp (hnavigated j hj)
  rw [Join.mentioned, hnone]
  exact List.nil_subset _

/-! ## Sound aliases -/

/-- Paths start from declared aliases, joins hang off declared classes and stand behind what they
are joined from, and the conditions of joins refer to declared aliases. -/
structure Sound (a : Aliases) : Prop where
  orderly : a.Orderly (· ∈ a.classesDeclared)
  rooted : a.Rooted
  ordered : a.Ordered
  mentioned : ∀ j ∈ a.joins, j.mentioned ⊆ a.declared

namespace Sound

/-- Aliases that have grown by joined associations stay sound. -/
theorem navigates (h : a.Sound) (hgrows : a.Navigates b)
    (horderly : b.Orderly (· ∈ a.classesDeclared)) (hordered : b.Ordered) : b.Sound := by
  refine ⟨?_, hgrows.rooted h.rooted, hordered, hgrows.mentioned h.mentioned⟩
  rw [hgrows.classesDeclared]
  exact horderly

/-- A step that roams keeps aliases sound, and what it finds is declared. -/
theorem finds {α : Type} (h : a.Sound) (names : α → Option String) {x : Step Aliases α} {r : α}
    (hx : Finds names x) (horder : Leads KeepsOrder KeepsOrder x) (hr : x.Yields a r b) :
    b.Sound ∧ ∀ y ∈ names r, y ∈ b.declared := by
  obtain ⟨⟨hgrows, horderly⟩, hnames⟩ := hx hr h.orderly
  refine ⟨h.navigates hgrows horderly (horder.yields hr h.ordered), fun y hy => ?_⟩
  refine Known.mem_declared ?_
  rw [hgrows.classesDeclared]
  exact hnames y hy

theorem resolve (h : a.Sound) {path : String} {o : Resolution} {r : Option Reference}
    (hr : (Aliases.resolve c path o).Yields a r b) :
    b.Sound ∧ ∀ y ∈ r.bind Reference.alias?, y ∈ b.declared :=
  h.finds (·.bind Reference.alias?) (finds_resolve _ _) (keepsOrder_walk.resolve _ _) hr

theorem resolveEnclosing (h : a.Sound) {path : String} {r : Reference}
    (hr : (Aliases.resolveEnclosing c path).Yields a r b) :
    b.Sound ∧ ∀ y ∈ r.alias?, y ∈ b.declared :=
  h.finds _ (finds_resolveEnclosing _) (keepsOrder_walk.resolveEnclosing _) hr

/-! ### Scopes -/

theorem insideOr (h : a.Sound) (insideOr : Bool) : Sound { a with insideOr } :=
  have ho := h.orderly
  ⟨⟨ho.classAliases, ho.scopes, ho.roots, ho.distinct, ho.numbered⟩,
    ⟨h.rooted.scopes, h.rooted.root, h.rooted.outer⟩, h.ordered, h.mentioned⟩

theorem pushTheta (h : a.Sound) : a.pushTheta.Sound := by
  refine ⟨h.orderly.withScopes ?_, h.rooted.push _, h.ordered, h.mentioned⟩
  refine List.forall_mem_cons.mpr ⟨⟨?_, ?_⟩, h.orderly.scopes⟩
  · rintro _ ⟨⟩
  · exact fun entry hentry => absurd hentry List.not_mem_nil

theorem pushCollection (h : a.Sound) {property aliasName : String} {joinType : JoinType}
    (hr : (Aliases.pushCollection c property joinType).Yields a aliasName b) : b.Sound := by
  obtain ⟨u, scope, hgrows, rfl, horderly⟩ := pushCollection_yields h.orderly hr
  obtain ⟨v, scope', hv, heq⟩ := (keepsOrder_walk.pushCollection property joinType).yields hr
  refine ⟨?_, (hgrows.rooted h.rooted).push scope, ?_, hgrows.mentioned h.mentioned⟩
  · have hsame : classesDeclared { u with scopes := scope :: u.scopes } = a.classesDeclared :=
      hgrows.classesDeclared
    rw [hsame]
    exact horderly
  · rw [heq]
    exact hv h.ordered

/-- A scope that is closed leaves the aliases sound. -/
theorem pop (h : u.Sound) {v : Aliases} (hopens : a.Opens v) (hu : v.Resumes u)
    (ha : a.scopes ≠ []) : u.pop.Sound := by
  obtain ⟨w, scope, hw, rfl⟩ := hopens
  obtain ⟨inner, scopes, hscopes, hne, hpop, -⟩ :=
    pop_eq scope.frame hu.frames (hw.scopes_ne_nil ha)
  have hall := h.orderly.scopes
  rw [hscopes] at hall
  rw [hpop]
  exact ⟨h.orderly.withScopes (List.forall_mem_cons.mp hall).2, h.rooted.pop hscopes hne, h.ordered,
    h.mentioned⟩

/-! ### Classes -/

/-- A source whose alias the class has been given. -/
theorem append_source (h : a.Sound) {s : Source} (hsources : u.sources = a.sources)
    (hjoins : u.joins = a.joins) (hscopes : u.scopes = a.scopes)
    (horderly : u.Orderly fun y => y ∈ a.classesDeclared ∨ y = s.aliasName) :
    Sound { u with sources := u.sources ++ [s] } := by
  have hdeclared : u.declared = a.declared := by rw [declared, declared, hsources, hjoins]
  have hclasses : u.classesDeclared = a.classesDeclared := by
    rw [classesDeclared, classesDeclared, hsources, hjoins]
  refine ⟨?_, h.rooted.append_source hscopes hsources hjoins s, h.ordered.of_joins hjoins, ?_⟩
  · have hmono := horderly.mono fun y hy =>
      ((classesDeclared_append_source u s).mem_iff (a := y)).mpr
        (List.mem_cons.mpr (hy.symm.imp_right fun hmem => hclasses ▸ hmem))
    exact { hmono with }
  · intro j hj
    have hmem : j ∈ a.joins := hjoins ▸ hj
    refine List.Subset.trans (hdeclared ▸ h.mentioned j hmem) ?_
    exact declared_mono (List.subset_append_left _ _) (List.Subset.refl _)

theorem addSource (h : a.Sound) (className : String) : (a.addSource className).2.Sound := by
  unfold Aliases.addSource
  split
  · exact h
  · obtain ⟨⟨hsources, hjoins⟩, hscopes⟩ := a.obtainClassAlias_keeps className
    exact h.append_source hsources hjoins hscopes (h.orderly.obtainClassAlias className)

theorem addThetaSource (h : a.Sound) (className : String) (instanceNumber : Nat) :
    (a.addThetaSource className instanceNumber).2.Sound :=
  h.append_source (u := (a.setClassAlias className (some instanceNumber)).2) rfl rfl rfl
    (h.orderly.setClassAlias className (some instanceNumber))

/-- A class that is joined under a condition may be referred to by the condition. -/
theorem addOnJoin (h : a.Sound) {className : String}
    (hgrows : (a.obtainClassAlias className).2.Navigates u) (hordered : u.Ordered)
    (horderly : u.Orderly fun y => y ∈ a.classesDeclared ∨ y = (a.obtainClassAlias className).1)
    (property : String) (condition : Correlation)
    (hcondition : ∀ y ∈ condition.aliasNames,
      u.Known (fun y => y ∈ a.classesDeclared ∨ y = (a.obtainClassAlias className).1) y) :
    (u.addOnJoin className property (a.obtainClassAlias className).1 condition).Sound := by
  obtain ⟨⟨hsources, hjoins⟩, -⟩ := a.obtainClassAlias_keeps className
  have hclasses : u.classesDeclared = a.classesDeclared := by
    rw [hgrows.classesDeclared, classesDeclared, classesDeclared, hsources, hjoins]
  have hdeclared : (u.addOnJoin className property (a.obtainClassAlias className).1
      condition).classesDeclared = a.classesDeclared ++ [(a.obtainClassAlias className).1] := by
    rw [classesDeclared_addOnJoin, hclasses]
  have hresumes := u.addOnJoin_resumes className property (a.obtainClassAlias className).1 condition
  have hmem : ∀ y, y ∈ a.classesDeclared ∨ y = (a.obtainClassAlias className).1 →
      y ∈ (u.addOnJoin className property (a.obtainClassAlias className).1
        condition).classesDeclared := by
    intro y hy
    rw [hdeclared, List.mem_append, List.mem_singleton]
    exact hy
  refine ⟨(horderly.addOnJoin className property _ condition).mono hmem,
    h.rooted.addOnJoin hgrows property condition,
    hordered.addOnJoin className property _ condition, ?_⟩
  refine List.forall_mem_append.mpr ⟨fun j hj => ?_, List.forall_mem_singleton.mpr fun y hy => ?_⟩
  · have hbefore : ∀ j ∈ (a.obtainClassAlias className).2.joins,
        j.mentioned ⊆ (a.obtainClassAlias className).2.declared := by
      rw [declared, hsources, hjoins]
      exact h.mentioned
    exact List.Subset.trans (hgrows.mentioned hbefore j hj) hresumes.declared
  · obtain hanchor | ⟨j, hj, -, rfl⟩ := hcondition y hy
    · exact classesDeclared_subset _ (hmem y hanchor)
    · exact hresumes.declared (List.mem_append_right _ (List.mem_map_of_mem hj))

/-! ### The sources of a statement -/

/-- A query starts with the alias of its class. -/
theorem start (className : String) : (Aliases.start className).Sound := by
  refine ⟨start_orderly className, start_rooted className, fun x => ?_, ?_⟩
  · rw [start_eq]
    trivial
  · rw [start_eq]
    exact fun j hj => absurd hj List.not_mem_nil

/-- Every declared alias is listed with the sources. -/
theorem declared_sourceList (h : a.Sound) : a.declared ⊆ a.sourceList.aliasNames := by
  intro x hx
  rw [SourceList.mem_aliasNames]
  rcases List.mem_append.mp hx with hx | hx
  · obtain ⟨s, hs, rfl⟩ := List.mem_map.mp hx
    obtain ⟨i, hi, rfl⟩ := List.mem_map.mp (a.sources_sourceList.mem_iff.mpr hs)
    exact .inl (List.mem_map_of_mem hi)
  · obtain ⟨j, hj, rfl⟩ := List.mem_map.mp hx
    exact .inr (List.mem_map_of_mem ((mem_joins_sourceList h.orderly h.rooted).mpr hj))

/-- The sources are listed in order. -/
theorem inOrder (h : a.Sound) : a.sourceList.InOrder [] := by
  refine .of_items [] fun i hi => ?_
  obtain ⟨s, -, rfl⟩ := List.mem_map.mp hi
  refine (h.ordered s.aliasName).flatMap fun j _ => ?_
  split
  · exact ⟨_, rfl, h.ordered j.aliasName⟩
  · exact ⟨[], rfl, trivial⟩

/-- Nothing but declared aliases is mentioned by the joins that are listed. -/
theorem mentioned_sourceList (h : a.Sound) :
    a.sourceList.joins.flatMap Join.mentioned ⊆ a.declared := by
  intro x hx
  obtain ⟨j, hj, hx⟩ := List.mem_flatMap.mp hx
  exact h.mentioned j ((mem_joins_sourceList h.orderly h.rooted).mp hj) hx

/-- The alias that paths start from is declared. -/
theorem currentAlias (h : a.Sound) : ∀ x ∈ a.currentAlias, x ∈ a.declared := by
  intro x hx
  obtain ⟨s, hs, hx⟩ := Option.bind_eq_some_iff.mp hx
  exact ((h.orderly.scopes s (List.mem_of_mem_head? hs)).1 x hx).mem_declared

theorem rootAlias (h : a.Sound) : a.rootAlias ∈ a.declared :=
  List.mem_append_left _ h.rooted.root

end Sound

end Aliases

end ObjectQuery
