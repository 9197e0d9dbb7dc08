import ObjectQuery.Proofs.Declarations.Joins
import ObjectQuery.Proofs.Emission.Parts

/-!
# Aliases named after classes

Joins with another class name an alias after the class. A class is listed among the sources once,
every class that is correlated has a number of its own, but an outer join takes whatever alias the
class has.

* `Naming`, `Test.namings`, `Filter.namings`: the joins with other classes that a filter makes, in
  order.
* `Naming.areFit`: no outer join takes an alias that is declared already, and no source takes that
  of an outer join.
* `Aliases.Records`: aliases with the namings that made them. They are distinct if the namings fit.
* `Aliases.Records.addSource`, `Aliases.Records.addThetaSource`, `Aliases.Records.addOnJoin`: each
  naming adds to the record.
-/

namespace ObjectQuery

/-- A join with another class, which names an alias after the class. -/
inductive Naming where
  /-- A class is listed among the sources, once. -/
  | listed (className : String)
  /-- An instance of a class is listed and correlated by a condition on the class. -/
  | correlated (className : String)
  /-- A class is joined under a condition. -/
  | outer (className : String)
  deriving DecidableEq, Repr, Inhabited

namespace Naming

/-- The class that the alias is named after. -/
def className : Naming → String
  | listed c | correlated c | outer c => c

/-- Whether a naming leaves the aliases distinct after others. -/
def fitsAfter (before : List Naming) : Naming → Bool
  | listed c => before.contains (.listed c) || before.all (·.className != c)
  | correlated _ => true
  | outer c => before.all (·.className != c)

/-- Whether each naming leaves the aliases distinct after the ones in front of it. -/
def areFit (before : List Naming) : List Naming → Bool
  | [] => true
  | n :: rest => n.fitsAfter before && areFit (before ++ [n]) rest

theorem areFit_append (before ns : List Naming) (n : Naming) :
    areFit before (ns ++ [n]) = (areFit before ns && n.fitsAfter (before ++ ns)) := by
  induction ns generalizing before with
  | nil =>
    rw [List.nil_append, areFit, areFit, areFit, Bool.and_true, Bool.true_and, List.append_nil]
  | cons m rest ih =>
    rw [List.cons_append, areFit, ih, areFit, Bool.and_assoc, List.append_assoc,
      List.singleton_append]

end Naming

/-- The join with another class that a test makes, which is correlated in a theta join. -/
def Test.namings (theta : Bool) (t : Test) : List Naming :=
  match t.operation, t.joinProperty with
  | .join, some other =>
    [if theta then .correlated (Path.head other).1 else .listed (Path.head other).1]
  | .leftJoin, some other => [.outer (Path.head other).1]
  | _, _ => []

theorem Test.namings_eq_nil {t : Test} (hjoin : t.operation ≠ .join)
    (hleft : t.operation ≠ .leftJoin) (theta : Bool) : t.namings theta = [] := by
  unfold Test.namings
  split
  · exact absurd ‹_› hjoin
  · exact absurd ‹_› hleft
  · rfl

namespace Filter

mutual

/-- The joins with other classes that a filter makes. A nested select has aliases of its own, which
goes for the negated part of a condition on a collection, too. -/
def namings (theta : Bool) : Filter → List Naming
  | .leaf ⟨t, condition, _⟩ =>
    match t.operation with
    | .collectionCondition => conditionNamings (Draft.namesClass t.property) condition
    | _ => t.namings theta
  | .composite ⟨_, children⟩ => allNamings theta children

/-- The joins that several filters make. -/
def allNamings (theta : Bool) : List Filter → List Naming
  | [] => []
  | f :: rest => namings theta f ++ allNamings theta rest

/-- The joins that a condition on a collection's elements makes. -/
def conditionNamings (theta : Bool) : Option Composite → List Naming
  | none => []
  | some ⟨operation, children⟩ => if operation = .not then [] else plainNamings theta children

/-- The joins that the filters make that are not negated. -/
def plainNamings (theta : Bool) : List Filter → List Naming
  | [] => []
  | f :: rest => (if f.isNegated then [] else namings theta f) ++ plainNamings theta rest

end

theorem plainNamings_eq (theta : Bool) (fs : List Filter) :
    plainNamings theta fs = allNamings theta (fs.filter (!·.isNegated)) := by
  induction fs with
  | nil => rfl
  | cons f rest ih =>
    rw [plainNamings, ih]
    by_cases hf : f.isNegated = true
    · rw [if_pos hf, List.filter_cons_of_neg (by simp [hf]), List.nil_append]
    · rw [if_neg hf, List.filter_cons_of_pos (by simp [hf]), allNamings]

/-- A condition makes the joins of its plain part. -/
theorem conditionNamings_some (theta : Bool) (c : Composite) :
    conditionNamings theta (some c) =
      c.split.1.elim [] fun part => namings theta (.composite part) := by
  obtain ⟨operation, children⟩ := c
  rw [conditionNamings, plainNamings_eq, Composite.elim_split_plain, namings]
  rfl

section

variable {t : Test} {condition : Option Composite} {subfilter : Option Filter}

theorem namings_condition (hop : t.operation = .collectionCondition) (theta : Bool) :
    namings theta (.leaf ⟨t, condition, subfilter⟩) =
      conditionNamings (Draft.namesClass t.property) condition := by
  rw [namings, hop]

theorem namings_leaf (hop : t.operation ≠ .collectionCondition) (theta : Bool) :
    namings theta (.leaf ⟨t, condition, subfilter⟩) = t.namings theta := by
  rw [namings]
  split
  · exact absurd ‹_› hop
  · rfl

end

end Filter

/-- No two classes differ in the case of their first letter only. -/
def Catalog.Distinct (c : Catalog) : Prop :=
  ∀ C C', c.isKnown C = true → c.isKnown C' = true → Text.lowerFirst C = Text.lowerFirst C' → C = C'

namespace Aliases

/-- The aliases of sources and of classes joined under a condition. -/
def classesDeclared (a : Aliases) : List String :=
  a.sources.map (·.aliasName) ++ (a.joins.filter (!·.isNavigated)).map (·.aliasName)

/-- What the aliases of classes owe to the namings that made them, of which those below `instances`
were numbered. -/
structure History (ns : List Naming) (instances : Nat) (a : Aliases) : Prop where
  /-- A class has an alias if it was named. -/
  named : ∀ C, (∃ x, a.classAlias? C = some x) ↔ ∃ n ∈ ns, n.className = C
  /-- A class is a source if it was listed. -/
  listed : ∀ C, (∃ s ∈ a.sources, s.theta = false ∧ s.className = C) ↔ .listed C ∈ ns
  names : ∀ x ∈ a.classesDeclared, ∃ C number, x = classAliasName C number ∧
    (∃ n ∈ ns, n.className = C) ∧ ∀ i ∈ number, i < instances
  distinct : a.classesDeclared.Nodup ↔ Naming.areFit [] ns = true

/-- Classes are joined under a condition to the query class, which is a source. -/
structure Rooted (a : Aliases) : Prop where
  scopes : a.scopes ≠ []
  root : a.rootAlias ∈ a.sources.map (·.aliasName)
  outer : ∀ j ∈ a.joins, j.isNavigated = false → j.rootAlias = a.rootAlias

/-- Aliases with the namings of known classes that made them. -/
structure Records (c : Catalog) (ns : List Naming) (instances : Nat) (a : Aliases) : Prop where
  known : ∀ n ∈ ns, c.isKnown n.className = true
  history : a.History ns instances
  orderly : a.Orderly (· ∈ a.classesDeclared)
  rooted : a.Rooted

variable {a b : Aliases} {c : Catalog} {ns : List Naming} {instances : Nat}

/-! ## Scopes -/

theorem rootAlias_eq_of_frames (h : b.frames = a.frames) : b.rootAlias = a.rootAlias := by
  have hroot : ∀ a : Aliases, a.rootAlias = (a.frames.getLast?.bind (·.aliasName)).getD "" := by
    intro a
    rw [frames, List.getLast?_map, Option.bind_map]
    rfl
  rw [hroot, hroot, h]

/-- The query class stays the root while nothing but sources and joins comes in. -/
theorem Rooted.of_frames (h : a.Rooted) (hframes : b.frames = a.frames)
    (hsources : ∀ s ∈ a.sources, s ∈ b.sources)
    (hjoins : ∀ j ∈ b.joins, j.isNavigated = false → j ∈ a.joins ∨ j.rootAlias = a.rootAlias) :
    b.Rooted := by
  have hroot := rootAlias_eq_of_frames hframes
  refine ⟨fun hb => ?_, ?_, fun j hj hnavigated => ?_⟩
  · rw [frames, frames, hb] at hframes
    exact h.scopes (List.map_eq_nil_iff.mp hframes.symm)
  · obtain ⟨s, hs, hname⟩ := List.mem_map.mp h.root
    rw [hroot, ← hname]
    exact List.mem_map_of_mem (hsources s hs)
  · rw [hroot]
    obtain hmem | heq := hjoins j hj hnavigated
    · exact h.outer j hmem hnavigated
    · exact heq

/-! ## Fresh aliases -/

theorem start_eq (className : String) : start className =
    { queryClass := className
      scopes :=
        [{ kind := .root
           className
           aliasName := some (classAliasName className none)
           rootClass := className
           rootPath := []
           joined := [] }]
      classAliases := [(className, classAliasName className none)]
      sources := [⟨className, classAliasName className none, false⟩]
      joins := []
      insideOr := false } := rfl

theorem start_orderly (className : String) :
    (start className).Orderly (· ∈ (start className).classesDeclared) := by
  rw [start_eq]
  refine ⟨?classAliases, ?scopes, by simp, by simp, by simp⟩
  case classAliases => exact List.forall_mem_singleton.mpr (List.mem_singleton.mpr rfl)
  case scopes =>
    refine List.forall_mem_singleton.mpr ⟨?_, fun entry hentry => absurd hentry List.not_mem_nil⟩
    rintro _ ⟨⟩
    exact .inl (List.mem_singleton.mpr rfl)

theorem start_rooted (className : String) : (start className).Rooted := by
  rw [start_eq]
  exact ⟨by simp, List.mem_singleton.mpr rfl, by simp⟩

/-! ## Joined associations -/

theorem Navigates.classesDeclared (h : a.Navigates b) : b.classesDeclared = a.classesDeclared := by
  rw [Aliases.classesDeclared, h.sources, h.outer, Aliases.classesDeclared]

theorem Navigates.history (hgrows : a.Navigates b) (h : a.History ns instances) :
    b.History ns instances := by
  refine ⟨fun C => ?_, fun C => ?_, ?_, ?_⟩
  · rw [classAlias?, hgrows.classAliases]
    exact h.named C
  · rw [hgrows.sources]
    exact h.listed C
  · rw [hgrows.classesDeclared]
    exact h.names
  · rw [hgrows.classesDeclared]
    exact h.distinct

theorem Navigates.rooted (hgrows : a.Navigates b) (h : a.Rooted) : b.Rooted := by
  refine h.of_frames hgrows.frames (fun s hs => by rwa [hgrows.sources]) fun j hj hnavigated => ?_
  have hmem : j ∈ b.joins.filter (!·.isNavigated) := List.mem_filter.mpr ⟨hj, by simp [hnavigated]⟩
  rw [hgrows.outer] at hmem
  exact .inl (List.mem_filter.mp hmem).1

/-- Joined associations leave the record alone. -/
theorem Records.navigates (h : a.Records c ns instances) (hgrows : a.Navigates b)
    (hb : b.Orderly (· ∈ a.classesDeclared)) : b.Records c ns instances :=
  ⟨h.known, hgrows.history h.history, by rwa [hgrows.classesDeclared], hgrows.rooted h.rooted⟩

/-! ## One more naming -/

/-- A naming that declares an alias leaves the aliases distinct if the alias is new. -/
theorem History.add (h : a.History ns instances) {n : Naming} {x : String} {instances' : Nat}
    (hle : instances ≤ instances')
    (hnamed : ∀ C, (∃ y, b.classAlias? C = some y) ↔
      (∃ y, a.classAlias? C = some y) ∨ n.className = C)
    (hlisted : ∀ C, (∃ s ∈ b.sources, s.theta = false ∧ s.className = C) ↔
      (∃ s ∈ a.sources, s.theta = false ∧ s.className = C) ∨ .listed C = n)
    (hdeclared : b.classesDeclared.Perm (x :: a.classesDeclared))
    (hname : x ∈ a.classesDeclared ∨
      ∃ number, x = classAliasName n.className number ∧ ∀ i ∈ number, i < instances')
    (hfresh : x ∉ a.classesDeclared ↔ n.fitsAfter ns = true) :
    b.History (ns ++ [n]) instances' := by
  refine ⟨fun C => ?_, fun C => ?_, fun y hy => ?_, ?_⟩
  · rw [hnamed, h.named]
    simp [or_and_right, exists_or]
  · rw [hlisted, h.listed, List.mem_append, List.mem_singleton]
  · have hold : y ∈ a.classesDeclared → ∃ C number, y = classAliasName C number ∧
        (∃ m ∈ ns ++ [n], m.className = C) ∧ ∀ i ∈ number, i < instances' := by
      intro hy
      obtain ⟨C, number, rfl, ⟨m, hm, hclass⟩, hlt⟩ := h.names y hy
      exact ⟨C, number, rfl, ⟨m, List.mem_append_left _ hm, hclass⟩,
        fun i hi => Nat.lt_of_lt_of_le (hlt i hi) hle⟩
    rcases List.mem_cons.mp (hdeclared.mem_iff.mp hy) with rfl | hmem
    · obtain hmem | ⟨number, rfl, hlt⟩ := hname
      · exact hold hmem
      · exact ⟨n.className, number, rfl, ⟨n, by simp, rfl⟩, hlt⟩
    · exact hold hmem
  · rw [hdeclared.nodup_iff, List.nodup_cons, hfresh, h.distinct, Naming.areFit_append,
      List.nil_append, Bool.and_eq_true, and_comm]

/-- An alias without a number is new if its class was not named. -/
theorem History.not_mem (h : a.History ns instances) (hc : c.Distinct)
    (hknown : ∀ n ∈ ns, c.isKnown n.className = true) {C : String} (hC : c.isKnown C = true)
    (hnone : a.classAlias? C = none) : classAliasName C none ∉ a.classesDeclared := by
  intro hmem
  obtain ⟨C', number, heq, ⟨n, hn, rfl⟩, -⟩ := h.names _ hmem
  obtain ⟨hfirst, -⟩ := classAliasName_inj heq
  obtain rfl := hc C n.className hC (hknown n hn) hfirst
  obtain ⟨x, hx⟩ := (h.named _).mpr ⟨n, hn, rfl⟩
  rw [hnone] at hx
  cases hx

/-- A naming that declares an alias adds to the record. -/
theorem Records.add (h : a.Records c ns instances) {n : Naming} {x : String} {instances' : Nat}
    (hknown : c.isKnown n.className = true) (hle : instances ≤ instances')
    (hnamed : ∀ C, (∃ y, b.classAlias? C = some y) ↔
      (∃ y, a.classAlias? C = some y) ∨ n.className = C)
    (hlisted : ∀ C, (∃ s ∈ b.sources, s.theta = false ∧ s.className = C) ↔
      (∃ s ∈ a.sources, s.theta = false ∧ s.className = C) ∨ .listed C = n)
    (hdeclared : b.classesDeclared.Perm (x :: a.classesDeclared))
    (hname : x ∈ a.classesDeclared ∨
      ∃ number, x = classAliasName n.className number ∧ ∀ i ∈ number, i < instances')
    (hfresh : x ∉ a.classesDeclared ↔ n.fitsAfter ns = true)
    (horderly : b.Orderly fun y => y ∈ a.classesDeclared ∨ y = x) (hrooted : b.Rooted) :
    b.Records c (ns ++ [n]) instances' := by
  refine ⟨List.forall_mem_append.mpr ⟨h.known, List.forall_mem_singleton.mpr hknown⟩,
    h.history.add hle hnamed hlisted hdeclared hname hfresh, horderly.mono fun y hy => ?_, hrooted⟩
  rw [hdeclared.mem_iff, List.mem_cons]
  exact hy.symm

/-! ## Aliases of classes -/

theorem exists_classAlias?_setClassAlias (a : Aliases) (className : String)
    (instanceNumber : Option Nat) (C : String) :
    (∃ y, (a.setClassAlias className instanceNumber).2.classAlias? C = some y) ↔
      (∃ y, a.classAlias? C = some y) ∨ className = C := by
  unfold setClassAlias classAlias?
  by_cases hC : C = className
  · subst hC
    rw [Dictionary.find?_insert_self]
    simp
  · rw [Dictionary.find?_insert_of_ne hC]
    simp [Ne.symm hC]

/-- A new alias of a class is one more anchor. -/
theorem Orderly.setClassAlias {A : String → Prop} (h : a.Orderly A) (className : String)
    (instanceNumber : Option Nat) :
    (a.setClassAlias className instanceNumber).2.Orderly fun y =>
      A y ∨ y = classAliasName className instanceNumber := by
  have hmono : a.Orderly fun y => A y ∨ y = classAliasName className instanceNumber :=
    h.mono fun _ => .inl
  refine { hmono with classAliases := ?_ }
  exact Dictionary.forall_mem_insert
    (P := fun y => A y ∨ y = classAliasName className instanceNumber) hmono.classAliases className
    (.inr rfl)

/-- What a class is given an alias with: nothing but the alias changes. -/
theorem obtainClassAlias_eq (a : Aliases) (className : String) :
    (∃ x, a.classAlias? className = some x ∧ a.obtainClassAlias className = (x, a)) ∨
      a.classAlias? className = none ∧
        a.obtainClassAlias className = a.setClassAlias className none := by
  unfold obtainClassAlias
  cases hx : a.classAlias? className with
  | some x => exact .inl ⟨x, rfl, rfl⟩
  | none => exact .inr ⟨rfl, rfl⟩

theorem exists_classAlias?_obtainClassAlias (a : Aliases) (className C : String) :
    (∃ y, (a.obtainClassAlias className).2.classAlias? C = some y) ↔
      (∃ y, a.classAlias? C = some y) ∨ className = C := by
  obtain ⟨x, hx, heq⟩ | ⟨-, heq⟩ := a.obtainClassAlias_eq className
  · rw [heq]
    constructor
    · exact .inl
    · rintro (hy | rfl)
      · exact hy
      · exact ⟨x, hx⟩
  · rw [heq]
    exact exists_classAlias?_setClassAlias a className none C

theorem obtainClassAlias_keeps (a : Aliases) (className : String) :
    ((a.obtainClassAlias className).2.sources = a.sources ∧
      (a.obtainClassAlias className).2.joins = a.joins) ∧
      (a.obtainClassAlias className).2.scopes = a.scopes := by
  obtain ⟨x, -, heq⟩ | ⟨-, heq⟩ := a.obtainClassAlias_eq className <;> rw [heq] <;>
    exact ⟨⟨rfl, rfl⟩, rfl⟩

theorem frames_obtainClassAlias (a : Aliases) (className : String) :
    (a.obtainClassAlias className).2.frames = a.frames := by
  rw [frames, (a.obtainClassAlias_keeps className).2, frames]

theorem frames_addSource (a : Aliases) (className : String) :
    (a.addSource className).2.frames = a.frames := by
  unfold addSource
  split
  · rfl
  · exact a.frames_obtainClassAlias className

theorem Orderly.obtainClassAlias {A : String → Prop} (h : a.Orderly A) (className : String) :
    (a.obtainClassAlias className).2.Orderly fun y =>
      A y ∨ y = (a.obtainClassAlias className).1 := by
  obtain ⟨x, -, heq⟩ | ⟨-, heq⟩ := a.obtainClassAlias_eq className
  · rw [heq]
    exact h.mono fun _ hy => .inl hy
  · rw [heq]
    exact h.setClassAlias className none

/-- The alias that a class is given belongs to a declared class just if the class was named. -/
theorem Records.obtainClassAlias_mem (h : a.Records c ns instances) (hc : c.Distinct)
    {className : String} (hknown : c.isKnown className = true) :
    (a.obtainClassAlias className).1 ∈ a.classesDeclared ↔ ∃ n ∈ ns, n.className = className := by
  rw [← h.history.named]
  obtain ⟨x, hx, heq⟩ | ⟨hnone, heq⟩ := a.obtainClassAlias_eq className
  · rw [heq]
    exact ⟨fun _ => ⟨x, hx⟩, fun _ => Dictionary.of_find?_eq_some h.orderly.classAliases hx⟩
  · rw [heq, hnone]
    constructor
    · exact fun hmem => absurd hmem (h.history.not_mem hc h.known hknown hnone)
    · rintro ⟨x, hx⟩
      cases hx

/-- A class that has no alias is given one without a number. -/
theorem Records.obtainClassAlias_name (h : a.Records c ns instances) (className : String) :
    (a.obtainClassAlias className).1 ∈ a.classesDeclared ∨
      ∃ number, (a.obtainClassAlias className).1 = classAliasName className number ∧
        ∀ i ∈ number, i < instances := by
  obtain ⟨x, hx, heq⟩ | ⟨-, heq⟩ := a.obtainClassAlias_eq className
  · rw [heq]
    exact .inl (Dictionary.of_find?_eq_some h.orderly.classAliases hx)
  · rw [heq]
    exact .inr ⟨none, rfl, by rintro _ ⟨⟩⟩

/-! ## Namings -/

/-- The declared aliases with one more source. -/
theorem classesDeclared_append_source (a : Aliases) (s : Source) :
    (classesDeclared { a with sources := a.sources ++ [s] }).Perm
      (s.aliasName :: a.classesDeclared) := by
  unfold classesDeclared
  rw [List.map_append, List.append_assoc]
  exact List.perm_middle

/-- The query class stays the root when a source comes in. -/
theorem Rooted.append_source {u : Aliases} (h : a.Rooted) (hscopes : u.scopes = a.scopes)
    (hsources : u.sources = a.sources) (hjoins : u.joins = a.joins) (s : Source) :
    Rooted { u with sources := u.sources ++ [s] } := by
  refine h.of_frames ?_ (fun r hr => ?_) fun j hj _ => .inl ?_
  · rw [frames, hscopes, frames]
  · rw [hsources]
    exact List.mem_append_left _ hr
  · rwa [← hjoins]

/-- To list a class again changes nothing. -/
theorem Records.listAgain (h : a.Records c ns instances) {className : String}
    (hknown : c.isKnown className = true) (hlisted : Naming.listed className ∈ ns) :
    a.Records c (ns ++ [.listed className]) instances := by
  have hfits : (Naming.listed className).fitsAfter ns = true := by
    rw [Naming.fitsAfter, List.contains_iff_mem.mpr hlisted, Bool.true_or]
  refine ⟨List.forall_mem_append.mpr ⟨h.known, List.forall_mem_singleton.mpr hknown⟩,
    ⟨fun C => ?_, fun C => ?_, fun x hx => ?_, ?_⟩, h.orderly, h.rooted⟩
  · rw [h.history.named]
    refine ⟨fun ⟨n, hn, hclass⟩ => ⟨n, List.mem_append_left _ hn, hclass⟩, ?_⟩
    rintro ⟨n, hn, rfl⟩
    rcases List.mem_append.mp hn with hn | hn
    · exact ⟨n, hn, rfl⟩
    · exact ⟨_, hlisted, by rw [List.mem_singleton.mp hn]⟩
  · rw [h.history.listed, List.mem_append, List.mem_singleton]
    refine ⟨.inl, ?_⟩
    rintro (hn | hn)
    · exact hn
    · rwa [hn]
  · obtain ⟨C, number, hname, ⟨n, hn, hclass⟩, hlt⟩ := h.history.names x hx
    exact ⟨C, number, hname, ⟨n, List.mem_append_left _ hn, hclass⟩, hlt⟩
  · rw [h.history.distinct, Naming.areFit_append, List.nil_append, hfits, Bool.and_true]

/-- A class is listed unless it is already, under an alias that may belong to another source. -/
theorem Records.addSource (h : a.Records c ns instances) (hc : c.Distinct) {className : String}
    (hknown : c.isKnown className = true) :
    (a.addSource className).2.Records c (ns ++ [.listed className]) instances := by
  unfold Aliases.addSource
  split
  · rename_i s hfind
    have hs := List.find?_some hfind
    rw [Bool.and_eq_true, Bool.not_eq_true', beq_iff_eq] at hs
    have hlisted : Naming.listed className ∈ ns :=
      (h.history.listed className).mp ⟨s, List.mem_of_find?_eq_some hfind, hs.1, hs.2⟩
    exact h.listAgain hknown hlisted
  · rename_i hfind
    have hnot : Naming.listed className ∉ ns := by
      intro hmem
      obtain ⟨s, hs, htheta, hclass⟩ := (h.history.listed className).mpr hmem
      exact List.find?_eq_none.mp hfind s hs (by simp [htheta, hclass])
    obtain ⟨⟨hsources, hjoins⟩, hscopes⟩ := a.obtainClassAlias_keeps className
    dsimp only
    refine h.add hknown (Nat.le_refl _) (exists_classAlias?_obtainClassAlias a className)
      (fun C => ?_) ?_ (h.obtainClassAlias_name className) ?_ ?_
      (h.rooted.append_source hscopes hsources hjoins _)
    · rw [hsources]
      simp [eq_comm (a := C)]
    · refine (classesDeclared_append_source _ _).trans ?_
      rw [classesDeclared, classesDeclared, hsources, hjoins]
    · rw [h.obtainClassAlias_mem hc hknown, Naming.fitsAfter, Bool.or_eq_true,
        List.contains_iff_mem]
      simp [hnot]
    · have horderly := h.orderly.obtainClassAlias className
      exact { horderly with }

/-- An instance of a class has a number of its own. -/
theorem Records.addThetaSource (h : a.Records c ns instances) {className : String}
    (hknown : c.isKnown className = true) :
    (a.addThetaSource className instances).2.Records c (ns ++ [.correlated className])
      (instances + 1) := by
  have hnew : classAliasName className (some instances) ∉ a.classesDeclared := by
    intro hmem
    obtain ⟨C, number, heq, -, hlt⟩ := h.history.names _ hmem
    obtain ⟨-, rfl⟩ := classAliasName_inj heq
    exact Nat.lt_irrefl _ (hlt instances rfl)
  unfold Aliases.addThetaSource
  dsimp only
  refine h.add hknown (Nat.le_succ _) (exists_classAlias?_setClassAlias a className _)
    (fun C => ?_) (classesDeclared_append_source _ _) (.inr ⟨some instances, rfl, ?_⟩) ?_ ?_
    (h.rooted.append_source (u := (a.setClassAlias className (some instances)).2) rfl rfl rfl _)
  · show (∃ s ∈ a.sources ++ [_], _) ↔ _
    simp
  · rintro _ ⟨⟩
    exact Nat.lt_succ_self _
  · exact ⟨fun _ => rfl, fun _ => hnew⟩
  · have horderly := h.orderly.setClassAlias className (some instances)
    exact { horderly with }

/-- The declared aliases with one more class joined under a condition. -/
theorem classesDeclared_addOnJoin (a : Aliases) (className property aliasName : String)
    (condition : Correlation) :
    (a.addOnJoin className property aliasName condition).classesDeclared =
      a.classesDeclared ++ [aliasName] := by
  unfold classesDeclared Aliases.addOnJoin
  rw [List.filter_append, List.map_append, List.append_assoc]
  rfl

/-- A class joined under a condition is no joined association. -/
theorem Orderly.addOnJoin {A : String → Prop} (h : a.Orderly A)
    (className property aliasName : String) (condition : Correlation) :
    (a.addOnJoin className property aliasName condition).Orderly A := by
  have hbefore : ∀ x, a.Joined x →
      (a.addOnJoin className property aliasName condition).Joined x := by
    rintro x ⟨j, hj, hnavigated, hname⟩
    exact ⟨j, List.mem_append_left _ hj, hnavigated, hname⟩
  refine ⟨h.classAliases, fun s hs => ⟨fun x hx => ((h.scopes s hs).1 x hx).imp_right (hbefore x),
    fun entry hentry => hbefore _ ((h.scopes s hs).2 entry hentry)⟩, ?roots, ?distinct, ?numbered⟩
  case roots =>
    refine List.forall_mem_append.mpr ⟨h.roots, List.forall_mem_singleton.mpr ?_⟩
    rintro ⟨⟩
  case distinct =>
    show ((List.filter (·.isNavigated) (a.joins ++ [_])).map (·.aliasName)).Nodup
    rw [List.filter_append, List.filter_cons_of_neg (by rintro ⟨⟩), List.filter_nil,
      List.append_nil]
    exact h.distinct
  case numbered =>
    refine List.forall_mem_append.mpr ⟨fun j hj hnavigated => ?_, List.forall_mem_singleton.mpr ?_⟩
    · obtain ⟨rootClass, path, number, hname, hlt⟩ := h.numbered j hj hnavigated
      refine ⟨rootClass, path, number, hname, Nat.lt_of_lt_of_le hlt ?_⟩
      show _ ≤ (List.filter _ (a.joins ++ [_])).length
      rw [List.filter_append, List.length_append]
      exact Nat.le_add_right _ _
    · rintro ⟨⟩

/-- The query class stays the root when a class is joined under a condition. -/
theorem Rooted.addOnJoin {u : Aliases} (h : a.Rooted) {className : String}
    (hgrows : (a.obtainClassAlias className).2.Navigates u) (property : String)
    (condition : Correlation) :
    (u.addOnJoin className property (a.obtainClassAlias className).1 condition).Rooted := by
  obtain ⟨⟨hsources, hjoins⟩, -⟩ := a.obtainClassAlias_keeps className
  have hframes : u.frames = a.frames := hgrows.frames.trans (a.frames_obtainClassAlias className)
  refine h.of_frames hframes (fun s hs => ?_) ?_
  · show s ∈ u.sources
    rwa [hgrows.sources, hsources]
  · refine List.forall_mem_append.mpr ⟨fun j hj hnavigated => .inl ?_,
      List.forall_mem_singleton.mpr fun _ => .inr ?_⟩
    · have hmem : j ∈ u.joins.filter (!·.isNavigated) :=
        List.mem_filter.mpr ⟨hj, by simp [hnavigated]⟩
      rw [hgrows.outer, hjoins] at hmem
      exact (List.mem_filter.mp hmem).1
    · exact rootAlias_eq_of_frames hframes

/-- A class is joined under the alias that it was given before its condition was resolved. -/
theorem Records.addOnJoin (h : a.Records c ns instances) (hc : c.Distinct) {className : String}
    (hknown : c.isKnown className = true) {u : Aliases}
    (hgrows : (a.obtainClassAlias className).2.Navigates u)
    (hu : u.Orderly fun y => y ∈ a.classesDeclared ∨ y = (a.obtainClassAlias className).1)
    (property : String) (condition : Correlation) :
    (u.addOnJoin className property (a.obtainClassAlias className).1 condition).Records c
      (ns ++ [.outer className]) instances := by
  obtain ⟨⟨hsources, hjoins⟩, -⟩ := a.obtainClassAlias_keeps className
  have houter : u.joins.filter (!·.isNavigated) = a.joins.filter (!·.isNavigated) := by
    rw [hgrows.outer, hjoins]
  refine h.add (x := (a.obtainClassAlias className).1) hknown (Nat.le_refl _) (fun C => ?named)
    (fun C => ?listed) ?declared (h.obtainClassAlias_name className) ?fresh ?orderly ?rooted
  case named =>
    refine Iff.trans ?_ (exists_classAlias?_obtainClassAlias a className C)
    unfold classAlias?
    rw [← hgrows.classAliases]
    rfl
  case listed =>
    have hsame : (u.addOnJoin className property (a.obtainClassAlias className).1
        condition).sources = a.sources := hgrows.sources.trans hsources
    rw [hsame]
    simp
  case declared =>
    have hbefore : u.classesDeclared = a.classesDeclared := by
      rw [classesDeclared, classesDeclared, houter, hgrows.sources, hsources]
    rw [classesDeclared_addOnJoin, hbefore]
    exact List.perm_append_comm
  case fresh =>
    rw [h.obtainClassAlias_mem hc hknown, Naming.fitsAfter]
    simp
  case orderly => exact hu.addOnJoin className property _ condition
  case rooted => exact h.rooted.addOnJoin hgrows property condition

end Aliases

end ObjectQuery
