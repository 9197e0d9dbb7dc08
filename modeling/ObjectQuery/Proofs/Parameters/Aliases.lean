import ObjectQuery.Proofs.Emission.Steps
import ObjectQuery.Proofs.Parameters.ColonFree

/-!
# Aliases without colons

Every alias is made of names from the query and of digits, and every reference of an alias and
segments of a path.

* `Scope.Plain`, `Aliases.Plain`: what is written of a scope and of aliases has no colons.
* `Aliases.Plain.addSource`, `Aliases.Plain.addOnJoin`, ...: each change of the aliases keeps it so
  for names without colons.
* `Aliases.keeps_resolve`, `Aliases.keeps_pushCollection`, ...: so does each path without colons
  that is resolved, and its reference has none.
* `Aliases.Plain.sourceList`: nor have the sources of a statement.
-/

namespace ObjectQuery

open Text Step

namespace Dictionary

variable {κ α : Type} [DecidableEq κ] {P : α → Prop} {entries : Dictionary κ α}

theorem of_find?_eq_some (h : ∀ entry ∈ entries, P entry.2) {key : κ} {value : α}
    (hfind : find? key entries = some value) : P value := by
  induction entries with
  | nil => cases hfind
  | cons entry rest ih =>
    obtain ⟨hentry, hrest⟩ := List.forall_mem_cons.mp h
    rw [find?] at hfind
    split at hfind
    · cases hfind
      exact hentry
    · exact ih hrest hfind

theorem forall_mem_insert (h : ∀ entry ∈ entries, P entry.2) (key : κ) {value : α}
    (hvalue : P value) :
    ∀ entry ∈ insert key value entries, P entry.2 := by
  induction entries with
  | nil => exact List.forall_mem_cons.mpr ⟨hvalue, h⟩
  | cons entry rest ih =>
    obtain ⟨hentry, hrest⟩ := List.forall_mem_cons.mp h
    rw [insert]
    split
    · exact List.forall_mem_cons.mpr ⟨hvalue, hrest⟩
    · exact List.forall_mem_cons.mpr ⟨hentry, ih hrest⟩

end Dictionary

theorem JoinType.colonFree_keyword (t : JoinType) : ColonFree t.keyword := by
  cases t <;> decide

/-- What is written of a scope has no colons. -/
structure Scope.Plain (s : Scope) : Prop where
  aliasName : ColonFree? s.aliasName
  rootClass : ColonFree s.rootClass
  rootPath : ∀ segment ∈ s.rootPath, ColonFree segment
  joined : ∀ entry ∈ s.joined, ColonFree entry.2

/-- What is written of a walk along a path has no colons. -/
structure Cursor.Plain (c : Cursor) : Prop where
  aliasName : ColonFree c.aliasName
  rootClass : ColonFree c.rootClass
  rootPath : ∀ segment ∈ c.rootPath, ColonFree segment

namespace Aliases

/-- What is written of aliases has no colons. -/
structure Plain (a : Aliases) : Prop where
  queryClass : ColonFree a.queryClass
  scopes : ∀ s ∈ a.scopes, s.Plain
  classAliases : ∀ entry ∈ a.classAliases, ColonFree entry.2
  sources : ∀ s ∈ a.sources, ColonFree s.className ∧ ColonFree s.aliasName
  joins : ∀ j ∈ a.joins, ColonFree j.render

variable {a : Aliases} {c : Catalog}

namespace Plain

/-! ## Classes and sources -/

theorem setClassAlias (ha : a.Plain) {className : String} (h : ColonFree className)
    (instanceNumber : Option Nat) :
    ColonFree (a.setClassAlias className instanceNumber).1 ∧
      (a.setClassAlias className instanceNumber).2.Plain := by
  have hname : ColonFree (classAliasName className instanceNumber) := by
    refine colonFree_append.mpr
      ⟨colonFree_append.mpr ⟨colonFree_lowerFirst h, by decide⟩, ?_⟩
    cases instanceNumber with
    | none => exact colonFree_empty
    | some n => exact colonFree_ofList.mpr (Digits.colonFree_ofNat n)
  exact ⟨hname, ha.queryClass, ha.scopes, Dictionary.forall_mem_insert ha.classAliases _ hname,
    ha.sources, ha.joins⟩

theorem obtainClassAlias (ha : a.Plain) {className : String} (h : ColonFree className) :
    ColonFree (a.obtainClassAlias className).1 ∧ (a.obtainClassAlias className).2.Plain := by
  unfold Aliases.obtainClassAlias
  split
  · rename_i aliasName hfind
    exact ⟨Dictionary.of_find?_eq_some ha.classAliases hfind, ha⟩
  · exact ha.setClassAlias h none

/-- A source may be added whose class and alias have no colons. -/
theorem withSource (ha : a.Plain) {s : Source} (h : ColonFree s.className ∧ ColonFree s.aliasName) :
    Plain { a with sources := a.sources ++ [s] } :=
  ⟨ha.queryClass, ha.scopes, ha.classAliases,
    List.forall_mem_append.mpr ⟨ha.sources, List.forall_mem_singleton.mpr h⟩, ha.joins⟩

theorem addSource (ha : a.Plain) {className : String} (h : ColonFree className) :
    ColonFree (a.addSource className).1 ∧ (a.addSource className).2.Plain := by
  unfold Aliases.addSource
  split
  · rename_i s hfind
    exact ⟨(ha.sources s (List.mem_of_find?_eq_some hfind)).2, ha⟩
  · obtain ⟨hname, hplain⟩ := ha.obtainClassAlias h
    exact ⟨hname, hplain.withSource ⟨h, hname⟩⟩

theorem addThetaSource (ha : a.Plain) {className : String} (h : ColonFree className)
    (instanceNumber : Nat) : (a.addThetaSource className instanceNumber).2.Plain := by
  obtain ⟨hname, hplain⟩ := ha.setClassAlias h (some instanceNumber)
  exact hplain.withSource ⟨h, hname⟩

theorem withJoin (ha : a.Plain) {j : Join} (h : ColonFree j.render) :
    Plain { a with joins := a.joins ++ [j] } :=
  ⟨ha.queryClass, ha.scopes, ha.classAliases, ha.sources,
    List.forall_mem_append.mpr ⟨ha.joins, List.forall_mem_singleton.mpr h⟩⟩

theorem addOnJoin (ha : a.Plain) {className aliasName : String} {condition : Correlation}
    (hclass : ColonFree className) (halias : ColonFree aliasName)
    (hcondition : ColonFree condition.render) (property : String) :
    (a.addOnJoin className property aliasName condition).Plain := by
  refine ha.withJoin ?_
  simp only [Join.render, Join.condition?, Join.target, colonFree_append]
  exact ⟨⟨⟨⟨⟨⟨JoinType.colonFree_keyword _, by decide⟩, hclass⟩, by decide⟩, halias⟩, by decide⟩,
    hcondition⟩

theorem start {queryClass : String} (h : ColonFree queryClass) :
    (Aliases.start queryClass).Plain := by
  have hempty : Plain ⟨queryClass, [], [], [], [], false⟩ :=
    ⟨h, by simp, by simp, by simp, by simp⟩
  obtain ⟨hname, hplain⟩ := hempty.addSource h
  refine ⟨hplain.queryClass, List.forall_mem_singleton.mpr ⟨?_, h, by simp, by simp⟩,
    hplain.classAliases, hplain.sources, hplain.joins⟩
  rintro _ ⟨⟩
  exact hname

/-! ## Scopes -/

theorem withScopes (ha : a.Plain) {scopes : List Scope} (h : ∀ s ∈ scopes, s.Plain) :
    Plain { a with scopes } :=
  ⟨ha.queryClass, h, ha.classAliases, ha.sources, ha.joins⟩

theorem withInsideOr (ha : a.Plain) (insideOr : Bool) : Plain { a with insideOr } :=
  ⟨ha.queryClass, ha.scopes, ha.classAliases, ha.sources, ha.joins⟩

theorem pushTheta (ha : a.Plain) : a.pushTheta.Plain :=
  ha.withScopes (List.forall_mem_cons.mpr
    ⟨⟨by rintro _ ⟨⟩, ha.queryClass, by simp, by simp⟩, ha.scopes⟩)

theorem pop (ha : a.Plain) : a.pop.Plain := by
  unfold Aliases.pop
  split
  · rename_i inner outer rest hscopes
    refine ha.withScopes fun s hs => ha.scopes s ?_
    rw [hscopes]
    exact List.mem_cons_of_mem _ hs
  · exact ha

theorem scope? (ha : a.Plain) {s : Scope} (h : a.scope? = some s) : s.Plain :=
  ha.scopes s (List.mem_of_mem_head? h)

theorem currentAlias (ha : a.Plain) : ColonFree? a.currentAlias := by
  intro aliasName h
  obtain ⟨s, hs, hname⟩ := Option.bind_eq_some_iff.mp h
  exact (ha.scope? hs).aliasName aliasName hname

theorem rootAlias (ha : a.Plain) : ColonFree a.rootAlias := by
  unfold Aliases.rootAlias
  cases h : a.scopes.getLast?.bind (·.aliasName) with
  | none => exact colonFree_empty
  | some aliasName =>
    obtain ⟨s, hs, hname⟩ := Option.bind_eq_some_iff.mp h
    exact (ha.scopes s (List.mem_of_mem_getLast? hs)).aliasName aliasName hname

/-- The sources of a statement with their joins. -/
theorem sourceList (ha : a.Plain) : ColonFree a.sourceList.render := by
  have hbehind : ∀ rootAlias, ∀ j ∈ a.joinsBehind rootAlias, j ∈ a.joins := by
    intro rootAlias j hj
    obtain ⟨i, hi, hj⟩ := List.mem_flatMap.mp hj
    split at hj
    · rcases List.mem_cons.mp hj with rfl | hj
      · exact (List.mem_filter.mp hi).1
      · exact (List.mem_filter.mp hj).1
    · obtain rfl := List.mem_singleton.mp hj
      exact (List.mem_filter.mp hi).1
  refine colonFree_joinWith (by decide) (List.forall_mem_map.mpr fun item hitem => ?_)
  obtain ⟨s, hs, rfl⟩ := List.mem_map.mp hitem
  have hsource : s ∈ a.sources := by
    rcases List.mem_append.mp hs with hs | hs
    · exact (List.mem_filter.mp hs).1
    · exact (List.mem_filter.mp hs).1
  obtain ⟨hclass, hname⟩ := ha.sources s hsource
  refine colonFree_joinWith (by decide) (List.forall_mem_cons.mpr ⟨?_, ?_⟩)
  · exact colonFree_append.mpr ⟨colonFree_append.mpr ⟨hclass, by decide⟩, hname⟩
  · exact List.forall_mem_map.mpr fun j hj => ha.joins j (hbehind _ j hj)

/-! ## Joins along a path -/

theorem createJoin (ha : a.Plain) {cursor : Cursor} (hcursor : cursor.Plain) {segment : String}
    (hsegment : ColonFree segment) (target : Option String) (joinType : JoinType) :
    ColonFree (a.createJoin cursor segment target joinType).1 ∧
      (a.createJoin cursor segment target joinType).2.Plain := by
  have hbase : ColonFree (joinAliasBase cursor.rootClass (cursor.rootPath ++ [segment])) := by
    refine colonFree_append.mpr ⟨colonFree_lowerFirst ?_, by decide⟩
    refine colonFree_append.mpr ⟨colonFree_append.mpr ⟨hcursor.rootClass, by decide⟩, ?_⟩
    exact colonFree_joinWith (by decide)
      (List.forall_mem_append.mpr ⟨hcursor.rootPath, List.forall_mem_singleton.mpr hsegment⟩)
  have hname : ColonFree (a.createJoin cursor segment target joinType).1 :=
    colonFree_append.mpr ⟨hbase, colonFree_ofList.mpr (Digits.colonFree_ofNat _)⟩
  refine ⟨hname, ha.withJoin ?_⟩
  simp only [Join.render, Join.condition?, Join.target, colonFree_append]
  exact ⟨⟨⟨⟨JoinType.colonFree_keyword _, by decide⟩, ⟨hcursor.aliasName, by decide⟩, hsegment⟩,
    by decide⟩, colonFree_append.mp hname⟩

theorem remember (ha : a.Plain) (key : String × String) {aliasName : String}
    (h : ColonFree aliasName) : (a.remember key aliasName).Plain := by
  unfold Aliases.remember
  split
  · exact ha
  · rename_i inner outer hscopes
    have hboth := ha.scopes
    rw [hscopes] at hboth
    obtain ⟨hinner, houter⟩ := List.forall_mem_cons.mp hboth
    exact ha.withScopes (List.forall_mem_cons.mpr ⟨⟨hinner.aliasName, hinner.rootClass,
      hinner.rootPath, Dictionary.forall_mem_insert hinner.joined _ h⟩, houter⟩)

theorem joined? (ha : a.Plain) (key : String × String) : ColonFree? (a.joined? key) := by
  intro aliasName h
  obtain ⟨s, hs, hfind⟩ := Option.bind_eq_some_iff.mp h
  exact Dictionary.of_find?_eq_some (ha.scope? hs).joined hfind

end Plain

/-! ## Resolving paths -/

/-- The step keeps aliases without colons and gives a result that meets `P`. -/
abbrev Keeps {α : Type} (P : α → Prop) (x : Step Aliases α) : Prop := Maintains Plain P x

theorem keeps_lookUp (className name : String) :
    Keeps (fun _ => True) (lookUp c className name) :=
  Maintains.ofReported _

theorem keeps_joinSegment {cursor : Cursor} (hcursor : cursor.Plain) {segment : String}
    (hsegment : ColonFree segment) (target : Option String) (o : Resolution) :
    Keeps ColonFree (joinSegment cursor segment target o) := by
  refine Maintains.get.bind fun a ha => ?_
  dsimp only
  split
  · rename_i aliasName hjoined
    split at hjoined
    · cases hjoined
    · exact Maintains.pure (ha.joined? _ aliasName hjoined)
  · obtain ⟨hname, hplain⟩ := ha.createJoin hcursor hsegment target (a.joinTypeFor o.outer)
    refine (Maintains.put ?_).bind fun _ _ => Maintains.pure hname
    split
    · exact hplain
    · exact hplain.remember _ hname

theorem keeps_advance (path : String) (o : Resolution) {cursor : Cursor} (hcursor : cursor.Plain)
    {segment : String} (hsegment : ColonFree segment) :
    Keeps Cursor.Plain (advance c path o cursor segment) := by
  refine (keeps_lookUp _ _).bind fun property _ => ?_
  split
  · refine (keeps_joinSegment hcursor hsegment _ o).bind fun aliasName hname => ?_
    exact Maintains.pure ⟨hname, hcursor.rootClass,
      List.forall_mem_append.mpr ⟨hcursor.rootPath, List.forall_mem_singleton.mpr hsegment⟩⟩
  · exact Maintains.fail _

/-- An alias and the segments behind it have no colons. -/
def PlainTarget (target : String × List String) : Prop :=
  ColonFree target.1 ∧ ∀ segment ∈ target.2, ColonFree segment

theorem keeps_finish (o : Resolution) {cursor : Cursor} (hcursor : cursor.Plain)
    {segment : String} (hsegment : ColonFree segment) :
    Keeps PlainTarget (finish c o cursor segment) := by
  have hstay : Keeps PlainTarget (Pure.pure (cursor.aliasName, [segment])) :=
    Maintains.pure ⟨hcursor.aliasName, List.forall_mem_singleton.mpr hsegment⟩
  refine (keeps_lookUp _ _).bind fun property _ => ?_
  split
  · split
    · refine (keeps_joinSegment hcursor hsegment _ o).bind fun aliasName hname => ?_
      exact Maintains.pure ⟨hname, by simp⟩
    · exact hstay
  · exact hstay

theorem keeps_follow (path : String) (o : Resolution) {segments : List String} {cursor : Cursor}
    (hcursor : cursor.Plain) (hsegments : ∀ segment ∈ segments, ColonFree segment) :
    Keeps PlainTarget (follow c path o cursor segments) := by
  match segments with
  | [] => exact Maintains.pure ⟨hcursor.aliasName, by simp⟩
  | [last] => exact keeps_finish o hcursor (hsegments last (List.mem_singleton.mpr rfl))
  | segment :: last :: rest =>
    obtain ⟨hsegment, hrest⟩ := List.forall_mem_cons.mp hsegments
    have hbranch (isKey : Bool) : Keeps PlainTarget
        (if isKey then Pure.pure (cursor.aliasName, [segment, "id"])
        else do follow c path o (← advance c path o cursor segment) (last :: rest)) := by
      split
      · exact Maintains.pure ⟨hcursor.aliasName, by simp [hsegment]; decide⟩
      · exact (keeps_advance path o hcursor hsegment).bind fun cursor hcursor =>
          keeps_follow path o hcursor hrest
    unfold follow
    dsimp only
    split
    · refine (keeps_lookUp _ _).bind fun property _ => ?_
      split
      · exact hbranch true
      · exact hbranch false
    · exact hbranch false

theorem keeps_startOf {path : String} (h : ColonFree path) :
    Keeps (fun o => ∀ start ∈ o, start.1.Plain ∧ ∀ segment ∈ start.2, ColonFree segment)
      (startOf c path) := by
  refine Maintains.get.bind fun a ha => ?_
  obtain ⟨hfirst, hrest⟩ := Path.colonFree_head h
  dsimp only
  split
  · split
    · rename_i aliasName hfind
      refine Maintains.pure ?_
      rintro _ ⟨⟩
      exact ⟨⟨Dictionary.of_find?_eq_some ha.classAliases hfind, hfirst, by simp⟩,
        Path.colonFree_segments hrest⟩
    · exact Maintains.fail _
  · split
    · rename_i hscope
      have hplain := ha.scope? hscope
      refine Maintains.pure ?_
      rintro _ ⟨⟩
      exact ⟨⟨hplain.aliasName _ rfl, hplain.rootClass, hplain.rootPath⟩, Path.colonFree_segments h⟩
    · exact Maintains.pure (by rintro _ ⟨⟩)

/-- The reference of a path has no colons if the path has none. -/
theorem keeps_resolve {path : String} (h : ColonFree path) (o : Resolution) :
    Keeps (fun r => ∀ reference ∈ r, ColonFree reference.render) (resolve c path o) := by
  obtain ⟨hbefore, hinner, hafter⟩ := Path.colonFree_parse h
  unfold resolve
  dsimp only
  split
  · refine Maintains.pure ?_
    rintro _ ⟨⟩
    exact h
  · refine (keeps_startOf hinner).bind fun start hstart => ?_
    split
    · exact Maintains.pure (by rintro _ ⟨⟩)
    · obtain ⟨hcursor, hsegments⟩ := hstart _ rfl
      refine (keeps_follow _ o hcursor hsegments).bind fun target htarget => Maintains.pure ?_
      rintro _ ⟨⟩
      refine colonFree_append.mpr ⟨colonFree_append.mpr ⟨hbefore, ?_⟩, hafter⟩
      exact colonFree_joinWith (by decide) (List.forall_mem_cons.mpr htarget)

theorem keeps_enclosing {α : Type} {P : α → Prop} {x : Step Aliases α} (hx : Keeps P x) :
    Keeps P (enclosing x) := by
  intro a r b h ha
  obtain ⟨-, h'⟩ | ⟨inner, outer, u, hscopes, h', rfl⟩ := enclosing_yields h
  · exact hx a r b h' ha
  · have hboth := ha.scopes
    rw [hscopes] at hboth
    obtain ⟨hinner, houter⟩ := List.forall_mem_cons.mp hboth
    obtain ⟨hplain, hr⟩ := hx _ r u h' (ha.withScopes houter)
    exact ⟨hplain.withScopes (List.forall_mem_cons.mpr ⟨hinner, hplain.scopes⟩), hr⟩

theorem keeps_resolveWithin {path : String} (h : ColonFree path) (depth : Nat) :
    Keeps (fun r => ColonFree r.render) (resolveWithin c path depth) := by
  induction depth with
  | zero => exact Maintains.get.bind fun a _ => Maintains.fail _
  | succ depth ih =>
    refine keeps_enclosing (Maintains.get.bind fun a _ => ?_)
    split
    · exact Maintains.fail _
    · refine (keeps_resolve h _).bind fun r hr => ?_
      split
      · exact Maintains.pure (hr _ rfl)
      · exact ih

theorem keeps_resolveEnclosing {path : String} (h : ColonFree path) :
    Keeps (fun r => ColonFree r.render) (resolveEnclosing c path) :=
  Maintains.get.bind fun _ _ => keeps_resolveWithin h _

/-! ## Collections -/

theorem keeps_advanceAll (path : String) {segments : List String} {cursor : Cursor}
    (hcursor : cursor.Plain) (hsegments : ∀ segment ∈ segments, ColonFree segment) :
    Keeps Cursor.Plain (advanceAll c path cursor segments) := by
  induction segments generalizing cursor with
  | nil => exact Maintains.pure hcursor
  | cons segment rest ih =>
    obtain ⟨hsegment, hrest⟩ := List.forall_mem_cons.mp hsegments
    exact (keeps_advance path {} hcursor hsegment).bind fun cursor hcursor => ih hcursor hrest

theorem keeps_pushCollection {property : String} (h : ColonFree property) (joinType : JoinType) :
    Keeps (fun _ => True) (pushCollection c property joinType) := by
  refine (keeps_startOf h).bind fun start hstart => ?_
  split
  · exact Maintains.get.bind fun a _ => Maintains.fail _
  · obtain ⟨hcursor, hsegments⟩ := hstart _ rfl
    split
    · exact Maintains.fail _
    · rename_i last hlast
      have hsegment := hsegments last (List.mem_of_getLast? hlast)
      have hothers := fun segment hs => hsegments segment ((List.dropLast_sublist _).subset hs)
      refine (keeps_advanceAll _ hcursor hothers).bind fun cursor hcursor => ?_
      refine (keeps_lookUp _ _).bind fun p _ => ?_
      split
      · rename_i element _
        refine Maintains.get.bind fun a ha => ?_
        obtain ⟨hname, hplain⟩ := ha.createJoin hcursor hsegment (some element) joinType
        refine (Maintains.put ?_).bind fun _ _ => Maintains.pure trivial
        refine hplain.withScopes (List.forall_mem_cons.mpr ⟨⟨?_, hcursor.rootClass, ?_, by simp⟩,
          hplain.scopes⟩)
        · rintro _ ⟨⟩
          exact hname
        · exact List.forall_mem_append.mpr
            ⟨hcursor.rootPath, List.forall_mem_singleton.mpr hsegment⟩
      · exact Maintains.fail _

end Aliases

end ObjectQuery
