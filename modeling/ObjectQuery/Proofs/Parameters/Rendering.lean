import ObjectQuery.Proofs.Parameters.Placeholders

/-!
# The parameters that a statement shows

* `Condition.numbers`, `Select.numbers`: the numbers of the parameters in a tree, in the order of
  its text.
* `Condition.Plain`, `Select.Plain`: trees whose names have no colons.
* `Condition.shows`, `Select.shows`: the text of such a tree shows exactly the parameters in it.
-/

namespace ObjectQuery

open Text

/-! ## Numbers -/

mutual

/-- The numbers of the parameters in a predicate. -/
def Atom.numbers : Atom → List Nat
  | .comparison _ _ number _ => [number]
  | .membership _ numbers => numbers
  | .nullCheck .. | .emptyCheck _ | .never | .correlated _ => []
  | .inSelect _ _ query => query.numbers

/-- The numbers of the parameters in a condition. -/
def Condition.numbers : Condition → List Nat
  | .atom predicate => predicate.numbers
  | .chain members | .group _ members => conditionNumbers members
  | .negation condition => condition.numbers
  | .unfinished _ members => conditionNumbers members

/-- The numbers of the parameters in a query. The having clause is written only where something is
grouped. -/
def Select.numbers : Select → List Nat
  | ⟨_, _, _, conditions, groupBy, having, _⟩ =>
    conditionNumbers conditions ++ if groupBy.isEmpty then [] else groupNumbers having

/-- The numbers of the parameters in several conditions. -/
def conditionNumbers : List Condition → List Nat
  | [] => []
  | c :: rest => c.numbers ++ conditionNumbers rest

/-- The numbers of the parameters in a group that may hold nothing. -/
def groupNumber : Option Condition → List Nat
  | none => []
  | some c => c.numbers

/-- The numbers of the parameters in several groups. -/
def groupNumbers : List (Option Condition) → List Nat
  | [] => []
  | g :: rest => groupNumber g ++ groupNumbers rest

end

/-! ## Plain trees -/

mutual

/-- The names in a predicate have no colons. -/
def Atom.Plain : Atom → Prop
  | .comparison left operator _ escape =>
    ColonFree left.render ∧ ColonFree operator ∧ escape ≠ some ':'
  | .membership left _ => ColonFree left.render
  | .nullCheck reference _ => ColonFree reference.render
  | .emptyCheck collection => ColonFree collection.render
  | .never => True
  | .correlated correlation => ColonFree correlation.render
  | .inSelect reference _ query => ColonFree reference.render ∧ query.Plain

/-- The names in a condition have no colons. What stands behind a placeholder in a condition that
was not finished may go on with a digit, so that none is plain. -/
def Condition.Plain : Condition → Prop
  | .atom predicate => predicate.Plain
  | .chain members | .group _ members => PlainConditions members
  | .negation condition => condition.Plain
  | .unfinished .. => False

/-- The names in a query have no colons, and its clause holds one condition at most. -/
def Select.Plain : Select → Prop
  | ⟨_, items, sources, conditions, groupBy, having, orderBy⟩ =>
    (∀ item ∈ items, ColonFree item.render) ∧ ColonFree sources.render ∧ conditions.length ≤ 1 ∧
      PlainConditions conditions ∧ (∀ reference ∈ groupBy, ColonFree reference.render) ∧
      PlainGroups having ∧ ∀ term ∈ orderBy, ColonFree term.render

/-- The names in several conditions have no colons. -/
def PlainConditions : List Condition → Prop
  | [] => True
  | c :: rest => c.Plain ∧ PlainConditions rest

/-- The names in a group have no colons. -/
def PlainGroup : Option Condition → Prop
  | none => True
  | some c => c.Plain

/-- The names in several groups have no colons. -/
def PlainGroups : List (Option Condition) → Prop
  | [] => True
  | g :: rest => PlainGroup g ∧ PlainGroups rest

end

/-! ## Lists -/

theorem renderConditions_eq (cs : List Condition) :
    renderConditions cs = cs.map Condition.render := by
  induction cs with
  | nil => rfl
  | cons c rest ih => rw [renderConditions, ih, List.map_cons]

theorem renderGroups_eq (gs : List (Option Condition)) : renderGroups gs = gs.map renderGroup := by
  induction gs with
  | nil => rfl
  | cons g rest ih => rw [renderGroups, ih, List.map_cons]

theorem conditionNumbers_eq (cs : List Condition) :
    conditionNumbers cs = cs.flatMap Condition.numbers := by
  induction cs with
  | nil => rfl
  | cons c rest ih => rw [conditionNumbers, ih, List.flatMap_cons]

theorem groupNumbers_eq (gs : List (Option Condition)) :
    groupNumbers gs = gs.flatMap groupNumber := by
  induction gs with
  | nil => rfl
  | cons g rest ih => rw [groupNumbers, ih, List.flatMap_cons]

theorem conditionNumbers_append (cs ds : List Condition) :
    conditionNumbers (cs ++ ds) = conditionNumbers cs ++ conditionNumbers ds := by
  rw [conditionNumbers_eq, conditionNumbers_eq, conditionNumbers_eq, List.flatMap_append]

theorem conditionNumbers_toList (c : Option Condition) :
    conditionNumbers c.toList = groupNumber c := by
  cases c with
  | none => rfl
  | some c => exact List.append_nil _

theorem groupNumbers_append (gs hs : List (Option Condition)) :
    groupNumbers (gs ++ hs) = groupNumbers gs ++ groupNumbers hs := by
  rw [groupNumbers_eq, groupNumbers_eq, groupNumbers_eq, List.flatMap_append]

theorem plainConditions_append {cs ds : List Condition} :
    PlainConditions (cs ++ ds) ↔ PlainConditions cs ∧ PlainConditions ds := by
  induction cs with
  | nil => exact ⟨fun h => ⟨trivial, h⟩, And.right⟩
  | cons c rest ih =>
    rw [List.cons_append, PlainConditions, ih, PlainConditions, and_assoc]

theorem plainConditions_toList {c : Option Condition} :
    PlainConditions c.toList ↔ PlainGroup c := by
  cases c with
  | none => exact Iff.rfl
  | some c => exact ⟨And.left, fun h => ⟨h, trivial⟩⟩

theorem plainGroups_append {gs hs : List (Option Condition)} :
    PlainGroups (gs ++ hs) ↔ PlainGroups gs ∧ PlainGroups hs := by
  induction gs with
  | nil => exact ⟨fun h => ⟨trivial, h⟩, And.right⟩
  | cons g rest ih => rw [List.cons_append, PlainGroups, ih, PlainGroups, and_assoc]

/-! ## Texts -/

theorem colonFree_cased {r : Reference} (h : ColonFree r.render) (upper : Bool) :
    ColonFree (cased upper r) := by
  unfold cased
  split
  · exact colonFree_append.mpr ⟨colonFree_append.mpr ⟨by decide, h⟩, by decide⟩
  · exact h

/-- A clause shows what its text shows. -/
theorem shows_clause {keyword text : String} {ns : List Nat} (hkeyword : ColonFree keyword)
    (h : Shows text ns) : Shows (clause keyword text) ns := by
  unfold clause
  split
  · rename_i hempty
    rw [beq_iff_eq] at hempty
    subst hempty
    rw [h.eq_nil]
    exact shows_of_colonFree colonFree_empty
  · exact h.prepend
      (colonFree_append.mpr ⟨colonFree_append.mpr ⟨by decide, hkeyword⟩, by decide⟩)

theorem shows_conditionsText {conditions : List Condition} (hlength : conditions.length ≤ 1)
    (h : ∀ c ∈ conditions, Shows c.render c.numbers) :
    Shows (conditionsText conditions) (conditionNumbers conditions) := by
  match conditions with
  | [] => exact shows_of_colonFree colonFree_empty
  | [c] =>
    rw [conditionNumbers_eq, List.flatMap_singleton]
    exact h c (List.mem_singleton.mpr rfl)
  | _ :: _ :: _ => simp at hlength

theorem shows_havingText {groups : List (Option Condition)}
    (h : ∀ g ∈ groups, Shows (renderGroup g) (groupNumber g)) :
    Shows (havingText groups) (groupNumbers groups) := by
  have hgroups : Shows (joinWith " and " (groups.map renderGroup)) (groups.flatMap groupNumber) :=
    shows_joinWith (by decide) (by decide) h
  rwa [← renderGroups_eq, ← groupNumbers_eq] at hgroups

theorem noDigitFirst_optional {omitted : Bool} {s : String} (h : NoDigitFirst s.toList) :
    NoDigitFirst (if omitted then "" else s).toList := by
  split
  · rintro c ⟨⟩
  · exact h

/-- The grouping with its clause for groups shows what the clause shows. -/
theorem shows_grouping {groupBy : List Reference} {having : List (Option Condition)} {ns : List Nat}
    (hgroupBy : ∀ r ∈ groupBy, ColonFree r.render) (hhaving : Shows (havingText having) ns) :
    Shows (if groupBy.isEmpty then "" else " group by " ++
      joinWith ", " (groupBy.map Reference.render) ++ clause "having" (havingText having))
      (if groupBy.isEmpty then [] else ns) := by
  have hgrouping : ColonFree (joinWith ", " (groupBy.map Reference.render)) :=
    colonFree_joinWith (by decide) (List.forall_mem_map.mpr hgroupBy)
  split
  · exact shows_of_colonFree colonFree_empty
  · exact (shows_clause (by decide) hhaving).prepend (colonFree_append.mpr ⟨by decide, hgrouping⟩)

theorem colonFree_ordering {orderBy : List OrderTerm}
    (h : ∀ term ∈ orderBy, ColonFree term.render) :
    ColonFree (if orderBy.isEmpty then "" else
      " order by " ++ joinWith ", " (orderBy.map OrderTerm.render)) := by
  have hordering : ColonFree (joinWith ", " (orderBy.map OrderTerm.render)) :=
    colonFree_joinWith (by decide) (List.forall_mem_map.mpr h)
  split
  · exact colonFree_empty
  · exact colonFree_append.mpr ⟨by decide, hordering⟩

/-- A query shows what its conditions show, then what its groups show where something is grouped. -/
theorem shows_select {distinct : Bool} {items : List SelectItem} {sources : SourceList}
    {conditions : List Condition} {groupBy : List Reference} {having : List (Option Condition)}
    {orderBy : List OrderTerm} {ms ns : List Nat} (hitems : ∀ item ∈ items, ColonFree item.render)
    (hsources : ColonFree sources.render) (hgroupBy : ∀ r ∈ groupBy, ColonFree r.render)
    (horderBy : ∀ term ∈ orderBy, ColonFree term.render)
    (hwhere : Shows (conditionsText conditions) ms) (hhaving : Shows (havingText having) ns) :
    Shows (Select.render ⟨distinct, items, sources, conditions, groupBy, having, orderBy⟩)
      (ms ++ if groupBy.isEmpty then [] else ns) := by
  have hdistinct : ColonFree (if distinct then "distinct " else "") := by
    cases distinct <;> decide
  have hselected : ColonFree (joinWith ", " (items.map SelectItem.render)) :=
    colonFree_joinWith (by decide) (List.forall_mem_map.mpr hitems)
  have hfront : ColonFree ("select " ++ (if distinct then "distinct " else "") ++
      joinWith ", " (items.map SelectItem.render) ++ " from " ++ sources.render) :=
    colonFree_append.mpr ⟨colonFree_append.mpr ⟨colonFree_append.mpr
      ⟨colonFree_append.mpr ⟨by decide, hdistinct⟩, hselected⟩, by decide⟩, hsources⟩
  have hrestricted : Shows (clause "where" (conditionsText conditions)) ms :=
    shows_clause (by decide) hwhere
  have hgrouped := (hrestricted.prepend hfront).append (shows_grouping hgroupBy hhaving)
    (noDigitFirst_optional (by rw [String.append_assoc]; exact noDigitFirst_append (by decide) _))
  exact hgrouped.follow (colonFree_ordering horderBy)
    (noDigitFirst_optional (noDigitFirst_append (by decide) _))

mutual

/-- The text of a plain predicate shows the parameters in it. -/
theorem Atom.shows : ∀ p : Atom, p.Plain → Shows p.render p.numbers
  | .comparison left operator number escape, h => by
    obtain ⟨hleft, hoperator, hescape⟩ := h
    have hsides : ColonFree (left.render ++ " " ++ operator ++ " ") :=
      colonFree_append.mpr
        ⟨colonFree_append.mpr ⟨colonFree_append.mpr ⟨hleft, by decide⟩, hoperator⟩, by decide⟩
    have hcompared := (shows_placeholder number).prepend hsides
    cases escape with
    | none => exact hcompared
    | some c =>
      have hescaped : ColonFree (" escape '" ++ (String.singleton c ++ "'")) := by
        have hc : ColonFree (String.singleton c) := by
          simpa [ColonFree, eq_comm] using hescape
        exact colonFree_append.mpr ⟨by decide, colonFree_append.mpr ⟨hc, by decide⟩⟩
      show Shows (_ ++ " escape '" ++ String.singleton c ++ "'") [number]
      rw [String.append_assoc, String.append_assoc]
      exact hcompared.follow hescaped (noDigitFirst_append (by decide) _)
  | .membership left numbers, h => by
    have hnumbers : Shows (joinWith ", " (numbers.map placeholder)) (numbers.flatMap ([·])) :=
      shows_joinWith (by decide) (by decide) fun number _ => shows_placeholder number
    rw [List.flatMap_singleton'] at hnumbers
    exact (hnumbers.prepend (colonFree_append.mpr ⟨h, by decide⟩)).follow (by decide)
      (noDigitFirst_of_separates (by decide))
  | .nullCheck reference isNull, h => by
    refine shows_of_colonFree (colonFree_append.mpr ⟨h, ?_⟩)
    cases isNull <;> decide
  | .emptyCheck collection, h =>
    shows_of_colonFree
      (colonFree_append.mpr ⟨colonFree_append.mpr ⟨by decide, h⟩, by decide⟩)
  | .never, _ => shows_of_colonFree (by decide)
  | .correlated correlation, h => shows_of_colonFree h
  | .inSelect reference negated query, h => by
    have hword : ColonFree (if negated then " not in (" else " in (") := by
      cases negated <;> decide
    exact ((query.shows h.2).prepend (colonFree_append.mpr ⟨h.1, hword⟩)).follow (by decide)
      (noDigitFirst_of_separates (by decide))

/-- The text of a plain condition shows the parameters in it. -/
theorem Condition.shows : ∀ c : Condition, c.Plain → Shows c.render c.numbers
  | .atom predicate, h => predicate.shows h
  | .chain members, h => by
    have hmembers : Shows (joinWith " and " (members.map Condition.render))
        (members.flatMap Condition.numbers) :=
      shows_joinWith (by decide) (by decide) (showsConditions members h)
    rwa [← renderConditions_eq, ← conditionNumbers_eq] at hmembers
  | .group disjunctive members, h => by
    have hmembers : Shows
        (joinWith (if disjunctive then " or " else " and ") (members.map Condition.render))
        (members.flatMap Condition.numbers) :=
      shows_joinWith (by cases disjunctive <;> decide) (by cases disjunctive <;> decide)
        (showsConditions members h)
    rw [← renderConditions_eq, ← conditionNumbers_eq] at hmembers
    exact (hmembers.prepend (by decide)).follow (by decide) (noDigitFirst_of_separates (by decide))
  | .negation condition, h => (condition.shows h).prepend (by decide)
  | .unfinished .., h => h.elim

/-- The text of a plain query shows the parameters in it. -/
theorem Select.shows : ∀ q : Select, q.Plain → Shows q.render q.numbers
  | ⟨distinct, items, sources, conditions, groupBy, having, orderBy⟩, h => by
    obtain ⟨hitems, hsources, hlength, hconditions, hgroupBy, hhaving, horderBy⟩ := h
    have hwhere := shows_conditionsText hlength (showsConditions conditions hconditions)
    have hgroups := shows_havingText (showsGroups having hhaving)
    exact shows_select hitems hsources hgroupBy horderBy hwhere hgroups

/-- The texts of plain conditions show the parameters in them. -/
theorem showsConditions : ∀ cs : List Condition, PlainConditions cs →
    ∀ c ∈ cs, Shows c.render c.numbers
  | [], _ => fun _ hc => absurd hc List.not_mem_nil
  | c :: rest, h => List.forall_mem_cons.mpr ⟨c.shows h.1, showsConditions rest h.2⟩

/-- The text of a plain group shows the parameters in it. -/
theorem showsGroup : ∀ g : Option Condition, PlainGroup g → Shows (renderGroup g) (groupNumber g)
  | none, _ => shows_of_colonFree colonFree_empty
  | some c, h => c.shows h

/-- The texts of plain groups show the parameters in them. -/
theorem showsGroups : ∀ gs : List (Option Condition), PlainGroups gs →
    ∀ g ∈ gs, Shows (renderGroup g) (groupNumber g)
  | [], _ => fun _ hg => absurd hg List.not_mem_nil
  | g :: rest, h => List.forall_mem_cons.mpr ⟨showsGroup g h.1, showsGroups rest h.2⟩

end

end ObjectQuery
