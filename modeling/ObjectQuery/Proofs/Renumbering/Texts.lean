import ObjectQuery.Proofs.Parameters.Rendering
import ObjectQuery.Proofs.Renumbering.Trees

/-!
# Texts under other parameter numbers

* `Text.renumber`: a text with another number behind each `:param`. It is the texts that a reader of
  the statement sees, and knows nothing of the trees that they were written from.
* `Text.Renumbers`: one text is another with such numbers, whatever follows.
* `Condition.renumbers`, `Select.renumbers`: so is the text of a plain tree with other numbers.
-/

namespace ObjectQuery

namespace Text

/-- The characters behind the first `skip` ones, with `g n` for each number `n` in a placeholder. The
numbers that have been read are skipped. -/
def renumberChars (g : Nat → Nat) : Nat → List Char → List Char
  | _, [] => []
  | skip + 1, _ :: rest => renumberChars g skip rest
  | 0, c :: rest =>
    let digits := (rest.drop 5).takeWhile Digits.isDigit
    if placeholderStart.isPrefixOf (c :: rest) && !digits.isEmpty then
      (placeholder (g (Digits.toNat digits))).toList ++ renumberChars g (5 + digits.length) rest
    else c :: renumberChars g 0 rest

/-- The text with `g n` for each number `n` in a placeholder. -/
def renumber (g : Nat → Nat) (s : String) : String := String.ofList (renumberChars g 0 s.toList)

/-- The second text is the first one with other numbers, in front of any text that does not start
with a digit. -/
def Renumbers (g : Nat → Nat) (s s' : String) : Prop :=
  ∀ t, NoDigitFirst t →
    renumberChars g 0 (s.toList ++ t) = s'.toList ++ renumberChars g 0 t

variable {g : Nat → Nat}

theorem renumberChars_skip (s t : List Char) :
    renumberChars g s.length (s ++ t) = renumberChars g 0 t := by
  induction s with
  | nil => rfl
  | cons c rest ih => exact ih

theorem renumberChars_append_of_not_mem {s : List Char} (h : ':' ∉ s) (t : List Char) :
    renumberChars g 0 (s ++ t) = s ++ renumberChars g 0 t := by
  induction s with
  | nil => rfl
  | cons c rest ih =>
    obtain ⟨hc, hrest⟩ := not_or.mp (fun h' => h (List.mem_cons.mpr h'))
    have hstart : placeholderStart.isPrefixOf (c :: (rest ++ t)) = false := by
      rw [Bool.eq_false_iff, ne_eq, List.isPrefixOf_iff_prefix]
      rintro ⟨rest', hrest'⟩
      exact hc (List.cons.inj hrest').1
    rw [List.cons_append, renumberChars, hstart]
    exact congrArg (c :: ·) (ih hrest)

theorem renumberChars_eq_nil {s : List Char} (h : renumberChars g 0 s = []) : s = [] := by
  cases s with
  | nil => rfl
  | cons c rest =>
    rw [renumberChars] at h
    split at h
    · simp [placeholder] at h
    · cases h

/-! ## Texts put together from others -/

theorem Renumbers.eq {s s' : String} (h : Renumbers g s s') : renumber g s = s' := by
  have hnil := h [] (fun c hc => by cases hc)
  rw [List.append_nil, renumberChars, List.append_nil] at hnil
  rw [renumber, hnil, String.ofList_toList]

theorem renumbers_of_colonFree {s : String} (h : ColonFree s) : Renumbers g s s :=
  fun t _ => renumberChars_append_of_not_mem h t

theorem Renumbers.append {s s' u u' : String} (hs : Renumbers g s s') (hu : Renumbers g u u')
    (hdigit : NoDigitFirst u.toList) : Renumbers g (s ++ u) (s' ++ u') := by
  intro t ht
  rw [String.toList_append, String.toList_append, List.append_assoc, hs _ (hdigit.append ht),
    hu t ht, List.append_assoc]

/-- A text without colons in front may also end in front of a digit. -/
theorem Renumbers.prepend {s u u' : String} (hu : Renumbers g u u') (hs : ColonFree s) :
    Renumbers g (s ++ u) (s ++ u') := by
  intro t ht
  rw [String.toList_append, String.toList_append, List.append_assoc,
    renumberChars_append_of_not_mem hs, hu t ht, List.append_assoc]

/-- A text without colons may follow if it does not continue the digits. -/
theorem Renumbers.follow {s s' u : String} (hs : Renumbers g s s') (hu : ColonFree u)
    (hdigit : NoDigitFirst u.toList) : Renumbers g (s ++ u) (s' ++ u) :=
  hs.append (renumbers_of_colonFree hu) hdigit

theorem renumbers_placeholder (n : Nat) : Renumbers g (placeholder n) (placeholder (g n)) := by
  intro t ht
  have hdigits : (Digits.ofNat n ++ t).takeWhile Digits.isDigit = Digits.ofNat n := by
    rw [List.takeWhile_append_of_pos (Digits.isDigit_ofNat n)]
    cases t with
    | nil => simp
    | cons c rest => rw [List.takeWhile_cons_of_neg (by simp [ht c rfl]), List.append_nil]
  have hchars : (placeholder n).toList ++ t =
      ':' :: (['p', 'a', 'r', 'a', 'm'] ++ Digits.ofNat n ++ t) := by
    simp [placeholder, parameterName]
  have hread : placeholderStart.isPrefixOf
      (':' :: (['p', 'a', 'r', 'a', 'm'] ++ Digits.ofNat n ++ t)) = true := by
    simp [placeholderStart]
  have hsome : (Digits.ofNat n).isEmpty = false := by
    rw [Bool.eq_false_iff, ne_eq, List.isEmpty_iff]
    exact Digits.ofNat_ne_nil n
  have hskip : 5 + (Digits.ofNat n).length = (['p', 'a', 'r', 'a', 'm'] ++ Digits.ofNat n).length := by
    rw [List.length_append]
    rfl
  have hrest : List.drop 5 (['p', 'a', 'r', 'a', 'm'] ++ Digits.ofNat n ++ t) = Digits.ofNat n ++ t :=
    rfl
  rw [hchars, renumberChars, hrest, hdigits, hread, hsome, Digits.toNat_ofNat, hskip, renumberChars_skip]
  rfl

/-- Texts with a separator between them that starts with no digit. -/
theorem renumbers_joinWith {α β : Type} {separator : String} (hcolon : ColonFree separator)
    (hseparates : separates separator = true) {f : α → String} {f' : β → String} {h : α → β}
    {xs : List α} (hxs : ∀ x ∈ xs, Renumbers g (f x) (f' (h x))) :
    Renumbers g (joinWith separator (xs.map f)) (joinWith separator ((xs.map h).map f')) := by
  match xs with
  | [] => exact renumbers_of_colonFree colonFree_empty
  | [x] => exact hxs x (List.mem_singleton.mpr rfl)
  | x :: y :: rest =>
    obtain ⟨hx, hrest⟩ := List.forall_mem_cons.mp hxs
    have htail := (renumbers_joinWith hcolon hseparates hrest).prepend hcolon
    have hcons (s u : String) (rest : List String) :
        joinWith separator (s :: u :: rest) = s ++ (separator ++ joinWith separator (u :: rest)) := by
      rw [joinWith, String.append_assoc]
      rintro ⟨⟩
    simp only [List.map_cons, hcons] at htail ⊢
    exact hx.append htail (noDigitFirst_append hseparates _)

/-- A clause is left out with both texts. -/
theorem renumbers_clause {keyword text text' : String} (hkeyword : ColonFree keyword)
    (h : Renumbers g text text') : Renumbers g (clause keyword text) (clause keyword text') := by
  have hempty : (text' == "") = (text == "") := by
    rw [Bool.eq_iff_iff, beq_iff_eq, beq_iff_eq, ← h.eq, renumber]
    constructor
    · intro heq
      have hchars := congrArg String.toList heq
      rw [String.toList_ofList] at hchars
      exact String.toList_inj.mp (renumberChars_eq_nil hchars)
    · rintro rfl
      rfl
  unfold clause
  rw [hempty]
  split
  · exact renumbers_of_colonFree colonFree_empty
  · exact h.prepend
      (colonFree_append.mpr ⟨colonFree_append.mpr ⟨by decide, hkeyword⟩, by decide⟩)

end Text

open Text

variable {g : Nat → Nat}

/-! ## Clauses -/

theorem renumbers_conditionsText {conditions : List Condition} (hlength : conditions.length ≤ 1)
    (h : ∀ c ∈ conditions, Renumbers g c.render (c.renumber g).render) :
    Renumbers g (conditionsText conditions) (conditionsText (renumberConditions g conditions)) := by
  match conditions with
  | [] => exact renumbers_of_colonFree colonFree_empty
  | [c] => exact h c (List.mem_singleton.mpr rfl)
  | _ :: _ :: _ => simp at hlength

theorem renumbers_havingText {groups : List (Option Condition)}
    (h : ∀ c ∈ groups, Renumbers g (renderGroup c) (renderGroup (renumberGroup g c))) :
    Renumbers g (havingText groups) (havingText (renumberGroups g groups)) := by
  have hgroups : Renumbers g (joinWith " and " (groups.map renderGroup))
      (joinWith " and " ((groups.map (renumberGroup g)).map renderGroup)) :=
    renumbers_joinWith (by decide) (by decide) h
  rwa [← renumberGroups_eq, ← renderGroups_eq, ← renderGroups_eq] at hgroups

/-- The grouping with its clause for groups. -/
theorem renumbers_grouping {groupBy : List Reference} {text text' : String}
    (hgroupBy : ∀ r ∈ groupBy, ColonFree r.render) (hhaving : Renumbers g text text') :
    Renumbers g (if groupBy.isEmpty then "" else " group by " ++
      joinWith ", " (groupBy.map Reference.render) ++ clause "having" text)
      (if groupBy.isEmpty then "" else " group by " ++
        joinWith ", " (groupBy.map Reference.render) ++ clause "having" text') := by
  have hgrouping : ColonFree (joinWith ", " (groupBy.map Reference.render)) :=
    colonFree_joinWith (by decide) (List.forall_mem_map.mpr hgroupBy)
  split
  · exact renumbers_of_colonFree colonFree_empty
  · exact (renumbers_clause (by decide) hhaving).prepend
      (colonFree_append.mpr ⟨by decide, hgrouping⟩)

/-- The conditions of a query and its groups stand between texts without colons. -/
theorem renumbers_select {distinct : Bool} {items : List SelectItem} {sources : SourceList}
    {conditions : List Condition} {groupBy : List Reference} {having : List (Option Condition)}
    {orderBy : List OrderTerm} (hitems : ∀ item ∈ items, ColonFree item.render)
    (hsources : ColonFree sources.render) (hgroupBy : ∀ r ∈ groupBy, ColonFree r.render)
    (horderBy : ∀ term ∈ orderBy, ColonFree term.render)
    (hwhere : Renumbers g (conditionsText conditions)
      (conditionsText (renumberConditions g conditions)))
    (hhaving : Renumbers g (havingText having) (havingText (renumberGroups g having))) :
    Renumbers g (Select.render ⟨distinct, items, sources, conditions, groupBy, having, orderBy⟩)
      (Select.render ⟨distinct, items, sources, renumberConditions g conditions, groupBy,
        renumberGroups g having, orderBy⟩) := by
  have hdistinct : ColonFree (if distinct then "distinct " else "") := by
    cases distinct <;> decide
  have hselected : ColonFree (joinWith ", " (items.map SelectItem.render)) :=
    colonFree_joinWith (by decide) (List.forall_mem_map.mpr hitems)
  have hfront : ColonFree ("select " ++ (if distinct then "distinct " else "") ++
      joinWith ", " (items.map SelectItem.render) ++ " from " ++ sources.render) :=
    colonFree_append.mpr ⟨colonFree_append.mpr ⟨colonFree_append.mpr
      ⟨colonFree_append.mpr ⟨by decide, hdistinct⟩, hselected⟩, by decide⟩, hsources⟩
  have hrestricted : Renumbers g (clause "where" (conditionsText conditions))
      (clause "where" (conditionsText (renumberConditions g conditions))) :=
    renumbers_clause (by decide) hwhere
  have hgrouped := (hrestricted.prepend hfront).append (renumbers_grouping hgroupBy hhaving)
    (noDigitFirst_optional (by rw [String.append_assoc]; exact noDigitFirst_append (by decide) _))
  exact hgrouped.follow (colonFree_ordering horderBy)
    (noDigitFirst_optional (noDigitFirst_append (by decide) _))

/-! ## Trees -/

mutual

/-- The text of a plain predicate follows its numbers. -/
theorem Atom.renumbers : ∀ p : Atom, p.Plain → Renumbers g p.render (p.renumber g).render
  | .comparison left operator number escape, h => by
    obtain ⟨hleft, hoperator, hescape⟩ := h
    have hsides : ColonFree (left.render ++ " " ++ operator ++ " ") :=
      colonFree_append.mpr
        ⟨colonFree_append.mpr ⟨colonFree_append.mpr ⟨hleft, by decide⟩, hoperator⟩, by decide⟩
    have hcompared := (renumbers_placeholder (g := g) number).prepend hsides
    cases escape with
    | none => exact hcompared
    | some c =>
      have hescaped : ColonFree (" escape '" ++ (String.singleton c ++ "'")) := by
        have hc : ColonFree (String.singleton c) := by
          simpa [ColonFree, eq_comm] using hescape
        exact colonFree_append.mpr ⟨by decide, colonFree_append.mpr ⟨hc, by decide⟩⟩
      have htail (s : String) : s ++ " escape '" ++ String.singleton c ++ "'" =
          s ++ (" escape '" ++ (String.singleton c ++ "'")) := by
        rw [String.append_assoc, String.append_assoc]
      show Renumbers g (_ ++ " escape '" ++ String.singleton c ++ "'")
        (_ ++ " escape '" ++ String.singleton c ++ "'")
      rw [htail, htail]
      exact hcompared.follow hescaped (noDigitFirst_append (by decide) _)
  | .membership left numbers, h => by
    have hnumbers : Renumbers g (joinWith ", " (numbers.map placeholder))
        (joinWith ", " ((numbers.map g).map placeholder)) :=
      renumbers_joinWith (by decide) (by decide) fun number _ => renumbers_placeholder number
    exact (hnumbers.prepend (colonFree_append.mpr ⟨h, by decide⟩)).follow (by decide)
      (noDigitFirst_of_separates (by decide))
  | .nullCheck reference isNull, h => by
    refine renumbers_of_colonFree (colonFree_append.mpr ⟨h, ?_⟩)
    cases isNull <;> decide
  | .emptyCheck collection, h =>
    renumbers_of_colonFree
      (colonFree_append.mpr ⟨colonFree_append.mpr ⟨by decide, h⟩, by decide⟩)
  | .never, _ => renumbers_of_colonFree (by decide)
  | .correlated correlation, h => renumbers_of_colonFree h
  | .inSelect reference negated query, h => by
    have hword : ColonFree (if negated then " not in (" else " in (") := by
      cases negated <;> decide
    have hquery := (query.renumbers h.2).prepend (colonFree_append.mpr ⟨h.1, hword⟩)
    exact hquery.follow (u := ")") (by decide) (noDigitFirst_of_separates (by decide))

/-- The text of a plain condition follows its numbers. -/
theorem Condition.renumbers : ∀ c : Condition, c.Plain → Renumbers g c.render (c.renumber g).render
  | .atom predicate, h => predicate.renumbers h
  | .chain members, h => by
    have hmembers : Renumbers g (joinWith " and " (members.map Condition.render))
        (joinWith " and " ((members.map (Condition.renumber g)).map Condition.render)) :=
      renumbers_joinWith (by decide) (by decide) (renumbersConditions members h)
    rwa [← renumberConditions_eq, ← renderConditions_eq, ← renderConditions_eq] at hmembers
  | .group disjunctive members, h => by
    have hmembers : Renumbers g
        (joinWith (if disjunctive then " or " else " and ") (members.map Condition.render))
        (joinWith (if disjunctive then " or " else " and ")
          ((members.map (Condition.renumber g)).map Condition.render)) :=
      renumbers_joinWith (by cases disjunctive <;> decide) (by cases disjunctive <;> decide)
        (renumbersConditions members h)
    rw [← renumberConditions_eq, ← renderConditions_eq, ← renderConditions_eq] at hmembers
    exact (hmembers.prepend (by decide)).follow (by decide) (noDigitFirst_of_separates (by decide))
  | .negation condition, h => (condition.renumbers h).prepend (by decide)
  | .unfinished .., h => h.elim

/-- The text of a plain query follows its numbers. -/
theorem Select.renumbers : ∀ q : Select, q.Plain → Renumbers g q.render (q.renumber g).render
  | ⟨distinct, items, sources, conditions, groupBy, having, orderBy⟩, h => by
    obtain ⟨hitems, hsources, hlength, hconditions, hgroupBy, hhaving, horderBy⟩ := h
    have hwhere := renumbers_conditionsText hlength (renumbersConditions conditions hconditions)
    have hgroups := renumbers_havingText (renumbersGroups having hhaving)
    exact renumbers_select hitems hsources hgroupBy horderBy hwhere hgroups

/-- The texts of plain conditions follow their numbers. -/
theorem renumbersConditions : ∀ cs : List Condition, PlainConditions cs →
    ∀ c ∈ cs, Renumbers g c.render (c.renumber g).render
  | [], _ => fun _ hc => absurd hc List.not_mem_nil
  | c :: rest, h => List.forall_mem_cons.mpr ⟨c.renumbers h.1, renumbersConditions rest h.2⟩

/-- The text of a plain group follows its numbers. -/
theorem renumbersGroup : ∀ c : Option Condition, PlainGroup c →
    Renumbers g (renderGroup c) (renderGroup (renumberGroup g c))
  | none, _ => renumbers_of_colonFree colonFree_empty
  | some c, h => c.renumbers h

/-- The texts of plain groups follow their numbers. -/
theorem renumbersGroups : ∀ cs : List (Option Condition), PlainGroups cs →
    ∀ c ∈ cs, Renumbers g (renderGroup c) (renderGroup (renumberGroup g c))
  | [], _ => fun _ hc => absurd hc List.not_mem_nil
  | c :: rest, h => List.forall_mem_cons.mpr ⟨renumbersGroup c h.1, renumbersGroups rest h.2⟩

end

end ObjectQuery
