import ObjectQuery.Proofs.Folding.Operands
import ObjectQuery.Proofs.Having.Clause
import ObjectQuery.Proofs.Scoping.Statement

/-!
# Conditions that fold both sides

* `Atom.Folds`: a comparison whose operands are bound in upper case exactly if its property is put
  into upper case.
* `Folding`: conditions all of whose comparisons are like this, also those in nested selects.
* `Draft.Gains`: a draft has grown by parameters that are operands, and by such conditions.
-/

namespace ObjectQuery

/-- Whether a comparison puts its property into upper case. -/
def Atom.isUpper : Atom → Bool
  | .comparison left .. | .membership left _ => left.upper
  | .nullCheck .. | .emptyCheck _ | .never | .correlated _ | .inSelect .. => false

/-- The predicates of a select, without those of the selects nested in it. -/
def Select.predicates (s : Select) : List Atom :=
  predicatesOf s.conditions ++ s.having.flatMap groupPredicates

section

variable (k : Compiler) (o : QueryOptions)

/-- The reference is what a path stands for under some aliases. -/
def Refers (path : String) (r : Reference) : Prop :=
  ∃ o a b, (Aliases.resolve k.catalog path o).Yields a (some r) b

/-- The operands of a comparison, which the restrictions ask for, are bound in upper case if the
property is put into upper case, and as they are otherwise. Patterns are escaped and given wildcards
after that. `bound` says which value is bound under a number. -/
def Atom.Folds (bound : Nat → Value → Prop) : Atom → Prop
  | .comparison left operator number escape =>
    ∃ property mode operand, Refers k property left.reference ∧ o.Asks property mode operand ∧
      (operator = "like" ↔ mode.isSome = true) ∧
      ∃ value, (value, escape) =
        (operand.foldIf left.upper).written k.capabilities.reserved mode ∧ bound number value
  | .membership left numbers =>
    ∃ property operands, Refers k property left.reference ∧
      (∀ operand ∈ operands, o.Asks property none operand) ∧
      List.Forall₂ (fun number operand => bound number (operand.foldIf left.upper)) numbers operands
  | .nullCheck .. | .emptyCheck _ | .never | .correlated _ | .inSelect .. => True

/-- The value is bound for an operand of the restrictions. Where the store ignores case by itself, it
is not put into upper case. -/
def IsOperand (value : Value) : Prop :=
  ∃ property mode operand upper, o.Asks property mode operand ∧
    value = ((operand.foldIf upper).written k.capabilities.reserved mode).1 ∧
    (k.capabilities.caseInsensitive = true → upper = false)

/-- The comparison folds both of its sides or none, and none where the store ignores case. -/
structure Atom.Agrees (ps : List Parameter) (p : Atom) : Prop where
  folds : p.Folds k o fun number value => ⟨number, value⟩ ∈ ps
  insensitive : k.capabilities.caseInsensitive = true → p.isUpper = false

/-- All comparisons of a select fold both of their sides or none. Where the store ignores case, the
order does not fold either. -/
structure Select.Agrees (ps : List Parameter) (s : Select) : Prop where
  predicates : ∀ p ∈ s.predicates, p.Agrees k o ps
  orderBy : k.capabilities.caseInsensitive = true → ∀ t ∈ s.orderBy, t.upper = false

/-- All comparisons in some conditions fold both of their sides or none, also those in nested
selects. -/
structure Folding (ps : List Parameter) (cs : List Condition) : Prop where
  predicates : ∀ p ∈ predicatesOf cs, p.Agrees k o ps
  selects : ∀ s ∈ conditionSelects cs, s.Agrees k o ps

end

theorem predicatesOf_flatMap_toList (groups : List (Option Condition)) :
    predicatesOf (groups.flatMap Option.toList) = groups.flatMap groupPredicates := by
  induction groups with
  | nil => rfl
  | cons g rest ih =>
    rw [List.flatMap_cons, predicatesOf_append, predicatesOf_toList, ih, List.flatMap_cons]

theorem conditionSelects_flatMap_toList (groups : List (Option Condition)) :
    conditionSelects (groups.flatMap Option.toList) = groupSelects groups := by
  rw [conditionSelects_eq, groupSelects_eq, List.flatMap_assoc]
  refine List.flatMap_congr fun g _ => ?_
  cases g with
  | none => rfl
  | some c => exact List.append_nil _

variable {k : Compiler} {o : QueryOptions}

/-! ## Conditions -/

section

variable {bound bound' : Nat → Value → Prop} {ps ps' : List Parameter}

theorem Atom.Folds.mono {p : Atom} (h : p.Folds k o bound)
    (hbound : ∀ number value, bound number value → bound' number value) : p.Folds k o bound' := by
  cases p with
  | comparison left operator number escape =>
    obtain ⟨property, mode, operand, hrefers, hasks, hlike, value, hvalue, hnumber⟩ := h
    exact ⟨property, mode, operand, hrefers, hasks, hlike, value, hvalue, hbound _ _ hnumber⟩
  | membership left numbers =>
    obtain ⟨property, operands, hrefers, hasks, hvalues⟩ := h
    exact ⟨property, operands, hrefers, hasks, hvalues.imp fun _ _ => hbound _ _⟩
  | nullCheck | emptyCheck | never | correlated | inSelect => trivial

theorem Atom.Agrees.mono {p : Atom} (h : p.Agrees k o ps) (hps : ps ⊆ ps') : p.Agrees k o ps' :=
  ⟨h.folds.mono fun _ _ hmem => hps hmem, h.insensitive⟩

namespace Folding

variable {cs ds : List Condition}

theorem mono (h : Folding k o ps cs) (hps : ps ⊆ ps') : Folding k o ps' cs where
  predicates p hp := (h.predicates p hp).mono hps
  selects s hs :=
    ⟨fun p hp => ((h.selects s hs).predicates p hp).mono hps, (h.selects s hs).orderBy⟩

theorem nil : Folding k o ps [] where
  predicates := List.forall_mem_nil _
  selects := List.forall_mem_nil _

theorem append (h : Folding k o ps cs) (h' : Folding k o ps ds) : Folding k o ps (cs ++ ds) := by
  constructor
  · rw [predicatesOf_append]
    exact List.forall_mem_append.mpr ⟨h.predicates, h'.predicates⟩
  · rw [conditionSelects_eq, List.flatMap_append, ← conditionSelects_eq, ← conditionSelects_eq]
    exact List.forall_mem_append.mpr ⟨h.selects, h'.selects⟩

/-- A condition is as good as what it is made of. -/
theorem of_same {c : Condition} (h : Folding k o ps cs) (hpredicates : c.predicates = predicatesOf cs)
    (hselects : c.selects = conditionSelects cs) : Folding k o ps [c] := by
  have hpredicates' : predicatesOf [c] = predicatesOf cs := (List.append_nil _).trans hpredicates
  have hselects' : conditionSelects [c] = conditionSelects cs := (List.append_nil _).trans hselects
  exact ⟨hpredicates' ▸ h.predicates, hselects' ▸ h.selects⟩

theorem chain (h : Folding k o ps cs) : Folding k o ps [.chain cs] := h.of_same rfl rfl

theorem group (h : Folding k o ps cs) (disjunctive : Bool) :
    Folding k o ps [.group disjunctive cs] := h.of_same rfl rfl

theorem negation {c : Condition} (h : Folding k o ps [c]) : Folding k o ps [.negation c] :=
  h.of_same (List.append_nil _).symm (List.append_nil _).symm

theorem combine (h : Folding k o ps cs) (operation : BooleanOp) :
    Folding k o ps (Draft.combine operation cs).toList := by
  cases cs with
  | nil => cases operation <;> exact nil
  | cons c rest =>
    cases operation with
    | and | or => exact h.group _
    | not => exact (h.group false).negation

theorem joinParts {kept excluded : Option Condition} (h : Folding k o ps kept.toList)
    (h' : Folding k o ps excluded.toList) (disjunctive : Bool) :
    Folding k o ps (Draft.joinParts disjunctive kept excluded).toList := by
  cases kept with
  | none => exact h'
  | some a =>
    cases excluded with
    | none => exact h
    | some b => exact (h.append h').group disjunctive

/-- A predicate that holds no nested select. -/
theorem atom {p : Atom} (h : p.Agrees k o ps) (hselects : p.selects = []) :
    Folding k o ps [.atom p] := by
  have hselects' : conditionSelects [.atom p] = [] := (List.append_nil _).trans hselects
  refine ⟨fun q hq => ?_, fun s hs => ?_⟩
  · obtain rfl := List.mem_singleton.mp hq
    exact h
  · rw [hselects'] at hs
    cases hs

/-- A select is as good as its conditions and groups. -/
theorem select {query : Select} (hconditions : Folding k o ps query.conditions)
    (hhaving : Folding k o ps (query.having.flatMap Option.toList)) :
    (∀ p ∈ query.predicates, p.Agrees k o ps) ∧ ∀ s ∈ query.nested, s.Agrees k o ps := by
  have hnested : query.nested = conditionSelects query.conditions ++ groupSelects query.having := by
    cases query
    rfl
  rw [hnested, Select.predicates, ← predicatesOf_flatMap_toList, ← conditionSelects_flatMap_toList]
  exact ⟨List.forall_mem_append.mpr ⟨hconditions.predicates, hhaving.predicates⟩,
    List.forall_mem_append.mpr ⟨hconditions.selects, hhaving.selects⟩⟩

/-- A predicate with a nested select. -/
theorem inSelect {reference : Reference} {negated : Bool} {query : Select}
    (hconditions : Folding k o ps query.conditions)
    (hhaving : Folding k o ps (query.having.flatMap Option.toList))
    (horder : k.capabilities.caseInsensitive = true → ∀ t ∈ query.orderBy, t.upper = false) :
    Folding k o ps [.atom (.inSelect reference negated query)] := by
  obtain ⟨hpredicates, hnested⟩ := hconditions.select hhaving
  have hselects : conditionSelects [.atom (.inSelect reference negated query)] =
      query :: query.nested := List.append_nil _
  constructor
  · intro q hq
    obtain rfl := List.mem_singleton.mp hq
    exact ⟨trivial, fun _ => rfl⟩
  · rw [hselects]
    exact List.forall_mem_cons.mpr ⟨⟨hpredicates, horder⟩, hnested⟩

end Folding

end

/-! ## Drafts -/

namespace Draft

/-- The draft has grown by parameters for operands of the restrictions, and by groups of conditions
on aggregates that fold both of their sides or none. -/
structure Gains (k : Compiler) (o : QueryOptions) (d e : Draft) : Prop where
  firstParameter : e.firstParameter = d.firstParameter
  conditions : e.conditions = d.conditions
  parameters : ∃ bound, e.parameters = d.parameters ++ bound ∧
    bound.map (·.number) = List.range' d.nextParameter bound.length ∧
    ∀ p ∈ bound, IsOperand k o p.value
  having : ∃ groups, e.having = d.having ++ groups ∧
    Folding k o e.parameters (groups.flatMap Option.toList)

namespace Gains

variable {d e f : Draft}

theorem subset (h : d.Gains k o e) : d.parameters ⊆ e.parameters := by
  obtain ⟨bound, hbound, -⟩ := h.parameters
  rw [hbound]
  exact List.subset_append_left _ _

theorem refl (d : Draft) : d.Gains k o d :=
  ⟨rfl, rfl, ⟨[], (List.append_nil _).symm, rfl, fun _ h => nomatch h⟩,
    ⟨[], (List.append_nil _).symm, .nil⟩⟩

theorem trans (h : d.Gains k o e) (h' : e.Gains k o f) : d.Gains k o f := by
  obtain ⟨bound, hbound, hnumbers, hoperands⟩ := h.parameters
  obtain ⟨bound', hbound', hnumbers', hoperands'⟩ := h'.parameters
  obtain ⟨groups, hhaving, hgroups⟩ := h.having
  obtain ⟨groups', hhaving', hgroups'⟩ := h'.having
  -- The second part goes on with the number behind those of the first.
  have hnext : e.nextParameter = d.nextParameter + bound.length := by
    simp only [nextParameter, h.firstParameter, hbound, List.length_append, Nat.add_assoc]
  rw [hnext] at hnumbers'
  refine ⟨h'.firstParameter.trans h.firstParameter, h'.conditions.trans h.conditions,
    ⟨bound ++ bound', ?_, ?_, List.forall_mem_append.mpr ⟨hoperands, hoperands'⟩⟩,
    ⟨groups ++ groups', ?_, ?_⟩⟩
  · rw [hbound', hbound, List.append_assoc]
  · rw [List.map_append, hnumbers, hnumbers', List.length_append, List.range'_append_1]
  · rw [hhaving', hhaving, List.append_assoc]
  · rw [List.flatMap_append]
    exact (hgroups.mono h'.subset).append hgroups'

theorem withAliases (d : Draft) (a : Aliases) : d.Gains k o (d.withAliases a) :=
  ⟨rfl, rfl, (refl d).parameters, (refl d).having⟩

/-- Operands may be bound. -/
theorem binding (d : Draft) {values : List Value} (h : ∀ v ∈ values, IsOperand k o v) :
    d.Gains k o (d.binding values) := by
  refine ⟨rfl, rfl, ⟨numbered d.nextParameter values, rfl, ?_, ?_⟩, ⟨[], (List.append_nil _).symm, .nil⟩⟩
  · rw [number_numbered, length_numbered]
  · generalize d.nextParameter = first
    induction values generalizing first with
    | nil => exact fun _ h => nomatch h
    | cons v rest ih =>
      obtain ⟨hv, hrest⟩ := List.forall_mem_cons.mp h
      exact List.forall_mem_cons.mpr ⟨hv, ih hrest (first + 1)⟩

/-- A group of conditions on aggregates. -/
theorem addGroup {group : Option Condition} (h : Gains k o { d with inHaving := true } e)
    (hgroup : Folding k o e.parameters group.toList) :
    d.Gains k o (Draft.addGroup { e with inHaving := d.inHaving } group) := by
  obtain ⟨groups, hhaving, hgroups⟩ := h.having
  unfold Draft.addGroup
  split
  · exact ⟨h.firstParameter, h.conditions, h.parameters, ⟨groups, hhaving, hgroups⟩⟩
  · refine ⟨h.firstParameter, h.conditions, h.parameters, ⟨groups ++ [group], ?_, ?_⟩⟩
    · show e.having ++ [group] = _
      rw [hhaving, List.append_assoc]
    · rw [List.flatMap_append, List.flatMap_singleton]
      exact hgroups.append hgroup

end Gains

end Draft

end ObjectQuery
