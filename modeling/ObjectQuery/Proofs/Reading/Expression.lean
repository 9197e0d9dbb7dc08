import ObjectQuery.Statement

/-!
# Reading Boolean expressions

A where clause is read from left to right as a Boolean expression over its predicates: `not` binds
closer than `and`, and `and` closer than `or`.

* `Expression.Token`: predicates, connectives and brackets.
* `Expression.read`: the truth value of an expression, if its tokens are one.
* `Condition.tokens`, `conditionTokens`: the tokens of conditions. Their text is the text of the
  conditions (`tokensText_conditionTokens`).
* `Condition.holds`: the truth value of a condition as a tree.
* `Condition.read_tokens`: the tokens of a readable condition are read as the condition.
-/

namespace ObjectQuery

namespace Expression

/-! ## The reader -/

/-- A predicate, a connective or a bracket. -/
inductive Token where
  | predicate (p : Atom)
  | and | or | not | opening | closing

/-- The text of a token with the blanks around it. -/
def Token.render : Token → String
  | predicate p => p.render
  | and => " and "
  | or => " or "
  | not => "not "
  | opening => "("
  | closing => ")"

/-- The text of tokens. -/
def tokensText : List Token → String
  | [] => ""
  | t :: rest => t.render ++ tokensText rest

/-- What has been read of the expression between two brackets. -/
structure Frame where
  /-- Whether one of the conjunctions in front of the current one holds. -/
  disjunction : Bool := false
  /-- Whether all operands of the current conjunction hold. -/
  conjunction : Bool := true
  /-- The next operand is negated. -/
  negated : Bool := false

/-- The truth value of what has been read. -/
def Frame.value (F : Frame) : Bool := F.disjunction || F.conjunction

/-- Reads an operand with the negations in front of it. -/
def Frame.take (F : Frame) (operand : Bool) : Frame :=
  { F with
    conjunction := F.conjunction && (if F.negated then !operand else operand)
    negated := false }

/-- Where a reader stands. -/
structure State where
  frame : Frame
  /-- The frames around the open brackets, innermost first. -/
  outer : List Frame
  /-- An operand has just been read. -/
  complete : Bool

variable {truth : Atom → Bool}

/-- Reads one token. An operand and what belongs in front of it stand where an operand is missing,
anything else behind an operand. -/
def step (truth : Atom → Bool) : State → Token → Option State
  | ⟨F, outer, false⟩, .predicate p => some ⟨F.take (truth p), outer, true⟩
  | ⟨F, outer, false⟩, .not => some ⟨{ F with negated := !F.negated }, outer, false⟩
  | ⟨F, outer, false⟩, .opening => some ⟨{}, F :: outer, false⟩
  | ⟨F, outer, true⟩, .and => some ⟨F, outer, false⟩
  | ⟨F, outer, true⟩, .or => some ⟨{ disjunction := F.value }, outer, false⟩
  | ⟨F, G :: outer, true⟩, .closing => some ⟨G.take F.value, outer, true⟩
  | _, _ => none

/-- Reads several tokens. -/
def run (truth : Atom → Bool) : State → List Token → Option State
  | s, [] => some s
  | s, t :: rest => (step truth s t).bind fun s => run truth s rest

/-- The truth value of an expression, if the tokens are one: operands and connectives alternate and
every bracket is closed. -/
def read (truth : Atom → Bool) (tokens : List Token) : Option Bool :=
  match run truth ⟨{}, [], false⟩ tokens with
  | some ⟨F, [], true⟩ => some F.value
  | _ => none

/-- `a or b and not c` -/
example (a b c : Atom) :
    read truth [.predicate a, .or, .predicate b, .and, .not, .predicate c] =
      some (truth a || (truth b && !truth c)) := rfl

theorem tokensText_append (s t : List Token) :
    tokensText (s ++ t) = tokensText s ++ tokensText t := by
  induction s with
  | nil => simp [tokensText]
  | cons first rest ih => simp [tokensText, ih, String.append_assoc]

/-- Two operands of one conjunction. -/
theorem take_take {F : Frame} (h : F.negated = false) (a b : Bool) :
    (F.take a).take b = F.take (a && b) := by
  simp [Frame.take, h, Bool.and_assoc]

end Expression

open Expression

/-! ## Conditions as expressions -/

/-- The connective between members that were written one after the other, if there is one. -/
def Separator.tokens : Separator → List Token
  | nothing => []
  | conjunction => [.and]
  | disjunction => [.or]

mutual

/-- The tokens of a condition. -/
def Condition.tokens : Condition → List Token
  | .atom predicate => [.predicate predicate]
  | .chain members => tokensBetween [.and] members
  | .group disjunctive members =>
    .opening :: (tokensBetween [if disjunctive then .or else .and] members ++ [.closing])
  | .negation condition => .not :: condition.tokens
  | .unfinished separator members => tokensBetween separator.tokens members

/-- The tokens of several conditions with what stands between neighbours. -/
def tokensBetween (separator : List Token) : List Condition → List Token
  | [] => []
  | [c] => c.tokens
  | c :: rest => c.tokens ++ (separator ++ tokensBetween separator rest)

end

/-- The tokens of the conditions of a clause. -/
def conditionTokens (conditions : List Condition) : List Token := conditions.flatMap Condition.tokens

mutual

/-- The truth value of a condition. -/
def Condition.holds (truth : Atom → Bool) : Condition → Bool
  | .atom predicate => truth predicate
  | .chain members => Condition.allHold truth members
  | .group disjunctive members =>
    if disjunctive then Condition.anyHolds truth members else Condition.allHold truth members
  | .negation condition => !condition.holds truth
  | .unfinished separator members =>
    if separator = .disjunction then Condition.anyHolds truth members
    else Condition.allHold truth members

/-- Whether all the conditions hold. -/
def Condition.allHold (truth : Atom → Bool) : List Condition → Bool
  | [] => true
  | c :: rest => c.holds truth && Condition.allHold truth rest

/-- Whether one of the conditions holds. -/
def Condition.anyHolds (truth : Atom → Bool) : List Condition → Bool
  | [] => false
  | c :: rest => c.holds truth || Condition.anyHolds truth rest

end

/-- Whether the members of a condition stand without brackets. -/
def Condition.isChain : Condition → Bool
  | .chain _ | .unfinished .. => true
  | .atom _ | .group .. | .negation _ => false

mutual

/-- No connective lacks operands, what is negated stands in brackets, and all is finished. -/
def Condition.IsReadable : Condition → Prop
  | .atom _ => True
  | .chain members | .group _ members => members ≠ [] ∧ AreReadable members
  | .negation condition => condition.isChain = false ∧ condition.IsReadable
  | .unfinished .. => False

/-- All the conditions are readable. -/
def AreReadable : List Condition → Prop
  | [] => True
  | c :: rest => c.IsReadable ∧ AreReadable rest

end

/-! ## Texts -/

theorem Text.joinWith_empty_cons (s : String) (rest : List String) :
    joinWith "" (s :: rest) = s ++ joinWith "" rest := by
  cases rest with
  | nil => simp [joinWith]
  | cons t rest =>
    show s ++ "" ++ joinWith "" (t :: rest) = _
    rw [String.append_empty]

mutual

/-- The text of the tokens is the text of the condition. -/
theorem Condition.tokensText_tokens : ∀ c : Condition, tokensText c.tokens = c.render
  | .atom predicate => String.append_empty
  | .chain members => tokensText_tokensBetween [.and] members
  | .group disjunctive members => by
    have hmembers := tokensText_tokensBetween [if disjunctive then .or else .and] members
    rw [Condition.tokens, tokensText, tokensText_append, hmembers]
    cases disjunctive <;> simp [tokensText, Token.render, Condition.render, String.append_assoc]
  | .negation condition => by
    rw [Condition.tokens, tokensText, condition.tokensText_tokens]
    rfl
  | .unfinished separator members => by
    have hmembers := tokensText_tokensBetween separator.tokens members
    cases separator <;> exact hmembers

theorem tokensText_tokensBetween (separator : List Token) : ∀ cs : List Condition,
    tokensText (tokensBetween separator cs) =
      Text.joinWith (tokensText separator) (renderConditions cs)
  | [] => rfl
  | [c] => c.tokensText_tokens
  | c :: second :: rest => by
    rw [tokensBetween, tokensText_append, tokensText_append, c.tokensText_tokens,
      tokensText_tokensBetween separator (second :: rest), ← String.append_assoc]
    · rfl
    · simp

end

theorem tokensText_conditionTokens (conditions : List Condition) :
    tokensText (conditionTokens conditions) = conditionsText conditions := by
  induction conditions with
  | nil => rfl
  | cons c rest ih =>
    rw [conditionTokens, List.flatMap_cons, tokensText_append, c.tokensText_tokens]
    rw [conditionTokens] at ih
    rw [ih, conditionsText, conditionsText, renderConditions, Text.joinWith_empty_cons]

/-! ## Reading conditions -/

mutual

/-- A readable condition is read as one operand, or as operands of the current conjunction. -/
theorem Condition.run_tokens (truth : Atom → Bool) : ∀ c : Condition, c.IsReadable →
    ∀ (F : Frame) (outer : List Frame) (rest : List Token),
      (c.isChain = true → F.negated = false) →
      run truth ⟨F, outer, false⟩ (c.tokens ++ rest) =
        run truth ⟨F.take (c.holds truth), outer, true⟩ rest
  | .atom predicate, _, _, _, _, _ => rfl
  | .chain members, h, F, outer, rest, hF =>
    run_tokens_all truth members h.1 h.2 F outer rest (hF rfl)
  | .group disjunctive members, h, F, outer, rest, hF => by
    show run truth ⟨{}, F :: outer, false⟩ (tokensBetween _ members ++ [.closing] ++ rest) = _
    rw [List.append_assoc]
    cases disjunctive with
    | false =>
      rw [if_neg (by simp), run_tokens_all truth members h.1 h.2 {} (F :: outer) _ rfl]
      show run truth ⟨F.take (Frame.value _), outer, true⟩ rest = _
      simp [Frame.value, Frame.take, Condition.holds]
    | true =>
      obtain ⟨G, hG, hrun⟩ := run_tokens_any truth members h.1 h.2 {} (F :: outer)
        (.closing :: rest) rfl rfl
      rw [if_pos rfl]
      refine hrun.trans ?_
      show run truth ⟨F.take G.value, outer, true⟩ rest = _
      rw [hG]
      simp [Condition.holds]
  | .negation condition, h, F, outer, rest, _ => by
    show run truth ⟨{ F with negated := !F.negated }, outer, false⟩ (condition.tokens ++ rest) = _
    rw [condition.run_tokens truth h.2 _ outer rest (by simp [h.1])]
    cases hnegated : F.negated <;> simp [Frame.take, Condition.holds, hnegated]
  | .unfinished .., h, _, _, _, _ => h.elim

/-- Members with `and` between them are read as operands of the current conjunction. -/
theorem run_tokens_all (truth : Atom → Bool) : ∀ cs : List Condition, cs ≠ [] → AreReadable cs →
    ∀ (F : Frame) (outer : List Frame) (rest : List Token), F.negated = false →
      run truth ⟨F, outer, false⟩ (tokensBetween [.and] cs ++ rest) =
        run truth ⟨F.take (Condition.allHold truth cs), outer, true⟩ rest
  | [], hne, _, _, _, _, _ => absurd rfl hne
  | [c], _, h, F, outer, rest, hF => by
    rw [tokensBetween, c.run_tokens truth h.1 F outer rest fun _ => hF]
    simp [Condition.allHold]
  | c :: second :: others, _, h, F, outer, rest, hF => by
    rw [tokensBetween, List.append_assoc, c.run_tokens truth h.1 F outer _ fun _ => hF]
    · show run truth ⟨F.take _, outer, false⟩ (tokensBetween [.and] (second :: others) ++ rest) = _
      rw [run_tokens_all truth (second :: others) (by simp) h.2 _ outer rest rfl, take_take hF]
      rfl
    · simp

/-- Members with `or` between them are read as conjunctions of their own. -/
theorem run_tokens_any (truth : Atom → Bool) : ∀ cs : List Condition, cs ≠ [] → AreReadable cs →
    ∀ (F : Frame) (outer : List Frame) (rest : List Token), F.negated = false →
      F.conjunction = true →
      ∃ G : Frame, G.value = (F.disjunction || Condition.anyHolds truth cs) ∧
        run truth ⟨F, outer, false⟩ (tokensBetween [.or] cs ++ rest) =
          run truth ⟨G, outer, true⟩ rest
  | [], hne, _, _, _, _, _, _ => absurd rfl hne
  | [c], _, h, F, outer, rest, hF, hall => by
    refine ⟨F.take (c.holds truth), ?_, c.run_tokens truth h.1 F outer rest fun _ => hF⟩
    simp [Frame.value, Frame.take, Condition.anyHolds, hF, hall]
  | c :: second :: others, _, h, F, outer, rest, hF, hall => by
    -- Behind an `or` a new conjunction begins, and the frame keeps what the ones before it gave.
    obtain ⟨G, hG, hrun⟩ := run_tokens_any truth (second :: others) (by simp) h.2
      { disjunction := (F.take (c.holds truth)).value } outer rest rfl rfl
    refine ⟨G, ?_, ?_⟩
    · rw [hG]
      show _ = (F.disjunction || (c.holds truth || Condition.anyHolds truth (second :: others)))
      simp [Frame.value, Frame.take, hF, hall, Bool.or_assoc]
    · rw [tokensBetween, List.append_assoc, c.run_tokens truth h.1 F outer _ fun _ => hF]
      · exact hrun
      · simp

end

/-- The tokens of a readable condition are a Boolean expression and are read as the condition. -/
theorem Condition.read_tokens {c : Condition} (h : c.IsReadable) (truth : Atom → Bool) :
    read truth c.tokens = some (c.holds truth) := by
  have hrun := c.run_tokens truth h {} [] [] fun _ => rfl
  rw [List.append_nil] at hrun
  unfold Expression.read
  rw [hrun]
  simp [run, Frame.value, Frame.take]

end ObjectQuery
