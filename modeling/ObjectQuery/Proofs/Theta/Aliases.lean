import ObjectQuery.Proofs.Declarations.Namings

/-!
# The latest alias of a class

Every instance of a class that is correlated takes the alias of the class over, for good. Which
alias a class has can be read off the joins with other classes that have been made.

* `Naming.aliasOf`: the alias of a class after namings.
* `Naming.thetaSources`: the instances that are listed for them.
* `Naming.aliasOf_own_iff`: a class has the alias of an instance that was listed since some point
  just if the class was correlated since.
* `Naming.aliasOf_without_iff`: when the alias stays the same if namings in the middle are left out.
-/

namespace ObjectQuery.Naming

open Aliases

/-! ## Aliases and instances -/

/-- Whether an instance of a class is listed. -/
def isCorrelated : Naming → Bool
  | correlated _ => true
  | listed _ | outer _ => false

/-- How many instances of classes are listed. -/
def instances (ns : List Naming) : Nat := ns.countP isCorrelated

/-- The alias of a class after one more naming: an instance takes the next number, and any other
naming keeps the alias that there is. -/
def next (C : String) (number : Nat) (x : Option String) : Naming → Option String
  | correlated C' => if C' = C then some (classAliasName C (some number)) else x
  | listed C' | outer C' => if C' = C then x.or (some (classAliasName C none)) else x

/-- The alias of a class after namings, if it was `x` before them and the next instance has the
number. -/
def aliasFrom (C : String) : Nat → Option String → List Naming → Option String
  | _, x, [] => x
  | number, x, n :: rest => aliasFrom C (number + instances [n]) (next C number x n) rest

/-- The alias of a class after the namings of a query. -/
def aliasOf (ns : List Naming) (C : String) : Option String := aliasFrom C 0 none ns

/-- The instances of classes that are listed among the sources, numbered from `number` on. -/
def thetaSources : Nat → List Naming → List Source
  | _, [] => []
  | number, correlated C :: rest =>
    ⟨C, classAliasName C (some number), true⟩ :: thetaSources (number + 1) rest
  | number, _ :: rest => thetaSources number rest

/-- Whether an alias is named after the class. -/
def names (C : String) (ns : List Naming) : Bool := ns.any (·.className == C)

variable {C : String} {ns ms : List Naming}

theorem names_iff : names C ns = true ↔ ∃ n ∈ ns, n.className = C := by
  simp [names]

theorem names_append : names C (ns ++ ms) = (names C ns || names C ms) := List.any_append

theorem instances_append : instances (ns ++ ms) = instances ns + instances ms := List.countP_append

theorem instances_cons (n : Naming) (rest : List Naming) :
    instances (n :: rest) = instances [n] + instances rest :=
  @instances_append [n] rest

theorem aliasFrom_append (number : Nat) (x : Option String) :
    aliasFrom C number x (ns ++ ms) =
      aliasFrom C (number + instances ns) (aliasFrom C number x ns) ms := by
  induction ns generalizing number x with
  | nil => rfl
  | cons n rest ih =>
    rw [List.cons_append, aliasFrom, ih, aliasFrom, instances_cons n rest, Nat.add_assoc]

theorem aliasOf_append :
    aliasOf (ns ++ ms) C = aliasFrom C (instances ns) (aliasOf ns C) ms := by
  rw [aliasOf, aliasFrom_append, Nat.zero_add, aliasOf]

/-- One naming behind others. -/
theorem aliasOf_snoc (n : Naming) :
    aliasOf (ns ++ [n]) C = next C (instances ns) (aliasOf ns C) n := by
  rw [aliasOf_append, aliasFrom, aliasFrom]

theorem thetaSources_append (number : Nat) :
    thetaSources number (ns ++ ms) =
      thetaSources number ns ++ thetaSources (number + instances ns) ms := by
  induction ns generalizing number with
  | nil => rfl
  | cons n rest ih =>
    cases n with
    | correlated C =>
      rw [List.cons_append, thetaSources, ih, thetaSources, instances_cons _ rest,
        List.cons_append, Nat.add_assoc]
      rfl
    | listed C | outer C =>
      rw [List.cons_append, thetaSources, ih, thetaSources, instances_cons _ rest]
      · exact congrArg (fun i => thetaSources number rest ++ thetaSources (number + i) ms)
          (Nat.zero_add _).symm
      all_goals simp

/-- The instances are numbered in order. -/
theorem mem_thetaSources {number : Nat} {s : Source} (h : s ∈ thetaSources number ns) :
    ∃ i < instances ns, s.aliasName = classAliasName s.className (some (number + i)) := by
  induction ns generalizing number with
  | nil => cases h
  | cons n rest ih =>
    rw [instances_cons n rest]
    cases n with
    | correlated C' =>
      rcases List.mem_cons.mp h with rfl | h
      · exact ⟨0, Nat.add_pos_left Nat.one_pos _, rfl⟩
      · obtain ⟨i, hi, hname⟩ := ih h
        exact ⟨1 + i, Nat.add_lt_add_left hi 1, by rw [hname, Nat.add_assoc]⟩
    | listed C' | outer C' =>
      obtain ⟨i, hi, hname⟩ := ih h
      exact ⟨i, Nat.lt_add_left _ hi, hname⟩

/-! ## Classes that are not correlated -/

/-- A class that is not correlated keeps its alias, or has the plain one if it is named. -/
theorem aliasFrom_of_not_mem (h : .correlated C ∉ ns) (number : Nat) (x : Option String) :
    aliasFrom C number x ns =
      if names C ns then x.or (some (classAliasName C none)) else x := by
  induction ns generalizing number x with
  | nil => rfl
  | cons n rest ih =>
    obtain ⟨hn, hrest⟩ : Naming.correlated C ≠ n ∧ .correlated C ∉ rest := by simpa using h
    rw [aliasFrom, ih hrest]
    have hnames : names C (n :: rest) = (n.className == C || names C rest) := rfl
    rw [hnames]
    cases n with
    | correlated C' =>
      have hne : C' ≠ C := fun heq => hn (congrArg Naming.correlated heq.symm)
      simp [next, className, hne]
    | listed C' | outer C' =>
      by_cases heq : C' = C
      · cases x <;> cases names C rest <;> simp [next, className, heq]
      · simp [next, className, heq]

/-- An instance of the class is the latest one, whatever was before. -/
theorem aliasFrom_of_mem (h : .correlated C ∈ ns) :
    ∃ i < instances ns, ∀ number,
      ⟨C, classAliasName C (some (number + i)), true⟩ ∈ thetaSources number ns ∧
        ∀ x, aliasFrom C number x ns = some (classAliasName C (some (number + i))) := by
  induction ns with
  | nil => cases h
  | cons n rest ih =>
    by_cases hrest : .correlated C ∈ rest
    · obtain ⟨i, hi, hlatest⟩ := ih hrest
      refine ⟨instances [n] + i, ?_, fun number => ?_⟩
      · rw [instances_cons n rest]
        exact Nat.add_lt_add_left hi _
      · obtain ⟨hsource, halias⟩ := hlatest (number + instances [n])
        rw [← Nat.add_assoc]
        refine ⟨?_, fun x => halias _⟩
        cases n with
        | correlated C' => exact List.mem_cons_of_mem _ hsource
        | listed C' | outer C' => exact hsource
    · obtain rfl : n = .correlated C := ((List.mem_cons.mp h).resolve_right hrest).symm
      refine ⟨0, ?_, fun number => ⟨List.mem_cons_self, fun x => ?_⟩⟩
      · rw [instances_cons _ rest]
        exact Nat.add_pos_left Nat.one_pos _
      · rw [aliasFrom, aliasFrom_of_not_mem hrest]
        simp [next]

/-- A class has the alias of an instance, or the plain one, or none. -/
theorem aliasOf_cases (ns : List Naming) (C : String) :
    (∃ i < instances ns, aliasOf ns C = some (classAliasName C (some i))) ∨
      aliasOf ns C = if names C ns then some (classAliasName C none) else none := by
  by_cases h : .correlated C ∈ ns
  · obtain ⟨i, hi, hlatest⟩ := aliasFrom_of_mem h
    exact .inl ⟨i, hi, by rw [aliasOf, (hlatest 0).2, Nat.zero_add]⟩
  · refine .inr ?_
    rw [aliasOf, aliasFrom_of_not_mem h]
    rfl

theorem isSome_aliasOf : (aliasOf ns C).isSome = names C ns := by
  by_cases h : .correlated C ∈ ns
  · obtain ⟨i, -, hlatest⟩ := aliasFrom_of_mem h
    have hnamed : names C ns = true := names_iff.mpr ⟨_, h, rfl⟩
    rw [aliasOf, (hlatest 0).2, hnamed]
    rfl
  · rw [aliasOf, aliasFrom_of_not_mem h]
    cases names C ns <;> rfl

theorem number_inj {m n : Option Nat}
    (h : some (classAliasName C m) = some (classAliasName C n)) : m = n :=
  (classAliasName_inj (Option.some.inj h)).2

/-! ## Own instances -/

/-- Behind `before`, a class has the alias of an instance that was listed since just if it was
correlated since. -/
theorem aliasOf_own_iff (before inner rest : List Naming) (C : String) :
    (∃ s ∈ thetaSources (instances before) (inner ++ rest), s.className = C ∧
        aliasOf (before ++ inner) C = some s.aliasName) ↔ .correlated C ∈ inner := by
  rw [aliasOf_append]
  constructor
  · rintro ⟨s, hs, rfl, halias⟩
    refine Decidable.byContradiction fun hnot => ?_
    obtain ⟨i, -, hname⟩ := mem_thetaSources hs
    rw [aliasFrom_of_not_mem hnot, hname] at halias
    obtain ⟨j, hj, hbefore⟩ | hbefore := aliasOf_cases before s.className
    · rw [hbefore, Option.some_or, ite_self] at halias
      have heq := Option.some.inj (number_inj halias)
      omega
    · rw [hbefore] at halias
      cases hnamed : names s.className before <;> cases hinner : names s.className inner <;>
        simp only [hnamed, hinner, if_true, Bool.false_eq_true, if_false, Option.some_or,
          Option.none_or, reduceCtorEq] at halias <;>
        cases number_inj halias
  · intro hmem
    obtain ⟨i, -, hlatest⟩ := aliasFrom_of_mem hmem
    obtain ⟨hsource, halias⟩ := hlatest (instances before)
    refine ⟨⟨C, classAliasName C (some (instances before + i)), true⟩, ?_, rfl, halias _⟩
    rw [thetaSources_append]
    exact List.mem_append_left _ hsource

/-! ## Namings left out -/

theorem aliasOf_ne_instance (ns : List Naming) (C : String) {number : Nat}
    (h : instances ns ≤ number) :
    some (classAliasName C (some number)) ≠ aliasOf ns C := by
  intro heq
  obtain ⟨i, hi, hbefore⟩ | hbefore := aliasOf_cases ns C
  · rw [hbefore] at heq
    have hnumber := Option.some.inj (number_inj heq)
    omega
  · rw [hbefore] at heq
    split at heq
    · cases number_inj heq
    · cases heq

/-- The alias of a class does not depend on namings in the middle just if none of them is an
instance of the class and the class would be named without them, or else if an instance of the class
comes behind them, whose number they do not change. -/
theorem aliasOf_without_iff (before middle behind : List Naming) (C : String) :
    aliasOf (before ++ middle ++ behind) C = aliasOf (before ++ behind) C ↔
      if .correlated C ∈ behind then instances middle = 0
      else .correlated C ∉ middle ∧
        (names C middle = true → names C (before ++ behind) = true) := by
  rw [aliasOf_append, aliasOf_append, aliasOf_append, instances_append]
  by_cases hbehind : .correlated C ∈ behind
  · obtain ⟨i, -, hlatest⟩ := aliasFrom_of_mem hbehind
    rw [if_pos hbehind, (hlatest _).2, (hlatest _).2]
    refine ⟨fun heq => ?_, fun hzero => by rw [hzero, Nat.add_zero]⟩
    have hnumber := Option.some.inj (number_inj heq)
    omega
  · rw [if_neg hbehind, aliasFrom_of_not_mem hbehind, aliasFrom_of_not_mem hbehind, names_append,
      ← @isSome_aliasOf C before]
    by_cases hmiddle : .correlated C ∈ middle
    · obtain ⟨i, -, hlatest⟩ := aliasFrom_of_mem hmiddle
      have hne := aliasOf_ne_instance before C (Nat.le_add_right (instances before) i)
      rw [(hlatest _).2, Option.some_or, ite_self]
      refine ⟨fun heq => ?_, fun h => absurd hmiddle h.1⟩
      cases hx : aliasOf before C with
      | some y =>
        rw [hx] at heq hne
        rw [Option.some_or, ite_self] at heq
        exact absurd heq hne
      | none =>
        rw [hx, Option.none_or] at heq
        split at heq
        · cases number_inj heq
        · cases heq
    · rw [aliasFrom_of_not_mem hmiddle]
      simp only [hmiddle, not_false_eq_true, true_and]
      cases aliasOf before C <;> cases names C middle <;> cases names C behind <;> simp

end ObjectQuery.Naming
