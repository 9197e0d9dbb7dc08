import Mathlib.Data.Set.Card
import Mathlib.Order.Interval.Finset.Nat
import ObjectQuery.Catalog

/-!
# Superclasses of a class

Superclasses may be declared in a circle, and they need not be declared at all. A lineage follows
them for `Catalog.maxDepth` classes and does not look for circles.

* `Catalog.above?`, `Catalog.ancestry`: the superclass of a class, and all classes that are reached
  from a class over superclasses.
* `Catalog.getElem?_lineage`: what stands in a lineage at each place.
* `Catalog.mem_lineage_iff_of_encard_le`: a lineage is complete if no more classes are reached than
  it has room for. A circle is gone round before the room is used up.
* `Catalog.lineage_ancestry`: lineages, with what follows for inherited classes and properties.
-/

namespace ObjectQuery

namespace Catalog

variable {c : Catalog} {className name : String} {e : Entity}

/-- The declaration of the superclass, if there is one. -/
def above? (c : Catalog) (e : Entity) : Option Entity := e.superclass.bind c.entity?

/-- The class that is reached from a class over a number of superclasses. -/
def ancestorAt (c : Catalog) (className : String) (distance : Nat) : Option Entity :=
  (Option.bind · c.above?)^[distance] (c.entity? className)

/-- The classes that are reached from a class over superclasses, the class itself included. -/
def ancestry (c : Catalog) (className : String) : Set Entity :=
  { e | ∃ distance, c.ancestorAt className distance = some e }

/-! ## Ancestors one by one -/

theorem name_of_entity? (h : c.entity? className = some e) : e.name = className :=
  beq_iff_eq.mp (List.find?_some (p := fun e : Entity => e.name == className) h)

theorem ancestorAt_succ (distance : Nat) :
    c.ancestorAt className (distance + 1) = (c.ancestorAt className distance).bind c.above? :=
  Function.iterate_succ_apply' ..

/-- From the same class the same ancestors follow. -/
theorem ancestorAt_add_congr {other : String} {m n : Nat}
    (h : c.ancestorAt className m = c.ancestorAt other n) (k : Nat) :
    c.ancestorAt className (m + k) = c.ancestorAt other (n + k) := by
  induction k with
  | zero => exact h
  | succ k ih => rw [← Nat.add_assoc, ← Nat.add_assoc, ancestorAt_succ, ancestorAt_succ, ih]

/-- An ancestor is reached over the ones before it. -/
theorem isSome_ancestorAt_of_le {m n : Nat} (hle : m ≤ n)
    (h : (c.ancestorAt className n).isSome = true) : (c.ancestorAt className m).isSome = true := by
  induction n, hle using Nat.le_induction with
  | base => exact h
  | succ n _ ih =>
    apply ih
    rw [ancestorAt_succ] at h
    exact Option.isSome_of_isSome_bind h

theorem entity?_name_of_ancestorAt {distance : Nat}
    (h : c.ancestorAt className distance = some e) : c.entity? e.name = some e := by
  have hnamed {name : String} (hfound : c.entity? name = some e) : c.entity? e.name = some e := by
    rwa [name_of_entity? hfound]
  cases distance with
  | zero => exact hnamed h
  | succ distance =>
    rw [ancestorAt_succ] at h
    obtain ⟨below, -, habove⟩ := Option.bind_eq_some_iff.mp h
    obtain ⟨superclass, -, hfound⟩ := Option.bind_eq_some_iff.mp habove
    exact hnamed hfound

/-- The ancestors of an ancestor are reached from the class too. -/
theorem ancestry_subset_of_mem (h : e ∈ c.ancestry className) :
    c.ancestry e.name ⊆ c.ancestry className := by
  obtain ⟨m, hm⟩ := h
  rintro top ⟨n, hn⟩
  refine ⟨m + n, ?_⟩
  have hsame : c.ancestorAt className m = c.ancestorAt e.name 0 :=
    hm.trans (entity?_name_of_ancestorAt hm).symm
  rw [ancestorAt_add_congr hsame, Nat.zero_add, hn]

/-- Only declared classes are reached, so there are no more of them than declarations. -/
theorem encard_ancestry_le (c : Catalog) (className : String) :
    (c.ancestry className).encard ≤ c.entities.length := by
  classical
  have hsubset : c.ancestry className ⊆ c.entities.toFinset := by
    rintro e ⟨distance, h⟩
    rw [Finset.mem_coe, List.mem_toFinset]
    exact List.mem_of_find?_eq_some (entity?_name_of_ancestorAt h)
  calc (c.ancestry className).encard
      ≤ (c.entities.toFinset : Set Entity).encard := Set.encard_le_encard hsubset
    _ = c.entities.toFinset.card := Set.encard_coe_eq_coe_finsetCard _
    _ ≤ c.entities.length := by exact_mod_cast c.entities.toFinset_card_le

/-! ## Circles -/

/-- On the shortest way to an ancestor no class comes twice. -/
theorem injOn_ancestorAt {distance : Nat} (h : c.ancestorAt className distance = some e)
    (hfirst : ∀ m < distance, c.ancestorAt className m ≠ some e) :
    Set.InjOn (c.ancestorAt className) (Set.Iic distance) := by
  have hlater {m n : Nat} (hn : n ≤ distance) (hlt : m < n) :
      c.ancestorAt className m ≠ c.ancestorAt className n := by
    intro heq
    -- Between the two the way has gone round a circle, which can be left out.
    apply hfirst (m + (distance - n)) (by omega)
    rw [ancestorAt_add_congr heq, Nat.add_sub_cancel' hn, h]
  intro m hm n hn heq
  rcases Nat.lt_trichotomy m n with hlt | rfl | hlt
  · exact absurd heq (hlater hn hlt)
  · rfl
  · exact absurd heq.symm (hlater hm hlt)

/-- An ancestor is reached over fewer superclasses than there are ancestors. -/
theorem exists_ancestorAt_lt {room : Nat} (hroom : (c.ancestry className).encard ≤ room)
    (he : e ∈ c.ancestry className) :
    ∃ distance < room, c.ancestorAt className distance = some e := by
  classical
  let distance := Nat.find he
  have hreached : c.ancestorAt className distance = some e := Nat.find_spec he
  refine ⟨distance, ?_, hreached⟩
  have hdistinct : Set.InjOn (c.ancestorAt className) (Set.Iic distance) :=
    injOn_ancestorAt hreached fun m hm => Nat.find_min he hm
  have hsubset : c.ancestorAt className '' Set.Iic distance ⊆ some '' c.ancestry className := by
    rintro _ ⟨m, hm, rfl⟩
    have hsome : (c.ancestorAt className m).isSome = true :=
      isSome_ancestorAt_of_le hm (Option.isSome_of_eq_some hreached)
    obtain ⟨f, hf⟩ := Option.isSome_iff_exists.mp hsome
    exact ⟨f, ⟨m, hf⟩, hf.symm⟩
  have hcard : ((distance + 1 : Nat) : ℕ∞) ≤ room :=
    calc ((distance + 1 : Nat) : ℕ∞)
        = (Set.Iic distance).encard := by
          rw [← Finset.coe_Iic, Set.encard_coe_eq_coe_finsetCard, Nat.card_Iic]
      _ = (c.ancestorAt className '' Set.Iic distance).encard := hdistinct.encard_image.symm
      _ ≤ (some '' c.ancestry className).encard := Set.encard_le_encard hsubset
      _ = (c.ancestry className).encard := (Option.some_injective _).encard_image _
      _ ≤ room := hroom
  exact_mod_cast hcard

/-! ## Lineages -/

theorem length_chain_le (c : Catalog) (depth : Nat) (o : Option Entity) :
    (c.chain depth o).length ≤ depth := by
  fun_induction chain c depth o with
  | case1 | case2 => simp
  | case3 depth e ih => simpa using ih

theorem getElem?_chain (c : Catalog) (depth : Nat) (o : Option Entity) (k : Nat) :
    (c.chain depth o)[k]? = if k < depth then (Option.bind · c.above?)^[k] o else none := by
  have hnone (k : Nat) : (Option.bind · c.above?)^[k] none = none :=
    Function.iterate_fixed rfl k
  fun_induction chain c depth o generalizing k with
  | case1 => simp
  | case2 => simp [hnone]
  | case3 depth e ih =>
    cases k with
    | zero => simp
    | succ k =>
      rw [List.getElem?_cons_succ, ih, Function.iterate_succ_apply]
      simp [above?]

/-- A lineage has the first ancestors, each at its distance. -/
theorem getElem?_lineage (c : Catalog) (className : String) (k : Nat) :
    (c.lineage className)[k]? = if k < maxDepth then c.ancestorAt className k else none :=
  c.getElem?_chain ..

theorem length_lineage_le (c : Catalog) (className : String) :
    (c.lineage className).length ≤ maxDepth :=
  c.length_chain_le ..

theorem head?_lineage (c : Catalog) (className : String) :
    (c.lineage className).head? = c.entity? className := by
  rw [List.head?_eq_getElem?, getElem?_lineage]
  rfl

theorem mem_lineage_iff :
    e ∈ c.lineage className ↔ ∃ k < maxDepth, c.ancestorAt className k = some e := by
  simp [List.mem_iff_getElem?, getElem?_lineage]

theorem mem_ancestry_of_mem_lineage (h : e ∈ c.lineage className) : e ∈ c.ancestry className := by
  obtain ⟨k, -, hk⟩ := mem_lineage_iff.mp h
  exact ⟨k, hk⟩

/-- Each class in a lineage is followed by its superclass. -/
theorem isChain_lineage (c : Catalog) (className : String) :
    (c.lineage className).IsChain fun e above => c.above? e = some above := by
  rw [List.isChain_iff_getElem]
  intro k hk
  have hbelow := c.getElem?_lineage className k
  have habove := c.getElem?_lineage className (k + 1)
  rw [List.getElem?_eq_getElem hk, if_pos (hk.trans_le (c.length_lineage_le className)),
    ancestorAt_succ] at habove
  rw [List.getElem?_eq_getElem, if_pos (by have := c.length_lineage_le className; omega)] at hbelow
  rw [← hbelow] at habove
  exact habove.symm

/-- A lineage is complete if no more classes are reached than it has room for. -/
theorem mem_lineage_iff_of_encard_le (h : (c.ancestry className).encard ≤ maxDepth) :
    e ∈ c.lineage className ↔ e ∈ c.ancestry className := by
  refine ⟨mem_ancestry_of_mem_lineage, fun he => ?_⟩
  exact mem_lineage_iff.mpr (exists_ancestorAt_lt h he)

/-! ## Inheritance -/

theorem isAssignable_iff {ancestor : String} : c.isAssignable ancestor className = true ↔
    ∃ e ∈ c.lineage className, e.name = ancestor := by
  simp [isAssignable]

theorem isAssignable_self (h : c.isKnown className = true) :
    c.isAssignable className className = true := by
  obtain ⟨e, he⟩ := Option.isSome_iff_exists.mp h
  refine isAssignable_iff.mpr ⟨e, ?_, name_of_entity? he⟩
  exact List.mem_of_head? ((c.head?_lineage className).trans he)

/-- The lineage of an ancestor is part of a complete lineage. -/
theorem lineage_subset_of_isAssignable {ancestor : String}
    (hcomplete : (c.ancestry className).encard ≤ maxDepth)
    (h : c.isAssignable ancestor className = true) : c.lineage ancestor ⊆ c.lineage className := by
  obtain ⟨e, he, rfl⟩ := isAssignable_iff.mp h
  intro top htop
  rw [mem_lineage_iff_of_encard_le hcomplete]
  exact ancestry_subset_of_mem (mem_ancestry_of_mem_lineage he) (mem_ancestry_of_mem_lineage htop)

theorem isSome_property?_iff : (c.property? className name).isSome = true ↔
    ∃ e ∈ c.lineage className, (e.ownProperty? name).isSome = true :=
  List.findSome?_isSome_iff

/-- However superclasses are declared, the lineage of a class has at most 32 entries, begins with the
class itself if it is declared, and goes on from each class to its superclass. If at most 32 classes
are reached from the class, the lineage has all of them and no others; then the class is assignable
to itself and to whatever the classes are that it is assignable to, and has every property that one
of these has. -/
theorem lineage_ancestry (c : Catalog) (className : String) :
    (c.lineage className).length ≤ 32 ∧
      (c.lineage className).head? = c.entity? className ∧
      (c.lineage className).IsChain (fun e above => c.above? e = some above) ∧
      ((c.ancestry className).encard ≤ 32 →
        (∀ e, e ∈ c.lineage className ↔ e ∈ c.ancestry className) ∧
        (c.isKnown className = true → c.isAssignable className className = true) ∧
        (∀ middle top, c.isAssignable middle className = true → c.isAssignable top middle = true →
          c.isAssignable top className = true) ∧
        ∀ ancestor name, c.isAssignable ancestor className = true →
          (c.property? ancestor name).isSome = true → (c.property? className name).isSome = true) := by
  refine ⟨c.length_lineage_le className, c.head?_lineage className, c.isChain_lineage className,
    fun hcomplete => ⟨fun e => mem_lineage_iff_of_encard_le hcomplete, isAssignable_self, ?_, ?_⟩⟩
  · intro middle top hmiddle htop
    obtain ⟨e, he, hname⟩ := isAssignable_iff.mp htop
    exact isAssignable_iff.mpr ⟨e, lineage_subset_of_isAssignable hcomplete hmiddle he, hname⟩
  · intro ancestor name hancestor hproperty
    obtain ⟨e, he, hown⟩ := isSome_property?_iff.mp hproperty
    exact isSome_property?_iff.mpr ⟨e, lineage_subset_of_isAssignable hcomplete hancestor he, hown⟩

/-- Links whose superclasses form a circle, in which names are declared. -/
def circularObjects : Catalog :=
  { entities :=
      [{ name := "Link", table := "spt_link", superclass := some "Auditable" },
       { name := "Auditable", table := "spt_auditable", superclass := some "Named" },
       { name := "Named", table := "spt_named", superclass := some "Auditable"
         properties := [{ name := "name" }] }] }

/-- The lineage goes round the circle until it is full. All three classes are in it. -/
theorem lineage_ancestry_circularObjects :
    (circularObjects.lineage "Link").length = 32 ∧
      (circularObjects.ancestry "Link").encard ≤ 32 ∧
      circularObjects.isAssignable "Named" "Auditable" = true ∧
      circularObjects.isAssignable "Named" "Link" = true ∧
      (circularObjects.property? "Link" "name").isSome = true := by
  have hroom : (circularObjects.ancestry "Link").encard ≤ 32 :=
    (circularObjects.encard_ancestry_le "Link").trans (by decide)
  have hauditable : circularObjects.isAssignable "Auditable" "Link" = true := by decide
  have hnamed : circularObjects.isAssignable "Named" "Auditable" = true := by decide
  have hname : (circularObjects.property? "Named" "name").isSome = true := by decide
  obtain ⟨-, htransitive, hinherited⟩ := ((circularObjects.lineage_ancestry "Link").2.2.2 hroom).2
  have hassignable := htransitive "Auditable" "Named" hauditable hnamed
  exact ⟨by decide, hroom, hnamed, hassignable, hinherited "Named" "name" hassignable hname⟩

end Catalog

end ObjectQuery
