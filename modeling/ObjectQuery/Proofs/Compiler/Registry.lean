import ObjectQuery.Registry

/-!
# The classes of a registry

* `Registry.Covers`: a registry over a catalog that maps no other classes.
* `Registry.covers_build`: so does the registry that is built for a catalog.
-/

namespace ObjectQuery

/-- What holds at the start of a fold and is kept by each step holds at its end. -/
theorem Reported.foldlM_induction {α β : Type} {P : β → Prop} {f : β → α → Reported β} {b : β}
    {as : List α} (hb : P b) (hf : ∀ b, ∀ a ∈ as, P b → P (f b a).value) :
    P (as.foldlM f b).value := by
  induction as generalizing b with
  | nil => exact hb
  | cons a rest ih =>
    rw [List.foldlM_cons, Reported.value_bind]
    exact ih (hf b a List.mem_cons_self hb) fun b a ha => hf b a (List.mem_cons_of_mem _ ha)

namespace Catalog

theorem isKnown_of_mem {c : Catalog} {e : Entity} (he : e ∈ c.entities) :
    c.isKnown e.name = true := by
  rw [isKnown, entity?, List.find?_isSome]
  exact ⟨e, he, beq_self_eq_true _⟩

/-- A class that is declared has a declaration. -/
theorem exists_of_isKnown {c : Catalog} {className : String} (h : c.isKnown className = true) :
    ∃ e ∈ c.entities, e.name = className := by
  rw [isKnown, entity?, List.find?_isSome] at h
  obtain ⟨e, he, hname⟩ := h
  exact ⟨e, he, beq_iff_eq.mp hname⟩

theorem mem_entities_of_mem_chain {c : Catalog} {depth : Nat} {o : Option Entity} {e : Entity}
    (ho : ∀ f ∈ o, f ∈ c.entities) (he : e ∈ c.chain depth o) : e ∈ c.entities := by
  induction depth generalizing o with
  | zero => cases he
  | succ depth ih =>
    cases o with
    | none => cases he
    | some f =>
      rcases List.mem_cons.mp he with rfl | he
      · exact ho _ rfl
      · refine ih (fun g hg => ?_) he
        obtain ⟨_, -, hfind⟩ := Option.bind_eq_some_iff.mp hg
        exact List.mem_of_find?_eq_some hfind

/-- The superclasses of a class are declared. -/
theorem mem_entities_of_mem_lineage {c : Catalog} {className : String} {e : Entity}
    (he : e ∈ c.lineage className) : e ∈ c.entities :=
  mem_entities_of_mem_chain (fun _ hf => List.mem_of_find?_eq_some hf) he

end Catalog

namespace Registry

variable {c : Catalog} {r : Registry}

/-- A registry over the catalog that maps declared classes only. -/
structure Covers (r : Registry) (c : Catalog) : Prop where
  catalog : r.catalog = c
  known : ∀ className m, r.find? className = some m → c.isKnown className = true

theorem isKnown_of_find?_insert {mappings : Dictionary String ClassMapping}
    {className name : String} {m found : ClassMapping}
    (h : ∀ className m, mappings.find? className = some m → c.isKnown className = true)
    (hname : c.isKnown name = true)
    (hfound : Dictionary.find? className (mappings.insert name m) = some found) :
    c.isKnown className = true := by
  by_cases heq : className = name
  · rwa [heq]
  · rw [Dictionary.find?_insert_of_ne heq] at hfound
    exact h className found hfound

theorem Covers.setMapping (h : r.Covers c) {className : String}
    (hknown : c.isKnown className = true) (m : ClassMapping) :
    (r.setMapping className m).Covers c :=
  ⟨h.catalog, fun _ _ => isKnown_of_find?_insert h.known hknown⟩

theorem Covers.annotateSubclass (h : r.Covers c) (a : AnnotatedIndex)
    (declared : List AnnotatedIndex) (className : String) :
    (Registry.annotateSubclass a declared r className).value.Covers c := by
  unfold Registry.annotateSubclass
  rw [Reported.value_bind]
  split
  · split
    · exact h
    · rename_i m hfind
      rw [Reported.value_bind]
      split
      · exact h.setMapping (h.known _ _ hfind) _
      · exact h
  · exact h

theorem Covers.annotate (h : r.Covers c) (classNames : List String) (a : AnnotatedIndex) :
    (Registry.annotate classNames r a).value.Covers c := by
  unfold Registry.annotate
  split
  · exact Reported.foldlM_induction (P := (Covers · c)) h fun r className _ h =>
      h.annotateSubclass a _ className
  · split
    · rename_i m hfind
      exact h.setMapping (h.known _ _ hfind) _
    · exact h

/-- Before annotations are looked at, the declared classes are mapped. -/
theorem covers_mapClasses (c : Catalog) : Covers ⟨c, (mapClasses c).value⟩ c := by
  refine ⟨rfl, ?_⟩
  show ∀ className m, (mapClasses c).value.find? className = some m → c.isKnown className = true
  refine Reported.foldlM_induction (P := fun mappings => ∀ className m,
    Dictionary.find? className mappings = some m → c.isKnown className = true) ?_ ?_
  · rintro className m ⟨⟩
  · intro mappings e he h className m hfind
    exact isKnown_of_find?_insert h (Catalog.isKnown_of_mem (List.mem_filter.mp he).1) hfind

/-- The registry of a catalog maps classes of the catalog. -/
theorem covers_build (c : Catalog) : (build c).value.Covers c :=
  Reported.foldlM_induction (P := (Covers · c)) (covers_mapClasses c) fun _ a _ h => h.annotate _ a

end Registry

end ObjectQuery
