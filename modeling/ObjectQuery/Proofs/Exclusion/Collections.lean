import ObjectQuery.Proofs.Context.Aliases
import ObjectQuery.Proofs.Paths.Strides
import ObjectQuery.Proofs.Qualified.Paths

/-!
# The collections that paths lead to

A condition on a collection's elements finds the collection in two ways. Its plain part follows the
path and joins the collection at its end. Its negated part takes the path for a property of the
innermost scope and looks that up.

* `Collection`: a property of a class that is reached through the alias of an owner.
* `Aliases.JoinsLast`, `Aliases.pushCollection_joinsLast`: the collection that has been joined.
* `Aliases.written?`: the collection that is looked up.
* `Aliases.Names`, `Aliases.Names.written`: they are the same for a path that names a property of
  the innermost scope.
-/

namespace ObjectQuery

open Step

/-- A collection that is reached from its owner. -/
structure Collection where
  ownerClass : String
  property : String
  ownerAlias : String
  deriving DecidableEq, Repr

/-- The elements of the collection are entities of a class that refer back to the owner by a
property. -/
def Collection.RefersBack (m : Collection) (c : Catalog) (target inverse : String) : Prop :=
  ∃ p, c.property? m.ownerClass m.property = some p ∧ p.kind = .oneToMany target (some inverse)

theorem Collection.inverse?_eq_some {m : Collection} {c : Catalog} {inverse : String} :
    c.inverse? m.ownerClass m.property = some inverse ↔
      ∃ target, m.RefersBack c target inverse := by
  unfold Catalog.inverse? RefersBack
  constructor
  · intro h
    split at h
    · rename_i target _ hp
      exact ⟨target, _, hp, by rw [h]⟩
    · cases h
  · rintro ⟨target, ⟨name, column, nullable, unique, kind⟩, hp, hkind⟩
    cases hkind
    rw [hp]

/-- Where the name of a class is read in front of a path, the path is what stands behind it. -/
theorem Path.head_qualify_of_leadingClass {c : Catalog} {className p : String}
    (h : c.leadingClass? (qualify className p) = some className) :
    head (qualify className p) = (className, p) := by
  have hfirst : (head (qualify className p)).1 = className := by
    unfold Catalog.leadingClass? at h
    dsimp only at h
    split at h
    · exact Option.some.inj h
    · cases h
  rw [head, toList_qualify] at hfirst ⊢
  by_cases hpoint : '.' ∈ className.toList
  · exfalso
    cases hcut : Text.cut '.' (className.toList ++ '.' :: p.toList) with
    | none =>
      rw [hcut] at hfirst
      have hlength := congrArg (fun s => s.toList.length) hfirst
      rw [toList_qualify] at hlength
      simp at hlength
    | some parts =>
      rw [hcut] at hfirst
      apply Text.not_mem_of_cut hcut
      rw [← hfirst, String.toList_ofList] at hpoint
      exact hpoint
  · rw [Text.cut_append hpoint]
    simp

namespace Aliases

variable {a b : Aliases} {c : Catalog} {path aliasName : String} {joinType : JoinType}

/-! ## The collection that is joined -/

/-- The last join is that of the collection, whose elements are entities of a class. -/
structure JoinsLast (c : Catalog) (b : Aliases) (m : Collection) (target : String)
    (inverse : Option String) : Prop where
  joined : ∃ j, b.joins.getLast? = some j ∧ j.path = .association m.ownerAlias m.property ∧
    j.ownerClass = m.ownerClass ∧ j.targetClass = some target
  declared : ∃ p, c.property? m.ownerClass m.property = some p ∧ p.kind = .oneToMany target inverse

/-- A path joins the collection at its end. A single segment is a property of the class that the
path starts from. -/
theorem pushCollection_joinsLast (h : (pushCollection c path joinType).Yields a aliasName b) :
    c.pathSegments path ≠ [] ∧ ∃ m target inverse, b.JoinsLast c m target inverse ∧
      ∀ name, c.pathSegments path = [name] → a.origin? c path = some m.ownerAlias ∧
        a.originClass c path = m.ownerClass ∧ m.property = name := by
  obtain ⟨start, u, hstart, h₁⟩ := yields_bind.mp h
  obtain ⟨rfl, horigin, hsegments⟩ := (a.startOf_starts c path).yields hstart
  split at h₁
  · have h₂ := yields_get_bind.mp h₁
    exact (yields_fail.mp h₂).elim
  · rename_i cursor segments
    obtain ⟨hclass, heq⟩ := hsegments _ rfl
    dsimp only at hclass heq
    subst heq
    split at h₁
    · exact (yields_fail.mp h₁).elim
    · rename_i last hlast
      obtain ⟨owner, v, hall, h₂⟩ := yields_bind.mp h₁
      obtain ⟨p, w, hlook, h₃⟩ := yields_bind.mp h₂
      obtain ⟨rfl, rfl⟩ := yields_ofReported.mp hlook
      split at h₃
      · rename_i _ name column nullable unique element inverse hp
        obtain ⟨_, z, hput, h₄⟩ := yields_bind.mp (yields_get_bind.mp h₃)
        obtain rfl := yields_modify.mp hput
        obtain ⟨-, rfl⟩ := yields_pure.mp h₄
        refine ⟨fun hnil => ?_, ⟨owner.className, last, owner.aliasName⟩, element, inverse,
          ⟨⟨_, List.getLast?_concat, rfl, rfl, rfl⟩, _, hp, rfl⟩, fun only honly => ?_⟩
        · rw [hnil] at hlast
          cases hlast
        · rw [honly] at hall hlast
          obtain ⟨rfl, rfl⟩ := yields_pure.mp hall
          exact ⟨horigin.symm, hclass.symm, (Option.some.inj hlast).symm⟩
      · exact (yields_fail.mp h₃).elim

/-! ## The collection that is looked up -/

/-- The collection that a path is taken for: a property of the innermost scope, named by the path
without the name of the query class in front. There is none in a scope without an alias. -/
def written? (a : Aliases) (path : String) : Option Collection :=
  a.currentAlias.map fun aliasName =>
    ⟨a.currentClass, (Text.dropStart? path (a.queryClass ++ ".")).getD path, aliasName⟩

theorem scopes_ne_nil_of_written {m : Collection} (h : a.written? path = some m) :
    a.scopes ≠ [] := by
  intro hscopes
  rw [written?, currentAlias, scope?, hscopes] at h
  cases h

theorem Resumes.currentAlias (h : a.Resumes b) : b.currentAlias = a.currentAlias := by
  have hframe (u : Aliases) : u.currentAlias = u.frames.head?.bind (·.aliasName) := by
    unfold Aliases.currentAlias scope? Aliases.frames
    cases u.scopes <;> rfl
  rw [hframe, hframe, h.frames]

theorem Resumes.currentClass (h : a.Resumes b) : b.currentClass = a.currentClass := by
  have hframe (u : Aliases) :
      u.currentClass = (u.frames.head?.map (·.className)).getD u.queryClass := by
    unfold Aliases.currentClass scope? Aliases.frames
    cases u.scopes <;> rfl
  rw [hframe, hframe, h.frames, h.queryClass]

theorem Resumes.written (h : a.Resumes b) (path : String) : b.written? path = a.written? path := by
  rw [written?, written?, h.currentAlias, h.currentClass, h.queryClass]

/-- The path names a property of the innermost scope: by its name alone, or behind the name of the
query class where that stands for the scope. -/
inductive Names (c : Catalog) (a : Aliases) (name : String) : String → Prop
  | alone : Text.hasChar '.' name = false → Names c a name name
  | behindClass : Text.hasChar '.' name = false →
    c.leadingClass? (Path.qualify a.queryClass name) = some a.queryClass →
    a.currentClass = a.queryClass → a.currentAlias = a.classAlias? a.queryClass →
    Names c a name (Path.qualify a.queryClass name)

namespace Names

variable {name : String}

theorem noPoint (h : a.Names c name path) : Text.hasChar '.' name = false := by
  cases h <;> assumption

/-- The path starts from the innermost scope, with the name as its only segment. -/
theorem starts (h : a.Names c name path) (hclass : Draft.namesClass path = false) :
    a.origin? c path = a.currentAlias ∧ a.originClass c path = a.currentClass ∧
      c.pathSegments path = Path.segments name := by
  cases h with
  | alone hpoint =>
    have hupper : Text.startsUpper path = false := by
      simpa [Draft.namesClass, hpoint] using hclass
    refine origin_of_noLeadingClass (if_neg ?_)
    rw [Path.head_of_noPoint hpoint, hupper]
    exact Bool.false_ne_true
  | behindClass hpoint hleading hcurrent halias =>
    obtain ⟨horigin, horiginClass, hsegments⟩ := origin_of_leadingClass (a := a) hleading
    rw [Path.head_qualify_of_leadingClass hleading] at hsegments
    exact ⟨horigin.trans halias.symm, horiginClass.trans hcurrent.symm, hsegments⟩

/-- The name is what the path is taken for. -/
theorem getD_dropStart (h : a.Names c name path) :
    (Text.dropStart? path (a.queryClass ++ ".")).getD path = name := by
  cases h with
  | alone hpoint =>
    rw [Text.dropStart?, if_neg, Option.getD_none]
    intro hstart
    obtain ⟨rest, hrest⟩ := List.isPrefixOf_iff_prefix.mp hstart
    apply Text.not_mem_of_hasChar hpoint
    rw [← hrest, String.toList_append]
    simp
  | behindClass => rw [Path.dropStart?_qualify, Option.getD_some]

/-- The collection that is joined is looked up. -/
theorem written (h : a.Names c name path) (hclass : Draft.namesClass path = false)
    {m : Collection} (hsingle : ∀ name, c.pathSegments path = [name] →
      a.origin? c path = some m.ownerAlias ∧ a.originClass c path = m.ownerClass ∧
        m.property = name)
    (hne : c.pathSegments path ≠ []) : a.written? path = some m := by
  obtain ⟨horigin, horiginClass, hsegments⟩ := h.starts hclass
  have hname : name ≠ "" := by
    rintro rfl
    exact hne (hsegments.trans rfl)
  obtain ⟨halias, howner, hproperty⟩ :=
    hsingle name (hsegments.trans (Path.segments_of_noPoint h.noPoint hname))
  rw [written?, h.getD_dropStart, ← horigin, halias, ← horiginClass, howner, ← hproperty]
  rfl

end Names

end Aliases

end ObjectQuery
