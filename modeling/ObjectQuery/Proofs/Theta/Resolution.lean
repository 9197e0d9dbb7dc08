import ObjectQuery.Proofs.Compiler.Run
import ObjectQuery.Proofs.Theta.Emission

/-!
# Where paths with a class name lead

In a query, a path that starts with a class name is resolved from the latest alias of the class.
Each instance of a class in a condition on the class takes that alias over, for the leaves behind it
in the query, wherever they stand.

* `Visit.classAlias`: the alias of a class where a leaf is emitted.
* `Draft.visit_classAliases`: every leaf writes its predicates in these aliases. Inside of a
  condition on a class the alias is an instance of the condition just if the leaf stands behind the
  join of the instance. Outside of it the condition matters just if it takes the alias over for the
  leaf, or changes the number of the instance that does.
-/

namespace ObjectQuery

/-- The alias that a class has where a leaf of a query over `queryClass` is emitted. -/
def Visit.classAlias (queryClass : String) (v : Visit) (C : String) : Option String :=
  Naming.aliasOf (.listed queryClass :: v.before) C

namespace Draft

open Naming

variable {k : Compiler} {f : Filter} {queryClass : String} {first : Nat} {e : Draft}

theorem start_reflects (queryClass : String) (first : Nat) :
    (start queryClass first).Reflects [.listed queryClass] :=
  ⟨.start queryClass, rfl⟩

/-- The leaves of a visited filter write its predicates, each behind the joins before it. -/
theorem visit_writes (h : (visit k f).Yields (.start queryClass first) () e) :
    e.Reflects (.listed queryClass :: f.namings false) ∧
      ∃ pieces exclusions,
        List.Forall₂ (fun v ps =>
            WritesAfter k (.listed queryClass :: v.before) v.theta v.leaf ps)
          (f.visits false) pieces ∧
        (∀ p ∈ exclusions, IsExclusion p) ∧
        (e.havingPredicates ++ predicatesOf e.conditions).Perm (pieces.flatten ++ exclusions) := by
  obtain ⟨c, u, hemit, hextends, rfl⟩ := visit_yields h
  have hstart := start_reflects queryClass first
  obtain ⟨hu, -⟩ := (Reflects.namingRules k).emit f (i := ()) hemit hstart
  obtain ⟨pieces, exclusions, hpieces, hexclusions, hperm⟩ := tells_emit k f hemit hstart
  refine ⟨⟨hu.aliases, hu.instances⟩, pieces, exclusions, hpieces, hexclusions, ?_⟩
  show (u.havingPredicates ++ predicatesOf ([] ++ c.toList)).Perm _
  rw [List.nil_append, predicatesOf_toList]
  exact hperm

/-- Inside of a condition on a class, a class has the alias of an instance of the condition just if
it was correlated in the condition before. -/
theorem classAlias_own_iff (hsources : e.Reflects (.listed queryClass :: f.namings false))
    {v : Visit} (hv : v ∈ f.visits false) {s : ThetaScope} (hs : s ∈ v.around) (C : String) :
    (∃ source ∈ thetaSources (instances s.before) s.namings, source ∈ e.aliases.sources ∧
        source.className = C ∧ v.classAlias queryClass C = some source.aliasName) ↔
      .correlated C ∈ v.before.drop s.before.length := by
  obtain ⟨hscope, inner, hbefore, ⟨rest, hinner⟩⟩ := (Filter.scoped_visits f false v hv).around s hs
  have hlisted : ∀ source ∈ thetaSources (instances s.before) s.namings,
      source ∈ e.aliases.sources := by
    intro source hsource
    obtain ⟨behind, hbehind⟩ := hscope
    have hmem : source ∈ thetaSources 0 (.listed queryClass :: f.namings false) := by
      show source ∈ thetaSources 0 (f.namings false)
      rw [← hbehind, thetaSources_append, thetaSources_append, Nat.zero_add]
      exact List.mem_append_left _ (List.mem_append_right _ hsource)
    rw [← hsources.aliases.instances] at hmem
    exact (List.mem_filter.mp hmem).1
  have hown := aliasOf_own_iff (.listed queryClass :: s.before) inner rest C
  rw [hinner] at hown
  rw [Visit.classAlias, hbefore, List.drop_left, ← hown]
  refine exists_congr fun source => and_congr_right fun hsource => ?_
  exact and_iff_right (hlisted source hsource)

/-- The other side of a join in a condition on a class starts from the instance that the join
lists. -/
theorem WritesAfter.correlated {ns : List Naming} {l : Leaf} {ps : List Atom}
    (h : WritesAfter k ns true l ps) (hop : l.test.operation = .join) {other : String}
    (hother : l.test.joinProperty = some other) : ∃ left right a b,
      ps = [.correlated (.equal left right)] ∧
        (Aliases.resolve k.catalog other {}).Yields a (some right) b ∧
        a.classAlias? (Path.head other).1 =
          some (Aliases.classAliasName (Path.head other).1 (some (instances ns))) := by
  obtain ⟨d, c, e, hd, htheta, hyields, hperm⟩ := h
  obtain ⟨t, condition, subfilter⟩ := l
  dsimp only at hop hother
  rw [emit, emitLeaf, hop, test, hop] at hyields
  obtain ⟨other', _, hother', -, rfl, hcases⟩ := join_yields hyields
  rw [hother] at hother'
  obtain rfl := Option.some.inj hother'
  obtain ⟨-, left, a, right, b, hleft, hright, rfl, rfl⟩ | ⟨hnot, -⟩ := hcases
  · refine ⟨left, right, a, b, ?_, hright, ?_⟩
    · exact List.perm_singleton.mp ((List.perm_append_left_iff _).mp hperm).symm
    · rw [hd.instances] at hleft
      have hsame := (Aliases.sameClasses_walk.resolveEnclosing _).yields hleft
      rw [((hd.aliases.addThetaSource _).same hsame).classAliases, aliasOf_snoc]
      exact if_pos rfl
  · rw [htheta] at hnot
    cases hnot

/-- A filter that is visited from the start of a query writes the predicates of its leaves, and
exclusions of owners. Every leaf writes where each class has the alias that the joins of the leaves
before it have left it, as do the paths behind the filter.

Inside of a condition on a class, the alias is one of the instances that the condition lists among
the sources just if the class is correlated in the condition before the leaf. The join itself starts
from its own instance.

If a condition is left out, the leaves before it keep the aliases of all classes. A leaf behind it
keeps the alias of a class just if the condition correlates no instances, where an instance of the
class is correlated between them, and if otherwise the condition does not correlate the class and is
not alone in naming it. -/
theorem visit_classAliases (h : (visit k f).Yields (.start queryClass first) () e) :
    (∃ pieces exclusions,
        List.Forall₂ (fun v ps => WritesAfter k (.listed queryClass :: v.before) v.theta v.leaf ps)
          (f.visits false) pieces ∧
        (∀ p ∈ exclusions, IsExclusion p) ∧
        (e.havingPredicates ++ predicatesOf e.conditions).Perm (pieces.flatten ++ exclusions)) ∧
      (∀ us v ws, f.visits false = us ++ v :: ws → v.before = us.flatMap Visit.namings) ∧
      (∀ C, e.aliases.classAlias? C = aliasOf (.listed queryClass :: f.namings false) C) ∧
      (∀ v ∈ f.visits false, ∀ s ∈ v.around, ∀ C,
        (∃ source ∈ thetaSources (instances s.before) s.namings, source ∈ e.aliases.sources ∧
            source.className = C ∧ v.classAlias queryClass C = some source.aliasName) ↔
          .correlated C ∈ v.before.drop s.before.length) ∧
      (∀ v ∈ f.visits false, ∀ ps other, v.theta = true → v.leaf.test.operation = .join →
        v.leaf.test.joinProperty = some other →
        WritesAfter k (.listed queryClass :: v.before) v.theta v.leaf ps → ∃ left right a b,
          ps = [.correlated (.equal left right)] ∧
            (Aliases.resolve k.catalog other {}).Yields a (some right) b ∧
            a.classAlias? (Path.head other).1 =
              some (Aliases.classAliasName (Path.head other).1 (some (instances v.before)))) ∧
      ∀ l g, l.test.operation = .collectionCondition → Filter.Omits l [f] [g] →
        ∃ before firsts own lasts firsts' lasts', f.visits false = firsts ++ own ++ lasts ∧
          own.map (·.leaf) = (Filter.visits false (.leaf l)).map (·.leaf) ∧
          g.visits false = firsts' ++ lasts' ∧
          List.Forall₂ (fun v w => w.leaf = v.leaf ∧ w.theta = v.theta ∧
            w.classAlias queryClass = v.classAlias queryClass) firsts firsts' ∧
          List.Forall₂ (fun v w => w.leaf = v.leaf ∧ w.theta = v.theta ∧ ∃ between,
            v.before = before ++ Filter.namings false (.leaf l) ++ between ∧ ∀ C,
              (v.classAlias queryClass C = w.classAlias queryClass C ↔
                if .correlated C ∈ between then instances (Filter.namings false (.leaf l)) = 0
                else .correlated C ∉ Filter.namings false (.leaf l) ∧
                  (names C (Filter.namings false (.leaf l)) = true →
                    names C (.listed queryClass :: before ++ between) = true))) lasts lasts' := by
  obtain ⟨hreflects, hwrites⟩ := visit_writes h
  refine ⟨hwrites, fun _ _ _ => Filter.before_visits, hreflects.aliases.classAliases,
    fun v hv s hs C => classAlias_own_iff hreflects hv hs C,
    fun v _ ps other htheta hop hother hps => ?_, fun l g hl homits => ?_⟩
  · rw [htheta] at hps
    exact hps.correlated hop hother
  have hvisits := homits.visits hl false
  simp only [Filter.allVisits, Filter.allNamings, List.map_nil, List.append_nil] at hvisits
  obtain ⟨before, behind, firsts, own, lasts, firsts', lasts', -, -, hf, hg, hown, hfirsts,
    hlasts⟩ := hvisits
  refine ⟨before, firsts, own, lasts, firsts', lasts', hf, hown, hg, hfirsts.imp ?_, hlasts.imp ?_⟩
  · rintro v w ⟨hleaf, htheta, hbefore⟩
    refine ⟨hleaf, htheta, ?_⟩
    funext C
    rw [Visit.classAlias, Visit.classAlias, hbefore]
  · rintro v w ⟨hleaf, htheta, between, hv, hw⟩
    refine ⟨hleaf, htheta, between, hv, fun C => ?_⟩
    rw [Visit.classAlias, Visit.classAlias, hv, hw]
    exact aliasOf_without_iff (.listed queryClass :: before) _ between C

/-- Identities, and attributes that name their owners. -/
def ownedAttributes : Compiler :=
  .ofCatalog
    { entities :=
        [{ name := "Identity", table := "spt_identity", properties := [{ name := "name" }] },
         { name := "Attribute", table := "spt_attribute"
           properties := [{ name := "owner" }, { name := "value" }] }] }

/-- Identities with an attribute a and an attribute b. The second one is correlated at the end. -/
def bothAttributes : Filter :=
  .and [
    .collectionCondition "Attribute" (.and [.join .join "id" "Attribute.owner",
      .compare .eq "Attribute.value" (.text "a")]),
    .collectionCondition "Attribute" (.and [.compare .eq "Attribute.value" (.text "b"),
      .join .join "id" "Attribute.owner"])]

/-- The attribute that is b is looked for in the first instance, which is a. -/
theorem visit_classAliases_bothAttributes :
    (∃ e, (visit ownedAttributes bothAttributes).Yields (.start "Identity" 0) () e ∧
      ∃ v ∈ bothAttributes.visits false, ∃ s ∈ v.around, .correlated "Attribute" ∈ s.namings ∧
        ¬∃ source ∈ thetaSources (instances s.before) s.namings, source ∈ e.aliases.sources ∧
          source.className = "Attribute" ∧
          v.classAlias "Identity" "Attribute" = some source.aliasName) ∧
    (ownedAttributes.compile "Identity" { restrictions := [bothAttributes] }).value.toOption.map
      (·.text) = some ("select identityAlias from Identity identityAlias, Attribute " ++
        "attributeAlias0, Attribute attributeAlias1 where ((identityAlias.id = " ++
        "attributeAlias0.owner and attributeAlias0.value = :param0) and (attributeAlias0.value = " ++
        ":param1 and identityAlias.id = attributeAlias1.owner))") := by
  refine ⟨?_, by decide +kernel⟩
  cases hresult : ((visit ownedAttributes bothAttributes).run (.start "Identity" 0)).result with
  | error err =>
    have hok : ((visit ownedAttributes bothAttributes).run (.start "Identity" 0)).result.toOption =
        some () := by decide +kernel
    rw [hresult] at hok
    cases hok
  | ok result =>
    have hyields : (visit ownedAttributes bothAttributes).Yields (.start "Identity" 0) ()
        ((visit ownedAttributes bothAttributes).run (.start "Identity" 0)).state := ⟨hresult, rfl⟩
    obtain ⟨v, hv⟩ : ∃ v, (bothAttributes.visits false)[2]? = some v :=
      Option.isSome_iff_exists.mp (by decide +kernel)
    have hplace : ((bothAttributes.visits false)[2]?.map fun v => (v.before, v.around)) =
        some ([.correlated "Attribute"],
          [⟨[.correlated "Attribute"], [.correlated "Attribute"]⟩]) := by
      decide +kernel
    rw [hv] at hplace
    obtain ⟨hbefore, haround⟩ := Prod.mk.inj (Option.some.inj hplace)
    have hmem := List.mem_of_getElem? hv
    have hscope := haround ▸ List.mem_cons_self
    refine ⟨_, hyields, v, hmem, _, hscope, List.mem_cons_self, ?_⟩
    rw [(visit_classAliases hyields).2.2.2.1 v hmem _ hscope, hbefore]
    decide

end Draft

end ObjectQuery
