import ObjectQuery.Options
import ObjectQuery.Proofs.Filter.RoundTrip

/-!
# Query options read back

In every format that keeps to its laws:

* `SortKey.ofDocument_toJson`: every term of an order is read back.
* `QueryOptions.ofDocument_clip_eq_some_iff`: options are read back exactly if their restrictions
  are.
* `QueryOptions.readBack_iff`: the texts of filters and of options are read back exactly if the
  reader accepts their nesting and all operands survive.
-/

namespace ObjectQuery

open Json (clip)

variable {F : Format}

theorem SortKey.ofDocument_toJson (structures : F.ReadsStructures) (o : SortKey) :
    ofDocument F o.toJson = some o := by
  have hslots : F.slots [.required "property", .optional "ascending", .optional "ignoreCase"]
      o.toJson = _ :=
    structures.slots_full _ [.text o.property, .bool o.ascending, .bool o.ignoreCase] rfl
      (by decide)
  simp [ofDocument, hslots, Json.required, Json.orElse]

theorem SortKey.fitsWithin_toJson (o : SortKey) : o.toJson.FitsWithin 1 := by
  refine Json.fitsWithin_record ?_
  simp [Json.fitsWithin_text, Json.fitsWithin_bool]

namespace QueryOptions

theorem fitsWithin_orderings (orderings : List SortKey) :
    (Json.list (orderings.map SortKey.toJson)).FitsWithin 126 :=
  Json.fitsWithin_list_map fun o _ => o.fitsWithin_toJson.mono (show 1 ≤ 125 by decide)

theorem isReadable_document (o : QueryOptions) : (o.document F).isReadable = true := by
  have hrestrictions : (Json.list (o.restrictions.map (Filter.document F))).isReadable = true := by
    rw [Json.isReadable, Json.areReadable_iff, List.forall_mem_map]
    exact fun f _ => f.isReadable_document
  have hbool : ∀ b, (Json.bool b).isReadable = true := fun _ => rfl
  have htexts : ∀ items, (Json.texts items).isReadable = true :=
    fun items => (Json.fitsWithin_texts items 125).isReadable
  have horderings := (fitsWithin_orderings o.orderings).isReadable
  rw [document, Json.isReadable, Json.fieldsReadable_iff]
  simp [hrestrictions, hbool, htexts, horderings]

/-- Only the restrictions are changed by writing and reading, or nested further than two levels. -/
theorem clip_reread_document (o : QueryOptions) :
    clip Json.depthLimit ((o.document F).reread F.rereadNumber) =
      .record [("restrictions", .list (o.restrictions.map fun f =>
          clip 125 ((f.document F).reread F.rereadNumber))),
        ("distinct", .bool o.distinct), ("ignoreCase", .bool o.ignoreCase),
        ("columns", .texts o.columns), ("orderings", .list (o.orderings.map SortKey.toJson)),
        ("groupBy", .texts o.groupBy), ("disableOptimizer", .bool o.disableOptimizer)] := by
  have hrestrictions :
      clip 126 ((Json.list (o.restrictions.map (Filter.document F))).reread F.rereadNumber) =
        .list (o.restrictions.map fun f => clip 125 ((f.document F).reread F.rereadNumber)) := by
    rw [Json.clip_reread_list, List.map_map]
    rfl
  have hbool : ∀ b, clip 126 ((Json.bool b).reread F.rereadNumber) = .bool b :=
    fun b => (Json.fitsWithin_bool b 126).clip_reread F.rereadNumber
  have htexts : ∀ items, clip 126 ((Json.texts items).reread F.rereadNumber) = .texts items :=
    fun items => (Json.fitsWithin_texts items 125).clip_reread F.rereadNumber
  have horderings := (fitsWithin_orderings o.orderings).clip_reread F.rereadNumber
  rw [document, Json.depthLimit, Json.clip_reread_record]
  simp only [List.map_cons, List.map_nil, hrestrictions, hbool, htexts, horderings]

theorem ofDocument_clip_eq_some_iff (texts : F.ReadsTexts) (structures : F.ReadsStructures)
    (choices : F.ReadsChoices) {o : QueryOptions} :
    ofDocument F (clip Json.depthLimit ((o.document F).reread F.rereadNumber)) = some o ↔
      ∀ f ∈ o.restrictions,
        (f.document F).depth ≤ 125 ∧ ∀ t ∈ f.tests, t.value.Survives F := by
  have hrestrictions : Json.toList (Filter.ofDocument F)
      (.list (o.restrictions.map fun f => clip 125 ((f.document F).reread F.rereadNumber))) =
        some o.restrictions ↔
      ∀ f ∈ o.restrictions,
        (f.document F).depth ≤ 125 ∧ ∀ t ∈ f.tests, t.value.Survives F :=
    Json.mapM_map_eq_self_iff.trans (forall₂_congr fun f _ =>
      Filter.ofDocument_clip_eq_some_iff texts structures choices (by decide))
  have horderings :=
    Json.toList_map fun k (_ : k ∈ o.orderings) => k.ofDocument_toJson structures
  rw [← hrestrictions, clip_reread_document]
  generalize Json.list (o.restrictions.map fun f =>
    clip 125 ((f.document F).reread F.rereadNumber)) = restrictions
  have hslots : F.slots [.optional "restrictions", .optional "distinct", .optional "ignoreCase",
      .optional "columns", .optional "orderings", .optional "groupBy",
      .optional "disableOptimizer"] (.record [("restrictions", restrictions),
        ("distinct", .bool o.distinct), ("ignoreCase", .bool o.ignoreCase),
        ("columns", .texts o.columns), ("orderings", .list (o.orderings.map SortKey.toJson)),
        ("groupBy", .texts o.groupBy), ("disableOptimizer", .bool o.disableOptimizer)]) = _ :=
    structures.slots_full _ [restrictions, .bool o.distinct, .bool o.ignoreCase, .texts o.columns,
      .list (o.orderings.map SortKey.toJson), .texts o.groupBy, .bool o.disableOptimizer] rfl
      (by decide)
  simp only [ofDocument, hslots, List.map_cons, List.map_nil, Json.orElse, horderings,
    Json.toBool_bool, Json.toList_texts, Option.bind_eq_bind, Option.bind_some]
  constructor
  · intro h
    obtain ⟨fs, hfs, ho⟩ := Option.bind_eq_some_iff.mp h
    rw [hfs]
    exact congrArg (Option.map QueryOptions.restrictions) ho
  · intro h
    rw [h]
    rfl

theorem depth_document_le_iff {o : QueryOptions} :
    (o.document F).depth ≤ Json.depthLimit ↔
      ∀ f ∈ o.restrictions, (f.document F).depth ≤ 125 := by
  have hrestrictions : (Json.list (o.restrictions.map (Filter.document F))).depth ≤ 126 ↔
      ∀ f ∈ o.restrictions, (f.document F).depth ≤ 125 := by
    rw [Json.depth, Nat.succ_le_succ_iff, Json.depthOfItems_le, List.forall_mem_map]
  have hbool : ∀ b, (Json.bool b).depth ≤ 126 := fun b => Nat.zero_le 126
  have htexts : ∀ items, (Json.texts items).depth ≤ 126 :=
    fun items => (Json.fitsWithin_texts items 125).depth_le
  have horderings := (fitsWithin_orderings o.orderings).depth_le
  rw [document, Json.depth, Json.depthLimit, Nat.succ_le_succ_iff, Json.depthOfFields_le]
  simp [hrestrictions, hbool, htexts, horderings]

/-- The texts of filters and of options are read back exactly if the reader accepts their nesting
and all operands survive on their own. -/
theorem readBack_iff (texts : F.ReadsTexts) (structures : F.ReadsStructures)
    (choices : F.ReadsChoices) :
    (∀ f : Filter, Filter.read F (f.write F) = some f ↔
      (f.document F).depth ≤ Json.depthLimit ∧ ∀ t ∈ f.tests, t.value.Survives F) ∧
    ∀ o : QueryOptions, read F (o.write F) = some o ↔
      (o.document F).depth ≤ Json.depthLimit ∧
        ∀ f ∈ o.restrictions, ∀ t ∈ f.tests, t.value.Survives F := by
  constructor
  · intro f
    rw [Filter.read, Filter.write, texts.parse_render _ f.isReadable_document, Option.bind_some,
      Filter.ofDocument_clip_eq_some_iff texts structures choices (Nat.le_refl _)]
  · intro o
    rw [read, write, texts.parse_render _ o.isReadable_document, Option.bind_some,
      ofDocument_clip_eq_some_iff texts structures choices, depth_document_le_iff, forall₂_and]

/-- In the standard format, options with a condition on a collection and a subquery are read back
with a list of three texts in them, and not with a list of two, which reads as a reference. -/
theorem readBack_linksOrManager :
    let f (names : List Value) : Filter :=
      .or [.collectionCondition "links" (.compare .inList "nativeIdentity" (.list names)),
        .not (.subquery "manager" "Identity" "id" (some (.compare .gt "level" (.int 3))))]
    let o (names : List Value) : QueryOptions :=
      { restrictions := [f names], columns := ["name"],
        orderings := [{ property := "name", ascending := false }] }
    read .standard ((o [.text "root", .text "admin", .text "guest"]).write .standard) =
        some (o [.text "root", .text "admin", .text "guest"]) ∧
      read .standard ((o [.text "root", .text "admin"]).write .standard) ≠
        some (o [.text "root", .text "admin"]) := by
  intro f o
  have hiff := (readBack_iff Format.standard_readsTexts Format.standard_readsStructures
    Format.standard_readsChoices).2
  have hread : ∀ {v : Value}, v.isPlain .standard = true →
      (v.document .standard).depth ≤ Json.depthLimit → (v.Survives .standard ↔ v.reread = v) :=
    Value.survives_iff_reread_eq Format.standard_readsTexts Format.standard_readsStructures
      Format.standard_readsChoices
  constructor
  · refine (hiff _).mpr ⟨by decide, ?_⟩
    have hnames : (Value.list [.text "root", .text "admin", .text "guest"]).Survives .standard :=
      (hread (by decide +kernel) (by decide)).mpr rfl
    have hnull : Value.null.Survives .standard := (hread rfl (by decide)).mpr rfl
    have hlevel : (Value.int 3).Survives .standard := (hread rfl (by decide)).mpr rfl
    simp [o, f, Filter.or, Filter.not, Filter.collectionCondition, Filter.subquery, Filter.compare,
      Filter.test, Filter.tests, Filter.testsOf, Leaf.ofTest, Filter.conditionTests,
      Filter.subfilterTests, hnames, hnull, hlevel]
  · intro h
    have hnames : (Value.list [.text "root", .text "admin"]).Survives .standard :=
      ((hiff _).mp h).2 _ List.mem_cons_self
        { property := "nativeIdentity", operation := .inList,
          value := .list [.text "root", .text "admin"] }
        (List.mem_cons_of_mem _ List.mem_cons_self)
    have hentity := (hread (by decide +kernel) (by decide)).mp hnames
    cases hentity

end QueryOptions

end ObjectQuery
