import ObjectQuery.Catalog.Document
import ObjectQuery.Proofs.Json.Laws

/-!
# Catalogs read back

In every format that keeps to its laws:

* `Catalog.ofDocument_toJson`: the document of a catalog reads as the catalog, and so does every
  part of it.
* `Catalog.read_write_eq_self`: every catalog is read back from its own text. Its document is nested
  at most six levels deep, however many classes there are.
-/

namespace ObjectQuery

/-! ## Documents of the parts -/

section

variable {F : Format}

/-- A record is read as the variant that its tag names. -/
theorem PropertyKind.ofDocument_record (choices : F.ReadsChoices) {name : String}
    {fields : List (String × Json)} (hreadable : Json.fieldsReadable fields = true)
    (htype : "type" ∉ fields.map (·.1)) :
    ofDocument F (.record (("type", .text name) :: fields)) =
      ofVariant F name (.record fields) := by
  simp [ofDocument, Json.isReadable, Json.fieldsReadable, hreadable, choices.variant_record htype]

theorem PropertyKind.ofDocument_toJson (structures : F.ReadsStructures)
    (choices : F.ReadsChoices) (k : PropertyKind) : ofDocument F k.toJson = some k := by
  cases k with
  | scalar | scalarCollection =>
    have hslots : F.slots [] (.record []) = _ := structures.slots_full [] [] rfl (by decide)
    rw [toJson, ofDocument_record choices rfl List.not_mem_nil]
    simp [ofVariant, hslots]
  | manyToOne target =>
    have hslots : F.slots [.required "target"] (.record [("target", .text target)]) = _ :=
      structures.slots_full _ [.text target] rfl (by decide)
    rw [toJson, ofDocument_record choices rfl (by simp)]
    simp [ofVariant, hslots, Json.required]
  | oneToMany target inverse =>
    have hslots : F.slots [.required "target", .optional "inverse"]
        (.record [("target", .text target), ("inverse", .optional inverse)]) = _ :=
      structures.slots_full _ [.text target, .optional inverse] rfl (by decide)
    have hinverse := (Json.fitsWithin_optional inverse 0).isReadable
    rw [toJson, ofDocument_record choices (by simp [Json.fieldsReadable, Json.isReadable, hinverse])
      (by simp)]
    simp [ofVariant, hslots, Json.required]

theorem Property.ofDocument_toJson (structures : F.ReadsStructures) (choices : F.ReadsChoices)
    (p : Property) : ofDocument F p.toJson = some p := by
  have hslots : F.slots [.required "name", .optional "column", .optional "nullable",
      .optional "unique", .optional "kind"] p.toJson = _ :=
    structures.slots_full _ [.text p.name, .optional p.column, .bool p.nullable, .bool p.unique,
      p.kind.toJson] rfl (by decide)
  simp [ofDocument, hslots, Json.required, Json.orElse,
    PropertyKind.ofDocument_toJson structures choices]

theorem Index.ofDocument_toJson (structures : F.ReadsStructures) (i : Index) :
    ofDocument F i.toJson = some i := by
  have hslots : F.slots [.required "name", .required "columns"] i.toJson = _ :=
    structures.slots_full _ [.text i.name, .texts i.columns] rfl (by decide)
  simp [ofDocument, hslots, Json.required]

theorem AnnotatedIndex.ofDocument_toJson (structures : F.ReadsStructures) (a : AnnotatedIndex) :
    ofDocument F a.toJson = some a := by
  have hslots : F.slots [.required "class", .required "name", .optional "property",
      .optional "column", .optional "table", .optional "case_sensitive",
      .optional "sub_classes"] a.toJson = _ :=
    structures.slots_full _ [.text a.className, .text a.name, .optional a.property,
      .optional a.column, .optional a.table, .bool a.caseSensitive, .bool a.subClasses] rfl
      (by decide)
  simp [ofDocument, hslots, Json.required, Json.orElse]

theorem Entity.ofDocument_toJson (structures : F.ReadsStructures) (choices : F.ReadsChoices)
    (e : Entity) : ofDocument F e.toJson = some e := by
  have hslots : F.slots [.required "name", .required "table", .optional "superclass",
      .optional "abstract", .optional "properties", .optional "indexes"] e.toJson = _ :=
    structures.slots_full _ [.text e.name, .text e.table, .optional e.superclass,
      .bool e.isAbstract, .list (e.properties.map Property.toJson),
      .list (e.indexes.map Index.toJson)] rfl (by decide)
  have hproperties := Json.toList_map fun p (_ : p ∈ e.properties) =>
    p.ofDocument_toJson structures choices
  have hindexes := Json.toList_map fun i (_ : i ∈ e.indexes) => i.ofDocument_toJson structures
  simp [ofDocument, hslots, Json.required, Json.orElse, hproperties, hindexes]

theorem Catalog.ofDocument_toJson (structures : F.ReadsStructures) (choices : F.ReadsChoices)
    (c : Catalog) : ofDocument F c.toJson = some c := by
  have hslots : F.slots [.optional "entities", .optional "annotation_indexes"] c.toJson = _ :=
    structures.slots_full _ [.list (c.entities.map Entity.toJson),
      .list (c.annotations.map AnnotatedIndex.toJson)] rfl (by decide)
  have hentities := Json.toList_map fun e (_ : e ∈ c.entities) =>
    e.ofDocument_toJson structures choices
  have hannotations := Json.toList_map fun a (_ : a ∈ c.annotations) =>
    a.ofDocument_toJson structures
  simp [ofDocument, hslots, Json.orElse, hentities, hannotations]

end

/-! ## Texts -/

section

open Json

theorem PropertyKind.fitsWithin_toJson (k : PropertyKind) : k.toJson.FitsWithin 1 := by
  refine match k with
    | scalar | scalarCollection => fitsWithin_record ?_
    | manyToOne _ => fitsWithin_record ?_
    | oneToMany _ _ => fitsWithin_record ?_
  all_goals simp [fitsWithin_text, fitsWithin_optional]

theorem Property.fitsWithin_toJson (p : Property) : p.toJson.FitsWithin 2 := by
  refine fitsWithin_record ?_
  simp [fitsWithin_text, fitsWithin_optional, fitsWithin_bool, p.kind.fitsWithin_toJson]

theorem Index.fitsWithin_toJson (i : Index) : i.toJson.FitsWithin 2 := by
  refine fitsWithin_record ?_
  simp [fitsWithin_text, fitsWithin_texts]

theorem AnnotatedIndex.fitsWithin_toJson (a : AnnotatedIndex) : a.toJson.FitsWithin 1 := by
  refine fitsWithin_record ?_
  simp [fitsWithin_text, fitsWithin_optional, fitsWithin_bool]

theorem Entity.fitsWithin_toJson (e : Entity) : e.toJson.FitsWithin 4 := by
  have hproperties := fitsWithin_list_map fun p (_ : p ∈ e.properties) => p.fitsWithin_toJson
  have hindexes := fitsWithin_list_map fun i (_ : i ∈ e.indexes) => i.fitsWithin_toJson
  refine fitsWithin_record ?_
  simp [fitsWithin_text, fitsWithin_optional, fitsWithin_bool, hproperties, hindexes]

theorem Catalog.fitsWithin_toJson (c : Catalog) : c.toJson.FitsWithin 6 := by
  have hentities := fitsWithin_list_map fun e (_ : e ∈ c.entities) => e.fitsWithin_toJson
  have hannotations := fitsWithin_list_map fun a (_ : a ∈ c.annotations) => a.fitsWithin_toJson
  refine fitsWithin_record ?_
  simp [hentities, hannotations.mono (show 2 ≤ 5 by decide)]

end

/-- Every catalog is read back from its own text. -/
theorem Catalog.read_write_eq_self {F : Format} (texts : F.ReadsTexts)
    (structures : F.ReadsStructures) (choices : F.ReadsChoices) (c : Catalog) :
    read F (c.write F) = some c := by
  have hfits := c.fitsWithin_toJson.mono (show 6 ≤ Json.depthLimit by decide)
  rw [read, write, texts.parse_render_of_fitsWithin hfits, Option.bind_some,
    c.ofDocument_toJson structures choices]

/-- In the standard format, a catalog with a property of each kind and with names that have to be
escaped is read back. -/
theorem Catalog.read_write_quoted :
    let c : Catalog :=
      { entities :=
          [{ name := "Identity", table := "spt \"identity\"", superclass := some "Object"
             properties :=
               [{ name := "na\nme", column := some "n\\m", nullable := false, unique := true },
                { name := "manager", kind := .manyToOne "Identity" },
                { name := "links", kind := .oneToMany "Link" none },
                { name := "tags", kind := .scalarCollection }]
             indexes := [{ name := "name_ci", columns := ["n\\m"] }] }]
        annotations := [{ className := "Identity", name := "by_name", property := some "na\nme" }] }
    read .standard (c.write .standard) = some c := by
  intro c
  exact read_write_eq_self Format.standard_readsTexts Format.standard_readsStructures
    Format.standard_readsChoices c

end ObjectQuery
