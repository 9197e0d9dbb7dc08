import ObjectQuery.Json.Format
import ObjectQuery.Proofs.Json.RoundTrip
import ObjectQuery.Proofs.Json.Slots

/-!
# Laws of document formats

What reading and writing documents relies on, whatever the operations of the format are. Nothing is
asked of identifiers and instants, or of how a number that is no integer of 64 bits is written.

* `Format.ReadsTexts`: the text of a document is read part by part.
* `Format.ReadsStructures`: a structure is read from the record of its fields and from the list of
  their values.
* `Format.ReadsChoices`: a choice is read by its name, and the first reading that does not fail is
  chosen among several.
* `Format.standard_readsTexts`, `Format.standard_readsStructures`, `Format.standard_readsChoices`:
  the standard format keeps to these laws.
-/

namespace ObjectQuery.Format

open Json (Field clip depthLimit present)

/-- The document that is read for the text of a number. -/
def rereadNumber (F : Format) (n : Json.Number) : Json :=
  (F.parse (F.render (.number n))).getD .null

/-- The text of a document is read part by part, up to the lists and records that are nested too
deeply. Null, truth values, texts and integers of 64 bits are read as themselves. -/
structure ReadsTexts (F : Format) : Prop where
  parse_render : ∀ j : Json, j.isReadable = true →
    F.parse (F.render j) = some (clip depthLimit (j.reread F.rereadNumber))
  /-- A number is never read as a list or a record. -/
  depth_rereadNumber : ∀ n, (F.rereadNumber n).depth = 0
  rereadNumber_int64 : ∀ i : Int64,
    F.rereadNumber (.integer i.toInt) = .number (.integer i.toInt)
  integer_int64 : ∀ i : Int64, F.integer (.integer i.toInt) = some i

/-- A structure is read from a record that gives its fields under their names, those that have a
default or not, and from the list of the values of all its fields. -/
structure ReadsStructures (F : Format) : Prop where
  fields_present : ∀ {α : Type} {given : List (Field × Option α)},
    (given.map (·.1.name)).Nodup →
    (∀ field ∈ given, field.1.isRequired = true → field.2.isSome = true) →
    F.fields (given.map (·.1)) (present given) = some (given.map (·.2))
  fields_missing : ∀ {α : Type} {declared : List Field} {fields : List (String × α)}
    {field : Field}, field ∈ declared → field.isRequired = true →
    field.name ∉ fields.map (·.1) → F.fields declared fields = none
  items_full : ∀ {α : Type} {declared : List Field} {items : List α},
    declared.length = items.length → F.items declared items = some (items.map some)
  items_missing : ∀ {α : Type} {declared : List Field} {items : List α} {field : Field},
    field ∈ declared.drop items.length → field.isRequired = true → F.items declared items = none
  items_excess : ∀ {α : Type} {declared : List Field} {items : List α},
    declared.length < items.length → F.items declared items = none

/-- A choice without fields is read by its name, one with fields by the tag in front of them, and
among several readings the first one counts that does not fail. -/
structure ReadsChoices (F : Format) : Prop where
  name_text : ∀ name, F.name (.text name) = some name
  variant_record : ∀ {tag name : String} {fields : List (String × Json)},
    tag ∉ fields.map (·.1) →
    F.variant tag (.record ((tag, .text name) :: fields)) = some (name, .record fields)
  choose_eq : ∀ {α : Type} (readings : List (Option α)),
    F.choose readings = readings.findSome? id

variable {F : Format}

/-- A document that fits is read back from its text. -/
theorem ReadsTexts.parse_render_of_fitsWithin (texts : F.ReadsTexts) {j : Json}
    (h : j.FitsWithin depthLimit) : F.parse (F.render j) = some j := by
  rw [texts.parse_render j h.isReadable, h.clip_reread]

/-- A record with all declared fields in order has their values in the slots. -/
theorem ReadsStructures.slots_full (structures : F.ReadsStructures) (declared : List Field)
    (values : List Json) (hlength : declared.length = values.length)
    (hnames : (declared.map (·.name)).Nodup) :
    F.slots declared (.record ((declared.map (·.name)).zip values)) =
      some (values.map some) := by
  let given : List (Field × Option Json) := declared.zip (values.map some)
  have hdeclared : given.map (·.1) = declared :=
    List.map_fst_zip (by rw [List.length_map, hlength])
  have hvalues : given.map (·.2) = values.map some :=
    List.map_snd_zip (by rw [List.length_map, hlength])
  have hdistinct : (given.map (·.1.name)).Nodup := by
    have hnamed : (given.map (·.1)).map (·.name) = given.map (·.1.name) := List.map_map
    rwa [← hnamed, hdeclared]
  have hgiven : ∀ field ∈ given, field.1.isRequired = true → field.2.isSome = true := by
    intro field hfield _
    have hvalue : field.2 ∈ given.map (·.2) := List.mem_map_of_mem hfield
    rw [hvalues] at hvalue
    obtain ⟨value, -, heq⟩ := List.mem_map.mp hvalue
    rw [← heq, Option.isSome_some]
  have hpresent : present given = (declared.map (·.name)).zip values := by
    simp only [given, present, List.zip_map_left, List.zip_map_right, List.flatMap_map]
    exact List.flatMap_pure_eq_map _ _
  have hfields := structures.fields_present hdistinct hgiven
  rwa [hdeclared, hvalues, hpresent] at hfields

/-! ## The standard format -/

theorem standard_rereadNumber : standard.rereadNumber = Json.Number.reread := by
  funext n
  have hdepth : n.reread.depth ≤ depthLimit := n.depth_reread.symm ▸ Nat.zero_le _
  have hparse : standard.parse (standard.render (.number n)) = some (clip depthLimit n.reread) :=
    Json.parse_render (.number n)
  rw [rereadNumber, hparse, Option.getD_some, Json.clip_of_depth_le hdepth]

theorem standard_readsTexts : standard.ReadsTexts where
  parse_render j _ := by
    rw [standard_rereadNumber]
    exact Json.parse_render j
  depth_rereadNumber n := by rw [standard_rereadNumber, n.depth_reread]
  rereadNumber_int64 i := by
    have hlow := Int64.minValue_le_toInt i
    have hhigh := Int64.toInt_le i
    rw [Int64.toInt_minValue] at hlow
    rw [Int64.toInt_maxValue] at hhigh
    have hbound : i.toInt < (Nat.pow 2 64 : Nat) := by
      rw [show Nat.pow 2 64 = 18446744073709551616 from rfl]
      omega
    rw [standard_rereadNumber]
    exact Json.Number.reread_integer hlow hbound
  integer_int64 i := by
    refine (if_pos ?_).trans (congrArg some i.ofInt_toInt)
    rw [Bool.and_eq_true, decide_eq_true_eq, decide_eq_true_eq]
    exact ⟨Int64.minValue_le_toInt i, Int64.toInt_le i⟩

theorem standard_readsStructures : standard.ReadsStructures where
  fields_present := Json.slotsOfFields_present
  fields_missing := Json.slotsOfFields_missing
  items_full := Json.slotsOfItems_full
  items_missing := Json.slotsOfItems_missing
  items_excess := Json.slotsOfItems_excess

theorem standard_readsChoices : standard.ReadsChoices where
  name_text _ := rfl
  variant_record := Json.variantOf_record
  choose_eq _ := rfl

end ObjectQuery.Format
