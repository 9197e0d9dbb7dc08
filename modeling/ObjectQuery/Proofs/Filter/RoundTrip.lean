import ObjectQuery.Filter.Document
import ObjectQuery.Proofs.Filter.Tests
import ObjectQuery.Proofs.Json.Laws
import ObjectQuery.Proofs.Value.RoundTrip

/-!
# Filters read back

In every format that keeps to its laws:

* `Value.Survives`: a value is read back from its own text.
* `Filter.leafFieldsOf`, `Filter.compositeFieldsOf`: the declared fields of a leaf and of a
  composite with what is written for them. They say which slots are filled.
* `Filter.filter_reading_composite`, `Filter.filter_reading_leaf`: what is read for a node is the
  node exactly if the same holds of the nodes below and of the operand.
* `Filter.ofDocument_clip_eq_some_iff`: a filter is read back exactly if the reader accepts its
  nesting and all operands survive.
-/

namespace ObjectQuery

variable {F : Format}

namespace Value

/-- The value is read back from its own text. -/
def Survives (F : Format) (v : Value) : Prop := read F (v.write F) = some v

theorem survives_iff (texts : F.ReadsTexts) {v : Value} :
    v.Survives F ↔ (v.document F).depth ≤ Json.depthLimit ∧
      ((v.document F).reread F.rereadNumber).isReadable = true ∧
        ofReadable F ((v.document F).reread F.rereadNumber) = some v := by
  rw [Survives, read, write, texts.parse_render _ (isReadable_document v), Option.bind_some]
  exact Json.ite_isReadable_clip_eq_some_iff texts.depth_rereadNumber (ofReadable F)

theorem survives_iff_reread_eq (texts : F.ReadsTexts) (structures : F.ReadsStructures)
    (choices : F.ReadsChoices) {v : Value} (h : v.isPlain F = true)
    (hdepth : (v.document F).depth ≤ Json.depthLimit) : v.Survives F ↔ v.reread = v := by
  rw [Survives, read_write texts structures choices h, if_pos hdepth, Option.some.injEq]

end Value

theorem LogicalOp.ofName_name (o : LogicalOp) : ofName o.name = some o := by
  cases o <;> decide

theorem BooleanOp.ofName_name (o : BooleanOp) : ofName o.name = some o := by
  cases o <;> decide

theorem MatchMode.ofName_name (m : MatchMode) : ofName m.name = some m := by
  cases m <;> decide

namespace Filter

open Json (present)

/-! ## Documents -/

/-- The declared fields of a composite with the documents that are written for them. -/
def compositeFieldsOf (F : Format) (c : Composite) : List (Json.Field × Option Json) :=
  [(.required "operation", some (.text c.operation.name)),
    (.required "children", some (.list (c.children.map (document F))))]

/-- The declared fields of a leaf with the documents that are written for them. -/
def leafFieldsOf (F : Format) (t : Test) (condition : Option Composite)
    (subfilter : Option Filter) : List (Json.Field × Option Json) :=
  [(.required "property", some (.text t.property)),
    (.required "operation", some (.text t.operation.name)),
    (.optional "value", some (t.value.document F)),
    (.optional "matchMode", some (.text t.matchMode.name)),
    (.optional "ignoreCase", some (.bool t.ignoreCase)),
    (.optional "joinProperty", t.joinProperty.map .text),
    (.optional "collectionCondition", condition.map (compositeDocument F)),
    (.optional "subqueryClass", t.subqueryClass.map .text),
    (.optional "subqueryProperty", t.subqueryProperty.map .text),
    (.optional "subqueryFilter", subfilter.map (document F)),
    (.optional "cast", t.cast.map .text)]

theorem childDocuments_eq (fs : List Filter) : childDocuments F fs = fs.map (document F) := by
  induction fs with
  | nil => rfl
  | cons f rest ih => rw [childDocuments, ih, List.map_cons]

theorem compositeDocument_eq (c : Composite) :
    compositeDocument F c = .record (present (compositeFieldsOf F c)) := by
  obtain ⟨operation, children⟩ := c
  rw [compositeDocument, childDocuments_eq]
  rfl

theorem document_leaf (t : Test) (condition : Option Composite) (subfilter : Option Filter) :
    document F (.leaf ⟨t, condition, subfilter⟩) =
      .record (present (leafFieldsOf F t condition subfilter)) := by
  have htext : ∀ (name : String) (s : Option String),
      Test.optionalText name s = (s.map Json.text).toList.map (name, ·) := by
    intro name s
    cases s <;> rfl
  have hcondition : conditionField F condition =
      (condition.map (compositeDocument F)).toList.map ("collectionCondition", ·) := by
    cases condition <;> rfl
  have hsubfilter : subfilterField F subfilter =
      (subfilter.map (document F)).toList.map ("subqueryFilter", ·) := by
    cases subfilter <;> rfl
  rw [document, leafDocument, htext, htext, htext, htext, hcondition, hsubfilter]
  simp [present, leafFieldsOf, Json.Field.name]

theorem exists_document_eq_record (f : Filter) : ∃ fields, document F f = .record fields := by
  match f with
  | .composite c => exact ⟨_, compositeDocument_eq c⟩
  | .leaf ⟨t, condition, subfilter⟩ => exact ⟨_, document_leaf t condition subfilter⟩

/-! ## Readings -/

/-- What the document that is read for a document could be. -/
def reading (F : Format) (j : Json) : Reading := readingOf F (j.reread F.rereadNumber)

theorem document_readingOf (j : Json) : (readingOf F j).document = j := by
  cases j <;> rfl

theorem itemReadings_eq (items : List Json) : itemReadings F items = items.map (readingOf F) := by
  induction items with
  | nil => rfl
  | cons j items ih => rw [itemReadings, ih, List.map_cons]

theorem fieldReadings_eq (fields : List (String × Json)) :
    fieldReadings F fields = fields.map fun field => (field.1, readingOf F field.2) := by
  induction fields with
  | nil => rfl
  | cons field fields ih => rw [fieldReadings, ih, List.map_cons]

theorem reading_record (given : List (Json.Field × Option Json)) :
    reading F (.record (present given)) =
      let readings := present (given.map fun field => (field.1, field.2.map (reading F)))
      readingOfSlots F (.record (Json.rereadFields F.rereadNumber (present given)))
        (F.fields compositeFields readings) (F.fields leafFields readings) none := by
  rw [reading, Json.reread, readingOf, fieldReadings_eq, Json.rereadFields_eq, List.map_map,
    ← Json.map_present]
  rfl

/-- The slots of a record that gives all that is required are filled by the readings. -/
theorem fields_readings (structures : F.ReadsStructures) {given : List (Json.Field × Option Json)}
    {declared : List Json.Field} (hdeclared : given.map (·.1) = declared)
    (hnames : (declared.map (·.name)).Nodup)
    (hrequired : ∀ field ∈ given, field.1.isRequired = true → field.2.isSome = true) :
    F.fields declared (present (given.map fun field => (field.1, field.2.map (reading F)))) =
      some (given.map fun field => field.2.map (reading F)) := by
  subst hdeclared
  rw [List.map_map] at hnames
  have hfields := structures.fields_present
    (show ((given.map fun field => (field.1, field.2.map (reading F))).map (·.1.name)).Nodup by
      rwa [List.map_map])
    (List.forall_mem_map.mpr fun field hfield hneeded => by
      rw [Option.isSome_map]
      exact hrequired field hfield hneeded)
  rwa [List.map_map, List.map_map] at hfields

theorem filters_reading_list (items : List Json) :
    (reading F (.list items)).filters = items.mapM fun j => (reading F j).filter := by
  rw [reading, Json.reread, readingOf, itemReadings_eq, Json.rereadItems_eq, List.map_map,
    readingOfSlots, List.mapM_map]
  rfl

theorem name_reading_text (choices : F.ReadsChoices) (name : String) :
    Json.required F.name (Reading.document? (some (reading F (.text name)))) = some name :=
  choices.name_text name

/-! ## Composites -/

theorem compositeOfSlots_eq_some_iff (choices : F.ReadsChoices) {c : Composite} :
    compositeOfSlots F ((compositeFieldsOf F c).map fun field => field.2.map (reading F)) = some c ↔
      ∀ f ∈ c.children, (reading F (f.document F)).filter = some f := by
  obtain ⟨operation, children⟩ := c
  have hname := name_reading_text choices operation.name
  have hchildren : Json.required Reading.filters
      (some (reading F (.list (children.map (document F))))) =
        (children.map (document F)).mapM fun j => (reading F j).filter := filters_reading_list _
  have hmembers :
      (children.map (document F)).mapM (fun j => (reading F j).filter) = some children ↔
        ∀ f ∈ children, (reading F (f.document F)).filter = some f := Json.mapM_map_eq_self_iff
  rw [← hmembers]
  simp only [compositeFieldsOf, List.map_cons, List.map_nil, Option.map_some, compositeOfSlots,
    hname, hchildren, BooleanOp.ofName_name, Option.bind_eq_bind, Option.bind_some,
    Option.bind_eq_some_iff, Option.some.injEq, Composite.mk.injEq, true_and, exists_eq_right]

theorem composite_reading (structures : F.ReadsStructures) (choices : F.ReadsChoices)
    {c : Composite} :
    (reading F (compositeDocument F c)).composite = some c ↔
      ∀ f ∈ c.children, (reading F (f.document F)).filter = some f := by
  have hslots := fields_readings structures
    (show (compositeFieldsOf F c).map (·.1) = compositeFields from rfl) (by decide)
    (by simp [compositeFieldsOf, Json.Field.isRequired])
  have hread : (reading F (compositeDocument F c)).composite =
      compositeOfSlots F ((compositeFieldsOf F c).map fun field => field.2.map (reading F)) := by
    rw [compositeDocument_eq, reading_record]
    exact congrArg (Option.bind · (compositeOfSlots F)) hslots
  rw [hread, compositeOfSlots_eq_some_iff choices]

/-- A document that reads as a composite is read as one. -/
theorem filter_readingOfSlots_composite (choices : F.ReadsChoices) {document : Json}
    {asComposite asLeaf : Option (List (Option Reading))} {filters : Option (List Filter)}
    {c : Composite} :
    (readingOfSlots F document asComposite asLeaf filters).filter = some (.composite c) ↔
      (readingOfSlots F document asComposite asLeaf filters).composite = some c := by
  unfold readingOfSlots
  dsimp only
  rw [choices.choose_eq]
  cases asComposite.bind (compositeOfSlots F) <;> cases asLeaf.bind (leafOfSlots F) <;> simp

theorem filter_reading_composite (structures : F.ReadsStructures) (choices : F.ReadsChoices)
    {c : Composite} :
    (reading F (document F (.composite c))).filter = some (.composite c) ↔
      ∀ f ∈ c.children, (reading F (f.document F)).filter = some f := by
  rw [← composite_reading structures choices, document, compositeDocument_eq, reading_record]
  exact filter_readingOfSlots_composite choices

/-! ## Leaves -/

theorem maybe_document?_optional (s : Option String) :
    Json.maybe Json.toText (Reading.document? ((s.map Json.text).map (reading F))) = some s := by
  cases s <;> rfl

/-- The document of a part that may be missing is never null. -/
theorem maybe_eq_some_iff {α : Type} (part : Reading → Option α) {write : α → Json}
    (hwrite : ∀ a, ∃ fields, write a = .record fields) (o : Option α) :
    Reading.maybe part ((o.map write).map (reading F)) = some o ↔
      ∀ a ∈ o, part (reading F (write a)) = some a := by
  cases o with
  | none => simp [Reading.maybe]
  | some a =>
    obtain ⟨fields, hfields⟩ := hwrite a
    have hdocument : (reading F (write a)).document =
        .record (Json.rereadFields F.rereadNumber fields) := by
      rw [reading, document_readingOf, hfields, Json.reread]
    simp [Reading.maybe, hdocument]

theorem leafOfSlots_eq_some_iff (choices : F.ReadsChoices) {t : Test}
    {condition : Option Composite} {subfilter : Option Filter} :
    leafOfSlots F
        ((leafFieldsOf F t condition subfilter).map fun field => field.2.map (reading F)) =
        some ⟨t, condition, subfilter⟩ ↔
      Value.ofReadable F ((t.value.document F).reread F.rereadNumber) = some t.value ∧
        (∀ c ∈ condition, (reading F (compositeDocument F c)).composite = some c) ∧
        ∀ f ∈ subfilter, (reading F (f.document F)).filter = some f := by
  have hproperty : Json.required Json.toText
      (Reading.document? (some (reading F (.text t.property)))) = some t.property := rfl
  have hname := name_reading_text choices t.operation.name
  have hvalue : Json.orElse Value.null (Value.ofReadable F)
      (Reading.document? (some (reading F (t.value.document F)))) =
        Value.ofReadable F ((t.value.document F).reread F.rereadNumber) := by
    rw [Reading.document?, Option.map_some, reading, document_readingOf]
    rfl
  have hmode : Json.orElse MatchMode.anywhere (fun j => (F.name j).bind MatchMode.ofName)
      (Reading.document? (some (reading F (.text t.matchMode.name)))) = some t.matchMode := by
    refine Eq.trans (congrArg (Option.bind · MatchMode.ofName) (choices.name_text _)) ?_
    exact MatchMode.ofName_name t.matchMode
  have hignore : Json.orElse false Json.toBool
      (Reading.document? (some (reading F (.bool t.ignoreCase)))) = some t.ignoreCase := rfl
  have hcondition := maybe_eq_some_iff (F := F) Reading.composite
    (fun c => ⟨_, compositeDocument_eq (F := F) c⟩) condition
  have hsubfilter :=
    maybe_eq_some_iff (F := F) Reading.filter (exists_document_eq_record (F := F)) subfilter
  rw [← hcondition, ← hsubfilter]
  -- All slots but these three are known to be read back.
  simp only [leafFieldsOf, List.map_cons, List.map_nil, Option.map_some, leafOfSlots, hproperty,
    hname, hvalue, hmode, hignore, maybe_document?_optional, LogicalOp.ofName_name,
    Option.bind_eq_bind, Option.bind_some, Option.bind_eq_some_iff, Option.some.injEq,
    Leaf.mk.injEq]
  constructor
  · rintro ⟨value, hvalue, _, hcondition, _, hsubfilter, htest, rfl, rfl⟩
    obtain rfl : value = t.value := congrArg Test.value htest
    exact ⟨hvalue, hcondition, hsubfilter⟩
  · exact fun ⟨hvalue, hcondition, hsubfilter⟩ =>
      ⟨_, hvalue, _, hcondition, _, hsubfilter, rfl, rfl, rfl⟩

/-- The document of a leaf has no children and so never reads as a composite. -/
theorem compositeFields_leaf (structures : F.ReadsStructures) (t : Test)
    (condition : Option Composite) (subfilter : Option Filter) :
    F.fields compositeFields (present ((leafFieldsOf F t condition subfilter).map
      fun field => (field.1, field.2.map (reading F)))) = none := by
  refine structures.fields_missing (List.mem_cons_of_mem _ List.mem_cons_self) rfl ?_
  intro hchildren
  obtain ⟨field, hfield, hname⟩ := List.mem_map.mp hchildren
  have hother : ∀ field ∈ leafFieldsOf F t condition subfilter, field.1.name ≠ "children" := by
    simp [leafFieldsOf, Json.Field.name]
  refine (Json.forall_mem_present (P := fun field => field.1 ≠ "children")).mpr ?_ field hfield
    hname
  exact List.forall_mem_map.mpr fun field hfield _ _ => hother field hfield

/-- A document that does not read as a composite is read as a leaf. -/
theorem filter_readingOfSlots_leaf (choices : F.ReadsChoices) {document : Json}
    {asLeaf : Option (List (Option Reading))} {filters : Option (List Filter)} {l : Leaf} :
    (readingOfSlots F document none asLeaf filters).filter = some (.leaf l) ↔
      asLeaf.bind (leafOfSlots F) = some l := by
  unfold readingOfSlots
  dsimp only
  rw [choices.choose_eq]
  cases asLeaf.bind (leafOfSlots F) <;> simp

theorem filter_reading_leaf (structures : F.ReadsStructures) (choices : F.ReadsChoices) {t : Test}
    {condition : Option Composite} {subfilter : Option Filter} :
    (reading F (document F (.leaf ⟨t, condition, subfilter⟩))).filter =
        some (.leaf ⟨t, condition, subfilter⟩) ↔
      Value.ofReadable F ((t.value.document F).reread F.rereadNumber) = some t.value ∧
        (∀ c ∈ condition, ∀ f ∈ c.children, (reading F (f.document F)).filter = some f) ∧
        ∀ f ∈ subfilter, (reading F (f.document F)).filter = some f := by
  have hslots := fields_readings structures
    (show (leafFieldsOf F t condition subfilter).map (·.1) = leafFields from rfl)
    (by decide) (by simp [leafFieldsOf, Json.Field.isRequired])
  rw [document_leaf, reading_record]
  dsimp only
  rw [compositeFields_leaf structures, filter_readingOfSlots_leaf choices, hslots,
    Option.bind_some, leafOfSlots_eq_some_iff choices]
  simp only [composite_reading structures choices]

/-! ## Filters -/

/-- A filter is read back exactly if all its operands are. -/
theorem filter_reading_iff (structures : F.ReadsStructures) (choices : F.ReadsChoices)
    (f : Filter) :
    (reading F (f.document F)).filter = some f ↔
      ∀ t ∈ f.tests,
        Value.ofReadable F ((t.value.document F).reread F.rereadNumber) = some t.value :=
  iff_forall_tests (P := fun f => (reading F (f.document F)).filter = some f)
    (T := fun t => Value.ofReadable F ((t.value.document F).reread F.rereadNumber) = some t.value)
    (fun _ _ _ => filter_reading_leaf structures choices)
    (fun _ => filter_reading_composite structures choices) f

/-- What holds of simple documents holds of all that is written for a leaf if it holds of the
operand and of the nodes below. -/
theorem forall_mem_leafFieldsOf {P : Json → Prop} (htext : ∀ s, P (.text s))
    (hbool : ∀ b, P (.bool b)) (t : Test) (condition : Option Composite)
    (subfilter : Option Filter) :
    (∀ field ∈ present (leafFieldsOf F t condition subfilter), P field.2) ↔
      P (t.value.document F) ∧ (∀ c ∈ condition, P (compositeDocument F c)) ∧
        ∀ f ∈ subfilter, P (f.document F) := by
  rw [Json.forall_mem_present]
  simp [leafFieldsOf, htext, hbool]

section

/-! What is read for the document of a filter has no unreadable part exactly if that holds of the
operands. `g` gives what is read for a document. -/

variable {g : Json → Json} (hlist : ∀ items, g (.list items) = .list (items.map g))
  (hrecord : ∀ fields,
    g (.record fields) = .record (fields.map fun field => (field.1, g field.2)))
  (htext : ∀ s, (g (.text s)).isReadable = true)
  (hbool : ∀ b, (g (.bool b)).isReadable = true)

include hlist hrecord htext in
theorem isReadable_map_composite {c : Composite} :
    (g (compositeDocument F c)).isReadable = true ↔
      ∀ f ∈ c.children, (g (f.document F)).isReadable = true := by
  rw [compositeDocument_eq, hrecord, Json.isReadable, Json.fieldsReadable_iff,
    List.forall_mem_map, Json.forall_mem_present]
  simp [compositeFieldsOf, hlist, htext, Json.isReadable, Json.areReadable_iff]

include hlist hrecord htext hbool in
theorem isReadable_map_leaf {t : Test} {condition : Option Composite}
    {subfilter : Option Filter} :
    (g (document F (.leaf ⟨t, condition, subfilter⟩))).isReadable = true ↔
      (g (t.value.document F)).isReadable = true ∧
        (∀ c ∈ condition, ∀ f ∈ c.children, (g (f.document F)).isReadable = true) ∧
        ∀ f ∈ subfilter, (g (f.document F)).isReadable = true := by
  have hparts := forall_mem_leafFieldsOf (F := F) (P := fun j => (g j).isReadable = true)
    htext hbool t condition subfilter
  rw [document_leaf, hrecord, Json.isReadable, Json.fieldsReadable_iff, List.forall_mem_map,
    hparts]
  simp only [isReadable_map_composite hlist hrecord htext]

include hlist hrecord htext hbool in
theorem isReadable_map_iff (f : Filter) :
    (g (f.document F)).isReadable = true ↔
      ∀ t ∈ f.tests, (g (t.value.document F)).isReadable = true :=
  iff_forall_tests (P := fun f => (g (f.document F)).isReadable = true)
    (T := fun t => (g (t.value.document F)).isReadable = true)
    (fun _ _ _ => isReadable_map_leaf hlist hrecord htext hbool)
    (fun _ => isReadable_map_composite hlist hrecord htext) f

end

theorem isReadable_reread_iff (f : Filter) :
    ((f.document F).reread F.rereadNumber).isReadable = true ↔
      ∀ t ∈ f.tests, ((t.value.document F).reread F.rereadNumber).isReadable = true :=
  isReadable_map_iff (fun items => by rw [Json.reread, Json.rereadItems_eq])
    (fun fields => by rw [Json.reread, Json.rereadFields_eq]) (fun _ => rfl) (fun _ => rfl) f

theorem isReadable_document (f : Filter) : (f.document F).isReadable = true := by
  refine (isReadable_map_iff (g := id) (fun items => ?_) (fun fields => ?_) (fun _ => rfl)
    (fun _ => rfl) f).mpr fun t _ => t.value.isReadable_document
  · rw [List.map_id]
    rfl
  · exact congrArg Json.record (List.map_id fields).symm

theorem depth_children_le {c : Composite} {n : Nat} (h : (compositeDocument F c).depth ≤ n) :
    ∀ f ∈ c.children, (f.document F).depth ≤ n := by
  rw [compositeDocument_eq, Json.depth, Nat.succ_le_iff] at h
  have hfields := Json.forall_mem_present.mp (Json.depthOfFields_le.mp (Nat.le_of_lt h))
  have hchildren := hfields _ (List.mem_cons_of_mem _ List.mem_cons_self) _ rfl
  rw [Json.depth, Nat.succ_le_iff] at hchildren
  exact fun f hf =>
    Json.depthOfItems_le.mp (Nat.le_of_lt hchildren) (f.document F) (List.mem_map_of_mem hf)

/-- Operands are nested less deeply than the filter. -/
theorem depth_value_le {f : Filter} {n : Nat} (h : (f.document F).depth ≤ n) :
    ∀ t ∈ f.tests, (t.value.document F).depth ≤ n := by
  induction f using Filter.induction with
  | leaf t condition subfilter ihcondition ihsubfilter =>
    rw [document_leaf, Json.depth, Nat.succ_le_iff] at h
    have hparts := forall_mem_leafFieldsOf (F := F) (P := fun j => j.depth ≤ n)
      (fun _ => Nat.zero_le n) (fun _ => Nat.zero_le n) t condition subfilter
    obtain ⟨hvalue, hcondition, hsubfilter⟩ :=
      hparts.mp (Json.depthOfFields_le.mp (Nat.le_of_lt h))
    exact tests_leaf.mpr ⟨hvalue,
      fun c hc f hf => ihcondition c hc f hf (depth_children_le (hcondition c hc) f hf),
      fun f hf => ihsubfilter f hf (hsubfilter f hf)⟩
  | composite operation children ih =>
    exact tests_composite.mpr fun f hf => ih f hf (depth_children_le h f hf)

/-- A filter is read back exactly if the reader accepts its nesting and all operands survive. -/
theorem ofDocument_clip_eq_some_iff (texts : F.ReadsTexts) (structures : F.ReadsStructures)
    (choices : F.ReadsChoices) {f : Filter} {limit : Nat} (hlimit : limit ≤ Json.depthLimit) :
    ofDocument F (Json.clip limit ((f.document F).reread F.rereadNumber)) = some f ↔
      (f.document F).depth ≤ limit ∧ ∀ t ∈ f.tests, t.value.Survives F := by
  refine (Json.ite_isReadable_clip_eq_some_iff texts.depth_rereadNumber
    fun j => (readingOf F j).filter).trans ?_
  rw [isReadable_reread_iff, ← reading, filter_reading_iff structures choices, ← forall₂_and]
  refine and_congr_right fun hdepth => forall₂_congr fun t ht => ?_
  have hvalue := depth_value_le (Nat.le_trans hdepth hlimit) t ht
  rw [Value.survives_iff texts, and_iff_right hvalue]

end Filter

end ObjectQuery
