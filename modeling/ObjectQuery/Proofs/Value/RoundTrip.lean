import ObjectQuery.Proofs.Json.Laws
import ObjectQuery.Value

/-!
# Operand values read back

Which values are read back from their own text, in every format that keeps to its laws.

* `Value.isPlain`: values of kinds that have a form of their own in a document: no doubles, and no
  text that reads as an identifier or an instant.
* `Value.reread`: what is read for a plain value. A list of exactly two texts is a reference to an
  entity written without its field names, and is read as such.
* `Value.read_write`: a plain value is read as `Value.reread` says, if the reader accepts its
  nesting.
* `Value.read_write_eq_self_iff`: it is read back unless a list of two texts is in it.
-/

namespace ObjectQuery.Value

/-- A property holds of every value if it passes from the items of a list to the list. -/
@[elab_as_elim]
theorem induction {P : Value → Prop} (null : P null) (bool : ∀ b, P (bool b)) (int : ∀ i, P (int i))
    (float : ∀ x, P (float x)) (uuid : ∀ u, P (uuid u)) (instant : ∀ t, P (instant t))
    (text : ∀ s, P (text s)) (entity : ∀ e, P (entity e))
    (list : ∀ items, (∀ v ∈ items, P v) → P (list items)) (v : Value) : P v := by
  refine Value.rec (motive_1 := P) (motive_2 := fun items => ∀ v ∈ items, P v)
    null bool int float uuid instant text entity list ?_ ?_ v
  case refine_1 => exact fun v hv => absurd hv List.not_mem_nil
  case refine_2 => exact fun v items ih ihitems => List.forall_mem_cons.mpr ⟨ih, ihitems⟩

/-! ## Plain values -/

section

variable (F : Format)

mutual

/-- Whether the value is built from null, truth values, integers, references, texts that read as no
identifier and no instant, and lists. -/
def isPlain : Value → Bool
  | null | bool _ | int _ | entity _ => true
  | float _ | uuid _ | instant _ => false
  | text s => (F.readUuid s).isNone && (F.readInstant s).isNone
  | list items => arePlain items

/-- Whether every item is plain. -/
def arePlain : List Value → Bool
  | [] => true
  | v :: items => isPlain v && arePlain items

end

end

/-- Whether these are the items of a list of exactly two texts. -/
def isTextPair : List Value → Bool
  | [text _, text _] => true
  | _ => false

mutual

/-- Whether a list of exactly two texts is in the value. -/
def hasTextPair : Value → Bool
  | list items => isTextPair items || anyHasTextPair items
  | null | bool _ | int _ | float _ | uuid _ | instant _ | text _ | entity _ => false

/-- Whether a list of exactly two texts is in one of the items. -/
def anyHasTextPair : List Value → Bool
  | [] => false
  | v :: items => hasTextPair v || anyHasTextPair items

end

/-- A list with its items, or a reference if these are two texts. -/
def ofItems : List Value → Value
  | [text className, text id] => entity ⟨className, id⟩
  | items => list items

mutual

/-- The value that is read for a plain value: references stand in the place of lists of exactly two
texts. -/
def reread : Value → Value
  | list items => ofItems (rereadItems items)
  | v => v

/-- The values that are read for the items of a list. -/
def rereadItems : List Value → List Value
  | [] => []
  | v :: items => reread v :: rereadItems items

end

variable {F : Format}

theorem arePlain_iff {items : List Value} :
    arePlain F items = true ↔ ∀ v ∈ items, v.isPlain F = true := by
  induction items with
  | nil => simp [arePlain]
  | cons v items ih => simp [arePlain, ih]

theorem anyHasTextPair_eq_false_iff {items : List Value} :
    anyHasTextPair items = false ↔ ∀ v ∈ items, v.hasTextPair = false := by
  induction items with
  | nil => simp [anyHasTextPair]
  | cons v items ih => simp [anyHasTextPair, ih]

theorem rereadItems_eq (items : List Value) : rereadItems items = items.map reread := by
  induction items with
  | nil => rfl
  | cons v items ih => rw [rereadItems, ih, List.map_cons]

theorem rereadItems_eq_self_iff {items : List Value} :
    rereadItems items = items ↔ ∀ v ∈ items, v.reread = v := by
  induction items with
  | nil => simp [rereadItems]
  | cons v items ih => simp [rereadItems, ih]

theorem documents_eq (items : List Value) : documents F items = items.map (document F) := by
  induction items with
  | nil => rfl
  | cons v items ih => rw [documents, ih, List.map_cons]

theorem isReadable_document (v : Value) : (v.document F).isReadable = true := by
  induction v using Value.induction with
  | list items ih =>
    rw [document, Json.isReadable, Json.areReadable_iff, documents_eq, List.forall_mem_map]
    exact ih
  | _ => rfl

/-! ## Lists of two texts -/

theorem isTextPair_iff {items : List Value} :
    isTextPair items = true ↔ ∃ className id, items = [text className, text id] := by
  constructor
  · intro h
    unfold isTextPair at h
    split at h
    · exact ⟨_, _, rfl⟩
    · cases h
  · rintro ⟨className, id, rfl⟩
    rfl

theorem ofItems_of_not_isTextPair {items : List Value} (h : isTextPair items = false) :
    ofItems items = list items := by
  unfold ofItems
  split
  · cases h
  · rfl

/-- What is read for a value is a text only if the value is. -/
theorem reread_eq_text {v : Value} {s : String} (h : v.reread = text s) : v = text s := by
  cases v with
  | list items =>
    rw [reread] at h
    unfold ofItems at h
    split at h <;> cases h
  | _ => exact h

theorem isTextPair_rereadItems (items : List Value) :
    isTextPair (rereadItems items) = isTextPair items := by
  rw [Bool.eq_iff_iff, isTextPair_iff, isTextPair_iff, rereadItems_eq]
  constructor
  · rintro ⟨className, id, h⟩
    obtain ⟨v, rest, rfl, hv, hrest⟩ := List.map_eq_cons_iff.mp h
    obtain ⟨w, tail, rfl, hw, htail⟩ := List.map_eq_cons_iff.mp hrest
    rw [List.map_eq_nil_iff.mp htail, reread_eq_text hv, reread_eq_text hw]
    exact ⟨className, id, rfl⟩
  · rintro ⟨className, id, rfl⟩
    exact ⟨className, id, rfl⟩

/-- A value is read as another one exactly if a list of two texts is in it. -/
theorem reread_eq_self_iff {v : Value} : v.reread = v ↔ v.hasTextPair = false := by
  induction v using Value.induction with
  | list items ih =>
    have hitems : rereadItems items = items ↔ anyHasTextPair items = false := by
      rw [rereadItems_eq_self_iff, anyHasTextPair_eq_false_iff]
      exact forall₂_congr ih
    rw [reread, hasTextPair, Bool.or_eq_false_iff]
    cases hpair : isTextPair items with
    | true =>
      obtain ⟨className, id, rfl⟩ := isTextPair_iff.mp hpair
      simp [rereadItems, reread, ofItems]
    | false =>
      rw [ofItems_of_not_isTextPair ((isTextPair_rereadItems items).trans hpair), list.injEq, hitems]
      simp
  | _ => simp [reread, hasTextPair]

/-! ## Reading -/

theorem reread_document (texts : F.ReadsTexts) {v : Value} (h : v.isPlain F = true) :
    (v.document F).reread F.rereadNumber = v.document F := by
  induction v using Value.induction with
  | null | bool _ | text _ | entity _ => rfl
  | int i => exact texts.rereadNumber_int64 i
  | list items ih =>
    rw [isPlain, arePlain_iff] at h
    rw [document, Json.reread, Json.list.injEq, Json.rereadItems_eq_self_iff, documents_eq,
      List.forall_mem_map]
    exact fun v hv => ih v hv (h v hv)
  | float _ | uuid _ | instant _ => cases h

/-- The document of a plain value is a text only if the value is. -/
theorem toText_document {v : Value} (h : v.isPlain F = true) : (v.document F).toText = v.text? := by
  cases v with
  | uuid _ | instant _ => cases h
  | _ => rfl

theorem entity?_document (structures : F.ReadsStructures) (e : EntityRef) :
    entity? F ((entity e).document F) = some e := by
  have hslots : F.slots [.required "class", .required "id"] ((entity e).document F) = _ :=
    structures.slots_full _ [.text e.className, .text e.id] rfl (by decide)
  simp [entity?, hslots, Json.required]

/-- Two documents are read as a reference if both are texts. -/
theorem entity?_pair (structures : F.ReadsStructures) (j k : Json) :
    entity? F (.list [j, k]) =
      j.toText.bind fun className => k.toText.bind fun id => some ⟨className, id⟩ := by
  have hslots : F.slots [.required "class", .required "id"] (.list [j, k]) = _ :=
    structures.items_full rfl
  simp [entity?, hslots, Json.required]

/-- Documents of plain values are the fields of a reference only if the values are two texts. -/
theorem entity?_of_isTextPair_eq_false (structures : F.ReadsStructures) {items : List Value}
    (h : ∀ v ∈ items, v.isPlain F = true) (hpair : isTextPair items = false) :
    entity? F (.list (items.map (document F))) = none := by
  have hfields : ∀ {js : List Json},
      F.items [.required "class", .required "id"] js = none → entity? F (.list js) = none :=
    fun hnone => congrArg (Option.bind · _) hnone
  match items with
  | [] => exact hfields (structures.items_missing List.mem_cons_self rfl)
  | [v] => exact hfields (structures.items_missing List.mem_cons_self rfl)
  | [v, w] =>
    have hv := toText_document (h v List.mem_cons_self)
    have hw := toText_document (h w (List.mem_cons_of_mem _ List.mem_cons_self))
    rw [List.map_cons, List.map_cons, List.map_nil, entity?_pair structures, hv, hw]
    cases v <;> cases w <;> simp_all [text?, isTextPair]
  | v :: w :: x :: rest => exact hfields (structures.items_excess (by simp))

theorem ofReadableItems_eq {items : List Value}
    (h : ∀ v ∈ items, ofReadable F (v.document F) = some v.reread) :
    ofReadableItems F (items.map (document F)) = some (items.map reread) := by
  induction items with
  | nil => rfl
  | cons v items ih =>
    obtain ⟨hv, hitems⟩ := List.forall_mem_cons.mp h
    rw [List.map_cons, List.map_cons, ofReadableItems, hv, ih hitems]

/-- What each kind of plain value is read as. The kinds in front of it fail on its document. -/
theorem ofReadable_document (texts : F.ReadsTexts) (structures : F.ReadsStructures)
    (choices : F.ReadsChoices) {v : Value} (h : v.isPlain F = true) :
    ofReadable F (v.document F) = some v.reread := by
  induction v using Value.induction with
  | null | bool _ => simp [document, ofReadable, choose, choices.choose_eq, Json.toBool, reread]
  | int i =>
    simp [document, ofReadable, choose, choices.choose_eq, Json.toBool, Json.toNumber,
      texts.integer_int64, reread]
  | text s =>
    rw [isPlain, Bool.and_eq_true, Option.isNone_iff_eq_none, Option.isNone_iff_eq_none] at h
    simp [document, ofReadable, choose, choices.choose_eq, Json.toBool, Json.toNumber, h, reread]
  | entity e =>
    have hentity := entity?_document structures e
    rw [document] at hentity ⊢
    simp [ofReadable, choose, choices.choose_eq, Json.toBool, Json.toNumber, Json.toText, hentity,
      reread]
  | list items ih =>
    rw [isPlain, arePlain_iff] at h
    have hitems := ofReadableItems_eq fun v hv => ih v hv (h v hv)
    rw [document, documents_eq, reread, ofReadable, hitems, choose, choices.choose_eq]
    case x_1 => exact nofun
    cases hpair : isTextPair items with
    | true =>
      obtain ⟨className, id, rfl⟩ := isTextPair_iff.mp hpair
      simp [Json.toBool, Json.toNumber, Json.toText, entity?_pair structures, document,
        rereadItems, reread, ofItems]
    | false =>
      rw [ofItems_of_not_isTextPair ((isTextPair_rereadItems items).trans hpair), rereadItems_eq,
        entity?_of_isTextPair_eq_false structures h hpair]
      simp [Json.toBool, Json.toNumber, Json.toText]
  | float _ | uuid _ | instant _ => cases h

/-- A plain value is read as `reread` says, and not at all if it is nested too deeply. -/
theorem read_write (texts : F.ReadsTexts) (structures : F.ReadsStructures)
    (choices : F.ReadsChoices) {v : Value} (h : v.isPlain F = true) :
    read F (v.write F) =
      if (v.document F).depth ≤ Json.depthLimit then some v.reread else none := by
  have hreadable : (Json.clip Json.depthLimit (v.document F)).isReadable = true ↔
      (v.document F).depth ≤ Json.depthLimit :=
    Json.isReadable_clip.trans (and_iff_right (isReadable_document v))
  rw [read, write, texts.parse_render _ (isReadable_document v), reread_document texts h,
    Option.bind_some, ofDocument]
  by_cases hdepth : (v.document F).depth ≤ Json.depthLimit
  · rw [if_pos hdepth, if_pos (hreadable.mpr hdepth), Json.clip_of_depth_le hdepth,
      ofReadable_document texts structures choices h]
  · rw [if_neg hdepth, if_neg (fun hread => hdepth (hreadable.mp hread))]

/-- A plain value is read back from its own text exactly if the reader accepts its nesting and no
list of exactly two texts is in it. -/
theorem read_write_eq_self_iff (texts : F.ReadsTexts) (structures : F.ReadsStructures)
    (choices : F.ReadsChoices) {v : Value} (h : v.isPlain F = true) :
    read F (v.write F) = some v ↔
      (v.document F).depth ≤ Json.depthLimit ∧ v.hasTextPair = false := by
  rw [read_write texts structures choices h, ← reread_eq_self_iff]
  by_cases hdepth : (v.document F).depth ≤ Json.depthLimit
  · rw [if_pos hdepth, Option.some.injEq]
    exact ⟨fun heq => ⟨hdepth, heq⟩, fun heq => heq.2⟩
  · simp [hdepth]

/-- In the standard format, a list and a text are read back, but two texts are not. -/
theorem read_write_two_texts :
    (list [list [text "a"], text "b"]).isPlain .standard = true ∧
      read .standard ((list [list [text "a"], text "b"]).write .standard) =
        some (list [list [text "a"], text "b"]) ∧
      (list [text "a", text "b"]).isPlain .standard = true ∧
      read .standard ((list [text "a", text "b"]).write .standard) ≠
        some (list [text "a", text "b"]) := by
  have hkept : (list [list [text "a"], text "b"]).isPlain .standard = true := by decide +kernel
  have hlost : (list [text "a", text "b"]).isPlain .standard = true := by decide +kernel
  have hiff : ∀ {v : Value}, v.isPlain .standard = true → _ := fun h =>
    read_write_eq_self_iff Format.standard_readsTexts Format.standard_readsStructures
      Format.standard_readsChoices h
  exact ⟨hkept, (hiff hkept).mpr (by decide), hlost,
    fun h => absurd ((hiff hlost).mp h).2 (by decide)⟩

end ObjectQuery.Value
