import ObjectQuery.Json.Slots
import ObjectQuery.Proofs.Json.Trees

/-!
# Parts of structured documents read back

What the readers of slots make of texts, optional texts and lists that were written before.

* `Json.toList_map`: a list is read back if its items are.
* `Json.maybe_optional`: so is a text that may be missing.
* `Json.present`: the fields of a record, some of which may be left out.
* `Json.slotsOfFields_present`: they fill their own slots.
* `Json.slotsOfFields_missing`, `Json.slotsOfItems_missing`: there are no slots where a field is
  missing that must be given.
-/

namespace ObjectQuery.Json

variable {α : Type}

/-! ## Reading -/

@[simp] theorem toText_text (s : String) : toText (text s) = some s := rfl

@[simp] theorem toBool_bool (b : Bool) : toBool (bool b) = some b := rfl

@[simp] theorem maybe_optional (s : Option String) : maybe toText (some (optional s)) = some s := by
  cases s <;> rfl

theorem mapM_eq_some_map_iff {β : Type} {f : α → Option β} {g : α → β} {l : List α} :
    l.mapM f = some (l.map g) ↔ ∀ a ∈ l, f a = some (g a) := by
  induction l with
  | nil => simp
  | cons a l ih =>
    simp only [List.mapM_cons, List.map_cons, Option.bind_eq_bind, Option.bind_eq_some_iff,
      Option.pure_def, Option.some.injEq, List.cons.injEq, List.forall_mem_cons, ← ih]
    constructor
    · rintro ⟨_, ha, _, hl, rfl, rfl⟩
      exact ⟨ha, hl⟩
    · exact fun ⟨ha, hl⟩ => ⟨_, ha, _, hl, rfl, rfl⟩

theorem mapM_map_eq_self_iff {β : Type} {write : α → β} {read : β → Option α} {as : List α} :
    (as.map write).mapM read = some as ↔ ∀ a ∈ as, read (write a) = some a := by
  have hself := mapM_eq_some_map_iff (f := read ∘ write) (g := id) (l := as)
  rwa [List.map_id, ← List.mapM_map] at hself

/-- A list is read back if its items are. -/
theorem toList_map {write : α → Json} {read : Json → Option α} {as : List α}
    (h : ∀ a ∈ as, read (write a) = some a) : toList read (list (as.map write)) = some as :=
  mapM_map_eq_self_iff.mpr h

@[simp] theorem toList_texts (items : List String) : toList toText (texts items) = some items :=
  toList_map fun _ _ => rfl

/-! ## Fields that may be left out -/

/-- The fields that are written for declared ones: all that have a value. -/
def present (given : List (Field × Option α)) : List (String × α) :=
  given.flatMap fun field => field.2.toList.map (field.1.name, ·)

theorem present_cons (field : Field × Option α) (given : List (Field × Option α)) :
    present (field :: given) = field.2.toList.map (field.1.name, ·) ++ present given :=
  List.flatMap_cons

theorem forall_mem_present {given : List (Field × Option α)} {P : String × α → Prop} :
    (∀ field ∈ present given, P field) ↔
      ∀ field ∈ given, ∀ a ∈ field.2, P (field.1.name, a) := by
  rw [present, List.forall_mem_flatMap]
  refine forall₂_congr fun field _ => ?_
  rw [List.forall_mem_map]
  simp only [Option.mem_toList, Option.mem_def]

theorem map_present {β : Type} (g : α → β) (given : List (Field × Option α)) :
    ((present given).map fun field => (field.1, g field.2)) =
      present (given.map fun field => (field.1, field.2.map g)) := by
  simp only [present, List.map_flatMap, List.flatMap_map]
  refine List.flatMap_congr fun field _ => ?_
  cases field.2 <;> rfl

theorem filter_present_of_notMem {given : List (Field × Option α)} {name : String}
    (h : name ∉ given.map (·.1.name)) : (present given).filter (·.1 == name) = [] := by
  rw [List.filter_eq_nil_iff, forall_mem_present]
  exact fun field hfield a _ hname =>
    h (List.mem_map.mpr ⟨field, hfield, beq_iff_eq.mp hname⟩)

theorem filter_present {given : List (Field × Option α)} (h : (given.map (·.1.name)).Nodup)
    {field : Field × Option α} (hfield : field ∈ given) :
    (present given).filter (·.1 == field.1.name) = field.2.toList.map (field.1.name, ·) := by
  induction given with
  | nil => cases hfield
  | cons first given ih =>
    rw [List.map_cons, List.nodup_cons] at h
    rw [present_cons, List.filter_append]
    rcases List.mem_cons.mp hfield with rfl | hrest
    · rw [filter_present_of_notMem h.1, List.append_nil]
      cases field.2 <;> simp
    · have hne : first.1.name ≠ field.1.name := fun heq => h.1 (heq ▸ List.mem_map_of_mem hrest)
      have hfirst : (first.2.toList.map (first.1.name, ·)).filter (·.1 == field.1.name) = [] := by
        cases first.2 <;> simp [hne]
      rw [hfirst, List.nil_append, ih h.2 hrest]

/-! ## Slots -/

/-- Fields under different names fill their own slots if those that must be given are. -/
theorem slotsOfFields_present {given : List (Field × Option α)}
    (h : (given.map (·.1.name)).Nodup)
    (hrequired : ∀ field ∈ given, field.1.isRequired = true → field.2.isSome = true) :
    slotsOfFields (given.map (·.1)) (present given) = some (given.map (·.2)) := by
  rw [slotsOfFields, List.mapM_map]
  refine mapM_eq_some_map_iff.mpr fun field hfield => ?_
  have hslot := hrequired field hfield
  rw [Function.comp_apply, slotOf, filter_present h hfield]
  cases hvalue : field.2 with
  | some a => rfl
  | none =>
    rw [hvalue] at hslot
    cases hneeded : field.1.isRequired with
    | true => cases hslot hneeded
    | false => simp

theorem slotsOfFields_missing {declared : List Field} {fields : List (String × α)} {field : Field}
    (hfield : field ∈ declared) (hrequired : field.isRequired = true)
    (hmissing : field.name ∉ fields.map (·.1)) : slotsOfFields declared fields = none := by
  have hslot : slotOf fields field = none := by
    have hfilter : fields.filter (·.1 == field.name) = [] := by
      rw [List.filter_eq_nil_iff]
      intro given hgiven hname
      exact hmissing (List.mem_map.mpr ⟨given, hgiven, beq_iff_eq.mp hname⟩)
    rw [slotOf, hfilter, if_pos hrequired]
  rw [slotsOfFields, Option.eq_none_iff_forall_ne_some]
  intro slots hslots
  obtain ⟨before, after, rfl⟩ := List.append_of_mem hfield
  simp [List.mapM_append, hslot] at hslots

theorem slotsOfItems_full {declared : List Field} {items : List α}
    (h : declared.length = items.length) : slotsOfItems declared items = some (items.map some) := by
  simp [slotsOfItems, h, List.drop_eq_nil_of_le (Nat.le_of_eq h)]

theorem slotsOfItems_missing {declared : List Field} {items : List α} {field : Field}
    (hfield : field ∈ declared.drop items.length) (hrequired : field.isRequired = true) :
    slotsOfItems declared items = none := by
  have hany : (declared.drop items.length).any (·.isRequired) = true :=
    List.any_eq_true.mpr ⟨field, hfield, hrequired⟩
  rw [slotsOfItems, hany, Bool.or_true, if_pos rfl]

theorem slotsOfItems_excess {declared : List Field} {items : List α}
    (h : declared.length < items.length) : slotsOfItems declared items = none := by
  simp [slotsOfItems, h]

/-- The tag that a record starts with is read as the name of its variant. -/
theorem variantOf_record {tag name : String} {fields : List (String × Json)}
    (h : tag ∉ fields.map (·.1)) :
    variantOf tag (record ((tag, text name) :: fields)) = some (name, record fields) := by
  have hother : ∀ field ∈ fields, field.1 ≠ tag :=
    fun field hfield heq => h (heq ▸ List.mem_map_of_mem hfield)
  have htag : fields.filter (·.1 == tag) = [] := by
    rw [List.filter_eq_nil_iff]
    exact fun field hfield heq => hother field hfield (beq_iff_eq.mp heq)
  have hrest : fields.filter (·.1 != tag) = fields :=
    List.filter_eq_self.mpr fun field hfield => bne_iff_ne.mpr (hother field hfield)
  simp [variantOf, htag, hrest]

end ObjectQuery.Json
