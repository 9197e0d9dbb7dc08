import ObjectQuery.Proofs.Json.Numbers
import ObjectQuery.Proofs.Json.Texts
import ObjectQuery.Proofs.Json.Trees

/-!
# Documents read back

`Json.parse_render`: the text of every document is read part by part, up to the lists and records
that are nested too deeply.

* `Json.Recovers`: a document whose text is read again in front of any other text, with one rule for
  each kind of document.
-/

namespace ObjectQuery.Json

/-- What is read for a number has no parts. -/
theorem Number.depth_reread (n : Number) : depth n.reread = 0 := by
  rcases n.exists_literal_or_null with ⟨l, htext⟩ | hnull
  · rw [reread_of_text htext, Literal.read]
    cases ofParts l.negative l.whole.digits (l.fraction.map DigitRow.digits)
      (l.exponent.map Literal.power) <;> rfl
  · rw [reread_of_null hnull]
    rfl

/-! ## Reading -/

/-- The text of a document is read back, whatever stands behind it. Two calls of the reader take at
least one character. -/
def Recovers (j : Json) : Prop :=
  ∀ fuel limit rest, 2 * j.render.toList.length ≤ fuel → Stops rest →
    readValue fuel limit (j.render.toList ++ rest) = some (clip limit (j.reread Number.reread), rest)

/-- The first character of a document's text is no blank and does not close a list. -/
def Opens (s : List Char) : Prop := ∃ c rest, s = c :: rest ∧ isGap c = false ∧ c ≠ ']'

theorem skipGap_cons {c : Char} (h : isGap c = false) (rest : List Char) :
    skipGap (c :: rest) = c :: rest := by
  rw [skipGap, List.dropWhile_cons_of_neg (by simp [h])]

theorem expect_append (word : String) (rest : List Char) :
    expect word (word.toList ++ rest) = some rest := by
  rw [expect, if_pos (by simp), ← String.length_toList, List.drop_left]

theorem skipGap_quote (s : List Char) : skipGap ('"' :: s) = '"' :: s := skipGap_cons (by decide) s

theorem expect_quote (s : List Char) : expect "\"" ('"' :: s) = some s := expect_append "\"" s

/-- A colon is expected with no blank in front of it. -/
theorem expect_colon (s : List Char) : expect ":" (skipGap (':' :: s)) = some s := by
  rw [skipGap_cons (by decide)]
  exact expect_append ":" s

theorem Opens.skipGap {s : List Char} (h : Opens s) (rest : List Char) :
    Json.skipGap (s ++ rest) = s ++ rest := by
  obtain ⟨c, tail, rfl, hgap, -⟩ := h
  exact skipGap_cons hgap _

/-- What starts a number is no blank and starts nothing else. -/
theorem ne_of_startsNumber {c d : Char} (hc : Digits.isDigit c = true ∨ c = '-')
    (hd : (!Digits.isDigit d && d != '-') = true) : c ≠ d := by
  rintro rfl
  rcases hc with h | rfl
  · simp [h] at hd
  · exact absurd hd (by decide)

theorem isGap_of_startsNumber {c : Char} (hc : Digits.isDigit c = true ∨ c = '-') :
    isGap c = false := by
  simp only [isGap, Bool.or_eq_false_iff, decide_eq_false_iff_not]
  exact ⟨⟨⟨ne_of_startsNumber hc (by decide), ne_of_startsNumber hc (by decide)⟩,
    ne_of_startsNumber hc (by decide)⟩, ne_of_startsNumber hc (by decide)⟩

theorem readValue_number {c : Char} (hc : Digits.isDigit c = true ∨ c = '-') (fuel limit : Nat)
    (rest : List Char) : readValue (fuel + 1) limit (c :: rest) = readNumber (c :: rest) := by
  have hquote : c ≠ '"' := ne_of_startsNumber hc (by decide)
  have hlist : c ≠ '[' := ne_of_startsNumber hc (by decide)
  have hrecord : c ≠ '\x7b' := ne_of_startsNumber hc (by decide)
  have hnull : c ≠ 'n' := ne_of_startsNumber hc (by decide)
  have htrue : c ≠ 't' := ne_of_startsNumber hc (by decide)
  have hfalse : c ≠ 'f' := ne_of_startsNumber hc (by decide)
  simp [readValue, skipGap_cons (isGap_of_startsNumber hc), hquote, hlist, hrecord, hnull, htrue,
    hfalse]

theorem opens_null : Opens "null".toList := ⟨'n', ['u', 'l', 'l'], rfl, by decide, by decide⟩

theorem opens_render (j : Json) : Opens j.render.toList := by
  cases j with
  | null | unreadable => exact opens_null
  | bool b => cases b <;> exact ⟨_, _, rfl, by decide, by decide⟩
  | number n =>
    rw [render]
    rcases n.exists_literal_or_null with ⟨l, htext⟩ | hnull
    · obtain ⟨c, rest, hcons, hc⟩ := l.exists_cons
      rw [← htext, hcons]
      exact ⟨c, rest, rfl, isGap_of_startsNumber hc, ne_of_startsNumber hc (by decide)⟩
    · rw [hnull]
      exact opens_null
  | text s => exact ⟨'"', _, quote_toList s, by decide, by decide⟩
  | list items =>
    exact ⟨'[', (renderItems items).toList ++ [']'], by simp [render], by decide, by decide⟩
  | record fields =>
    exact ⟨'\x7b', (renderFields fields).toList ++ ['\x7d'], by simp [render], by decide, by decide⟩

theorem renderItems_cons (item next : Json) (items : List Json) :
    (renderItems (item :: next :: items)).toList =
      item.render.toList ++ ',' :: (renderItems (next :: items)).toList := by
  simp [renderItems]

theorem renderFields_singleton (field : String × Json) :
    (renderFields [field]).toList = (quote field.1).toList ++ ':' :: field.2.render.toList := by
  simp [renderFields]

theorem renderFields_cons (field next : String × Json) (fields : List (String × Json)) :
    (renderFields (field :: next :: fields)).toList =
      (quote field.1).toList ++ ':' :: (field.2.render.toList ++
        ',' :: (renderFields (next :: fields)).toList) := by
  simp [renderFields]

/-- Items are read up to the end of their list, one call for each of them. -/
theorem readItems_render {item : Json} {items : List Json}
    (h : ∀ j ∈ item :: items, Recovers j) {fuel : Nat} (limit : Nat) (rest : List Char)
    (hfuel : 2 * (renderItems (item :: items)).toList.length < fuel) :
    readItems fuel limit ((renderItems (item :: items)).toList ++ ']' :: rest) =
      some ((item :: items).map fun j => clip limit (j.reread Number.reread), rest) := by
  induction items generalizing item fuel with
  | nil =>
    obtain ⟨fuel, rfl⟩ := Nat.exists_eq_succ_of_ne_zero (Nat.ne_zero_of_lt hfuel)
    have hread := h item List.mem_cons_self fuel limit (']' :: rest) (Nat.le_of_lt_succ hfuel)
      (stops_cons (by decide) rest)
    have hgap : skipGap (']' :: rest) = ']' :: rest := skipGap_cons (by decide) rest
    simp only [readItems, renderItems, hread, hgap, Option.bind_eq_bind, Option.bind_some,
      List.map_cons, List.map_nil]
  | cons next items ih =>
    obtain ⟨fuel, rfl⟩ := Nat.exists_eq_succ_of_ne_zero (Nat.ne_zero_of_lt hfuel)
    obtain ⟨hitem, hitems⟩ := List.forall_mem_cons.mp h
    rw [renderItems_cons, List.length_append, List.length_cons] at hfuel
    have hread := hitem fuel limit (',' :: ((renderItems (next :: items)).toList ++ ']' :: rest))
      (by omega) (stops_cons (by decide) _)
    have hgap : skipGap (',' :: ((renderItems (next :: items)).toList ++ ']' :: rest)) = _ :=
      skipGap_cons (by decide) _
    rw [renderItems_cons, List.append_assoc, List.cons_append]
    simp only [readItems, hread, hgap, ih hitems (show _ < fuel by omega), Option.bind_eq_bind,
      Option.bind_some, List.map_cons]

section

variable {field : String × Json} (h : Recovers field.2) {fuel : Nat} (limit : Nat)
  (hfuel : 2 * field.2.render.toList.length ≤ fuel) (rest : List Char)

include h hfuel

/-- The last field of a record is read up to the end of the record. -/
theorem readFields_last :
    readFields (fuel + 1) limit
        ((quote field.1).toList ++ ':' :: (field.2.render.toList ++ '\x7d' :: rest)) =
      some (some [(field.1, clip limit (field.2.reread Number.reread))], rest) := by
  have hread := h fuel limit ('\x7d' :: rest) hfuel (stops_cons (by decide) rest)
  have hclose : skipGap ('\x7d' :: rest) = '\x7d' :: rest := skipGap_cons (by decide) rest
  rw [quote_toList, List.cons_append, List.append_assoc, List.singleton_append, readFields]
  simp only [skipGap_quote, expect_quote, readText_escaped, expect_colon, hread, hclose,
    Option.bind_eq_bind, Option.bind_some, Option.map_some, String.ofList_toList]

/-- Any other field is read up to the comma behind it. -/
theorem readFields_next :
    readFields (fuel + 1) limit
        ((quote field.1).toList ++ ':' :: (field.2.render.toList ++ ',' :: rest)) =
      (readFields fuel limit rest).bind fun read =>
        some (read.1.map ((field.1, clip limit (field.2.reread Number.reread)) :: ·), read.2) := by
  have hread := h fuel limit (',' :: rest) hfuel (stops_cons (by decide) rest)
  have hcomma : skipGap (',' :: rest) = ',' :: rest := skipGap_cons (by decide) rest
  rw [quote_toList, List.cons_append, List.append_assoc, List.singleton_append, readFields]
  simp only [skipGap_quote, expect_quote, readText_escaped, expect_colon, hread, hcomma,
    Option.bind_eq_bind, Option.bind_some, Option.map_some, String.ofList_toList]

end

theorem readFields_render {field : String × Json} {fields : List (String × Json)}
    (h : ∀ f ∈ field :: fields, Recovers f.2) {fuel : Nat} (limit : Nat) (rest : List Char)
    (hfuel : 2 * (renderFields (field :: fields)).toList.length < fuel) :
    readFields fuel limit ((renderFields (field :: fields)).toList ++ '\x7d' :: rest) =
      some (some ((field :: fields).map fun f => (f.1, clip limit (f.2.reread Number.reread))),
        rest) := by
  induction fields generalizing field fuel with
  | nil =>
    obtain ⟨fuel, rfl⟩ := Nat.exists_eq_succ_of_ne_zero (Nat.ne_zero_of_lt hfuel)
    rw [renderFields_singleton, List.length_append, List.length_cons] at hfuel
    rw [renderFields_singleton, List.append_assoc, List.cons_append,
      readFields_last (h field List.mem_cons_self) limit (by omega)]
    rfl
  | cons next fields ih =>
    obtain ⟨fuel, rfl⟩ := Nat.exists_eq_succ_of_ne_zero (Nat.ne_zero_of_lt hfuel)
    obtain ⟨hfield, hfields⟩ := List.forall_mem_cons.mp h
    rw [renderFields_cons, List.length_append, List.length_cons, List.length_append,
      List.length_cons] at hfuel
    rw [renderFields_cons, List.append_assoc, List.cons_append, List.append_assoc, List.cons_append,
      readFields_next hfield limit (by omega)]
    have hread := @ih next hfields fuel (by omega)
    simp only [hread, Option.bind_some, Option.map_some, List.map_cons]

theorem readValue_list (fuel limit : Nat) {s : List Char} (h : Opens s) :
    readValue (fuel + 1) limit ('[' :: s) =
      (readItems fuel (limit - 1) s).map fun read =>
        (if limit = 0 then .unreadable else .list read.1, read.2) := by
  have hgap : skipGap ('[' :: s) = '[' :: s := skipGap_cons (by decide) s
  have hitems := h.skipGap []
  rw [List.append_nil] at hitems
  obtain ⟨c, rest, rfl, -, hclose⟩ := h
  simp only [readValue, hgap, hitems, Option.bind_eq_bind]
  split
  · rename_i heq
    exact absurd (List.cons.inj heq).1 hclose
  · cases readItems fuel (limit - 1) (c :: rest) with
    | none => rfl
    | some read => simp

theorem readValue_record (fuel limit : Nat) (s : List Char) :
    readValue (fuel + 1) limit ('\x7b' :: '"' :: s) =
      (readFields fuel (limit - 1) ('"' :: s)).map fun read =>
        (if limit = 0 then .unreadable else recordOf read.1, read.2) := by
  have hgap : skipGap ('\x7b' :: '"' :: s) = '\x7b' :: '"' :: s := skipGap_cons (by decide) _
  simp only [readValue, hgap, skipGap_quote, Option.bind_eq_bind]
  split
  · rename_i heq
    exact absurd (List.cons.inj heq).1 (by decide)
  · cases readFields fuel (limit - 1) ('"' :: s) with
    | none => rfl
    | some read => simp

/-- What the reader makes of a text with one call at hand, it makes of it with any fuel that covers
the text. -/
theorem recovers_of_one_call {j : Json}
    (h : ∀ fuel limit rest, 2 * j.render.toList.length ≤ fuel + 1 → Stops rest →
      readValue (fuel + 1) limit (j.render.toList ++ rest) =
        some (clip limit (j.reread Number.reread), rest)) :
    Recovers j := by
  intro fuel limit rest hfuel hstops
  obtain ⟨c, tail, heq, -⟩ := opens_render j
  obtain ⟨fuel, rfl⟩ : ∃ left, fuel = left + 1 := by
    rw [heq, List.length_cons] at hfuel
    exact Nat.exists_eq_succ_of_ne_zero (by omega)
  exact h fuel limit rest hfuel hstops

theorem readValue_null (fuel limit : Nat) (rest : List Char) :
    readValue (fuel + 1) limit ("null".toList ++ rest) = some (null, rest) := by
  have hgap : skipGap ('n' :: 'u' :: 'l' :: 'l' :: rest) = _ := skipGap_cons (by decide) _
  have hword : expect "ull" ('u' :: 'l' :: 'l' :: rest) = some rest := expect_append "ull" rest
  simp [readValue, hgap, hword]

theorem recovers_bool (b : Bool) : Recovers (bool b) := by
  refine recovers_of_one_call fun fuel limit rest _ _ => ?_
  cases b with
  | false =>
    have hgap : skipGap ('f' :: 'a' :: 'l' :: 's' :: 'e' :: rest) = _ := skipGap_cons (by decide) _
    have hword : expect "alse" ('a' :: 'l' :: 's' :: 'e' :: rest) = some rest :=
      expect_append "alse" rest
    simp [render, readValue, hgap, hword, clip, reread]
  | true =>
    have hgap : skipGap ('t' :: 'r' :: 'u' :: 'e' :: rest) = _ := skipGap_cons (by decide) _
    have hword : expect "rue" ('r' :: 'u' :: 'e' :: rest) = some rest := expect_append "rue" rest
    simp [render, readValue, hgap, hword, clip, reread]

theorem recovers_number (n : Number) : Recovers (number n) := by
  refine recovers_of_one_call fun fuel limit rest _ hstops => ?_
  rw [render, reread, clip_of_depth_le (n.depth_reread.symm ▸ Nat.zero_le limit)]
  rcases n.exists_literal_or_null with ⟨l, htext⟩ | hnull
  · have hread := readNumber_text l hstops
    obtain ⟨c, tail, hcons, hc⟩ := l.exists_cons
    rw [← htext, Number.reread_of_text htext, ← hread, hcons, List.cons_append,
      readValue_number hc]
  · rw [hnull, Number.reread_of_null hnull, readValue_null]

theorem recovers_text (s : String) : Recovers (text s) := by
  refine recovers_of_one_call fun fuel limit rest _ _ => ?_
  rw [render, quote_toList, List.cons_append, List.append_assoc, List.singleton_append]
  simp only [readValue, skipGap_quote, readQuoted_escaped, clip, reread]

theorem recovers_list {items : List Json} (h : ∀ j ∈ items, Recovers j) :
    Recovers (list items) := by
  refine recovers_of_one_call fun fuel limit rest hfuel _ => ?_
  have htext : (list items).render.toList ++ rest =
      '[' :: ((renderItems items).toList ++ ']' :: rest) := by
    simp [render]
  have hlength : (list items).render.toList.length = (renderItems items).toList.length + 2 := by
    simp [render]
  rw [htext, reread, clip, rereadItems_eq, clipItems_eq, List.map_map]
  cases items with
  | nil =>
    have hgap : skipGap ('[' :: ']' :: rest) = _ := skipGap_cons (by decide) _
    have hclose : skipGap (']' :: rest) = _ := skipGap_cons (by decide) _
    simp [readValue, renderItems, hgap, hclose]
  | cons item items =>
    have hopens : Opens ((renderItems (item :: items)).toList ++ ']' :: rest) := by
      obtain ⟨c, tail, heq, hc⟩ := opens_render item
      cases items with
      | nil => exact ⟨c, tail ++ ']' :: rest, by simp [renderItems, heq], hc⟩
      | cons next items => exact ⟨c, _, by rw [renderItems_cons, heq]; rfl, hc⟩
    rw [readValue_list fuel limit hopens, readItems_render h _ _ (by omega)]
    rfl

theorem recovers_record {fields : List (String × Json)} (h : ∀ f ∈ fields, Recovers f.2) :
    Recovers (record fields) := by
  refine recovers_of_one_call fun fuel limit rest hfuel _ => ?_
  have htext : (record fields).render.toList ++ rest =
      '\x7b' :: ((renderFields fields).toList ++ '\x7d' :: rest) := by
    simp [render]
  have hlength :
      (record fields).render.toList.length = (renderFields fields).toList.length + 2 := by
    simp [render]
  rw [htext, reread, clip, rereadFields_eq, clipFields_eq, List.map_map]
  cases fields with
  | nil =>
    have hgap : skipGap ('\x7b' :: '\x7d' :: rest) = _ := skipGap_cons (by decide) _
    have hclose : skipGap ('\x7d' :: rest) = _ := skipGap_cons (by decide) _
    simp [readValue, renderFields, hgap, hclose, recordOf]
  | cons field fields =>
    obtain ⟨s, hs⟩ : ∃ s, (renderFields (field :: fields)).toList ++ '\x7d' :: rest = '"' :: s := by
      cases fields with
      | nil => exact ⟨_, by rw [renderFields_singleton, quote_toList]; rfl⟩
      | cons next fields => exact ⟨_, by rw [renderFields_cons, quote_toList]; rfl⟩
    have hread := readFields_render h (limit - 1) rest (show _ < fuel by omega)
    rw [hs] at hread ⊢
    rw [readValue_record, hread]
    rfl

theorem recovers (j : Json) : Recovers j := by
  induction j using Json.induction with
  | null | unreadable =>
    exact recovers_of_one_call fun fuel limit rest _ _ => readValue_null fuel limit rest
  | bool b => exact recovers_bool b
  | number n => exact recovers_number n
  | text s => exact recovers_text s
  | list items ih => exact recovers_list ih
  | record fields ih => exact recovers_record ih

/-- The text of every document is read, up to what is nested too deeply. -/
theorem parse_render (j : Json) :
    parse j.render = some (clip depthLimit (j.reread Number.reread)) := by
  have hfuel : 2 * j.render.toList.length ≤ 2 * j.render.length + 2 := by
    rw [String.length_toList]
    omega
  have hread := recovers j _ depthLimit [] hfuel stops_nil
  rw [List.append_nil] at hread
  rw [parse, hread]
  rfl

end ObjectQuery.Json
