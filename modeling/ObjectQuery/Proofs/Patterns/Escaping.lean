import ObjectQuery.Proofs.Patterns.Matching
import ObjectQuery.Capabilities

/-!
# Escaped patterns

A value that is escaped and given wildcards matches as a value and not as a pattern.

* `Pattern.escapeWith_eq_flatMap`: escaping one reserved text after the other puts one escape
  character in front of every reserved character.
* `Pattern.tokens_escape_append`: an escaped value is read as its characters.
* `Pattern.like_wrap_escape`: the pattern matches a text exactly if the value is in it where the
  mode asks for it.
-/

namespace ObjectQuery.Pattern

/-- Reserved texts that can be escaped: the wildcards among single characters, none of which
serves as escape. -/
structure IsReserved (reserved : List String) : Prop where
  single : ∀ token ∈ reserved, ∃ c, token = String.singleton c ∧ c ∉ escapeCandidates
  nodup : reserved.Nodup
  percent : "%" ∈ reserved
  underscore : "_" ∈ reserved

variable {reserved : List String} {e c : Char}

/-! ## Escaping as a map of characters -/

theorem replace_singleton (token : Char) (replacement s : List Char) :
    Text.replace [token] replacement s =
      s.flatMap fun c => if c = token then replacement else [c] := by
  change Text.replaceFrom [token] replacement 0 s = _
  induction s with
  | nil => rfl
  | cons c s ih =>
    rw [Text.replaceFrom, List.flatMap_cons]
    by_cases h : c = token
    · simp [h, ih]
    · simp [h, Ne.symm h, ih]

/-- A character as it stands in an escaped value. -/
def escapeChar (e : Char) (reserved : List String) (c : Char) : List Char :=
  if String.singleton c ∈ reserved then [e, c] else [c]

theorem escapeChar_of_mem (h : String.singleton c ∈ reserved) :
    escapeChar e reserved c = [e, c] :=
  if_pos h

theorem escapeChar_of_not_mem (h : String.singleton c ∉ reserved) :
    escapeChar e reserved c = [c] :=
  if_neg h

/-- One reserved text after the other is escaped, and an escape that was put in by one of them is
not escaped by a later one. -/
theorem escapeWith_eq_flatMap (hsingle : ∀ token ∈ reserved, ∃ c, token = String.singleton c)
    (hnodup : reserved.Nodup) (hescape : String.singleton e ∉ reserved) (value : List Char) :
    escapeWith e reserved value = value.flatMap (escapeChar e reserved) := by
  induction reserved generalizing value with
  | nil =>
    have hself : escapeChar e [] = fun c => [c] := by
      funext c
      exact escapeChar_of_not_mem List.not_mem_nil
    rw [hself, List.flatMap_singleton']
    rfl
  | cons token reserved ih =>
    obtain ⟨c, rfl⟩ := hsingle _ List.mem_cons_self
    obtain ⟨hc, hnodup⟩ := List.nodup_cons.mp hnodup
    have hrest := ih (fun token h => hsingle token (List.mem_cons_of_mem _ h)) hnodup
      fun h => hescape (List.mem_cons_of_mem _ h)
    have hne : String.singleton e ≠ String.singleton c := fun h =>
      hescape (h ▸ List.mem_cons_self)
    calc escapeWith e (String.singleton c :: reserved) value
        = escapeWith e reserved (Text.replace [c] [e, c] value) := by
          rw [escapeWith, List.foldl_cons, String.toList_singleton]
          rfl
      _ = (value.flatMap fun x => if x = c then [e, c] else [x]).flatMap
            (escapeChar e reserved) := by
          rw [hrest, replace_singleton]
      _ = value.flatMap (escapeChar e (String.singleton c :: reserved)) := by
          rw [List.flatMap_assoc]
          refine List.flatMap_congr fun x _ => ?_
          by_cases hx : x = c
          · subst hx
            rw [if_pos rfl, escapeChar_of_mem List.mem_cons_self, List.flatMap_cons,
              List.flatMap_singleton, escapeChar_of_not_mem hc,
              escapeChar_of_not_mem fun h => hescape (List.mem_cons_of_mem _ h)]
            rfl
          · have hne : String.singleton x ≠ String.singleton c := by simpa using hx
            rw [if_neg hx, List.flatMap_singleton]
            simp [escapeChar, hne]

/-! ## Reading an escaped value -/

/-- The escape that is chosen is a candidate that does not occur in the value. -/
theorem escape_cases (reserved : List String) (value : String)
    (hfree : ∃ c ∈ escapeCandidates, c ∉ value.toList) :
    ∃ e ∈ escapeCandidates, e ∉ value.toList ∧
      (escape value reserved = (value, none) ∧
          escapeWith e reserved value.toList = value.toList ∨
        escape value reserved =
          (String.ofList (escapeWith e reserved value.toList), some e)) := by
  cases hfind : escapeCandidates.find? fun c => !value.toList.contains c with
  | none =>
    obtain ⟨c, hc, hfree⟩ := hfree
    have hc := List.find?_eq_none.mp hfind c hc
    simp [hfree] at hc
  | some e =>
    have he : e ∉ value.toList := by simpa using List.find?_some hfind
    refine ⟨e, List.mem_of_find?_eq_some hfind, he, ?_⟩
    by_cases hsame : escapeWith e reserved value.toList = value.toList
    · exact .inl ⟨by simp only [escape, hfind, if_pos hsame], hsame⟩
    · exact .inr (by simp only [escape, hfind, if_neg hsame])

variable (hreserved : IsReserved reserved)
include hreserved

theorem IsReserved.not_mem (hcandidate : c ∈ escapeCandidates) :
    String.singleton c ∉ reserved := by
  intro hmem
  obtain ⟨d, heq, hd⟩ := hreserved.single _ hmem
  obtain rfl : c = d := by simpa using heq
  exact hd hcandidate

theorem IsReserved.ofChar (hc : String.singleton c ∉ reserved) : Token.ofChar c = .char c := by
  refine Token.ofChar_of_plain ?_ ?_
  · rintro rfl
    exact hc hreserved.percent
  · rintro rfl
    exact hc hreserved.underscore

theorem IsReserved.escapeWith_eq (hcandidate : e ∈ escapeCandidates) (value : List Char) :
    escapeWith e reserved value = value.flatMap (escapeChar e reserved) :=
  escapeWith_eq_flatMap (fun token h => (hreserved.single token h).imp fun _ h => h.1)
    hreserved.nodup (hreserved.not_mem hcandidate) value

/-- Without reserved characters every character stands for itself. -/
theorem tokens_plain_append {value : List Char}
    (hvalue : ∀ c ∈ value, String.singleton c ∉ reserved) (rest : List Char) :
    tokens none (value ++ rest) = (tokens none rest).map (value.map .char ++ ·) := by
  induction value with
  | nil => simp
  | cons c value ih =>
    have hc := hreserved.ofChar (hvalue c List.mem_cons_self)
    rw [List.cons_append, tokens_cons (by simp), hc,
      ih fun c h => hvalue c (List.mem_cons_of_mem _ h)]
    simp [Function.comp_def]

/-- A reserved character is read through its escape, any other one as it stands. -/
theorem tokens_flatMap_append {value : List Char} (hvalue : e ∉ value) (rest : List Char) :
    tokens (some e) (value.flatMap (escapeChar e reserved) ++ rest) =
      (tokens (some e) rest).map (value.map .char ++ ·) := by
  induction value with
  | nil => simp
  | cons c value ih =>
    have hne : some e ≠ some c := by
      rintro ⟨⟩
      exact hvalue List.mem_cons_self
    have ih := ih fun h => hvalue (List.mem_cons_of_mem _ h)
    rw [List.flatMap_cons]
    by_cases hc : String.singleton c ∈ reserved
    · rw [escapeChar_of_mem hc, List.append_assoc, List.cons_append, List.cons_append,
        List.nil_append, tokens_escaped, ih]
      simp [Function.comp_def]
    · rw [escapeChar_of_not_mem hc, List.append_assoc, List.cons_append, List.nil_append,
        tokens_cons hne, ih, hreserved.ofChar hc]
      simp [Function.comp_def]

/-- An escaped value is read as its characters, whatever comes after it. -/
theorem tokens_escape_append (value : String)
    (hfree : ∃ c ∈ escapeCandidates, c ∉ value.toList) (rest : List Char) :
    tokens (escape value reserved).2
        ((escape value reserved).1.toList ++ rest) =
      (tokens (escape value reserved).2 rest).map (value.toList.map .char ++ ·) := by
  obtain ⟨e, hcandidate, hvalue, ⟨heq, hsame⟩ | heq⟩ := escape_cases reserved value hfree
  · rw [heq]
    refine tokens_plain_append hreserved (fun c hc hmem => ?_) rest
    -- An escaped character would have brought the escape into the value.
    rw [hreserved.escapeWith_eq hcandidate] at hsame
    refine hvalue (hsame ▸ List.mem_flatMap.mpr ⟨c, hc, ?_⟩)
    rw [escapeChar_of_mem hmem]
    exact List.mem_cons_self
  · rw [heq, String.toList_ofList, hreserved.escapeWith_eq hcandidate]
    exact tokens_flatMap_append hreserved hvalue rest

/-- The wildcards that are added keep their meaning. -/
theorem escape_ne_percent (value : String) (hfree : ∃ c ∈ escapeCandidates, c ∉ value.toList) :
    (escape value reserved).2 ≠ some '%' := by
  obtain ⟨e, hcandidate, -, ⟨heq, -⟩ | heq⟩ := escape_cases reserved value hfree
  · simp [heq]
  · rw [heq]
    rintro ⟨⟩
    exact hreserved.not_mem hcandidate hreserved.percent

theorem tokens_wrap_escape (value : String)
    (hfree : ∃ c ∈ escapeCandidates, c ∉ value.toList) (mode : MatchMode) :
    tokens (escape value reserved).2 (wrap (escape value reserved).1 mode).toList =
      some (mode.tokens value.toList) := by
  have hread := tokens_escape_append hreserved value hfree
  have hmany := tokens_wildcard (escape_ne_percent hreserved value hfree)
  generalize escape value reserved = escaped at hread hmany ⊢
  have hend : tokens escaped.2 [] = some [] := by rw [tokens]
  have hvalue : tokens escaped.2 escaped.1.toList = some (value.toList.map .char) := by
    simpa [hend] using hread []
  have hstart : tokens escaped.2 (escaped.1.toList ++ ['%']) =
      some (value.toList.map .char ++ [.many]) := by
    rw [hread, hmany, hend]
    rfl
  cases mode <;> simp [wrap, MatchMode.tokens, hmany, hvalue, hstart]

/-- An escaped value with the wildcards of a mode matches exactly the texts in which the value is
found. -/
theorem like_wrap_escape (value : String)
    (hfree : ∃ c ∈ escapeCandidates, c ∉ value.toList) (mode : MatchMode) (subject : String) :
    like (escape value reserved).2 (wrap (escape value reserved).1 mode) subject = true ↔
      mode.Finds value.toList subject.toList := by
  rw [like, tokens_wrap_escape hreserved value hfree, Option.any_some]
  exact mode.accepts_tokens value.toList subject.toList

omit hreserved

/-- What a backend reserves can be escaped. -/
theorem isReserved_ofBackend (backend : Backend) :
    IsReserved (Capabilities.ofBackend backend).reserved where
  single := by
    intro token htoken
    rcases List.mem_cons.mp htoken with rfl | htoken
    · exact ⟨'%', rfl, by decide⟩
    · obtain rfl := List.mem_singleton.mp htoken
      exact ⟨'_', rfl, by decide⟩
  nodup := by simp [Capabilities.ofBackend]
  percent := List.mem_cons_self
  underscore := List.mem_cons_of_mem _ List.mem_cons_self

theorem isReserved_brackets : IsReserved ["_", "[", "%"] where
  single := by
    intro token htoken
    simp only [List.mem_cons, List.not_mem_nil, or_false] at htoken
    rcases htoken with rfl | rfl | rfl
    · exact ⟨'_', rfl, by decide⟩
    · exact ⟨'[', rfl, by decide⟩
    · exact ⟨'%', rfl, by decide⟩
  nodup := by decide
  percent := by decide
  underscore := by decide

/-- What a backend reserves is escaped as well as other characters that are. In the latter case the
first candidate occurs in the value, so that the second one escapes. -/
theorem like_wrap_escape_second_candidate :
    (like (escape "100%" (Capabilities.ofBackend .postgres).reserved).2
          (wrap (escape "100%" (Capabilities.ofBackend .postgres).reserved).1 .start) "100% ok" =
        true ↔ "100%".toList <+: "100% ok".toList) ∧
      escape "5%_@[x" ["_", "[", "%"] = ("5~%~_@~[x", some '~') ∧
      (like (escape "5%_@[x" ["_", "[", "%"]).2
          (wrap (escape "5%_@[x" ["_", "[", "%"]).1 .anywhere) "a5%_@[xb" = true ↔
        "5%_@[x".toList <:+: "a5%_@[xb".toList) :=
  ⟨like_wrap_escape (isReserved_ofBackend .postgres) "100%" ⟨'@', by decide, by decide⟩ .start
      "100% ok",
    by decide +kernel,
    like_wrap_escape isReserved_brackets "5%_@[x" ⟨'~', by decide, by decide⟩ .anywhere "a5%_@[xb"⟩

end ObjectQuery.Pattern
