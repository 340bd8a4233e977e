import MiniDms.Validation.Metadata
import MiniDms.Validation.Tags

/-! # The two multipart encodings of a tag list

A form sends tags as the JSON text of an array or as comma-separated text. The field tries JSON
first, so a comma-separated text must not happen to be JSON: without quotes, brackets and braces it
can only be a scalar, and a scalar has no comma. -/

namespace MiniDms

open Python

/-! ## Encodings -/

/-- A list of tags that both encodings can express. -/
structure AdmissibleTags (tags : List Str) : Prop where
  nonempty : tags ≠ []
  few : tags.length ≤ 32
  distinct : tags.Nodup
  sized : ∀ tag ∈ tags, 1 ≤ tag.length ∧ tag.length ≤ 64
  trimmed : ∀ tag ∈ tags, strip tag = tag
  plain : ∀ tag ∈ tags, ∀ c ∈ lit ",\x00[]\x7b\x7d\"", c ∉ tag

/-- The comma-separated text of a list of tags, with or without spaces after the commas. -/
inductive CsvText : List Str → Str → Prop
  | single (tag : Str) : CsvText [tag] tag
  | cons (tag : Str) (spaces : Nat) {tags : List Str} {text : Str} (h : CsvText tags text) :
      CsvText (tag :: tags)
        (tag ++ codePoint ',' :: (List.replicate spaces (codePoint ' ') ++ text))

/-- A form field's text is accepted by the field and by `validate_tags`, as this list. -/
def ReadsAs (field : JsonField) (text : Str) (tags : List Str) : Prop :=
  (multipartTags field (.form text)).bind validateTags = .ok tags

/-- Every text of the list in either encoding is read as the list. -/
def EncodingsAgree (field : JsonField) (tags : List Str) : Prop :=
  (∀ text, CsvText tags text → ReadsAs field text tags) ∧
    ∀ text, Json.ArrayText tags text → ReadsAs field text tags

/-! ## Validation -/

/-- An admissible list is one that `validate_tags` returns. -/
theorem AdmissibleTags.kept {tags : List Str} (h : AdmissibleTags tags) : KeptTags tags := by
  refine ⟨h.few, h.distinct, h.trimmed, fun tag htag => ?_⟩
  obtain ⟨hpos, hshort⟩ := h.sized tag htag
  have htrim := h.trimmed tag htag
  exact ⟨by rwa [htrim], by rwa [htrim], h.plain tag htag 0 (by decide)⟩

/-- An admissible list passes `validate_tags` unchanged. -/
theorem AdmissibleTags.validateTags {tags : List Str} (h : AdmissibleTags tags) :
    MiniDms.validateTags (.list (tags.map .str)) = .ok tags :=
  h.kept.validateTags

/-- A scalar is no list of tags. -/
theorem validateTags_scalar {v : Json} (h : Json.Scalar v) :
    validateTags v = invalid "Use a list of at most 32 tags." := by
  cases v with
  | null | bool _ | int _ | float _ => rfl
  | str _ | list _ | dict _ => cases h

/-! ## Comma-separated texts -/

namespace CsvText

variable {tags : List Str} {text : Str}

/-- The tags are what stands between the commas, stripped. -/
theorem map_strip_splitOn (h : CsvText tags text) (hcomma : ∀ tag ∈ tags, codePoint ',' ∉ tag)
    (htrim : ∀ tag ∈ tags, strip tag = tag) (spaces : Nat) :
    ((List.replicate spaces (codePoint ' ') ++ text).splitOn (codePoint ',')).map strip = tags := by
  have hspaces : ∀ n, codePoint ',' ∉ List.replicate n (codePoint ' ') := fun n hmem =>
    absurd (List.eq_of_mem_replicate hmem) (by decide)
  have hstrip : ∀ n tag, strip (List.replicate n (codePoint ' ') ++ tag) = strip tag :=
    fun n tag => strip_append_of_isSpace (fun c hc => by
      rw [List.eq_of_mem_replicate hc]
      decide) tag
  have hpiece : ∀ n tag, codePoint ',' ∉ tag →
      (List.replicate n (codePoint ' ') ++ tag).splitOn (codePoint ',') =
        [List.replicate n (codePoint ' ') ++ tag] := fun n tag htag => by
    refine List.splitOnP_eq_singleton fun c hc => ?_
    rw [beq_eq_false_iff_ne]
    rintro rfl
    exact (List.mem_append.mp hc).elim (hspaces n) htag
  induction h generalizing spaces with
  | single tag =>
      have htag : tag ∈ [tag] := List.mem_singleton_self tag
      rw [hpiece spaces tag (hcomma tag htag), List.map_singleton, hstrip, htrim tag htag]
  | @cons tag n tags text h ih =>
      obtain ⟨hfirst, hcomma⟩ := List.forall_mem_cons.mp hcomma
      obtain ⟨htag, htrim⟩ := List.forall_mem_cons.mp htrim
      have hsplit : (List.replicate spaces (codePoint ' ') ++ (tag ++ codePoint ',' ::
            (List.replicate n (codePoint ' ') ++ text))).splitOn (codePoint ',') =
          (List.replicate spaces (codePoint ' ') ++ tag).splitOn (codePoint ',') ++
            (List.replicate n (codePoint ' ') ++ text).splitOn (codePoint ',') := by
        rw [← List.append_assoc]
        exact List.splitOnP_append_cons _ _ (by simp)
      rw [hsplit, hpiece spaces tag hfirst, List.map_append, List.map_singleton, hstrip, htag,
        ih hcomma htrim n, List.singleton_append]

/-- Every character of the text is a tag's, a comma or a space. -/
theorem of_mem (h : CsvText tags text) {c : CodePoint} (hc : c ∈ text) :
    (∃ tag ∈ tags, c ∈ tag) ∨ c = codePoint ',' ∨ c = codePoint ' ' := by
  induction h with
  | single tag => exact .inl ⟨tag, List.mem_singleton_self tag, hc⟩
  | @cons tag n tags text h ih =>
      rcases List.mem_append.mp hc with hc | hc
      · exact .inl ⟨tag, List.mem_cons_self, hc⟩
      · rcases List.mem_cons.mp hc with rfl | hc
        · exact .inr (.inl rfl)
        · rcases List.mem_append.mp hc with hc | hc
          · exact .inr (.inr (List.eq_of_mem_replicate hc))
          · rcases ih hc with ⟨tag', htag', hc⟩ | hc
            · exact .inl ⟨tag', List.mem_cons_of_mem tag htag', hc⟩
            · exact .inr hc

/-- The text is empty only if the last tag is. -/
theorem ne_nil (h : CsvText tags text) (hne : ∀ tag ∈ tags, tag ≠ []) : text ≠ [] := by
  cases h with
  | single => exact hne _ (List.mem_singleton_self _)
  | cons tag n h => simp

/-- Trimmed tags make a trimmed text. -/
theorem strip_eq (h : CsvText tags text) (hne : ∀ tag ∈ tags, tag ≠ [])
    (htrim : ∀ tag ∈ tags, strip tag = tag) : strip text = text := by
  have hfirst : ∀ c ∈ text.head?, isSpace c = false := by
    cases h with
    | single => exact (strip_eq_self_iff.mp (htrim _ (List.mem_singleton_self _))).1
    | @cons tag n tags text h =>
        rw [List.head?_append_of_ne_nil _ (hne tag List.mem_cons_self)]
        exact (strip_eq_self_iff.mp (htrim tag List.mem_cons_self)).1
  have hlast : ∀ c ∈ text.getLast?, isSpace c = false := by
    clear hfirst
    induction h with
    | single tag => exact (strip_eq_self_iff.mp (htrim tag (List.mem_singleton_self tag))).2
    | @cons tag n tags text h ih =>
        have hne' := (List.forall_mem_cons.mp hne).2
        have htext : text ≠ [] := h.ne_nil hne'
        have hsuffix : tag ++ codePoint ',' :: (List.replicate n (codePoint ' ') ++ text) =
            (tag ++ codePoint ',' :: List.replicate n (codePoint ' ')) ++ text := by simp
        rw [hsuffix, List.getLast?_append_of_ne_nil _ htext]
        exact ih hne' (List.forall_mem_cons.mp htrim).2
  exact strip_eq_self_iff.mpr ⟨hfirst, hlast⟩

end CsvText

/-! ## Agreement -/

/-- JSON whitespace is whitespace. -/
theorem isSpace_of_isBlank {c : CodePoint} (h : Json.isBlank c = true) : isSpace c = true := by
  rw [Json.isBlank, decide_eq_true_eq] at h
  revert c
  decide

namespace AdmissibleTags

variable {tags : List Str}

/-- No tag is empty. -/
theorem ne_nil (h : AdmissibleTags tags) : ∀ tag ∈ tags, tag ≠ [] := by
  rintro _ htag rfl
  exact absurd (h.sized _ htag).1 (by simp)

/-- The comma-separated text has no quotes, brackets and braces. -/
theorem plain_text (h : AdmissibleTags tags) {text : Str} (hcsv : CsvText tags text) :
    ∀ c ∈ lit "[]\x7b\x7d\"", c ∉ text := by
  have hsub : ∀ c ∈ lit "[]\x7b\x7d\"",
      c ∈ lit ",\x00[]\x7b\x7d\"" ∧ c ≠ codePoint ',' ∧ c ≠ codePoint ' ' := by decide
  intro c hc hmem
  obtain ⟨hplain, hcomma, hspace⟩ := hsub c hc
  rcases hcsv.of_mem hmem with ⟨tag, htag, hin⟩ | h' | h'
  · exact h.plain tag htag c hplain hin
  · exact hcomma h'
  · exact hspace h'

/-- **The fallback reads the comma-separated text** as the list. -/
theorem commaSeparated (h : AdmissibleTags tags) {text : Str} (hcsv : CsvText tags text) :
    MiniDms.commaSeparated text = some tags := by
  have hstrip : strip text = text := hcsv.strip_eq h.ne_nil h.trimmed
  have hplain : ¬ (text = [] ∨ ∃ c ∈ lit "[]\x7b\x7d\"", c ∈ text) := by
    rintro (hnil | ⟨c, hc, hmem⟩)
    · exact hcsv.ne_nil h.ne_nil hnil
    · exact h.plain_text hcsv c hc hmem
  have hsplit : (text.splitOn (codePoint ',')).map strip = tags :=
    hcsv.map_strip_splitOn (fun tag htag => h.plain tag htag _ (by decide)) h.trimmed 0
  have hnil : [] ∉ tags := fun hmem => h.ne_nil [] hmem rfl
  simp only [MiniDms.commaSeparated, hstrip, if_neg hplain, hsplit, if_neg hnil]

/-- A text that JSON refuses reaches the fallback. -/
theorem readsAs_of_refused (h : AdmissibleTags tags) (field : JsonField) {text : Str}
    (hcsv : CsvText tags text) (hloads : Json.loads field.levels text = .error .valueError) :
    ReadsAs field text tags := by
  obtain ⟨detail, hfield⟩ := field.refuses text hloads
  have htags : multipartTags field (.form text) = .ok (.list (tags.map .str)) := by
    simp only [multipartTags, hfield, FieldInput.text, Option.bind_some, h.commaSeparated hcsv]
  rw [ReadsAs, htags]
  exact h.validateTags

/-- The JSON text is read as the list. -/
theorem readsAs_arrayText (h : AdmissibleTags tags) (field : JsonField) {text : Str}
    (harray : Json.ArrayText tags text) : ReadsAs field text tags := by
  have htags : multipartTags field (.form text) = .ok (.list (tags.map .str)) := by
    rw [multipartTags, field.decodes text _ (Json.loads_arrayText field.room harray)]
  rw [ReadsAs, htags]
  exact h.validateTags

/-- The comma-separated text begins no string, array or object. -/
theorem quiet_text (h : AdmissibleTags tags) {text : Str} (hcsv : CsvText tags text) :
    ∀ c ∈ lit "\"[\x7b", c ∉ text := fun c hc =>
  h.plain_text hcsv c ((by decide : ∀ c ∈ lit "\"[\x7b", c ∈ lit "[]\x7b\x7d\"") c hc)

/-- **What a comma-separated text can mean as JSON**: only a single tag that is a scalar's text is
JSON at all. -/
theorem scalarText_of_loads (h : AdmissibleTags tags) {text : Str} (hcsv : CsvText tags text)
    {levels : Nat} {v : Json} (hloads : Json.loads levels text = .ok v) :
    ∃ tag, tags = [tag] ∧ Json.ScalarText tag := by
  obtain ⟨-, w, t, w', hw, ht, hw', htext⟩ := Json.loads_sound (h.quiet_text hcsv) hloads
  cases hcsv with
  | cons tag n hrest =>
      -- The text has a comma, which neither whitespace nor a scalar has.
      have hblank : ∀ u : Str, Json.Blank u → codePoint ',' ∉ u := fun u hu hmem =>
        absurd (hu _ hmem) (by decide)
      have hcomma : codePoint ',' ∈ w ++ (t ++ w') := by
        rw [← htext]
        simp
      rcases List.mem_append.mp hcomma with hmem | hmem
      · exact absurd hmem (hblank w hw)
      · rcases List.mem_append.mp hmem with hmem | hmem
        · exact absurd hmem ht.comma_not_mem
        · exact absurd hmem (hblank w' hw')
  | single =>
      have htrim : strip text = text := h.trimmed text (List.mem_singleton_self text)
      have heq : text = t := by
        rw [htext] at htrim ⊢
        exact eq_of_strip_eq (fun c hc => isSpace_of_isBlank (hw c hc))
          (fun c hc => isSpace_of_isBlank (hw' c hc)) htrim
      exact ⟨text, rfl, heq ▸ ht⟩

end AdmissibleTags

/-- A single tag that is a scalar's text is read as the scalar, which is no list. -/
theorem not_readsAs_scalarText (field : JsonField) {tag : Str} (hshort : tag.length ≤ 64)
    (ht : Json.ScalarText tag) (tags : List Str) : ¬ ReadsAs field tag tags := by
  obtain ⟨v, hloads, hv⟩ := ht.loads (by omega) field.levels
  have hfield : multipartTags field (.form tag) = .ok v := by
    rw [multipartTags, field.decodes tag v hloads]
  rw [ReadsAs, hfield]
  intro h
  have herror : Except.bind (.ok v) validateTags = invalid "Use a list of at most 32 tags." :=
    validateTags_scalar hv
  rw [herror] at h
  cases h

/-- **The two multipart encodings agree** on an admissible list exactly when it is not a single tag
that is the text of a number, a boolean or `null`. -/
theorem encodingsAgree_iff (field : JsonField) {tags : List Str} (h : AdmissibleTags tags) :
    EncodingsAgree field tags ↔ ¬ ∃ tag, tags = [tag] ∧ Json.ScalarText tag := by
  constructor
  · rintro ⟨hcsv, -⟩ ⟨tag, rfl, ht⟩
    exact not_readsAs_scalarText field (h.sized tag (List.mem_singleton_self tag)).2 ht _
      (hcsv tag (.single tag))
  · intro hscalar
    refine ⟨fun text hcsv => ?_, fun text harray => h.readsAs_arrayText field harray⟩
    cases hloads : Json.loads field.levels text with
    | ok v => exact absurd (h.scalarText_of_loads hcsv hloads) hscalar
    | error e =>
        cases e with
        | valueError => exact h.readsAs_of_refused field hcsv hloads
        | recursionError => exact absurd hloads (Json.loads_ne_recursionError (h.quiet_text hcsv))

/-- A tag that is a year. -/
def yearTag : Str := lit "2026"

/-- A list with a year among its tags is admissible. -/
theorem admissibleTags_year : AdmissibleTags [yearTag] ∧ AdmissibleTags [yearTag, lit "a b"] :=
  ⟨⟨by decide, by decide, by decide, by decide, by decide, by decide⟩,
    ⟨by decide, by decide, by decide, by decide, by decide, by decide⟩⟩

/-- With another tag the two encodings agree. -/
theorem encodingsAgree_iff_sample : EncodingsAgree (jsonField sampleStack) [yearTag, lit "a b"] :=
  (encodingsAgree_iff (jsonField sampleStack) admissibleTags_year.2).mpr fun ⟨tag, h, _⟩ => by
    cases h

/-- A year alone is read as a number. -/
theorem year_encodings_disagree :
    ¬ ∀ (field : JsonField) (tags : List Str), AdmissibleTags tags → EncodingsAgree field tags := by
  intro h
  have hnumber : Json.NumberText yearTag :=
    ⟨[], lit "2026", [], [], .inl rfl, .digits (by decide) (by decide) (by decide), .none, .none, rfl⟩
  exact not_readsAs_scalarText (jsonField sampleStack) (by decide) (.inr (.inr (.inr hnumber))) [yearTag]
    ((h (jsonField sampleStack) [yearTag] admissibleTags_year.1).1 yearTag (.single yearTag))

end MiniDms
