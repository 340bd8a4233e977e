import MiniDms.Documents.Upload
import MiniDms.Python.KeyOrder
import MiniDms.Validation.Metadata
import MiniDms.Validation.Tags

/-! # Accepted values can be stored

Tags and metadata come from a JSON decoder, so their strings may contain NUL and lone surrogates,
which neither the fingerprint nor a database column can hold. -/

namespace Python.Json

/-! ## Strings of a sorted value -/

/-- The strings of items are their keys and the strings of their values. -/
theorem mem_stringsItems {s : Str} {items : List (Str × Json)} :
    s ∈ stringsItems items ↔ ∃ item ∈ items, s = item.1 ∨ s ∈ item.2.strings := by
  induction items with
  | nil => simp [stringsItems]
  | cons item items ih =>
      obtain ⟨k, x⟩ := item
      rw [List.exists_mem_cons_iff]
      simp only [stringsItems, List.cons_append, List.mem_cons, List.mem_append, ih, or_assoc]

mutual

/-- Sorting the keys of a value keeps its strings. -/
theorem mem_strings_sorted {s : Str} : ∀ v : Json, s ∈ v.sorted.strings ↔ s ∈ v.strings
  | .list items => by
      rw [sorted, strings, strings]
      exact mem_strings_sortedList items
  | .dict items => by
      rw [sorted, strings, strings, mem_stringsItems, ← mem_strings_sortedItems items,
        mem_stringsItems]
      simp only [(sortItems_perm (sortedItems items)).mem_iff]
  | .null | .bool _ | .int _ | .float _ | .str _ => Iff.rfl

/-- Element by element. -/
theorem mem_strings_sortedList {s : Str} : ∀ items : List Json,
    s ∈ stringsList (sortedList items) ↔ s ∈ stringsList items
  | [] => Iff.rfl
  | x :: xs => by
      rw [sortedList, stringsList, stringsList, List.mem_append, List.mem_append,
        mem_strings_sorted x, mem_strings_sortedList xs]

/-- Value by value. -/
theorem mem_strings_sortedItems {s : Str} : ∀ items : List (Str × Json),
    s ∈ stringsItems (sortedItems items) ↔ s ∈ stringsItems items
  | [] => Iff.rfl
  | (k, x) :: xs => by
      simp only [sortedItems, stringsItems, List.cons_append, List.mem_cons, List.mem_append,
        mem_strings_sorted x, mem_strings_sortedItems xs]

end

end Python.Json

namespace MiniDms

open Python

/-! ## Storable values -/

/-- No string of the value contains a NUL or a surrogate. -/
def Storable (v : Json) : Prop := ∀ s ∈ v.strings, 0 ∉ s ∧ s.any isSurrogate = false

/-- A storable value has no surrogate. -/
theorem Storable.wellFormed {v : Json} (h : Storable v) : ¬ HasSurrogate v := by
  rintro ⟨s, hs, hsurrogate⟩
  rw [(h s hs).2] at hsurrogate
  cases hsurrogate

/-- The texts of an upload that the framework has checked: text fields, file name and digest. -/
def UploadData.texts (data : UploadData) : List Str :=
  [data.title, data.description, data.documentType, data.file.sha256, data.file.name]

/-- The payload `create_document` hashes. -/
def UploadData.payload (data : UploadData) : Json :=
  .dict [(lit "title", .str data.title), (lit "description", .str data.description),
    (lit "document_type", .str data.documentType), (lit "tags", data.tags),
    (lit "metadata", data.metadata), (lit "sha256", .str data.file.sha256),
    (lit "filename", .str data.file.name)]

/-- The keys of the payload. -/
def payloadKeys : List Str :=
  [lit "title", lit "description", lit "document_type", lit "tags", lit "metadata", lit "sha256",
    lit "filename"]

/-- The strings of the payload are its keys, the texts and the strings of tags and metadata. -/
theorem UploadData.mem_strings_payload {data : UploadData} {s : Str}
    (h : s ∈ data.payload.strings) : s ∈ payloadKeys ∨ s ∈ data.texts ∨
      s ∈ data.tags.strings ∨ s ∈ data.metadata.strings := by
  obtain ⟨item, hitem, rfl | hs⟩ := Json.mem_stringsItems.mp h
  · exact .inl (List.mem_map_of_mem hitem)
  · have hvalue : item.2 ∈ [.str data.title, .str data.description, .str data.documentType,
        data.tags, data.metadata, .str data.file.sha256, .str data.file.name] :=
      List.mem_map_of_mem hitem
    have htext : ∀ t ∈ data.texts, item.2 = .str t → s ∈ data.texts := by
      intro t ht hitem
      rw [hitem, Json.strings, List.mem_singleton] at hs
      rwa [hs]
    simp only [List.mem_cons, List.not_mem_nil, or_false] at hvalue
    rcases hvalue with h | h | h | h | h | h | h
    · exact .inr (.inl (htext _ (by simp [texts]) h))
    · exact .inr (.inl (htext _ (by simp [texts]) h))
    · exact .inr (.inl (htext _ (by simp [texts]) h))
    · exact .inr (.inr (.inl (h ▸ hs)))
    · exact .inr (.inr (.inr (h ▸ hs)))
    · exact .inr (.inl (htext _ (by simp [texts]) h))
    · exact .inr (.inl (htext _ (by simp [texts]) h))

/-- The payload has no surrogate when none of its parts has. -/
theorem UploadData.payload_wellFormed {data : UploadData} (htags : ¬ HasSurrogate data.tags)
    (hmetadata : ¬ HasSurrogate data.metadata)
    (htexts : ∀ s ∈ data.texts, s.any isSurrogate = false) : ¬ HasSurrogate data.payload := by
  have hkeys : ∀ k ∈ payloadKeys, k.any isSurrogate = false := by decide
  rintro ⟨s, hs, hsurrogate⟩
  rcases UploadData.mem_strings_payload hs with hs | hs | hs | hs
  · rw [hkeys s hs] at hsurrogate
    cases hsurrogate
  · rw [htexts s hs] at hsurrogate
    cases hsurrogate
  · exact htags ⟨s, hs, hsurrogate⟩
  · exact hmetadata ⟨s, hs, hsurrogate⟩

/-- **The fingerprint of storable values** can be encoded. -/
theorem isSome_fingerprint {env : Env} {data : UploadData} {tags : List Str}
    (htags : data.tags = .list (tags.map .str)) (hstags : ¬ HasSurrogate data.tags)
    (hmetadata : ¬ HasSurrogate data.metadata) (hfinite : data.metadata.finite = true)
    (htexts : ∀ s ∈ data.texts, s.any isSurrogate = false) :
    (fingerprint env data).isSome = true := by
  have hpayload : data.payload.finite = true := by
    have htagsFinite : data.tags.finite = true := by
      rw [htags]
      exact Json.finite_list_map_str tags
    simp [UploadData.payload, Json.finite, Json.finiteItems, htagsFinite, hfinite]
  have htext : fingerprintText data = some data.payload.sorted.dumps := if_pos hpayload
  have hsorted : ¬ HasSurrogate data.payload.sorted := by
    rintro ⟨s, hs, hsurrogate⟩
    exact UploadData.payload_wellFormed hstags hmetadata htexts
      ⟨s, (Json.mem_strings_sorted _).mp hs, hsurrogate⟩
  rw [fingerprint, htext, Option.bind_some, encode_dumps hsorted]
  rfl

/-! ## Accepted values -/

/-- Metadata that passes every check is storable. -/
theorem AcceptableMetadata.storable {v : Json} (h : AcceptableMetadata v) : Storable v := by
  refine fun s hs => ⟨h.nulFree s hs, ?_⟩
  by_contra hsurrogate
  exact h.wellFormed ⟨s, hs, by simpa using hsurrogate⟩

/-- The kept tags contain a surrogate exactly when the given ones do. -/
theorem ValidTags.hasSurrogate_kept_iff {value : Json} {tags : List Str}
    (h : ValidTags value tags) :
    HasSurrogate (.list ((tags.map strip).eraseDups.map .str)) ↔ HasSurrogate value := by
  have hstrip : ∀ s : Str, (strip s).any isSurrogate = true ↔ s.any isSurrogate = true := by
    intro s
    simp only [List.any_eq_true]
    constructor
    · rintro ⟨c, hc, hsurrogate⟩
      exact ⟨c, (mem_strip (isSpace_surrogate hsurrogate)).mp hc, hsurrogate⟩
    · rintro ⟨c, hc, hsurrogate⟩
      exact ⟨c, (mem_strip (isSpace_surrogate hsurrogate)).mpr hc, hsurrogate⟩
  rw [h.isList, HasSurrogate, HasSurrogate, Json.strings_list_map_str, Json.strings_list_map_str]
  simp only [List.mem_eraseDups, List.mem_map, exists_exists_and_eq_and, hstrip]

/-- A kept tag contains no NUL. -/
theorem ValidTags.nulFree_kept {value : Json} {tags : List Str} (h : ValidTags value tags) :
    ∀ s ∈ (tags.map strip).eraseDups, 0 ∉ s := by
  intro s hs hnul
  obtain ⟨tag, htag, rfl⟩ := List.mem_map.mp (List.mem_eraseDups.mp hs)
  have hspace : isSpace 0 = false := by decide
  exact (h.valid tag htag).nulFree ((mem_strip hspace).mp hnul)

/-- Validation of a pair of tags and metadata neither crashes nor accepts what cannot be stored. -/
structure SafelyValidated (env : Env) (stack : CallStack) (tags metadata : Json) : Prop where
  tagsAnswered : Answered (validateTags tags)
  metadataAnswered : Answered (validateMetadata stack metadata)
  storable : ∀ kept accepted, validateTags tags = .ok kept →
    validateMetadata stack metadata = .ok accepted →
      Storable (.list (kept.map .str)) ∧ Storable accepted
  fingerprinted : ∀ kept accepted, validateTags tags = .ok kept →
    validateMetadata stack metadata = .ok accepted → ∀ data : UploadData,
      data.tags = .list (kept.map .str) → data.metadata = accepted →
      (∀ s ∈ data.texts, s.any isSurrogate = false) → (fingerprint env data).isSome = true

/-- `validate_metadata` raises something else exactly when the encoder exhausts the C stack, or it
encodes a surrogate, or it measures a nesting the stack has no frames for. -/
theorem answered_validateMetadata_iff {stack : CallStack} {v : Json} :
    Answered (validateMetadata stack v) ↔ ¬ OverrunsEncoder stack v ∧
      (ReachesEncoding v → ¬ HasSurrogate v) ∧ (ReachesDepth v → v.frames ≤ stack.frames) := by
  constructor
  · intro h
    have hencoder : ¬ OverrunsEncoder stack v := by
      intro hover
      rw [hover.validateMetadata] at h
      rcases h with ⟨_, h⟩ | ⟨_, h⟩ <;> cases h
    refine ⟨hencoder, fun hreaches hsurrogate => ?_, fun hdepth => ?_⟩
    · rw [validateMetadata_surrogate hreaches hencoder hsurrogate] at h
      rcases h with ⟨_, h⟩ | ⟨_, h⟩ <;> cases h
    · by_contra hframes
      rw [validateMetadata_of_reachesDepth hdepth hencoder, if_neg hframes] at h
      rcases h with ⟨_, h⟩ | ⟨_, h⟩ <;> cases h
  · rintro ⟨hencoder, hwell, hstack⟩
    by_cases hreaches : ReachesEncoding v
    · by_cases hsmall : encodedLength v ≤ 16384
      · have hdepth : ReachesDepth v := ⟨hreaches, hwell hreaches, hsmall⟩
        rw [validateMetadata_of_reachesDepth hdepth hencoder, if_pos (hstack hdepth)]
        split
        · exact .inl ⟨v, rfl⟩
        · exact .inr ⟨_, rfl⟩
      · exact .inr
          (exists_detail (validateMetadata_large hreaches hencoder (hwell hreaches) hsmall))
    · exact .inr (exists_detail (validateMetadata_of_not_reachesEncoding hreaches hencoder))

/-- **When validation is safe**: the encoding of the metadata does not exhaust the C stack, no
surrogate reaches it, no nesting the stack has no frames for is measured, and no surrogate stands in
tags that are accepted together with the metadata. -/
theorem safelyValidated_iff (env : Env) (stack : CallStack) (tags metadata : Json) :
    SafelyValidated env stack tags metadata ↔
      ¬ OverrunsEncoder stack metadata ∧
      (ReachesEncoding metadata → ¬ HasSurrogate metadata) ∧
      (ReachesDepth metadata → metadata.frames ≤ stack.frames) ∧
      (AcceptableMetadata metadata → ∀ given, ValidTags tags given → ¬ HasSurrogate tags) := by
  constructor
  · intro h
    obtain ⟨hencoder, hwell, hstack⟩ := answered_validateMetadata_iff.mp h.metadataAnswered
    refine ⟨hencoder, hwell, hstack, fun hmetadata given hgiven hsurrogate => ?_⟩
    obtain ⟨hkept, -⟩ := h.storable _ _ (validateTags_eq_ok_iff.mpr ⟨given, hgiven, rfl⟩)
      (validateMetadata_eq_ok_iff.mpr ⟨hmetadata, rfl⟩)
    exact hkept.wellFormed (hgiven.hasSurrogate_kept_iff.mpr hsurrogate)
  · rintro ⟨hencoder, hwell, hstack, htags⟩
    have hstorable : ∀ kept accepted, validateTags tags = .ok kept →
        validateMetadata stack metadata = .ok accepted →
          Storable (.list (kept.map .str)) ∧ AcceptableMetadata metadata ∧
            accepted = metadata := by
      intro kept accepted hkept haccepted
      obtain ⟨given, hgiven, rfl⟩ := validateTags_eq_ok_iff.mp hkept
      obtain ⟨hmetadata, rfl⟩ := validateMetadata_eq_ok_iff.mp haccepted
      refine ⟨fun s hs => ?_, hmetadata, rfl⟩
      have hkeptWell := mt hgiven.hasSurrogate_kept_iff.mp (htags hmetadata given hgiven)
      refine ⟨?_, Bool.eq_false_iff.mpr fun hsurrogate => hkeptWell ⟨s, hs, hsurrogate⟩⟩
      rw [Json.strings_list_map_str] at hs
      exact hgiven.nulFree_kept s hs
    refine ⟨answered_validateTags tags,
      answered_validateMetadata_iff.mpr ⟨hencoder, hwell, hstack⟩, ?_, ?_⟩
    · intro kept accepted hkept haccepted
      obtain ⟨hkeptStorable, hmetadata, rfl⟩ := hstorable kept accepted hkept haccepted
      exact ⟨hkeptStorable, hmetadata.storable⟩
    · intro kept accepted hkept haccepted data hdataTags hdataMetadata htexts
      obtain ⟨hkeptStorable, hmetadata, rfl⟩ := hstorable kept accepted hkept haccepted
      refine isSome_fingerprint hdataTags ?_ ?_ ?_ htexts
      · rw [hdataTags]
        exact hkeptStorable.wellFormed
      · rw [hdataMetadata]
        exact hmetadata.wellFormed
      · rw [hdataMetadata]
        exact hmetadata.finite

/-- Metadata with a lone surrogate, which a JSON decoder reads from `"\ud800"`. -/
def surrogateMetadata : Json := .dict [(lit "note", .str [0xD800])]

/-- A lone surrogate makes `validate_metadata` raise a `UnicodeEncodeError`. -/
theorem surrogateMetadata_not_safelyValidated : ¬ ∀ (env : Env) (stack : CallStack)
    (tags metadata : Json), SafelyValidated env stack tags metadata := by
  intro h
  have henv : Env := ⟨id, id, fun _ => [], fun _ => []⟩
  have hreaches : ReachesEncoding surrogateMetadata :=
    ⟨⟨_, rfl⟩, by decide, by decide, by decide, by decide⟩
  obtain ⟨-, hwell, -⟩ := answered_validateMetadata_iff.mp
    (h henv sampleStack (.list []) surrogateMetadata).metadataAnswered
  exact hwell hreaches (by decide)

end MiniDms
