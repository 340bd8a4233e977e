import MiniDms.Documents.RequestSize
import MiniDms.Python.Octets
import MiniDms.Validation.Fields

/-! # Which uploads pass the request gate

The middleware bounds the length of a whole request before the serializer sees a field of it. The
serializer bounds every field by itself, texts by their characters and metadata by its bytes. What the
gate leaves for texts and framing suffices for every upload within these limits whose description takes
three bytes for each character; a description of ten thousand characters of four bytes can exceed it. -/

namespace MiniDms

open Python

/-! ## A multipart request -/

/-- The line end of the framing. -/
def crlf : Str := [0x0D, 0x0A]

/-- A part of a multipart body, with its header lines. -/
structure Part where
  headers : Str
  content : Bytes

/-- A part as it stands in the body. -/
def Part.bytes (boundary : Str) (part : Part) : Bytes :=
  (lit "--" ++ boundary ++ crlf ++ part.headers ++ crlf).flatMap utf8 ++
    (part.content ++ crlf.flatMap utf8)

/-- The body that is made of parts. -/
def multipart (boundary : Str) (parts : List Part) : Bytes :=
  parts.flatMap (Part.bytes boundary) ++ (lit "--" ++ boundary ++ lit "--" ++ crlf).flatMap utf8

/-- What a client chooses by itself: the boundary between the parts, of at most 70 characters, and the
media type it declares for the file. -/
structure Framing where
  boundary : Str
  contentType : Str
  boundary_short : octets boundary ≤ 70
  contentType_short : octets contentType ≤ 255

/-- The header that names a field. -/
def disposition (name : Str) : Str :=
  lit "Content-Disposition: form-data; name=\"" ++ name ++ lit "\""

/-- A text field. -/
def textPart (name text : Str) : Part := ⟨disposition name ++ crlf, text.flatMap utf8⟩

/-- A filename between quotation marks: what would end it or the line is percent-encoded. -/
def quotedFilename (name : Str) : Str :=
  name.flatMap fun c =>
    if c = codePoint '"' then lit "%22"
    else if c = 0x0D then lit "%0D"
    else if c = 0x0A then lit "%0A"
    else [c]

/-- The file. -/
def filePart (framing : Framing) (filename : Str) (file : Bytes) : Part where
  headers := disposition (lit "file") ++ lit "; filename=\"" ++ quotedFilename filename ++ lit "\"" ++
    crlf ++ lit "Content-Type: " ++ framing.contentType ++ crlf
  content := file

/-- What an upload sends. -/
structure UploadForm where
  title : Str
  description : Str
  documentType : Str
  tags : List Str
  metadata : Json
  filename : Str
  file : Bytes

namespace UploadForm

/-- The tags as a JSON value. -/
def tagsValue (form : UploadForm) : Json := .list (form.tags.map .str)

/-- The parts of the request, tags and metadata as JSON text. -/
def parts (framing : Framing) (form : UploadForm) : List Part :=
  [textPart (lit "title") form.title, textPart (lit "description") form.description,
    textPart (lit "document_type") form.documentType, textPart (lit "tags") form.tagsValue.dumps,
    textPart (lit "metadata") form.metadata.dumps, filePart framing form.filename form.file]

/-- The body of the request. -/
def body (framing : Framing) (form : UploadForm) : Bytes :=
  multipart framing.boundary (form.parts framing)

/-- The header that announces the body. -/
def contentLength (framing : Framing) (form : UploadForm) : Str :=
  natRepr (form.body framing).length

/-- The bytes of the texts. -/
def textOctets (form : UploadForm) : Nat :=
  octets form.title + octets form.description + octets form.documentType +
    octets form.tagsValue.dumps + octets form.metadata.dumps

/-! ## Its length -/

/-- The bytes that are neither in a text nor in the file. -/
def overhead (framing : Framing) (form : UploadForm) : Nat :=
  374 + 7 * octets framing.boundary + octets (quotedFilename form.filename) +
    octets framing.contentType

/-- A part adds the boundary, its headers and four characters around them. -/
theorem length_partBytes (boundary : Str) (part : Part) :
    (part.bytes boundary).length =
      8 + octets boundary + octets part.headers + part.content.length := by
  have hmarks : octets (lit "--") = 2 ∧ octets crlf = 2 := by decide
  have hlength : (part.bytes boundary).length =
      octets (lit "--" ++ boundary ++ crlf ++ part.headers ++ crlf) +
        (part.content.length + octets crlf) := by
    unfold Part.bytes octets
    rw [List.length_append, List.length_append]
  simp only [hlength, octets_append, hmarks.1, hmarks.2]
  omega

/-- A text field. -/
theorem length_textPart (boundary name text : Str) :
    ((textPart name text).bytes boundary).length =
      49 + octets boundary + octets name + octets text := by
  have hmarks : octets (lit "Content-Disposition: form-data; name=\"") = 38 ∧
      octets (lit "\"") = 1 ∧ octets crlf = 2 := by decide
  rw [length_partBytes]
  show 8 + octets boundary + octets (disposition name ++ crlf) + octets text = _
  simp only [disposition, octets_append, hmarks.1, hmarks.2.1, hmarks.2.2]
  omega

/-- The file. -/
theorem length_filePart (framing : Framing) (filename : Str) (file : Bytes) :
    ((filePart framing filename file).bytes framing.boundary).length =
      82 + octets framing.boundary + octets (quotedFilename filename) +
        octets framing.contentType + file.length := by
  have hmarks : octets (lit "Content-Disposition: form-data; name=\"") = 38 ∧
      octets (lit "file") = 4 ∧ octets (lit "; filename=\"") = 12 ∧
      octets (lit "Content-Type: ") = 14 ∧ octets (lit "\"") = 1 ∧ octets crlf = 2 := by decide
  obtain ⟨hdisposition, hname, hfilename, htype, hquote, hline⟩ := hmarks
  rw [length_partBytes]
  simp only [filePart, disposition, octets_append, hdisposition, hname, hfilename, htype, hquote,
    hline]
  omega

/-- **The length of the body** is that of the file, of the texts and of the framing. -/
theorem length_body (framing : Framing) (form : UploadForm) :
    (form.body framing).length = form.file.length + form.textOctets + form.overhead framing := by
  have hnames : octets (lit "title") = 5 ∧ octets (lit "description") = 11 ∧
      octets (lit "document_type") = 13 ∧ octets (lit "tags") = 4 ∧ octets (lit "metadata") = 8 := by
    decide
  obtain ⟨htitle, hdescription, hdocumentType, htags, hmetadata⟩ := hnames
  have hend : ((lit "--" ++ framing.boundary ++ lit "--" ++ crlf).flatMap utf8).length =
      6 + octets framing.boundary := by
    have hmarks : octets (lit "--") = 2 ∧ octets crlf = 2 := by decide
    show octets _ = _
    simp only [octets_append, hmarks.1, hmarks.2]
    omega
  simp only [body, multipart, parts, List.flatMap_cons, List.flatMap_nil, List.length_append,
    List.length_nil, length_textPart, length_filePart, hend, htitle, hdescription, hdocumentType,
    htags, hmetadata, textOctets, overhead]
  omega

/-! ## The limits of the serializer -/

/-- The values satisfy the limits of `UploadSerializer` as they are sent. -/
structure WithinLimits (maxUploadBytes : Int) (form : UploadForm) : Prop where
  title : form.title.length ≤ 255
  description : form.description.length ≤ 10000
  documentType : form.documentType.length ≤ 64
  tags_few : form.tags.length ≤ 32
  tags_short : ∀ tag ∈ form.tags, tag.length ≤ 64
  metadata : encodedLength form.metadata ≤ 16384
  filename : form.filename.length ≤ 255
  file : 1 ≤ form.file.length ∧ form.file.length ≤ maxUploadBytes

/-- The validators return the values as they are sent. -/
structure Accepted (stack : CallStack) (maxUploadBytes : Int) (form : UploadForm) : Prop where
  title : charField 255 false form.title = .ok form.title
  description : charField 10000 true form.description = .ok form.description
  documentType : charField 64 true form.documentType = .ok form.documentType
  tags : validateTags form.tagsValue = .ok form.tags
  metadata : validateMetadata stack form.metadata = .ok form.metadata
  filename : form.filename.length ≤ 255
  file : 1 ≤ form.file.length ∧ form.file.length ≤ maxUploadBytes

/-- What the validators return is within the limits. -/
theorem Accepted.withinLimits {stack : CallStack} {maxUploadBytes : Int} {form : UploadForm}
    (h : form.Accepted stack maxUploadBytes) : form.WithinLimits maxUploadBytes where
  title := (charField_eq_ok_iff.mp h.title).2.short
  description := (charField_eq_ok_iff.mp h.description).2.short
  documentType := (charField_eq_ok_iff.mp h.documentType).2.short
  tags_few := (keptTags_of_validateTags h.tags).few
  tags_short tag htag := by
    have hkept := keptTags_of_validateTags h.tags
    have hshort : (strip tag).length ≤ 64 := (hkept.valid tag htag).short
    rwa [hkept.trimmed tag htag] at hshort
  metadata := (validateMetadata_eq_ok_iff.mp h.metadata).1.small
  filename := h.filename
  file := h.file

variable {maxUploadBytes : Int} {form : UploadForm}

/-- The framing of a form within the limits. -/
theorem WithinLimits.overhead_le (h : form.WithinLimits maxUploadBytes) (framing : Framing) :
    form.overhead framing ≤ 2139 := by
  have hname : octets (quotedFilename form.filename) ≤ 4 * form.filename.length := by
    have hmarks : octets (lit "%22") = 3 ∧ octets (lit "%0D") = 3 ∧ octets (lit "%0A") = 3 := by
      decide
    refine octets_flatMap_le fun c => ?_
    split_ifs
    · omega
    · omega
    · omega
    · rw [octets_cons, octets_nil]
      exact length_utf8_le c
  have hboundary := framing.boundary_short
  have htype := framing.contentType_short
  have hfilename := h.filename
  unfold overhead
  omega

/-- **The texts of a form within the limits**, the description apart, take at most 30,078 bytes. -/
theorem WithinLimits.textOctets_le (h : form.WithinLimits maxUploadBytes) :
    form.textOctets ≤ octets form.description + 30078 := by
  have htitle : octets form.title ≤ 4 * form.title.length := octets_le form.title
  have hdocumentType : octets form.documentType ≤ 4 * form.documentType.length :=
    octets_le form.documentType
  -- A control character in a tag is escaped to six bytes.
  have htags : octets form.tagsValue.dumps ≤ (6 * 64 + 4) * form.tags.length + 2 :=
    Json.octets_dumps_list_le h.tags_short
  have hmetadata : octets form.metadata.dumps ≤ 16384 := h.metadata
  have hlimits := And.intro h.title (And.intro h.documentType h.tags_few)
  unfold textOctets
  omega

/-- A description whose characters are in the Basic Multilingual Plane. -/
theorem WithinLimits.octets_description_le (h : form.WithinLimits maxUploadBytes)
    (hplane : ∀ c ∈ form.description, c.val < 0x10000) : octets form.description ≤ 30000 := by
  have hle : octets form.description ≤ 3 * form.description.length :=
    octets_le_of_forall fun c hc => length_utf8_le_of_lt (hplane c hc)
  have hlength := h.description
  omega

/-- **The slack of the gate suffices** when the description takes at most 30,000 bytes. -/
theorem WithinLimits.length_body_le (h : form.WithinLimits maxUploadBytes) (framing : Framing)
    (hdescription : octets form.description ≤ 30000) :
    (form.body framing).length ≤ maxUploadBytes + 64 * 1024 := by
  have hfile := h.file.2
  have htexts := h.textOctets_le
  have hframing := h.overhead_le framing
  rw [length_body]
  push_cast
  omega

/-! ## The gate -/

/-- **The request gate and the limits of the serializer.** For every upload within the limits the
announced length is that of the file, of the texts and of at most 2,139 bytes of framing, and the gate
answers 413 exactly when that exceeds `MAX_UPLOAD_BYTES` by more than 64 KiB. That never happens when
the description takes at most 30,000 bytes, as it does when its characters are in the Basic
Multilingual Plane. The streaming handler accepts the file in whatever chunks. -/
theorem request_gate_admits (framing : Framing) (h : form.WithinLimits maxUploadBytes) :
    ((form.body framing).length = form.file.length + form.textOctets + form.overhead framing ∧
      form.overhead framing ≤ 2139) ∧
    (∀ error, requestSize maxUploadBytes (some (form.contentLength framing)) = some error →
      error.status = 413 →
        maxUploadBytes + 64 * 1024 < form.file.length + form.textOctets + form.overhead framing) ∧
    ((form.contentLength framing).length ≤ 4300 →
      maxUploadBytes + 64 * 1024 < form.file.length + form.textOctets + form.overhead framing →
        requestSize maxUploadBytes (some (form.contentLength framing)) =
          some ⟨413, "payload_too_large", "The request exceeds the configured size limit."⟩) ∧
    (octets form.description ≤ 30000 ∨ (∀ c ∈ form.description, c.val < 0x10000) →
      (form.body framing).length ≤ maxUploadBytes + 64 * 1024 ∧
      (∀ error, requestSize maxUploadBytes (some (form.contentLength framing)) = some error →
        error.status ≠ 413) ∧
      ((form.contentLength framing).length ≤ 4300 →
        requestSize maxUploadBytes (some (form.contentLength framing)) = none)) ∧
    ∀ chunks : List Bytes, chunks.flatten = form.file →
      chunks.foldlM (receiveDataChunk maxUploadBytes) 0 = .ok form.file.length := by
  have hlength := form.length_body framing
  have hcast : ((form.body framing).length : Int) =
      form.file.length + form.textOctets + form.overhead framing := by
    rw [hlength]
    push_cast
    rfl
  refine ⟨⟨hlength, h.overhead_le framing⟩, fun error herror hstatus => ?_, fun hdigits hlarge => ?_,
    fun hdescription => ?_, fun chunks hchunks => ?_⟩
  · by_contra hsmall
    have hle : (form.body framing).length ≤ maxUploadBytes + 64 * 1024 := by omega
    exact (requestSize_natRepr hle).1 error herror hstatus
  · exact requestSize_of_lt (by omega) hdigits
  · have hoctets : octets form.description ≤ 30000 :=
      hdescription.elim id h.octets_description_le
    have hle := h.length_body_le framing hoctets
    exact ⟨hle, requestSize_natRepr hle⟩
  · have hfits : ((0 : Nat) : Int) + chunks.flatten.length ≤ maxUploadBytes := by
      rw [hchunks, Int.natCast_zero, Int.zero_add]
      exact h.file.2
    have hok := receiveDataChunks_ok chunks 0 hfits
    rwa [hchunks, Nat.zero_add] at hok

/-- A small upload with a description of wide characters. -/
def sampleForm : UploadForm where
  title := lit "Invoice"
  description := lit "paid ✓"
  documentType := []
  tags := [lit "2026"]
  metadata := sampleMetadata
  filename := lit "invoice.pdf"
  file := (lit "%PDF-1.7").flatMap utf8

/-- How the samples are sent. -/
def sampleFraming : Framing := ⟨lit "boundary", lit "application/pdf", by decide, by decide⟩

/-- The small upload passes the gate under a limit of its own size. -/
theorem request_gate_admits_sample : sampleForm.WithinLimits 8 ∧
    requestSize 8 (some (sampleForm.contentLength sampleFraming)) = none ∧
    ([[0x25], (lit "PDF-1.7").flatMap utf8] : List Bytes).foldlM (receiveDataChunk 8) 0 = .ok 8 := by
  have hlimits : sampleForm.WithinLimits 8 :=
    ⟨by decide, by decide, by decide, by decide, by decide, by decide, by decide, by decide⟩
  have hgate := request_gate_admits sampleFraming hlimits
  exact ⟨hlimits, (hgate.2.2.2.1 (.inr (by decide))).2.2 (by decide +kernel),
    hgate.2.2.2.2 [[0x25], (lit "PDF-1.7").flatMap utf8] (by decide)⟩

/-! ## The widest upload -/

/-- A character outside the Basic Multilingual Plane. -/
def wideChar : CodePoint := 0x1F600

/-- Every text as long and as wide as it may be, and a file of `MAX_UPLOAD_BYTES`. -/
def wideForm : UploadForm where
  title := List.replicate 255 wideChar
  description := List.replicate 10000 wideChar
  documentType := List.replicate 64 wideChar
  tags := (List.range 32).map fun i => List.replicate 63 wideChar ++ [Fin.ofNat _ (wideChar + i)]
  metadata := .dict [(lit "k", .str (List.replicate 16375 (codePoint 'a')))]
  filename := lit "invoice.pdf"
  file := (lit "%PDF-").flatMap utf8 ++ List.replicate 26214395 0

/-- A repeated character makes a valid text. -/
theorem validText_replicate {maxLength n : Nat} (allowBlank : Bool) (hpos : 0 < n)
    (hshort : n ≤ maxLength) : ValidText maxLength allowBlank (List.replicate n wideChar) where
  trimmed := by
    have hspace : isSpace wideChar = false := by decide
    refine strip_eq_self_iff.mpr ⟨fun c hc => ?_, fun c hc => ?_⟩
    · rwa [List.eq_of_mem_replicate (List.mem_of_mem_head? hc)]
    · rwa [List.eq_of_mem_replicate (List.mem_of_mem_getLast? hc)]
  nonblank hnil := absurd (List.replicate_eq_nil_iff wideChar |>.mp hnil) (by omega)
  short := by rwa [List.length_replicate]
  nulFree hmem := absurd (List.eq_of_mem_replicate hmem) (by decide)
  wellFormed := by
    rw [List.any_eq_false]
    intro c hc
    rw [List.eq_of_mem_replicate hc]
    decide

/-- The tags of the widest upload. -/
theorem wideForm_tags : KeptTags wideForm.tags where
  few := by decide
  distinct := by
    refine List.Nodup.map_on (fun i hi j hj hij => ?_) List.nodup_range
    have hlast := List.append_cancel_left hij
    rw [List.singleton_inj, Fin.ext_iff, Fin.val_ofNat, Fin.val_ofNat] at hlast
    rw [List.mem_range] at hi hj
    have hwide : wideChar.val = 0x1F600 := rfl
    omega
  trimmed := by decide +kernel
  valid tag htag := by
    have hall : ∀ tag ∈ wideForm.tags,
        1 ≤ (strip tag).length ∧ (strip tag).length ≤ 64 ∧ 0 ∉ tag := by decide +kernel
    obtain ⟨hnonempty, hshort, hnul⟩ := hall tag htag
    exact ⟨hnonempty, hshort, hnul⟩

/-- Its metadata is printed as it is. -/
theorem wideForm_dumps : wideForm.metadata.dumps =
    lit "\x7b\"k\": \"" ++ List.replicate 16375 (codePoint 'a') ++ lit "\"\x7d" := by
  have hescape : (List.replicate 16375 (codePoint 'a')).flatMap Json.escape =
      List.replicate 16375 (codePoint 'a') := by
    have ha : Json.escape (codePoint 'a') = [codePoint 'a'] := by decide
    rw [List.flatMap_replicate, ha, List.flatten_replicate_singleton]
  unfold wideForm
  simp only [Json.dumps, Json.dumpsItems, join, List.intercalate_singleton, Json.quote, hescape]
  have hopen : lit "\x7b" ++ (codePoint '"' :: (lit "k").flatMap Json.escape ++ [codePoint '"'] ++
      lit ": " ++ [codePoint '"']) = lit "\x7b\"k\": \"" := by decide
  have hclose : [codePoint '"'] ++ lit "\x7d" = lit "\"\x7d" := by decide
  rw [← hopen, ← hclose]
  simp only [List.append_assoc, List.cons_append, List.nil_append]

/-- Its metadata is acceptable. -/
theorem wideForm_metadata : AcceptableMetadata wideForm.metadata := by
  have hall : ∀ s ∈ wideForm.metadata.strings, ∀ c ∈ s, c = codePoint 'k' ∨ c = codePoint 'a' := by
    have hstrings : wideForm.metadata.strings =
        [lit "k", List.replicate 16375 (codePoint 'a')] := by
      simp only [wideForm, Json.strings, Json.stringsItems, List.append_nil]
    intro s hs c hc
    rw [hstrings, List.mem_cons, List.mem_singleton] at hs
    rcases hs with rfl | rfl
    · exact .inl (List.mem_singleton.mp hc)
    · exact .inr (List.eq_of_mem_replicate hc)
  refine ⟨⟨⟨⟨_, rfl⟩, rfl, rfl, fun s hs hnul => ?_, ?_⟩, ?_, ?_⟩, ?_⟩
  · rcases hall s hs 0 hnul with h | h <;> exact absurd h (by decide)
  · rintro ⟨s, hs, hspell⟩
    have hbackslash : codePoint '\\' ∈ s := hspell.subset (by decide)
    rcases hall s hs _ hbackslash with h | h <;> exact absurd h (by decide)
  · rintro ⟨s, hs, hany⟩
    obtain ⟨c, hc, hsurrogate⟩ := List.any_eq_true.mp hany
    rcases hall s hs c hc with rfl | rfl <;> exact absurd hsurrogate (by decide)
  · show octets wideForm.metadata.dumps ≤ 16384
    rw [wideForm_dumps, octets_append, octets_append, octets_replicate]
    decide
  · show 1 + 0 ≤ 5
    decide

/-- Its file has the greatest length that is accepted. -/
theorem wideForm_file : wideForm.file.length = 26214400 := by
  unfold wideForm
  rw [List.length_append, List.length_replicate]
  decide

/-- The validators accept the widest upload. -/
theorem wideForm_accepted : wideForm.Accepted sampleStack 26214400 where
  title := (validText_replicate false (by decide) (by decide)).charField
  description := (validText_replicate true (by decide) (by decide)).charField
  documentType := (validText_replicate true (by decide) (by decide)).charField
  tags := wideForm_tags.validateTags
  metadata := validateMetadata_eq_ok_iff.mpr ⟨wideForm_metadata, rfl⟩
  filename := by decide
  file := by
    rw [wideForm_file]
    decide

/-- Its tags as they are sent: nothing in them is escaped. -/
theorem wideForm_octets_tags : octets wideForm.tagsValue.dumps = 8320 := by
  have hquoted : ∀ part ∈ wideForm.tags.map Json.quote, octets part = 258 := by
    have hwide : octets (Json.escape wideChar) = 4 := by decide
    have hlast : ∀ i < 32, octets (Json.escape (Fin.ofNat 0x110000 (wideChar + i))) = 4 := by decide
    have hmark : octets [codePoint '"'] = 1 := by decide
    simp only [wideForm, List.mem_map, List.mem_range]
    rintro _ ⟨_, ⟨i, hi, rfl⟩, rfl⟩
    unfold Json.quote
    rw [List.flatMap_append, List.flatMap_singleton, List.cons_append, ← List.singleton_append,
      octets_append, octets_append, octets_append, hlast i hi, hmark]
    have hmany : ∀ n, octets ((List.replicate n wideChar).flatMap Json.escape) = 4 * n := by
      intro n
      induction n with
      | zero => rfl
      | succ n ih => rw [List.replicate_succ, List.flatMap_cons, octets_append, hwide, ih]; omega
    rw [hmany]
  have hbrackets : octets (lit "[") = 1 ∧ octets (lit "]") = 1 ∧ octets (lit ", ") = 2 := by decide
  have hcount : (wideForm.tags.map Json.quote).length = 32 := by decide
  unfold tagsValue
  rw [Json.dumps_list_map_str, octets_append, octets_append, octets_join_eq hquoted, hcount,
    hbrackets.1, hbrackets.2.1, hbrackets.2.2]

/-- Its texts alone exceed what the gate leaves for them. -/
theorem wideForm_textOctets : wideForm.textOctets = 65980 := by
  have hwide : (utf8 wideChar).length = 4 := by decide
  have hmetadata : octets wideForm.metadata.dumps = 16384 := by
    rw [wideForm_dumps, octets_append, octets_append, octets_replicate]
    decide
  have htitle : octets wideForm.title = 1020 := by
    rw [wideForm, octets_replicate, hwide]
  have hdescription : octets wideForm.description = 40000 := by
    rw [wideForm, octets_replicate, hwide]
  have hdocumentType : octets wideForm.documentType = 256 := by
    rw [wideForm, octets_replicate, hwide]
  -- The sum is rewritten for any form: on this one it would be evaluated character by character.
  have hsum : ∀ form : UploadForm, octets form.title = 1020 → octets form.description = 40000 →
      octets form.documentType = 256 → octets form.tagsValue.dumps = 8320 →
      octets form.metadata.dumps = 16384 → form.textOctets = 65980 := by
    intro form h₁ h₂ h₃ h₄ h₅
    rw [textOctets, h₁, h₂, h₃, h₄, h₅]
  exact hsum wideForm htitle hdescription hdocumentType wideForm_octets_tags hmetadata

/-- **An accepted upload is refused**: under the default limit the gate answers 413 to the widest
upload, every value of which the validators return as it is. -/
theorem wideForm_refused : wideForm.Accepted sampleStack 26214400 ∧
    requestSize 26214400 (some (wideForm.contentLength sampleFraming)) =
      some ⟨413, "payload_too_large", "The request exceeds the configured size limit."⟩ := by
  have hframing : wideForm.overhead sampleFraming = 456 := by decide
  have hlength : (wideForm.body sampleFraming).length = 26280836 := by
    rw [length_body, wideForm_file, wideForm_textOctets, hframing]
  have hdigits : (natRepr 26280836).length ≤ 4300 := by
    have hfew : (Nat.toDigits 10 26280836).length ≤ 8 :=
      (Nat.length_toDigits_le_iff (by decide) (by decide)).mpr (by decide)
    rw [natRepr, List.length_map]
    exact hfew.trans (by decide)
  refine ⟨wideForm_accepted, ?_⟩
  rw [contentLength, hlength]
  exact requestSize_of_lt (by decide) hdigits

end UploadForm

end MiniDms
