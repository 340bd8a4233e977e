import MiniDms.Documents.UploadForms
import MiniDms.Validation.Fields
import MiniDms.Validation.Metadata
import MiniDms.Validation.Tags
import MiniDms.Validation.Files
import MiniDms.Python.ReadBack

/-! # What the upload form yields

Each field accepts what the validators behind it accept, so the data of an accepted form is accepted
data; a refused form is answered with a report of the fields that refused. -/

namespace MiniDms

open Python

/-! ## Text fields -/

variable {maxLength : Nat} {allowBlank : Bool}

/-- **A text field** reads a text as the `CharField` of a PATCH does, and of the files accepts those
whose name is blank, as a blank text. -/
theorem textField_eq_ok_iff {value : FormValue} {text : Str} :
    textField maxLength allowBlank value = .ok text ↔
      charField maxLength allowBlank value.str = .ok text ∧
        (strip value.str ≠ [] → ∃ s, value = .text s) := by
  cases value with
  | text s =>
      show (charField maxLength allowBlank s).mapError Raised.failure = .ok text ↔ _
      rw [mapError_eq_ok]
      exact ⟨fun h => ⟨h, fun _ => ⟨s, rfl⟩⟩, And.left⟩
  | file upload =>
      have hname : FormValue.str (.file upload) = upload.name := rfl
      have hnone : ¬ ∃ s, FormValue.file upload = .text s := fun ⟨s, h⟩ => by cases h
      rw [hname]
      unfold textField charField
      dsimp only
      by_cases hblank : strip upload.name = []
      · rw [if_pos hblank, if_pos hblank]
        cases allowBlank with
        | false => exact iff_of_false (fun h => by cases h) fun h => by cases h.1
        | true =>
            constructor
            · intro h
              exact ⟨congrArg Except.ok (Except.ok.inj h), fun hne => absurd hblank hne⟩
            · rintro ⟨h, -⟩
              exact congrArg Except.ok (Except.ok.inj h)
      · rw [if_neg hblank]
        exact iff_of_false (fun h => by cases h) fun h => hnone (h.2 hblank)

/-! ## The other fields -/

/-- **The tags field** accepts what `validate_tags` makes of the value the text is read as. -/
theorem tagsField_eq_ok_iff {stack : CallStack} {value : FormValue} {json : Json} :
    tagsField stack value = .ok json ↔
      ∃ given tags, multipartTags (jsonField stack) (.form value.str) = .ok given ∧
        validateTags given = .ok tags ∧ json = .list (tags.map .str) := by
  unfold tagsField
  constructor
  · intro h
    obtain ⟨given, hgiven, h⟩ := bind_eq_ok.mp h
    obtain ⟨tags, htags, h⟩ := bind_eq_ok.mp h
    cases h
    exact ⟨given, tags, mapError_eq_ok.mp hgiven, mapError_eq_ok.mp htags, rfl⟩
  · rintro ⟨given, tags, hgiven, htags, rfl⟩
    rw [hgiven]
    show (validateTags given).mapError Raised.failure >>= _ = _
    rw [htags]
    rfl

/-- A JSON field returns what it reads of a text. -/
theorem jsonField_eq_ok_iff {stack : CallStack} {text : Str} {json : Json} :
    (jsonField stack).toInternalValue (.form text) = .ok json ↔
      Json.loads stack.decoder text = .ok json := by
  constructor
  · intro h
    cases hloads : Json.loads stack.decoder text with
    | ok value =>
        rw [(jsonField stack).decodes text value hloads] at h
        exact congrArg Except.ok (Except.ok.inj h)
    | error e =>
        cases e with
        | valueError =>
            obtain ⟨detail, hrefused⟩ := (jsonField stack).refuses text hloads
            rw [hrefused] at h
            cases h
        | recursionError =>
            rw [(jsonField stack).overflows text hloads] at h
            cases h
  · exact (jsonField stack).decodes text json

/-- **The metadata field** accepts what `validate_metadata` makes of the value the text is read as. -/
theorem metadataField_eq_ok_iff {stack : CallStack} {value : FormValue} {json : Json} :
    metadataField stack value = .ok json ↔
      Json.loads stack.decoder value.str = .ok json ∧ validateMetadata stack json = .ok json := by
  unfold metadataField
  constructor
  · intro h
    obtain ⟨given, hgiven, h⟩ := bind_eq_ok.mp h
    have hgiven := jsonField_eq_ok_iff.mp (mapError_eq_ok.mp hgiven)
    have h := mapError_eq_ok.mp h
    obtain ⟨-, rfl⟩ := validateMetadata_eq_ok_iff.mp h
    exact ⟨hgiven, h⟩
  · rintro ⟨hloads, h⟩
    rw [jsonField_eq_ok_iff.mpr hloads]
    show (validateMetadata stack json).mapError Raised.failure = _
    rw [h]
    rfl

variable {stack : CallStack} {unicode : UnicodeData} {env : Env} {maxUploadBytes : Int}

/-- **The file field** accepts the files `validate_file` accepts, except the empty ones. -/
theorem fileField_eq_ok_iff {value : FormValue} {file : UploadedFile} :
    fileField unicode env maxUploadBytes value = .ok file ↔
      ∃ upload, value = .file upload ∧ upload.name ≠ [] ∧ upload.size ≠ 0 ∧
        validateFile unicode env maxUploadBytes upload = .ok file := by
  cases value with
  | text s =>
      refine iff_of_false nofun ?_
      rintro ⟨upload, h, -⟩
      cases h
  | file upload =>
      unfold fileField
      dsimp only
      constructor
      · intro h
        split at h
        · cases h
        next hname =>
          split at h
          · cases h
          next hsize => exact ⟨upload, rfl, hname, hsize, mapError_eq_ok.mp h⟩
      · rintro ⟨upload', h, hname, hsize, hvalid⟩
        cases h
        rw [if_neg hname, if_neg hsize, hvalid]
        rfl

/-! ## The serializer -/

/-- **What the upload serializer accepts**: a form with no other names, each of whose fields is
accepted. -/
theorem validateUpload_eq_ok_iff {form : Form} {data : UploadData} :
    validateUpload stack unicode env maxUploadBytes form = .ok data ↔
      unknownNames form = [] ∧
      (uploadFields stack unicode env maxUploadBytes form).title = .ok data.title ∧
      (uploadFields stack unicode env maxUploadBytes form).description = .ok data.description ∧
      (uploadFields stack unicode env maxUploadBytes form).documentType = .ok data.documentType ∧
      (uploadFields stack unicode env maxUploadBytes form).tags = .ok data.tags ∧
      (uploadFields stack unicode env maxUploadBytes form).metadata = .ok data.metadata ∧
      (uploadFields stack unicode env maxUploadBytes form).file = .ok data.file := by
  unfold validateUpload
  cases unknownNames form with
  | cons name names => exact iff_of_false nofun fun h => by cases h.1
  | nil =>
      dsimp only
      generalize uploadFields stack unicode env maxUploadBytes form = fields
      constructor
      · intro h
        split at h
        · next htitle hdescription htype htags hmetadata hfile =>
            cases h
            exact ⟨rfl, htitle, hdescription, htype, htags, hmetadata, hfile⟩
        · obtain ⟨_, -, h⟩ := bind_eq_ok.mp h
          cases h
      · rintro ⟨-, htitle, hdescription, htype, htags, hmetadata, hfile⟩
        rw [htitle, hdescription, htype, htags, hmetadata, hfile]

/-- What a field accepts: what stands for an absent value, or what is made of the value. -/
theorem Form.field_eq_ok_iff {α : Type} {form : Form} {name : Str} {absent : Except FieldFailure α}
    {present : FormValue → Except FieldFailure α} {a : α} :
    form.field name absent present = .ok a ↔
      form.get name = none ∧ absent = .ok a ∨
        ∃ value, form.get name = some value ∧ present value = .ok a := by
  unfold field
  cases form.get name with
  | none => simp
  | some value => simp

end MiniDms
