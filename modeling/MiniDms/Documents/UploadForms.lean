import MiniDms.Documents.Fields
import MiniDms.Documents.Files

/-! # The upload form

`UploadSerializer` on `request.data` of a multipart request. A field is a text or a file, a name may
occur more than once, and every field of the serializer reads the last value under its name; what a
field refuses is collected, and any other exception leaves the serializer at once. -/

namespace MiniDms

open Python

/-! ## Forms -/

/-- The value of a form field. -/
inductive FormValue
  | text (s : Str)
  | file (upload : RawUpload)

/-- `str` of a form value; a file prints as its name. -/
def FormValue.str : FormValue → Str
  | .text s => s
  | .file upload => upload.name

/-- `request.data` of a multipart request: the names and values as the parser has collected them. -/
abbrev Form := List (Str × FormValue)

/-- `data[name]`, the last value under a name. -/
def Form.get (form : Form) (name : Str) : Option FormValue := List.lookup name form.reverse

/-! ## How a field fails -/

/-- What leaves the serializer. -/
inductive UploadError
  | payloadTooLarge
  | raised (e : Raised)
  | validationError (errors : List (Str × List String))

/-- What a field and its validator raise: a `ValidationError`, or an exception that leaves at once. -/
inductive FieldFailure
  | invalid (messages : List String)
  | escapes (e : UploadError)

/-- What a validator of tags or metadata raises. -/
def Raised.failure : Raised → FieldFailure
  | .validationError detail => .invalid detail.texts
  | e => .escapes (.raised e)

/-- What `validate_file` raises; `PayloadTooLarge` is no `ValidationError`. -/
def FileError.failure : FileError → FieldFailure
  | .payloadTooLarge => .escapes .payloadTooLarge
  | .validationError text => .invalid [text]

/-- A `ValidationError` with one message. -/
def refused {α : Type} (text : String) : Except FieldFailure α := .error (.invalid [text])

/-! ## The fields -/

/-- `CharField` on a form value. The test for a blank comes first, on the text a value prints as; a
file with another name is no text. -/
def textField (maxLength : Nat) (allowBlank : Bool) (value : FormValue) : Except FieldFailure Str :=
  match value with
  | .text text => (charField maxLength allowBlank text).mapError Raised.failure
  | .file upload =>
      if strip upload.name = [] then
        if allowBlank then .ok [] else refused "This field may not be blank."
      else refused "Not a valid string."

/-- `MultipartTagsField` and `validate_tags`. The field takes a form value as its text, whatever it
is. -/
def tagsField (stack : CallStack) (value : FormValue) : Except FieldFailure Json := do
  let value ← (multipartTags (jsonField stack) (.form value.str)).mapError Raised.failure
  let tags ← (validateTags value).mapError Raised.failure
  return .list (tags.map .str)

/-- `MultipartJSONObjectField` and `validate_metadata`. -/
def metadataField (stack : CallStack) (value : FormValue) : Except FieldFailure Json := do
  let value ← ((jsonField stack).toInternalValue (.form value.str)).mapError Raised.failure
  (validateMetadata stack value).mapError Raised.failure

/-- `FileField` and `validate_file`. -/
def fileField (unicode : UnicodeData) (env : Env) (maxUploadBytes : Int) :
    FormValue → Except FieldFailure UploadedFile
  | .text _ => refused "The submitted data was not a file. Check the encoding type on the form."
  | .file upload =>
      if upload.name = [] then refused "No filename could be determined."
      else if upload.size = 0 then refused "The submitted file is empty."
      else (validateFile unicode env maxUploadBytes upload).mapError FileError.failure

/-- A field of the form: what stands for an absent one, or what is made of its value. -/
def Form.field {α : Type} (form : Form) (name : Str) (absent : Except FieldFailure α)
    (present : FormValue → Except FieldFailure α) : Except FieldFailure α :=
  match form.get name with
  | none => absent
  | some value => present value

/-! ## The serializer -/

/-- What the six fields make of a form. -/
structure UploadFields where
  title : Except FieldFailure Str
  description : Except FieldFailure Str
  documentType : Except FieldFailure Str
  tags : Except FieldFailure Json
  metadata : Except FieldFailure Json
  file : Except FieldFailure UploadedFile

/-- The fields of `UploadSerializer`. An absent text is blank, absent tags and metadata are empty and
go through their validators. -/
def uploadFields (stack : CallStack) (unicode : UnicodeData) (env : Env) (maxUploadBytes : Int)
    (form : Form) : UploadFields where
  title := form.field (lit "title") (refused "This field is required.") (textField 255 false)
  description := form.field (lit "description") (.ok []) (textField 10000 true)
  documentType := form.field (lit "document_type") (.ok []) (textField 64 true)
  tags := form.field (lit "tags")
    ((validateTags (.list [])).mapError Raised.failure |>.map fun tags => .list (tags.map .str))
    (tagsField stack)
  metadata := form.field (lit "metadata")
    ((validateMetadata stack (.dict [])).mapError Raised.failure) (metadataField stack)
  file := form.field (lit "file") (refused "No file was submitted.")
    (fileField unicode env maxUploadBytes)

/-- The failure of a field, if it fails. -/
def fieldFailure {α : Type} : Except FieldFailure α → Option FieldFailure
  | .ok _ => none
  | .error failure => some failure

/-- The fields in the order of their declaration, each with its failure. -/
def UploadFields.failures (fields : UploadFields) : List (Str × Option FieldFailure) :=
  [(lit "title", fieldFailure fields.title), (lit "description", fieldFailure fields.description),
    (lit "document_type", fieldFailure fields.documentType), (lit "tags", fieldFailure fields.tags),
    (lit "metadata", fieldFailure fields.metadata), (lit "file", fieldFailure fields.file)]

/-- The loop of `to_internal_value`: refusals are collected under the names of their fields. -/
def collect : List (Str × Option FieldFailure) → Except UploadError (List (Str × List String))
  | [] => .ok []
  | (_, none) :: fields => collect fields
  | (name, some (.invalid messages)) :: fields => do return (name, messages) :: (← collect fields)
  | (_, some (.escapes e)) :: _ => .error e

/-- The writable fields, as the mixin sees them. -/
def uploadNames : List Str :=
  [lit "title", lit "description", lit "document_type", lit "tags", lit "metadata", lit "file"]

/-- `sorted(set(data) - allowed)`. -/
def unknownNames (form : Form) : List Str :=
  ((form.map Prod.fst).dedup.filter (!uploadNames.contains ·)).insertionSort (· ≤ ·)

/-- `UploadSerializer(data=request.data)`. -/
def validateUpload (stack : CallStack) (unicode : UnicodeData) (env : Env) (maxUploadBytes : Int)
    (form : Form) : Except UploadError UploadData :=
  match unknownNames form with
  | name :: names =>
      .error (.validationError ((name :: names).map fun n => (n, ["Unknown or read-only field."])))
  | [] =>
      let fields := uploadFields stack unicode env maxUploadBytes form
      match fields.title, fields.description, fields.documentType, fields.tags, fields.metadata,
          fields.file with
      | .ok title, .ok description, .ok documentType, .ok tags, .ok metadata, .ok file =>
          .ok ⟨title, description, documentType, tags, metadata, file⟩
      | _, _, _, _, _, _ => do throw (.validationError (← collect fields.failures))

end MiniDms
