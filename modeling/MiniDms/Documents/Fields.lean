import MiniDms.Documents.Serializers
import MiniDms.Documents.Upload
import MiniDms.Python.Identity

/-! # The fields of a metadata edit

`MetadataSerializer` on the body of a PATCH: the mixin's check of the names, then every supplied
field in the order of its declaration, the framework's text fields included. An upload validates the
same five fields, with form fields in front. -/

namespace MiniDms

open Python

/-! ## Text fields -/

/-- `format(n, "X")`. -/
def upperHex (n : Nat) : String := String.ofList ((Nat.toDigits 16 n).map Char.toUpper)

/-- The messages of the validators of a `CharField`, which all run; the last one names the first
surrogate. -/
def textMessages (maxLength : Nat) (value : Str) : List String :=
  (if maxLength < value.length then
    [s!"Ensure this field has no more than {maxLength} characters."] else []) ++
  (if 0 ∈ value then ["Null characters are not allowed."] else []) ++
  (value.find? isSurrogate).elim [] fun c =>
    [s!"Surrogate characters are not allowed: U+{upperHex c.val}."]

/-- The framework's `CharField` on a text: it trims, and its validators see what is left, unless that
is blank. -/
def charField (maxLength : Nat) (allowBlank : Bool) (text : Str) : Except Raised Str :=
  let value := strip text
  if value = [] then
    if allowBlank then .ok [] else invalid "This field may not be blank."
  else
    match textMessages maxLength value with
    | [] => .ok value
    | messages => .error (.validationError (.messages messages))

/-- `str` of a number; `none` is no number. -/
def numberText : Json → Option Str
  | .int i => some (intRepr i)
  | .float f =>
      some (if f.isFinite then f.repr
        else if f.fraction ≠ 0 then lit "nan"
        else if f.negative then lit "-inf" else lit "inf")
  | _ => none

/-- `CharField` on a decoded value: a number is read as its text. -/
def charFieldValue (maxLength : Nat) (allowBlank : Bool) (value : Json) : Except Raised Str :=
  match value with
  | .str text => charField maxLength allowBlank text
  | .null => invalid "This field may not be null."
  | value =>
      match numberText value with
      | some text => charField maxLength allowBlank text
      | none => invalid "Not a valid string."

/-! ## The five fields -/

/-- The name of a field in a body. -/
def Field.name : Field → Str
  | .description => lit "description"
  | .documentType => lit "document_type"
  | .metadata => lit "metadata"
  | .tags => lit "tags"
  | .title => lit "title"

/-- `JSONField` on a value of a body; a `null` is refused before it is looked at. -/
def jsonFieldValue (stack : CallStack) (value : Json) : Except Raised Json :=
  match value with
  | .null => invalid "This field may not be null."
  | value => (jsonField stack).toInternalValue (.decoded value)

/-- A supplied value of a field, validated. -/
def validateField (stack : CallStack) : (f : Field) → Json → Except Raised f.Value
  | .title, value => charFieldValue 255 false value
  | .description, value => charFieldValue 10000 true value
  | .documentType, value => charFieldValue 64 true value
  | .tags, value => do
      let tags ← validateTags (← jsonFieldValue stack value)
      return .list (tags.map .str)
  | .metadata, value => do validateMetadata stack (← jsonFieldValue stack value)

/-- The order in which the serializer declares its fields. -/
def Field.declared : List Field := [.title, .description, .documentType, .tags, .metadata]

/-- A field of a partial body: `none` when it is not supplied. -/
def suppliedField (stack : CallStack) (body : List (Str × Json)) (f : Field) :
    Except Raised (Option f.Value) :=
  match body.lookup f.name with
  | none => .ok none
  | some value => (validateField stack f value).map some

/-- The messages of a detail. -/
def Detail.texts : Detail → List String
  | .messages texts => texts
  | .fields errors => errors.flatMap Prod.snd

/-- `Serializer.to_internal_value`: a `ValidationError` of a field is collected under its name, and any
other exception leaves at once. -/
def fieldErrors (stack : CallStack) (body : List (Str × Json)) :
    List Field → Except Raised (List (Json × List String))
  | [] => .ok []
  | f :: fields =>
      match suppliedField stack body f with
      | .ok _ => fieldErrors stack body fields
      | .error (.validationError detail) => do
          return (.str f.name, detail.texts) :: (← fieldErrors stack body fields)
      | .error e => .error e

/-- The validated fields of a partial body. -/
def validateFields (stack : CallStack) (body : List (Str × Json)) : Except Raised Patch := do
  match ← fieldErrors stack body Field.declared with
  | [] => return fun f => ((suppliedField stack body f).toOption).join
  | errors => throw (.validationError (.fields errors))

/-- `MetadataSerializer(data=data, partial=True)`. -/
def validatePatch (stack : CallStack) (data : Json) : Except Raised Patch := do
  let body ← (metadataSerializer fun body => (.ok body : Except Detail _)).runValidation data
  validateFields stack body

/-- What `MetadataSerializer` leaves of a PATCH, of JSON or of a form: each value is what the validator of
its field returned of a decoded value, in which dictionaries have distinct keys. -/
def Patch.Accepted (stack : CallStack) (data : Patch) : Prop :=
  ∀ f value, data f = some value →
    ∃ given, validateField stack f given = .ok value ∧ given.distinct = true

/-- What `UploadSerializer` leaves of the five fields of an upload: each is what its validator made of
what the field before it read; an absent field is a blank text, no tags or no metadata. -/
structure UploadData.Accepted (stack : CallStack) (data : UploadData) : Prop where
  title : ∃ text, charField 255 false text = .ok data.title
  description : ∃ text, charField 10000 true text = .ok data.description
  documentType : ∃ text, charField 64 true text = .ok data.documentType
  tags : ∃ value tags, validateTags value = .ok tags ∧ data.tags = .list (tags.map .str)
  metadata : ∃ value, validateMetadata stack value = .ok data.metadata
  /-- `json.loads` makes dictionaries with distinct keys. -/
  keys : data.metadata.distinct = true

end MiniDms
