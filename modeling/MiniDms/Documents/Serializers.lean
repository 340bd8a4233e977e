import MiniDms.Documents.Services
import MiniDms.Python.Decoding
import MiniDms.Python.Nesting
import MiniDms.Sequences.Firsts

/-! # Serializers

The program's own checks on request bodies: the strictness of the field names and the validators of
tags and metadata. The framework around them, with the text fields, enters as parameters. -/

namespace MiniDms

open Python Sequences

/-! ## Exceptions -/

/-- The detail of a `ValidationError`: a list of messages, or one under each name. -/
inductive Detail
  | messages (texts : List String)
  | fields (errors : List (Json × List String))

/-- What a serializer raises. -/
inductive Raised
  | validationError (detail : Detail)
  | typeError
  | unicodeEncodeError
  | recursionError

/-- What the views see of it: a `ValidationError` is answered 400, anything else 500. -/
def Raised.toApiError : Raised → ApiError
  | .validationError _ => .validation
  | _ => .internal

/-- Raise a `ValidationError` with one message. -/
def invalid {α : Type} (text : String) : Except Raised α :=
  .error (.validationError (.messages [text]))

/-- A validator ends as intended: it returns, or raises a `ValidationError`. -/
def Answered {α : Type} (result : Except Raised α) : Prop :=
  (∃ a, result = .ok a) ∨ ∃ detail, result = .error (.validationError detail)

/-! ## Nesting -/

/-- The interpreter's stack as a validator finds it: the Python frames left below the recursion
limit, and the levels of the C stack, which are counted apart, left to the scanner and to the encoder
of `json`. A request handler starts with most of the limits left. -/
structure CallStack where
  frames : Nat
  decoder : Nat
  encoder : Nat
  room : 16 ≤ frames ∧ 16 ≤ decoder ∧ 16 ≤ encoder

mutual

/-- `json_depth`; `none` is a `RecursionError`. A call takes one Python frame, and the generator that
`max` consumes takes another. -/
def jsonDepth : Nat → Json → Option Nat
  | 0, _ => none
  | frames + 1, .dict items => (jsonDepthItems frames items).map (1 + ·)
  | frames + 1, .list items => (jsonDepthList frames items).map (1 + ·)
  | _ + 1, _ => some 0

/-- `max((json_depth(item) for item in value), default=0)`. -/
def jsonDepthList : Nat → List Json → Option Nat
  | 0, _ => none
  | _ + 1, [] => some 0
  | frames + 1, x :: xs =>
      (jsonDepth frames x).bind fun depth => (jsonDepthList (frames + 1) xs).map (max depth)

/-- `max((json_depth(item) for item in value.values()), default=0)`. -/
def jsonDepthItems : Nat → List (Str × Json) → Option Nat
  | 0, _ => none
  | _ + 1, [] => some 0
  | frames + 1, (_, x) :: xs =>
      (jsonDepth frames x).bind fun depth => (jsonDepthItems (frames + 1) xs).map (max depth)

end

/-! ## The validators -/

/-- What `validate_tags` keeps of one element; `none` refuses it. -/
def keptTag : Json → Option Str
  | .str tag =>
      if 1 ≤ (strip tag).length ∧ (strip tag).length ≤ 64 ∧ 0 ∉ tag then some (strip tag) else none
  | _ => none

/-- `MetadataSerializer.validate_tags`. `dict.fromkeys` keeps the first of equal tags. -/
def validateTags (value : Json) : Except Raised (List Str) :=
  match value with
  | .list items =>
      if 32 < items.length then invalid "Use a list of at most 32 tags."
      else
        match items.mapM keptTag with
        | some tags => .ok tags.eraseDups
        | none => invalid "Each tag must contain 1 to 64 characters."
  | _ => invalid "Use a list of at most 32 tags."

/-- `len(encoded.encode()) > 16384 or json_depth(value) > 5`. The text is encoded outside the `try`,
so a surrogate raises. -/
def exceedsLimits (stack : CallStack) (value : Json) : Except Raised Bool :=
  match encode value.dumps with
  | none => .error .unicodeEncodeError
  | some encoded =>
      if 16384 < encoded.length then .ok true
      else
        match jsonDepth stack.frames value with
        | none => .error .recursionError
        | some depth => .ok (5 < depth)

/-- `MetadataSerializer.validate_metadata`. -/
def validateMetadata (stack : CallStack) (value : Json) : Except Raised Json :=
  match value with
  | .dict _ =>
      match value.dumpError stack.encoder with
      | some .valueError => invalid "Metadata must contain valid finite JSON values."
      -- The `except` clause names `ValueError` and `TypeError` only.
      | some .recursionError => .error .recursionError
      | none =>
          if lit "\\u0000" <:+: value.dumps then invalid "Metadata cannot contain NUL characters."
          else do
            if ← exceedsLimits stack value then
              invalid "Metadata is limited to 16 KiB and five nesting levels."
            else return value
  | _ => invalid "Metadata must be a JSON object."

/-! ## Fields -/

/-- What a field is given: the text of a form field, or a value from a JSON body. -/
inductive FieldInput
  | form (text : Str)
  | decoded (value : Json)

/-- The text a field is given, if it is one; a form field's text is a `str` too. -/
def FieldInput.text : FieldInput → Option Str
  | .form text => some text
  | .decoded (.str text) => some text
  | .decoded _ => none

/-- The framework's `JSONField`: it decodes the text of a form field with `json.loads`, refuses a text
that is no JSON, and lets a `RecursionError` pass. -/
structure JsonField where
  levels : Nat
  room : 1 ≤ levels
  toInternalValue : FieldInput → Except Raised Json
  decodes : ∀ text value, Json.loads levels text = .ok value →
    toInternalValue (.form text) = .ok value
  refuses : ∀ text, Json.loads levels text = .error .valueError →
    ∃ detail, toInternalValue (.form text) = .error (.validationError detail)
  overflows : ∀ text, Json.loads levels text = .error .recursionError →
    toInternalValue (.form text) = .error .recursionError

/-- `JSONField.to_internal_value`: a text is decoded, and a decoded value has to be one that
`json.dumps` prints. -/
def jsonInternalValue (stack : CallStack) : FieldInput → Except Raised Json
  | .form text =>
      match Json.loads stack.decoder text with
      | .ok value => .ok value
      | .error .valueError => invalid "Value must be valid JSON."
      | .error .recursionError => .error .recursionError
  | .decoded value =>
      match value.dumpError stack.encoder with
      | none => .ok value
      | some .valueError => invalid "Value must be valid JSON."
      | some .recursionError => .error .recursionError

/-- `JSONField` as the framework has it. -/
def jsonField (stack : CallStack) : JsonField where
  levels := stack.decoder
  room := by
    have hroom := stack.room
    omega
  toInternalValue := jsonInternalValue stack
  decodes text value h := by
    rw [jsonInternalValue, h]
  refuses text h := by
    rw [jsonInternalValue, h]
    exact ⟨_, rfl⟩
  overflows text h := by
    rw [jsonInternalValue, h]

/-- `[tag.strip() for tag in value.split(",")]` of a stripped text; `none` re-raises. -/
def commaSeparated (data : Str) : Option (List Str) :=
  let value := strip data
  if value = [] ∨ ∃ c ∈ lit "[]\x7b\x7d\"", c ∈ value then none
  else
    let tags := (value.splitOn (codePoint ',')).map strip
    if [] ∈ tags then none else some tags

/-- `MultipartTagsField.to_internal_value`. -/
def multipartTags (field : JsonField) (data : FieldInput) : Except Raised Json :=
  match field.toInternalValue data with
  | .error (.validationError detail) =>
      match data.text.bind commaSeparated with
      | some tags => .ok (.list (tags.map .str))
      | none => .error (.validationError detail)
  | result => result

/-! ## Strict input -/

/-- The kinds of values a comparison tells apart. -/
inductive Kind
  | none
  | number
  | text
  | container
  deriving DecidableEq, Repr

/-- The kind of a value; `bool` is a subclass of `int`. -/
def kind : Json → Kind
  | .null => .none
  | .bool _ | .int _ | .float _ => .number
  | .str _ => .text
  | .list _ | .dict _ => .container

/-- `a < b` is defined: both are numbers or both are strings. -/
def comparable (a b : Json) : Bool :=
  kind a = kind b && (kind a = .number || kind a = .text)

/-- The order of numbers; a NaN is neither below nor above anything. -/
def numberLe : Json.Number → Json.Number → Bool
  | .exact p, .exact q => p ≤ q
  | .infinite negative, _ => negative
  | _, .infinite negative => !negative
  | _, _ => false

/-- `not b < a` on comparable values. -/
def notAbove (a b : Json) : Bool :=
  match a, b with
  | .str s, .str t => s ≤ t
  | _, _ => (a.number.bind fun p => b.number.map (numberLe p)).getD false

/-- `sorted(items)`. Whatever the algorithm compares, two values without an order are found when both
are present. -/
def sortedValues (items : List Json) : Except Raised (List Json) :=
  if items.Pairwise fun a b => comparable a b then .ok (items.insertionSort fun a b => notAbove a b)
  else .error .typeError

/-- `iter(data)`: the keys of an object, the elements of an array, the characters of a string. -/
def iterate : Json → Except Raised (List Json)
  | .dict items => .ok (items.map fun item => .str item.1)
  | .list items => .ok items
  | .str s => .ok (s.map fun c => .str [c])
  | _ => .error .typeError

/-- `set(data)`; only values without a `__hash__`, lists and dictionaries, are refused as elements. -/
def setOf (data : Json) : Except Raised (List Json) := do
  let items ← iterate data
  if items.all fun item => kind item ≠ .container then return firsts Json.eq items
  else throw .typeError

/-- An element is none of the allowed names. -/
def unexpected (allowed : List Str) : Json → Bool
  | .str name => name ∉ allowed
  | _ => true

/-- A serializer with the mixin: the names of its writable fields, and what the framework makes of an
object with no other names. -/
structure StrictSerializer (α : Type) where
  writable : List Str
  fields : List (Str × Json) → Except Detail α

/-- `type(data).__name__`. -/
def typeName : Json → String
  | .null => "NoneType"
  | .bool _ => "bool"
  | .int _ => "int"
  | .float _ => "float"
  | .str _ => "str"
  | .list _ => "list"
  | .dict _ => "dict"

namespace StrictSerializer

variable {α : Type}

/-- `Serializer.to_internal_value`, which refuses what is not an object. -/
def frameworkToInternalValue (serializer : StrictSerializer α) : Json → Except Raised α
  | .dict items => (serializer.fields items).mapError .validationError
  | data => .error (.validationError (.fields [(.str (lit "non_field_errors"),
      ["Invalid data. Expected a dictionary, but got " ++ typeName data ++ "."])]))

/-- `StrictInputMixin.to_internal_value`. -/
def toInternalValue (serializer : StrictSerializer α) (data : Json) : Except Raised α := do
  let present ← setOf data
  let extra := present.filter (unexpected serializer.writable)
  if extra.isEmpty then serializer.frameworkToInternalValue data
  else
    let names ← sortedValues extra
    throw (.validationError (.fields (names.map fun name => (name, ["Unknown or read-only field."]))))

/-- `run_validation`: a `null` is refused before the mixin sees it. -/
def runValidation (serializer : StrictSerializer α) (data : Json) : Except Raised α :=
  match data with
  | .null => invalid "This field may not be null."
  | data => serializer.toInternalValue data

end StrictSerializer

/-- `MetadataSerializer`, with the validation of its fields. -/
def metadataSerializer {α : Type} (fields : List (Str × Json) → Except Detail α) :
    StrictSerializer α where
  writable :=
    [lit "title", lit "description", lit "document_type", lit "tags", lit "metadata"]
  fields := fields

/-- `CreateUserSerializer`, with the validation of its fields. -/
def createUserSerializer {α : Type} (fields : List (Str × Json) → Except Detail α) :
    StrictSerializer α where
  writable := [lit "username", lit "email", lit "password", lit "role"]
  fields := fields

end MiniDms
