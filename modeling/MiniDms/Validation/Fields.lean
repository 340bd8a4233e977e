import MiniDms.Documents.Fields
import MiniDms.Validation.Metadata
import MiniDms.Validation.StrictInput
import MiniDms.Validation.Tags

/-! # The fields of a metadata edit are validated once

What a validator returns it returns again when it is given it: a text is trimmed before it is
measured, tags are trimmed and freed of repetitions without becoming longer or more, and metadata is
not touched at all. So a body made of validated values is accepted as it is. -/

namespace MiniDms

open Python Sequences

/-! ## Text fields -/

/-- A text a text field returns. -/
structure ValidText (maxLength : Nat) (allowBlank : Bool) (value : Str) : Prop where
  trimmed : strip value = value
  nonblank : value = [] → allowBlank = true
  short : value.length ≤ maxLength
  nulFree : 0 ∉ value
  wellFormed : value.any isSurrogate = false

variable {maxLength : Nat} {allowBlank : Bool}

/-- The validators find nothing in a valid text. -/
theorem textMessages_eq_nil_iff {value : Str} :
    textMessages maxLength value = [] ↔
      value.length ≤ maxLength ∧ 0 ∉ value ∧ value.any isSurrogate = false := by
  have hfind : (value.find? isSurrogate).elim [] (fun c =>
      [s!"Surrogate characters are not allowed: U+{upperHex c.val}."]) = [] ↔
      value.any isSurrogate = false := by
    rw [List.any_eq_false]
    cases hf : value.find? isSurrogate with
    | none => exact iff_of_true rfl (List.find?_eq_none.mp hf)
    | some c =>
        refine iff_of_false (fun h => by cases h) fun h => ?_
        exact h c (List.mem_of_find?_eq_some hf) (List.find?_some hf)
  unfold textMessages
  rw [List.append_eq_nil_iff, List.append_eq_nil_iff, hfind, and_assoc]
  refine and_congr ?_ (and_congr_left' ?_)
  · split
    · next h => exact iff_of_false (List.cons_ne_nil _ _) (Nat.not_le.mpr h)
    · next h => exact iff_of_true rfl (Nat.le_of_not_lt h)
  · split
    · next h => exact iff_of_false (List.cons_ne_nil _ _) (not_not.mpr h)
    · next h => exact iff_of_true rfl h

/-- **What a text field returns**: the trimmed text, when it is valid. -/
theorem charField_eq_ok_iff {text value : Str} :
    charField maxLength allowBlank text = .ok value ↔
      value = strip text ∧ ValidText maxLength allowBlank value := by
  unfold charField
  dsimp only
  by_cases hblank : strip text = []
  · rw [if_pos hblank]
    constructor
    · intro h
      cases allowBlank with
      | false => cases h
      | true =>
          cases h
          exact ⟨hblank.symm, rfl, fun _ => rfl, Nat.zero_le _, List.not_mem_nil, rfl⟩
    · rintro ⟨rfl, hvalid⟩
      rw [if_pos (hvalid.nonblank hblank), hblank]
  · rw [if_neg hblank]
    constructor
    · intro h
      split at h
      · next hmessages =>
          cases h
          obtain ⟨hshort, hnul, hwell⟩ := textMessages_eq_nil_iff.mp hmessages
          exact ⟨rfl, strip_strip text, fun h => absurd h hblank, hshort, hnul, hwell⟩
      · cases h
    · rintro ⟨rfl, hvalid⟩
      rw [textMessages_eq_nil_iff.mpr ⟨hvalid.short, hvalid.nulFree, hvalid.wellFormed⟩]

/-- A valid text is returned as it is. -/
theorem ValidText.charField {value : Str} (h : ValidText maxLength allowBlank value) :
    MiniDms.charField maxLength allowBlank value = .ok value :=
  charField_eq_ok_iff.mpr ⟨h.trimmed.symm, h⟩

/-- Whatever value it was read from, a returned text is valid. -/
theorem validText_of_charFieldValue {given : Json} {value : Str}
    (h : charFieldValue maxLength allowBlank given = .ok value) :
    ValidText maxLength allowBlank value := by
  unfold charFieldValue at h
  split at h
  · exact (charField_eq_ok_iff.mp h).2
  · cases h
  · split at h
    · exact (charField_eq_ok_iff.mp h).2
    · cases h

/-! ## Tags -/

/-- A list of texts is printed. -/
theorem printable_list_map_str (tags : List Str) :
    (Json.list (tags.map .str)).printable = true := by
  rw [Json.printable]
  induction tags with
  | nil => rfl
  | cons tag tags ih =>
      rw [List.map_cons, Json.printableList, ih]
      rfl

/-! ## A field -/

/-- The value of a field as it stands in a body. -/
def Field.toJson : (f : Field) → f.Value → Json
  | .description, value | .documentType, value | .title, value => .str value
  | .metadata, value | .tags, value => value

/-- The values a field is left with. -/
def Field.Accepted : (f : Field) → f.Value → Prop
  | .title, value => ValidText 255 false value
  | .description, value => ValidText 10000 true value
  | .documentType, value => ValidText 64 true value
  | .tags, value => ∃ tags, KeptTags tags ∧ value = .list (tags.map .str)
  | .metadata, value => AcceptableMetadata value

variable {stack : CallStack}

/-- What a JSON field lets through: values that are no `null` and that the encoder prints. -/
theorem jsonFieldValue_eq_ok {value : Json} (hnull : value ≠ .null) (hfinite : value.finite = true)
    (hprintable : value.printable = true) (hnesting : value.nesting ≤ 16) :
    jsonFieldValue stack value = .ok value := by
  have hroom := stack.room
  have hnone : value.dumpError stack.encoder = none :=
    (Json.dumpError_eq_none_iff _ _).mpr ⟨hfinite, hprintable, by omega⟩
  unfold jsonFieldValue
  split
  · contradiction
  · show jsonInternalValue stack (.decoded value) = .ok value
    rw [jsonInternalValue, hnone]

/-- A JSON field returns the value it is given. -/
theorem eq_of_jsonFieldValue {value read : Json} (h : jsonFieldValue stack value = .ok read) :
    read = value := by
  unfold jsonFieldValue at h
  split at h
  · cases h
  · have h : jsonInternalValue stack (.decoded value) = .ok read := h
    unfold jsonInternalValue at h
    dsimp only at h
    split at h <;> cases h
    rfl

/-- The validator of a field returns accepted values. -/
theorem Field.accepted_of_validateField {f : Field} {given : Json} {value : f.Value}
    (h : validateField stack f given = .ok value) : f.Accepted value := by
  cases f with
  | title | description | documentType => exact validText_of_charFieldValue h
  | tags =>
      obtain ⟨read, -, h⟩ := bind_eq_ok.mp h
      obtain ⟨tags, htags, h⟩ := bind_eq_ok.mp h
      cases h
      exact ⟨tags, keptTags_of_validateTags htags, rfl⟩
  | metadata =>
      obtain ⟨read, -, h⟩ := bind_eq_ok.mp h
      obtain ⟨hacceptable, rfl⟩ := validateMetadata_eq_ok_iff.mp h
      exact hacceptable

/-- **An accepted value is validated unchanged.** -/
theorem Field.Accepted.validateField {f : Field} {value : f.Value} (h : f.Accepted value)
    (stack : CallStack) : MiniDms.validateField stack f (f.toJson value) = .ok value := by
  cases f with
  | title | description | documentType => exact ValidText.charField h
  | tags =>
      obtain ⟨tags, hkept, rfl⟩ := h
      refine bind_eq_ok.mpr ⟨_, jsonFieldValue_eq_ok (fun h => nomatch h)
        (Json.finite_list_map_str tags) (printable_list_map_str tags) ?_, ?_⟩
      · show (Json.list (tags.map .str)).nesting ≤ 16
        rw [Json.nesting_list_map_str]
        decide
      exact bind_eq_ok.mpr ⟨tags, hkept.validateTags, rfl⟩
  | metadata =>
      have h' : AcceptableMetadata value := h
      obtain ⟨items, hitems⟩ := h'.isObject
      have hshallow := h'.shallow
      refine bind_eq_ok.mpr ⟨value, jsonFieldValue_eq_ok (fun hnull => ?_) h'.finite h'.printable
        (hshallow.trans (by decide)), validateMetadata_eq_ok_iff.mpr ⟨h', rfl⟩⟩
      have hnull' : value = .null := hnull
      rw [hitems] at hnull'
      cases hnull'

/-- **The validators are idempotent.** -/
theorem validateField_idempotent {stack' : CallStack} {f : Field} {given : Json} {value : f.Value}
    (h : validateField stack f given = .ok value) :
    validateField stack' f (f.toJson value) = .ok value :=
  (Field.accepted_of_validateField h).validateField stack'

/-! ## A body -/

/-- A validated value: accepted, and read from a value whose dictionaries have distinct keys. -/
structure Field.Valid (f : Field) (value : f.Value) : Prop where
  accepted : f.Accepted value
  distinct : (f.toJson value).distinct = true

/-- Metadata is returned as it was given, and the other values have no keys. -/
theorem distinct_of_validateField {f : Field} {given : Json} {value : f.Value}
    (h : validateField stack f given = .ok value) (hgiven : given.distinct = true) :
    (f.toJson value).distinct = true := by
  cases f with
  | title | description | documentType => rfl
  | tags =>
      obtain ⟨tags, -, rfl⟩ := Field.accepted_of_validateField h
      exact Json.distinct_list_map_str tags
  | metadata =>
      obtain ⟨read, hread, h⟩ := bind_eq_ok.mp h
      obtain ⟨-, rfl⟩ := validateMetadata_eq_ok_iff.mp h
      obtain rfl := eq_of_jsonFieldValue hread
      exact hgiven

/-- What a validator returns is valid. -/
theorem Field.valid_of_validateField {f : Field} {given : Json} {value : f.Value}
    (h : validateField stack f given = .ok value) (hgiven : given.distinct = true) : f.Valid value :=
  ⟨Field.accepted_of_validateField h, distinct_of_validateField h hgiven⟩

/-- What is supplied for a field has been validated. -/
theorem suppliedField_eq_some {body : List (Str × Json)} {f : Field} {value : f.Value}
    (h : suppliedField stack body f = .ok (some value)) :
    ∃ given, body.lookup f.name = some given ∧ validateField stack f given = .ok value := by
  unfold suppliedField at h
  split at h
  · cases h
  next given hlookup =>
    cases hvalue : validateField stack f given with
    | error e =>
        rw [hvalue] at h
        cases h
    | ok v =>
        rw [hvalue] at h
        cases h
        exact ⟨given, hlookup, hvalue⟩

/-- The mixin passes an object with writable names on to the framework. -/
theorem runValidation_of_writable {α : Type} {serializer : StrictSerializer α}
    {items : List (Str × Json)} (h : ∀ item ∈ items, item.1 ∈ serializer.writable) :
    serializer.runValidation (.dict items) =
      (serializer.fields items).mapError .validationError := by
  have hnone : unexpectedIn serializer.writable (items.map fun item => Json.str item.1) = [] := by
    refine unexpectedIn_eq_nil_iff.mpr fun a ha => ?_
    obtain ⟨item, hitem, rfl⟩ := List.mem_map.mp ha
    simpa [unexpected] using h item hitem
  show serializer.toInternalValue (.dict items) = _
  rw [toInternalValue_eq rfl (keys_oneKind serializer.writable items).2, if_pos hnone]
  rfl

/-- Validation collects nothing when every field is fine. -/
theorem validateFields_eq_ok {body : List (Str × Json)} {data : Patch}
    (h : ∀ f, suppliedField stack body f = .ok (data f)) : validateFields stack body = .ok data := by
  have herrors : ∀ fields, fieldErrors stack body fields = .ok [] := by
    intro fields
    induction fields with
    | nil => rfl
    | cons f fields ih => rw [fieldErrors, h f, ih]
  refine bind_eq_ok.mpr ⟨[], herrors Field.declared, ?_⟩
  refine congrArg Except.ok (funext fun f => ?_)
  rw [h f]
  rfl

/-- **The data of an accepted JSON body** is what the validators returned. -/
theorem accepted_of_validatePatch {body : Json} {data : Patch} (hkeys : body.distinct = true)
    (h : validatePatch stack body = .ok data) : data.Accepted stack := by
  obtain ⟨items, hitems, hfields⟩ := bind_eq_ok.mp h
  have hobject : ∃ entries, body = .dict entries ∧ ∀ item ∈ entries,
      item.1 ∈ (metadataSerializer fun body => (.ok body : Except Detail _)).writable := by
    cases body with
    | null => cases hitems
    | bool _ | int _ | float _ | str _ | list _ | dict _ =>
        exact object_of_toInternalValue_eq_ok hitems
  obtain ⟨entries, rfl, hwritable⟩ := hobject
  -- The mixin passes the object on as it is.
  obtain rfl : entries = items := by
    rw [runValidation_of_writable hwritable] at hitems
    exact Except.ok.inj hitems
  rw [Json.distinct, Bool.and_eq_true] at hkeys
  obtain ⟨errors, -, hdata⟩ := bind_eq_ok.mp hfields
  cases errors with
  | cons _ _ => cases hdata
  | nil =>
      intro f value hvalue
      cases hdata
      have hsupplied : suppliedField stack entries f = .ok (some value) := by
        revert hvalue
        dsimp only
        cases suppliedField stack entries f with
        | error e => exact fun hvalue => nomatch hvalue
        | ok supplied => exact fun hvalue => congrArg Except.ok hvalue
      obtain ⟨given, hlookup, hvalid⟩ := suppliedField_eq_some hsupplied
      exact ⟨given, hvalid, Json.distinct_of_lookup hkeys.2 hlookup⟩

end MiniDms
