import MiniDms.Documents.Serializers
import MiniDms.Python.Encoding

/-! # What `validate_metadata` accepts

The documentation promises finite JSON objects without NUL, of at most 16 KiB and five levels. The
validator searches for NUL in the escaped encoding, so it also refuses the six characters of the
escape when a string spells them; and both the encoder and `json_depth` descend into the value by
recursion, which a deeper value exhausts before it is refused. -/

namespace Python.Json

/-! ## Nesting -/

mutual

/-- The Python frames `json_depth` takes on a value. -/
def frames : Json → Nat
  | .list items => 1 + framesList items
  | .dict items => 1 + framesItems items
  | _ => 1

/-- The frames of the generator over the elements and of the calls it makes. -/
def framesList : List Json → Nat
  | [] => 1
  | x :: xs => max (1 + frames x) (framesList xs)

/-- The frames of the generator over the values and of the calls it makes. -/
def framesItems : List (Str × Json) → Nat
  | [] => 1
  | (_, x) :: xs => max (1 + frames x) (framesItems xs)

end

mutual

/-- Two frames for each level, and one for a value inside. -/
theorem frames_le : ∀ v : Json, v.frames ≤ 2 * v.nesting + 1
  | .list items => by
      have h := framesList_le items
      rw [frames, nesting]
      omega
  | .dict items => by
      have h := framesItems_le items
      rw [frames, nesting]
      omega
  | .null | .bool _ | .int _ | .float _ | .str _ => by simp [frames]

/-- Element by element. -/
theorem framesList_le : ∀ items : List Json, framesList items ≤ 2 * nestingList items + 2
  | [] => by simp [framesList]
  | x :: xs => by
      have hx := frames_le x
      have hxs := framesList_le xs
      rw [framesList, nestingList]
      omega

/-- Value by value. -/
theorem framesItems_le : ∀ items : List (Str × Json),
    framesItems items ≤ 2 * nestingItems items + 2
  | [] => by simp [framesItems]
  | (_, x) :: xs => by
      have hx := frames_le x
      have hxs := framesItems_le xs
      rw [framesItems, nestingItems]
      omega

end

end Python.Json

namespace MiniDms

open Python

mutual

/-- **`json_depth`** returns the nesting when the stack has the frames for it. -/
theorem jsonDepth_eq : ∀ (frames : Nat) (v : Json),
    jsonDepth frames v = if v.frames ≤ frames then some v.nesting else none
  | 0, v => by cases v <;> simp [jsonDepth, Json.frames]
  | n + 1, .list items => by
      rw [jsonDepth, jsonDepthList_eq n items, Json.frames, Json.nesting]
      by_cases h : Json.framesList items ≤ n
      · rw [if_pos h, if_pos (by omega)]
        rfl
      · rw [if_neg h, if_neg (by omega)]
        rfl
  | n + 1, .dict items => by
      rw [jsonDepth, jsonDepthItems_eq n items, Json.frames, Json.nesting]
      by_cases h : Json.framesItems items ≤ n
      · rw [if_pos h, if_pos (by omega)]
        rfl
      · rw [if_neg h, if_neg (by omega)]
        rfl
  | n + 1, .null | n + 1, .bool _ | n + 1, .int _ | n + 1, .float _ | n + 1, .str _ => by
      simp [jsonDepth, Json.frames, Json.nesting]

/-- Element by element. -/
theorem jsonDepthList_eq : ∀ (frames : Nat) (items : List Json),
    jsonDepthList frames items =
      if Json.framesList items ≤ frames then some (Json.nestingList items) else none
  | 0, [] => by simp [jsonDepthList, Json.framesList]
  | 0, x :: xs => by simp [jsonDepthList, Json.framesList]
  | n + 1, [] => by simp [jsonDepthList, Json.framesList, Json.nestingList]
  | n + 1, x :: xs => by
      rw [jsonDepthList, jsonDepth_eq n x, jsonDepthList_eq (n + 1) xs, Json.framesList,
        Json.nestingList]
      by_cases hx : x.frames ≤ n
      · by_cases hxs : Json.framesList xs ≤ n + 1
        · rw [if_pos hx, if_pos hxs, if_pos (by omega)]
          rfl
        · rw [if_pos hx, if_neg hxs, if_neg (by omega)]
          rfl
      · have hall : ¬ max (1 + x.frames) (Json.framesList xs) ≤ n + 1 := by omega
        rw [if_neg hx, if_neg hall]
        rfl

/-- Value by value. -/
theorem jsonDepthItems_eq : ∀ (frames : Nat) (items : List (Str × Json)),
    jsonDepthItems frames items =
      if Json.framesItems items ≤ frames then some (Json.nestingItems items) else none
  | 0, [] => by simp [jsonDepthItems, Json.framesItems]
  | 0, x :: xs => by simp [jsonDepthItems, Json.framesItems]
  | n + 1, [] => by simp [jsonDepthItems, Json.framesItems, Json.nestingItems]
  | n + 1, (_, x) :: xs => by
      rw [jsonDepthItems, jsonDepth_eq n x, jsonDepthItems_eq (n + 1) xs, Json.framesItems,
        Json.nestingItems]
      by_cases hx : x.frames ≤ n
      · by_cases hxs : Json.framesItems xs ≤ n + 1
        · rw [if_pos hx, if_pos hxs, if_pos (by omega)]
          rfl
        · rw [if_pos hx, if_neg hxs, if_neg (by omega)]
          rfl
      · have hall : ¬ max (1 + x.frames) (Json.framesItems xs) ≤ n + 1 := by omega
        rw [if_neg hx, if_neg hall]
        rfl

end

/-! ## The checks in order -/

/-- A string of the value spells the escape of NUL: a backslash, the letter and four zeros. -/
def SpellsNul (v : Json) : Prop := ∃ s ∈ v.strings, lit "\\u0000" <:+: s

/-- A string of the value contains a lone surrogate. -/
def HasSurrogate (v : Json) : Prop := ∃ s ∈ v.strings, s.any isSurrogate = true

/-- Whether a value spells NUL is decided on its texts. -/
instance decidableSpellsNul (v : Json) : Decidable (SpellsNul v) :=
  inferInstanceAs (Decidable (∃ s ∈ v.strings, lit "\\u0000" <:+: s))

/-- Whether a value holds a surrogate is decided on its texts. -/
instance decidableHasSurrogate (v : Json) : Decidable (HasSurrogate v) :=
  inferInstanceAs (Decidable (∃ s ∈ v.strings, s.any isSurrogate = true))

/-- The UTF-8 length of the encoding. -/
def encodedLength (v : Json) : Nat := (v.dumps.flatMap utf8).length

/-- The value passes every check that comes before its text is encoded. -/
structure ReachesEncoding (v : Json) : Prop where
  isObject : ∃ items, v = .dict items
  finite : v.finite = true
  printable : v.printable = true
  nulFree : ∀ s ∈ v.strings, 0 ∉ s
  unspelled : ¬ SpellsNul v

/-- The value passes every check that comes before its nesting is measured. -/
structure ReachesDepth (v : Json) : Prop extends ReachesEncoding v where
  wellFormed : ¬ HasSurrogate v
  small : encodedLength v ≤ 16384

/-- The search for the escape of NUL fails on values without NUL that do not spell it. -/
theorem nulEscape_not_infix_iff (v : Json) : ¬ lit "\\u0000" <:+: v.dumps ↔
    (∀ s ∈ v.strings, 0 ∉ s) ∧ ¬ SpellsNul v := by
  rw [Json.nulEscape_infix_dumps_iff, SpellsNul]
  constructor
  · intro h
    exact ⟨fun s hs h0 => h ⟨s, hs, .inl h0⟩, fun ⟨s, hs, hspell⟩ => h ⟨s, hs, .inr hspell⟩⟩
  · rintro ⟨hnul, hspell⟩ ⟨s, hs, h0 | h⟩
    · exact hnul s hs h0
    · exact hspell ⟨s, hs, h⟩

/-- A value without surrogates is encoded. -/
theorem encode_dumps {v : Json} (h : ¬ HasSurrogate v) :
    encode v.dumps = some (v.dumps.flatMap utf8) := by
  rw [HasSurrogate, ← Json.any_isSurrogate_dumps_iff] at h
  rw [encode, if_neg h]

/-- An object in which a container is nested deeper than the C stack has levels left for the encoder,
with no number in front of it that cannot be written. -/
structure OverrunsEncoder (stack : CallStack) (v : Json) : Prop where
  isObject : ∃ items, v = .dict items
  overruns : v.Overruns stack.encoder

/-- Such a value raises. -/
theorem OverrunsEncoder.validateMetadata {stack : CallStack} {v : Json}
    (h : OverrunsEncoder stack v) : MiniDms.validateMetadata stack v = .error .recursionError := by
  obtain ⟨⟨items, rfl⟩, hover⟩ := h
  rw [MiniDms.validateMetadata, Json.dumpError_eq_recursionError_iff.mpr hover]

/-- The encoder has levels for values that are nested as the documentation allows. -/
theorem not_overrunsEncoder_of_shallow {stack : CallStack} {v : Json} (h : v.nesting ≤ 5) :
    ¬ OverrunsEncoder stack v := by
  intro hover
  have hroom := stack.room
  exact Json.not_overruns_of_shallow (by omega) hover.overruns

/-- Elsewhere the encoder returns, or raises `ValueError` for a number. -/
theorem dumpError_of_not_overrunsEncoder {stack : CallStack} {items : List (Str × Json)}
    (h : ¬ OverrunsEncoder stack (.dict items)) : (Json.dict items).dumpError stack.encoder =
      if (Json.dict items).finite = true ∧ (Json.dict items).printable = true then none
      else some .valueError :=
  Json.dumpError_of_not_overruns fun hover => h ⟨⟨items, rfl⟩, hover⟩

/-- The checks before the encoding answer what they refuse. -/
theorem validateMetadata_of_not_reachesEncoding {stack : CallStack} {v : Json}
    (h : ¬ ReachesEncoding v) (hencoder : ¬ OverrunsEncoder stack v) :
    ∃ text, validateMetadata stack v = invalid text := by
  cases v with
  | dict items =>
      rw [validateMetadata, dumpError_of_not_overrunsEncoder hencoder]
      by_cases hjson : (Json.dict items).finite = true ∧ (Json.dict items).printable = true
      · rw [if_pos hjson]
        by_cases hnul : lit "\\u0000" <:+: (Json.dict items).dumps
        · exact ⟨_, if_pos hnul⟩
        · obtain ⟨hfree, hspell⟩ := (nulEscape_not_infix_iff _).mp hnul
          exact absurd ⟨⟨items, rfl⟩, hjson.1, hjson.2, hfree, hspell⟩ h
      · rw [if_neg hjson]
        exact ⟨_, rfl⟩
  | null | bool _ | int _ | float _ | str _ | list _ => exact ⟨_, rfl⟩

/-- A value that passes them is tested against the limits. -/
theorem validateMetadata_of_reachesEncoding {stack : CallStack} {v : Json} (h : ReachesEncoding v)
    (hencoder : ¬ OverrunsEncoder stack v) : validateMetadata stack v = do
      if ← exceedsLimits stack v then
        invalid "Metadata is limited to 16 KiB and five nesting levels."
      else return v := by
  obtain ⟨⟨items, rfl⟩, hfinite, hprintable, hfree, hspell⟩ := h
  have hnul := (nulEscape_not_infix_iff (.dict items)).mpr ⟨hfree, hspell⟩
  rw [validateMetadata, dumpError_of_not_overrunsEncoder hencoder, if_pos ⟨hfinite, hprintable⟩]
  exact if_neg hnul

/-- A surrogate in a value that reaches the encoding raises. -/
theorem validateMetadata_surrogate {stack : CallStack} {v : Json} (h : ReachesEncoding v)
    (hencoder : ¬ OverrunsEncoder stack v) (hsurrogate : HasSurrogate v) :
    validateMetadata stack v = .error .unicodeEncodeError := by
  have hencode : encode v.dumps = none := by
    rw [encode, if_pos ((Json.any_isSurrogate_dumps_iff v).mpr hsurrogate)]
  rw [validateMetadata_of_reachesEncoding h hencoder, exceedsLimits, hencode]
  rfl

/-- A value that is too large is answered. -/
theorem validateMetadata_large {stack : CallStack} {v : Json} (h : ReachesEncoding v)
    (hencoder : ¬ OverrunsEncoder stack v) (hwell : ¬ HasSurrogate v)
    (hlarge : ¬ encodedLength v ≤ 16384) : ∃ text, validateMetadata stack v = invalid text := by
  have hlimits : exceedsLimits stack v = .ok true := by
    rw [exceedsLimits, encode_dumps hwell]
    exact if_pos (Nat.lt_of_not_le hlarge)
  rw [validateMetadata_of_reachesEncoding h hencoder, hlimits]
  exact ⟨_, rfl⟩

/-- **A value whose nesting is measured** is returned, answered, or exhausts the stack. -/
theorem validateMetadata_of_reachesDepth {stack : CallStack} {v : Json} (h : ReachesDepth v)
    (hencoder : ¬ OverrunsEncoder stack v) : validateMetadata stack v =
      if v.frames ≤ stack.frames then
        if v.nesting ≤ 5 then .ok v
        else invalid "Metadata is limited to 16 KiB and five nesting levels."
      else .error .recursionError := by
  have hsmall : ¬ 16384 < (v.dumps.flatMap utf8).length := Nat.not_lt.mpr h.small
  rw [validateMetadata_of_reachesEncoding h.toReachesEncoding hencoder, exceedsLimits,
    encode_dumps h.wellFormed, jsonDepth_eq]
  simp only [if_neg hsmall]
  by_cases hframes : v.frames ≤ stack.frames
  · simp only [if_pos hframes]
    by_cases hdepth : v.nesting ≤ 5
    · rw [if_pos hdepth, decide_eq_false (Nat.not_lt.mpr hdepth)]
      rfl
    · rw [if_neg hdepth, decide_eq_true (Nat.lt_of_not_le hdepth)]
      rfl
  · simp only [if_neg hframes]
    rfl

/-! ## The documented set -/

/-- What the documentation asks of metadata. -/
structure Documented (v : Json) : Prop where
  isObject : ∃ items, v = .dict items
  finite : v.finite = true
  nulFree : ∀ s ∈ v.strings, 0 ∉ s
  small : encodedLength v ≤ 16384
  shallow : v.nesting ≤ 5

/-- The validator returns exactly the documented values, and answers the others with a
`ValidationError`. -/
def ValidatedAsDocumented (stack : CallStack) (v : Json) : Prop :=
  (validateMetadata stack v = .ok v ↔ Documented v) ∧
    (¬ Documented v → ∃ detail, validateMetadata stack v = .error (.validationError detail))

/-- A refusal is a `ValidationError`. -/
theorem exists_detail {α : Type} {result : Except Raised α} (h : ∃ text, result = invalid text) :
    ∃ detail, result = .error (.validationError detail) := by
  obtain ⟨text, h⟩ := h
  exact ⟨_, h⟩

/-- A returned value has been encoded. -/
theorem not_overrunsEncoder_of_ok {stack : CallStack} {v w : Json}
    (h : validateMetadata stack v = .ok w) : ¬ OverrunsEncoder stack v := by
  intro hover
  rw [hover.validateMetadata] at h
  cases h

/-- A returned value has passed the checks before the encoding. -/
theorem ReachesEncoding.of_ok {stack : CallStack} {v w : Json}
    (h : validateMetadata stack v = .ok w) : ReachesEncoding v := by
  by_contra hnot
  obtain ⟨text, hinvalid⟩ :=
    validateMetadata_of_not_reachesEncoding hnot (not_overrunsEncoder_of_ok h)
  rw [hinvalid] at h
  cases h

/-- What passes every check of `validate_metadata`. -/
structure AcceptableMetadata (v : Json) : Prop extends ReachesDepth v where
  shallow : v.nesting ≤ 5

/-- Five levels take eleven frames, which every stack has left. -/
theorem frames_le_of_shallow {stack : CallStack} {v : Json} (h : v.nesting ≤ 5) :
    v.frames ≤ stack.frames := by
  have hle := Json.frames_le v
  have hroom := stack.room
  omega

/-- **What `validate_metadata` returns**: the value itself, when it passes every check. -/
theorem validateMetadata_eq_ok_iff {stack : CallStack} {v w : Json} :
    validateMetadata stack v = .ok w ↔ AcceptableMetadata v ∧ w = v := by
  constructor
  · intro h
    have hreaches := ReachesEncoding.of_ok h
    have hencoder := not_overrunsEncoder_of_ok h
    by_cases hwell : HasSurrogate v
    · rw [validateMetadata_surrogate hreaches hencoder hwell] at h
      cases h
    · by_cases hsmall : encodedLength v ≤ 16384
      · have hdepth : ReachesDepth v := ⟨hreaches, hwell, hsmall⟩
        rw [validateMetadata_of_reachesDepth hdepth hencoder] at h
        split at h
        · split at h
          next hshallow => exact ⟨⟨hdepth, hshallow⟩, (Except.ok.inj h).symm⟩
          next => cases h
        · cases h
      · obtain ⟨text, hinvalid⟩ := validateMetadata_large hreaches hencoder hwell hsmall
        rw [hinvalid] at h
        cases h
  · rintro ⟨h, rfl⟩
    rw [validateMetadata_of_reachesDepth h.toReachesDepth (not_overrunsEncoder_of_shallow h.shallow),
      if_pos (frames_le_of_shallow h.shallow), if_pos h.shallow]

/-- A documented value that is printable and spells no NUL is returned. -/
theorem Documented.validated {stack : CallStack} {v : Json} (h : Documented v)
    (hwell : ¬ HasSurrogate v) (hprintable : v.printable = true) (hspell : ¬ SpellsNul v) :
    validateMetadata stack v = .ok v :=
  validateMetadata_eq_ok_iff.mpr
    ⟨⟨⟨⟨h.isObject, h.finite, hprintable, h.nulFree, hspell⟩, hwell, h.small⟩, h.shallow⟩, rfl⟩

/-- A value that is not documented is not returned, and answered unless it exhausts a stack. -/
theorem validateMetadata_of_not_documented {stack : CallStack} {v : Json} (h : ¬ Documented v)
    (hwell : ¬ HasSurrogate v) (hencoder : ¬ OverrunsEncoder stack v)
    (hstack : ReachesDepth v → v.frames ≤ stack.frames) :
    ∃ text, validateMetadata stack v = invalid text := by
  by_cases hreaches : ReachesEncoding v
  · by_cases hsmall : encodedLength v ≤ 16384
    · have hdepth : ReachesDepth v := ⟨hreaches, hwell, hsmall⟩
      have hdeep : ¬ v.nesting ≤ 5 := fun hshallow =>
        h ⟨hreaches.isObject, hreaches.finite, hreaches.nulFree, hsmall, hshallow⟩
      rw [validateMetadata_of_reachesDepth hdepth hencoder, if_pos (hstack hdepth), if_neg hdeep]
      exact ⟨_, rfl⟩
    · exact validateMetadata_large hreaches hencoder hwell hsmall
  · exact validateMetadata_of_not_reachesEncoding hreaches hencoder

/-- **When the validator follows the documentation**: for a documented value, when no string spells
the escape of NUL and no integer is too long to write; for an object, when its encoding does not
exhaust the C stack; and for a value whose nesting is measured, when the stack has frames for its
levels. -/
theorem validatedAsDocumented_iff (stack : CallStack) (v : Json) (hwell : ¬ HasSurrogate v) :
    ValidatedAsDocumented stack v ↔
      (Documented v → v.printable = true ∧ ¬ SpellsNul v) ∧ ¬ OverrunsEncoder stack v ∧
        (ReachesDepth v → v.frames ≤ stack.frames) := by
  -- A `RecursionError` is neither a returned value nor a `ValidationError`.
  have hanswered : ValidatedAsDocumented stack v →
      validateMetadata stack v ≠ .error .recursionError := by
    rintro ⟨hok, herror⟩ hraised
    by_cases hdoc : Documented v
    · rw [hok.mpr hdoc] at hraised
      cases hraised
    · obtain ⟨detail, hdetail⟩ := herror hdoc
      rw [hdetail] at hraised
      cases hraised
  constructor
  · intro h
    have hencoder : ¬ OverrunsEncoder stack v := fun hover =>
      hanswered h hover.validateMetadata
    refine ⟨fun hdoc => ?_, hencoder, fun hdepth => ?_⟩
    · have hreaches := ReachesEncoding.of_ok (h.1.mpr hdoc)
      exact ⟨hreaches.printable, hreaches.unspelled⟩
    · by_contra hframes
      refine hanswered h ?_
      rw [validateMetadata_of_reachesDepth hdepth hencoder, if_neg hframes]
  · rintro ⟨hdocumented, hencoder, hstack⟩
    by_cases hdoc : Documented v
    · obtain ⟨hprintable, hspell⟩ := hdocumented hdoc
      exact ⟨iff_of_true (hdoc.validated hwell hprintable hspell) hdoc, fun h => absurd hdoc h⟩
    · obtain ⟨text, hinvalid⟩ := validateMetadata_of_not_documented hdoc hwell hencoder hstack
      refine ⟨iff_of_false ?_ hdoc, fun _ => ⟨_, hinvalid⟩⟩
      rw [hinvalid]
      exact fun h => by cases h

/-- The stacks of a request handler. -/
def sampleStack : CallStack := ⟨900, 200, 200, by decide⟩

/-- Metadata with a nested list. -/
def sampleMetadata : Json :=
  .dict [(lit "department", .str (lit "finance")), (lit "years", .list [.int 2025, .int 2026])]

/-- Metadata whose one string is the six characters of the escape of NUL, and no NUL. -/
def spelledNul : Json := .dict [(lit "note", .str (lit "\\u0000"))]

/-- The sample metadata is documented. -/
theorem spelledNul_documented : Documented spelledNul :=
  ⟨⟨_, rfl⟩, by decide, by decide, by decide +kernel, by decide⟩

/-- Plain metadata is validated as documented. -/
theorem validatedAsDocumented_iff_sample :
    ¬ HasSurrogate sampleMetadata ∧ ValidatedAsDocumented sampleStack sampleMetadata := by
  have hwell : ¬ HasSurrogate sampleMetadata := by decide
  refine ⟨hwell, (validatedAsDocumented_iff sampleStack sampleMetadata hwell).mpr
    ⟨fun _ => ?_, ?_, ?_⟩⟩
  · exact ⟨by decide, by decide⟩
  · exact not_overrunsEncoder_of_shallow (by decide)
  · exact fun _ => by decide

/-- Documented metadata that spells the escape of NUL is refused. -/
theorem spelledNul_not_validated : ¬ ∀ (stack : CallStack) (v : Json), ¬ HasSurrogate v →
    ValidatedAsDocumented stack v := by
  intro h
  have hok := (h sampleStack spelledNul (by decide)).1.mpr spelledNul_documented
  exact (ReachesEncoding.of_ok hok).unspelled (by decide)

end MiniDms
