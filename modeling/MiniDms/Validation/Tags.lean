import MiniDms.Documents.Serializers

/-! # What `validate_tags` accepts -/

namespace MiniDms

open Python Sequences

/-- A tag is kept stripped, when that leaves 1 to 64 characters and no character is NUL. -/
structure ValidTag (tag : Str) : Prop where
  nonempty : 1 ≤ (strip tag).length
  short : (strip tag).length ≤ 64
  nulFree : 0 ∉ tag

/-- An element is kept exactly when it is a valid tag. -/
theorem keptTag_eq_some_iff {value : Json} {kept : Str} :
    keptTag value = some kept ↔ ∃ tag, value = .str tag ∧ ValidTag tag ∧ strip tag = kept := by
  cases value with
  | str tag =>
      rw [keptTag]
      constructor
      · intro h
        split at h
        next hvalid =>
          obtain ⟨hne, hshort, hnul⟩ := hvalid
          exact ⟨tag, rfl, ⟨hne, hshort, hnul⟩, Option.some.inj h⟩
        next => cases h
      · rintro ⟨_, ⟨rfl⟩, hvalid, rfl⟩
        rw [if_pos ⟨hvalid.nonempty, hvalid.short, hvalid.nulFree⟩]
  | null | bool _ | int _ | float _ | list _ | dict _ =>
      constructor
      · intro h; cases h
      · rintro ⟨_, h, -⟩; cases h

/-- Elements are kept exactly when all of them are valid tags. -/
theorem mapM_keptTag_eq_some_iff {items : List Json} {kept : List Str} :
    items.mapM keptTag = some kept ↔
      ∃ tags : List Str, items = tags.map .str ∧ (∀ tag ∈ tags, ValidTag tag) ∧
        kept = tags.map strip := by
  induction items generalizing kept with
  | nil =>
      constructor
      · intro h; cases h; exact ⟨[], rfl, by simp, rfl⟩
      · rintro ⟨tags, h, -, rfl⟩
        rw [List.map_eq_nil_iff.mp h.symm]
        rfl
  | cons value items ih =>
      rw [List.mapM_cons]
      constructor
      · intro h
        obtain ⟨first, hfirst, h⟩ := Option.bind_eq_some_iff.mp h
        obtain ⟨rest, hrest, h⟩ := Option.bind_eq_some_iff.mp h
        obtain ⟨tag, rfl, hvalid, rfl⟩ := keptTag_eq_some_iff.mp hfirst
        obtain ⟨tags, rfl, hall, rfl⟩ := ih.mp hrest
        cases h
        exact ⟨tag :: tags, rfl, List.forall_mem_cons.mpr ⟨hvalid, hall⟩, rfl⟩
      · rintro ⟨tags, h, hall, rfl⟩
        cases tags with
        | nil => cases h
        | cons tag tags =>
            obtain ⟨rfl, rfl⟩ := List.cons.inj h
            obtain ⟨hvalid, hall⟩ := List.forall_mem_cons.mp hall
            rw [keptTag_eq_some_iff.mpr ⟨tag, rfl, hvalid, rfl⟩, ih.mpr ⟨tags, rfl, hall, rfl⟩]
            rfl

/-- What `validate_tags` asks for: a list of at most 32 valid tags. -/
structure ValidTags (value : Json) (tags : List Str) : Prop where
  isList : value = .list (tags.map .str)
  few : tags.length ≤ 32
  valid : ∀ tag ∈ tags, ValidTag tag

/-- **What `validate_tags` returns**: the stripped tags of a valid list, each at its first place. -/
theorem validateTags_eq_ok_iff {value : Json} {kept : List Str} :
    validateTags value = .ok kept ↔
      ∃ tags, ValidTags value tags ∧ kept = (tags.map strip).eraseDups := by
  cases value with
  | list items =>
      rw [validateTags]
      by_cases hlong : 32 < items.length
      · rw [if_pos hlong]
        constructor
        · intro h; cases h
        · rintro ⟨tags, ⟨h, hfew, -⟩, -⟩
          cases h
          rw [List.length_map] at hlong
          exact absurd hfew (Nat.not_le.mpr hlong)
      · rw [if_neg hlong]
        cases hkept : items.mapM keptTag with
        | none =>
            constructor
            · intro h; cases h
            · rintro ⟨tags, ⟨h, -, hall⟩, -⟩
              cases h
              rw [mapM_keptTag_eq_some_iff.mpr ⟨tags, rfl, hall, rfl⟩] at hkept
              cases hkept
        | some stripped =>
            obtain ⟨tags, rfl, hall, rfl⟩ := mapM_keptTag_eq_some_iff.mp hkept
            rw [List.length_map] at hlong
            constructor
            · intro h
              cases h
              exact ⟨tags, ⟨rfl, Nat.le_of_not_lt hlong, hall⟩, rfl⟩
            · rintro ⟨tags', ⟨h, -, -⟩, rfl⟩
              have hinj : Function.Injective Json.str := fun a b h => Json.str.inj h
              rw [List.map_injective_iff.mpr hinj (Json.list.inj h)]
  | null | bool _ | int _ | float _ | str _ | dict _ =>
      constructor
      · intro h; cases h
      · rintro ⟨_, ⟨h, -, -⟩, -⟩; cases h

/-- `validate_tags` never fails: what it does not return it answers. -/
theorem answered_validateTags (value : Json) : Answered (validateTags value) := by
  cases value with
  | list items =>
      rw [validateTags]
      split
      · exact .inr ⟨_, rfl⟩
      · split
        · exact .inl ⟨_, rfl⟩
        · exact .inr ⟨_, rfl⟩
  | null | bool _ | int _ | float _ | str _ | dict _ => exact .inr ⟨_, rfl⟩

/-! ## Validating twice -/

/-- A list of tags that `validate_tags` returns. -/
structure KeptTags (tags : List Str) : Prop where
  few : tags.length ≤ 32
  distinct : tags.Nodup
  trimmed : ∀ tag ∈ tags, strip tag = tag
  valid : ∀ tag ∈ tags, ValidTag tag

/-- A stripped tag is valid when the tag is. -/
theorem ValidTag.strip {tag : Str} (h : ValidTag tag) : ValidTag (Python.strip tag) where
  nonempty := by rw [strip_strip]; exact h.nonempty
  short := by rw [strip_strip]; exact h.short
  nulFree hmem := h.nulFree ((mem_strip (by decide)).mp hmem)

/-- The returned tags are stripped and distinct. -/
theorem keptTags_of_validateTags {given : Json} {tags : List Str}
    (h : validateTags given = .ok tags) : KeptTags tags := by
  obtain ⟨all, ⟨-, hfew, hvalid⟩, rfl⟩ := validateTags_eq_ok_iff.mp h
  obtain ⟨hnodup, hlength⟩ := nodup_eraseDups (all.map strip)
  rw [List.length_map] at hlength
  have hstripped : ∀ tag ∈ (all.map strip).eraseDups, ∃ t ∈ all, strip t = tag :=
    fun tag htag => List.mem_map.mp (List.mem_eraseDups.mp htag)
  refine ⟨hlength.trans hfew, hnodup, fun tag htag => ?_, fun tag htag => ?_⟩
  · obtain ⟨t, -, rfl⟩ := hstripped tag htag
    exact strip_strip t
  · obtain ⟨t, ht, rfl⟩ := hstripped tag htag
    exact (hvalid t ht).strip

/-- **Returned tags are returned again.** -/
theorem KeptTags.validateTags {tags : List Str} (h : KeptTags tags) :
    MiniDms.validateTags (.list (tags.map .str)) = .ok tags := by
  have hstrip : tags.map Python.strip = tags :=
    (List.map_congr_left h.trimmed).trans (List.map_id' tags)
  refine validateTags_eq_ok_iff.mpr ⟨tags, ⟨rfl, h.few, h.valid⟩, ?_⟩
  rw [hstrip, eraseDups_of_nodup h.distinct]

end MiniDms
