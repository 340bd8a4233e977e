import MiniDms.Documents.Serializers

/-! # Strict input over every JSON body

The mixin looks for unknown names before the framework has seen that the body is an object. An array
can hold what no set holds, or names that no order sorts, and a number has no elements at all: such a
body raises a `TypeError`. -/

namespace MiniDms

open Python Sequences

variable {α : Type}

/-! ## Equality and kinds -/

/-- Equal scalars are of one kind, and both among the allowed names or both not. -/
theorem kind_of_eq {allowed : List Str} {a b : Json} (h : Json.eq a b = true) :
    (kind a, unexpected allowed a) = (kind b, unexpected allowed b) := by
  cases a <;> cases b <;> simp_all [Json.eq, Json.eqNumber, Json.number, kind, unexpected]

/-- Two different elements of a set are ordered exactly when they are of one kind. -/
theorem comparable_iff {a b : Json} (hne : Json.eq a b = false) (ha : kind a ≠ .container) :
    comparable a b = true ↔ kind a = kind b := by
  rw [comparable, Bool.and_eq_true, decide_eq_true_eq, and_iff_left_iff_imp]
  intro hkind
  cases a with
  | null =>
      cases b with
      | null => exact absurd hne (by simp [Json.eq])
      | bool _ | int _ | float _ | str _ | list _ | dict _ => cases hkind
  | list items => exact absurd rfl ha
  | dict items => exact absurd rfl ha
  | bool _ | int _ | float _ | str _ => rfl

/-! ## The unexpected elements -/

/-- Any two unexpected elements are of one kind. -/
def OneKind (allowed : List Str) (items : List Json) : Prop :=
  ∀ a ∈ items, ∀ b ∈ items, unexpected allowed a = true → unexpected allowed b = true →
    kind a = kind b

/-- The unexpected elements of the set of some values. -/
def unexpectedIn (allowed : List Str) (items : List Json) : List Json :=
  (firsts Json.eq items).filter (unexpected allowed)

/-- An unexpected element of the set is one of the values. -/
theorem mem_of_mem_unexpectedIn {allowed : List Str} {items : List Json} {a : Json}
    (h : a ∈ unexpectedIn allowed items) : a ∈ items ∧ unexpected allowed a = true :=
  ⟨mem_of_mem_firsts (List.mem_filter.mp h).1, (List.mem_filter.mp h).2⟩

/-- An unexpected value is represented among the unexpected elements of the set. -/
theorem exists_unexpectedIn {allowed : List Str} {items : List Json} {a : Json} (ha : a ∈ items)
    (hu : unexpected allowed a = true) : ∃ b ∈ unexpectedIn allowed items, kind b = kind a := by
  obtain ⟨b, hb, heq⟩ : ∃ b ∈ firsts Json.eq items,
      (kind b, unexpected allowed b) = (kind a, unexpected allowed a) :=
    exists_firsts (fun _ _ h => kind_of_eq h) ha
  obtain ⟨hkind, hunexpected⟩ := Prod.mk.inj heq
  exact ⟨b, List.mem_filter.mpr ⟨hb, hunexpected.trans hu⟩, hkind⟩

/-- Nothing is unexpected in the set exactly when none of the values is. -/
theorem unexpectedIn_eq_nil_iff {allowed : List Str} {items : List Json} :
    unexpectedIn allowed items = [] ↔ ∀ a ∈ items, unexpected allowed a = false := by
  constructor
  · intro h a ha
    by_contra hu
    obtain ⟨b, hb, -⟩ := exists_unexpectedIn ha (Bool.eq_true_of_not_eq_false hu)
    rw [h] at hb
    cases hb
  · intro h
    refine List.eq_nil_iff_forall_not_mem.mpr fun a ha => ?_
    obtain ⟨ha, hu⟩ := mem_of_mem_unexpectedIn ha
    rw [h a ha] at hu
    cases hu

/-- The unexpected elements of a set are sorted exactly when they are of one kind. -/
theorem pairwise_comparable_iff {allowed : List Str} {items : List Json}
    (hhash : ∀ a ∈ items, kind a ≠ .container) :
    ((unexpectedIn allowed items).Pairwise fun a b => comparable a b = true) ↔
      OneKind allowed items := by
  constructor
  · intro hpairwise a ha b hb hua hub
    obtain ⟨a', ha', hkinda⟩ := exists_unexpectedIn ha hua
    obtain ⟨b', hb', hkindb⟩ := exists_unexpectedIn hb hub
    have hkind : ∀ {c d : Json}, comparable c d = true → kind c = kind d := by
      intro c d h
      rw [comparable, Bool.and_eq_true, decide_eq_true_eq] at h
      exact h.1
    have hsame : kind a' = kind b' :=
      @List.Pairwise.forall_of_forall_of_flip _ _ (fun c d => kind c = kind d) (fun _ _ => rfl)
        (hpairwise.imp hkind) (hpairwise.imp fun h => (hkind h).symm) _ ha' _ hb'
    rw [← hkinda, ← hkindb, hsame]
  · intro hkind
    have hpairwise : (unexpectedIn allowed items).Pairwise fun a b => Json.eq a b = false :=
      (firsts_pairwise items).filter _
    refine hpairwise.imp_of_mem fun ha hb hne => ?_
    obtain ⟨ha, hua⟩ := mem_of_mem_unexpectedIn ha
    obtain ⟨hb, hub⟩ := mem_of_mem_unexpectedIn hb
    exact (comparable_iff hne (hhash _ ha)).mpr (hkind _ ha _ hb hua hub)

/-! ## The mixin -/

variable {serializer : StrictSerializer α} {data : Json} {items : List Json}

/-- Elements without a hash raise. -/
theorem setOf_unhashable (hiter : iterate data = .ok items)
    (hhash : ¬ ∀ a ∈ items, kind a ≠ .container) : setOf data = .error .typeError := by
  have hall : ¬ (items.all fun item => kind item ≠ .container) = true := by
    simpa only [List.all_eq_true, decide_eq_true_eq] using hhash
  rw [setOf, hiter]
  exact if_neg hall

/-- A body whose elements form a set is searched for unexpected ones. -/
theorem toInternalValue_eq (hiter : iterate data = .ok items)
    (hhash : ∀ a ∈ items, kind a ≠ .container) : serializer.toInternalValue data =
      if unexpectedIn serializer.writable items = [] then serializer.frameworkToInternalValue data
      else (do
        let names ← sortedValues (unexpectedIn serializer.writable items)
        throw (.validationError (.fields
          (names.map fun name => (name, ["Unknown or read-only field."]))))) := by
  have hall : (items.all fun item => kind item ≠ .container) = true := by
    simpa only [List.all_eq_true, decide_eq_true_eq] using hhash
  have hset : setOf data = .ok (firsts Json.eq items) := by
    rw [setOf, hiter]
    exact if_pos hall
  rw [StrictSerializer.toInternalValue, hset]
  simp only [← List.isEmpty_iff]
  rfl

/-- The framework answers what it is given. -/
theorem answered_framework (serializer : StrictSerializer α) (data : Json) :
    Answered (serializer.frameworkToInternalValue data) := by
  cases data with
  | dict items =>
      rw [StrictSerializer.frameworkToInternalValue]
      cases serializer.fields items with
      | ok a => exact .inl ⟨a, rfl⟩
      | error detail => exact .inr ⟨detail, rfl⟩
  | null | bool _ | int _ | float _ | str _ | list _ => exact .inr ⟨_, rfl⟩

/-- A body whose elements form a set is answered exactly when its unexpected ones are of one kind. -/
theorem answered_toInternalValue_iff (hiter : iterate data = .ok items)
    (hhash : ∀ a ∈ items, kind a ≠ .container) :
    Answered (serializer.toInternalValue data) ↔ OneKind serializer.writable items := by
  rw [toInternalValue_eq hiter hhash, ← pairwise_comparable_iff hhash, sortedValues]
  by_cases hnone : unexpectedIn serializer.writable items = []
  · rw [if_pos hnone, hnone]
    exact iff_of_true (answered_framework serializer data) .nil
  · rw [if_neg hnone]
    by_cases hpairwise : (unexpectedIn serializer.writable items).Pairwise
        fun a b => comparable a b = true
    · rw [if_pos hpairwise]
      exact iff_of_true (.inr ⟨_, rfl⟩) hpairwise
    · rw [if_neg hpairwise]
      refine iff_of_false ?_ hpairwise
      rintro (⟨_, h⟩ | ⟨_, h⟩) <;> cases h

/-- Validated data comes from an object with writable names only. -/
theorem object_of_toInternalValue_eq_ok {a : α} (h : serializer.toInternalValue data = .ok a) :
    ∃ items, data = .dict items ∧ ∀ item ∈ items, item.1 ∈ serializer.writable := by
  obtain ⟨present, hset, h⟩ := bind_eq_ok.mp h
  obtain ⟨items, hiter, -⟩ := bind_eq_ok.mp hset
  have hhash : ∀ a ∈ items, kind a ≠ .container := by
    by_contra hhash
    rw [setOf_unhashable hiter hhash] at hset
    cases hset
  have h : serializer.toInternalValue data = .ok a := bind_eq_ok.mpr ⟨present, hset, h⟩
  rw [toInternalValue_eq hiter hhash] at h
  by_cases hnone : unexpectedIn serializer.writable items = []
  · rw [if_pos hnone] at h
    cases data with
    | dict entries =>
        cases hiter
        refine ⟨entries, rfl, fun item hitem => ?_⟩
        have hexpected := unexpectedIn_eq_nil_iff.mp hnone _ (List.mem_map_of_mem hitem)
        simpa [unexpected] using hexpected
    | null | bool _ | int _ | float _ | str _ | list _ => cases h
  · rw [if_neg hnone] at h
    obtain ⟨_, -, h⟩ := bind_eq_ok.mp h
    cases h

/-- The keys of an object are of one kind and have hashes. -/
theorem keys_oneKind (allowed : List Str) (entries : List (Str × Json)) :
    OneKind allowed (entries.map fun item => Json.str item.1) ∧
      ∀ a ∈ entries.map fun item => Json.str item.1, kind a ≠ .container := by
  have hkind : ∀ a ∈ entries.map fun item => Json.str item.1, kind a = .text := by
    intro a ha
    obtain ⟨item, -, rfl⟩ := List.mem_map.mp ha
    rfl
  refine ⟨fun a ha b hb _ _ => (hkind a ha).trans (hkind b hb).symm, fun a ha => ?_⟩
  rw [hkind a ha]
  decide

/-- The unexpected elements of the set of an object's keys are the keys that are not allowed. -/
theorem mem_unexpectedIn_keys_iff {allowed : List Str} {entries : List (Str × Json)} {name : Json} :
    name ∈ unexpectedIn allowed (entries.map fun item => Json.str item.1) ↔
      ∃ key ∈ entries.map Prod.fst, key ∉ allowed ∧ name = .str key := by
  constructor
  · intro h
    obtain ⟨hmem, hu⟩ := mem_of_mem_unexpectedIn h
    obtain ⟨item, hitem, rfl⟩ := List.mem_map.mp hmem
    exact ⟨item.1, List.mem_map_of_mem hitem, by simpa [unexpected] using hu, rfl⟩
  · rintro ⟨key, hkey, hallowed, rfl⟩
    obtain ⟨item, hitem, rfl⟩ := List.mem_map.mp hkey
    -- A string equals no value but itself, so it represents itself.
    have htext : ∀ a b, Json.eq a b = true → (a = .str item.1 ↔ b = .str item.1) := by
      intro a b h
      cases a <;> cases b <;> simp_all [Json.eq, Json.eqNumber, Json.number]
    obtain ⟨b, hb, heq⟩ : ∃ b ∈ firsts Json.eq (entries.map fun item => Json.str item.1),
        (b = .str item.1) = (Json.str item.1 = .str item.1) :=
      exists_firsts (fun a b h => propext (htext a b h))
        (List.mem_map_of_mem (f := fun item => Json.str item.1) hitem)
    rw [show b = .str item.1 from heq.mpr rfl] at hb
    exact List.mem_filter.mpr ⟨hb, by simpa [unexpected] using hallowed⟩

/-- **Unknown names are reported.** For an object with names that are not writable, the error has an
entry for each of them and for nothing else. -/
theorem toInternalValue_unknown {entries : List (Str × Json)}
    (h : ∃ item ∈ entries, item.1 ∉ serializer.writable) :
    ∃ errors, serializer.toInternalValue (.dict entries) =
        .error (.validationError (.fields errors)) ∧
      ∀ name, name ∈ errors.map Prod.fst ↔
        ∃ key ∈ entries.map Prod.fst, key ∉ serializer.writable ∧ name = .str key := by
  obtain ⟨hkind, hhash⟩ := keys_oneKind serializer.writable entries
  obtain ⟨item, hitem, hunknown⟩ := h
  have hsome : unexpectedIn serializer.writable (entries.map fun item => Json.str item.1) ≠ [] := by
    refine List.ne_nil_of_mem (a := .str item.1) ?_
    exact mem_unexpectedIn_keys_iff.mpr ⟨item.1, List.mem_map_of_mem hitem, hunknown, rfl⟩
  rw [toInternalValue_eq rfl hhash, if_neg hsome, sortedValues,
    if_pos ((pairwise_comparable_iff hhash).mpr hkind)]
  refine ⟨_, rfl, fun name => ?_⟩
  rw [← mem_unexpectedIn_keys_iff, List.map_map]
  simp

/-! ## Bodies -/

/-- Strict validation of a body: data or a `ValidationError`, data only from an object with writable
names, and an error that names exactly the unknown ones. -/
structure StrictlyValidated (serializer : StrictSerializer α) (data : Json) : Prop where
  answered : Answered (serializer.runValidation data)
  object : ∀ a, serializer.runValidation data = .ok a →
    ∃ items, data = .dict items ∧ ∀ item ∈ items, item.1 ∈ serializer.writable
  named : ∀ items, data = .dict items → (∃ item ∈ items, item.1 ∉ serializer.writable) →
    ∃ errors, serializer.runValidation data = .error (.validationError (.fields errors)) ∧
      ∀ name, name ∈ errors.map Prod.fst ↔
        ∃ key ∈ items.map Prod.fst, key ∉ serializer.writable ∧ name = .str key

/-- A body the mixin can search: not a number or a boolean, and if an array then of values with a
hash, those that are no writable name being of one kind. -/
def Searchable (writable : List Str) : Json → Prop
  | .null | .str _ | .dict _ => True
  | .bool _ | .int _ | .float _ => False
  | .list items => (∀ a ∈ items, kind a ≠ .container) ∧ OneKind writable items

/-- A body is answered exactly when the mixin can search it. -/
theorem answered_runValidation_iff :
    Answered (serializer.runValidation data) ↔ Searchable serializer.writable data := by
  cases data with
  | null => exact iff_of_true (.inr ⟨_, rfl⟩) trivial
  | dict entries =>
      obtain ⟨hkind, hhash⟩ := keys_oneKind serializer.writable entries
      exact iff_of_true ((answered_toInternalValue_iff rfl hhash).mpr hkind) trivial
  | str s =>
      -- The elements of a string are strings.
      have hkind : ∀ a ∈ s.map fun c => Json.str [c], kind a = .text := by
        intro a ha
        obtain ⟨c, -, rfl⟩ := List.mem_map.mp ha
        rfl
      have hhash : ∀ a ∈ s.map fun c => Json.str [c], kind a ≠ .container := by
        intro a ha
        rw [hkind a ha]
        decide
      refine iff_of_true ((answered_toInternalValue_iff rfl hhash).mpr ?_) trivial
      exact fun a ha b hb _ _ => (hkind a ha).trans (hkind b hb).symm
  | list items =>
      by_cases hhash : ∀ a ∈ items, kind a ≠ .container
      · rw [Searchable, and_iff_right hhash]
        exact answered_toInternalValue_iff rfl hhash
      · refine iff_of_false ?_ fun h => hhash h.1
        have hraise : serializer.runValidation (.list items) = .error .typeError :=
          bind_eq_error.mpr (.inl (setOf_unhashable rfl hhash))
        rw [hraise]
        rintro (⟨_, h⟩ | ⟨_, h⟩) <;> cases h
  | bool _ | int _ | float _ =>
      refine iff_of_false ?_ id
      rintro (⟨_, h⟩ | ⟨_, h⟩) <;> cases h

/-- **When strict input is total**: exactly on the bodies the mixin can search. -/
theorem strictlyValidated_iff (serializer : StrictSerializer α) (data : Json) :
    StrictlyValidated serializer data ↔ Searchable serializer.writable data := by
  refine ⟨fun h => answered_runValidation_iff.mp h.answered, fun h => ?_⟩
  refine ⟨answered_runValidation_iff.mpr h, fun a ha => ?_, fun items hitems hunknown => ?_⟩
  · cases data with
    | null => cases ha
    | bool _ | int _ | float _ | str _ | list _ | dict _ => exact object_of_toInternalValue_eq_ok ha
  · subst hitems
    exact toInternalValue_unknown hunknown

/-- A PATCH with a number as its body raises a `TypeError`. -/
theorem number_not_strictlyValidated : ¬ ∀ (fields : List (Str × Json) → Except Detail Patch)
    (data : Json), StrictlyValidated (metadataSerializer fields) data := by
  intro h
  have hanswered := (h (fun _ => .error (.messages [""])) (.int 1)).answered
  exact answered_runValidation_iff.mp hanswered

end MiniDms
