import MiniDms.Python.Identity

/-! # Values up to the order of keys

Sorting the keys at every depth gives one representative of all the values that differ in the order
of keys only. -/

namespace Python.Json

mutual

/-- Equality of JSON values up to the order of keys at every depth. A value is equal to values of its
own type only, and a float to floats with its bits, so zeros of different signs differ. -/
def alike : Json → Json → Bool
  | .null, .null => true
  | .bool b, .bool c => b = c
  | .int i, .int j => i = j
  | .float f, .float g => f = g
  | .str s, .str t => s = t
  | .list xs, .list ys => alikeList xs ys
  -- Keys are distinct, as in `eq`.
  | .dict xs, .dict ys => xs.length = ys.length && alikeItems xs ys
  | _, _ => false

/-- Element by element, of equal length. -/
def alikeList : List Json → List Json → Bool
  | [], [] => true
  | x :: xs, y :: ys => alike x y && alikeList xs ys
  | _, _ => false

/-- Every item of the first dictionary has an equal value in the second. -/
def alikeItems : List (Str × Json) → List (Str × Json) → Bool
  | [], _ => true
  | (k, x) :: xs, ys =>
      (match ys.lookup k with
        | some y => alike x y
        | none => false) && alikeItems xs ys

end

/-- Every item has an equal value under its key. -/
theorem alikeItems_iff (xs ys : List (Str × Json)) : alikeItems xs ys = true ↔
    ∀ item ∈ xs, ∃ y, ys.lookup item.1 = some y ∧ alike item.2 y = true := by
  induction xs with
  | nil => simp [alikeItems]
  | cons item xs ih =>
      obtain ⟨k, x⟩ := item
      rw [alikeItems, Bool.and_eq_true, ih, List.forall_mem_cons]
      refine and_congr_left' ?_
      cases ys.lookup k <;> simp

/-- Dictionaries are equal when they are as long and equal under every key. -/
theorem alike_dict_iff (xs ys : List (Str × Json)) : alike (.dict xs) (.dict ys) = true ↔
    xs.length = ys.length ∧
      ∀ item ∈ xs, ∃ y, ys.lookup item.1 = some y ∧ alike item.2 y = true := by
  rw [alike, Bool.and_eq_true, decide_eq_true_eq, alikeItems_iff]

/-- Texts are equal when they are the same. -/
theorem alike_str (s t : Str) : alike (.str s) (.str t) = true ↔ s = t := by
  rw [alike, decide_eq_true_eq]

/-- Equal lists of texts are the same list. -/
theorem alike_list_map_str (tags tags' : List Str) :
    alike (.list (tags.map .str)) (.list (tags'.map .str)) = true ↔ tags = tags' := by
  rw [alike]
  induction tags generalizing tags' with
  | nil => cases tags' <;> simp [alikeList]
  | cons tag tags ih =>
      cases tags' with
      | nil => simp [alikeList]
      | cons tag' tags' =>
          rw [List.map_cons, List.map_cons, alikeList, Bool.and_eq_true, ih, alike_str,
            List.cons.injEq]

/-! ## Items -/

/-- Sorting items permutes them. -/
theorem sortItems_perm (items : List (Str × Json)) : (sortItems items).Perm items :=
  List.perm_insertionSort _ items

/-- Sorting inside the values keeps the items in place. -/
theorem sortedItems_eq_map (items : List (Str × Json)) :
    sortedItems items = items.map fun item => (item.1, item.2.sorted) := by
  induction items with
  | nil => rfl
  | cons item items ih => rw [sortedItems, ih, List.map_cons]

/-- Sorting the values keeps the keys. -/
theorem keys_sortedItems (items : List (Str × Json)) :
    (sortedItems items).map Prod.fst = items.map Prod.fst := by
  rw [sortedItems_eq_map, List.map_map]
  rfl

/-- An item found under a key is one of the items. -/
theorem mem_of_lookup {k : Str} {x : Json} {items : List (Str × Json)}
    (h : items.lookup k = some x) : (k, x) ∈ items := by
  induction items with
  | nil => cases h
  | cons item items ih =>
      obtain ⟨l, y⟩ := item
      rw [List.lookup_cons] at h
      split at h
      next hk =>
        cases h
        rw [eq_of_beq hk]
        exact List.mem_cons_self
      next => exact List.mem_cons_of_mem _ (ih h)

/-- **Items with distinct keys have one order.** -/
theorem sortItems_eq_iff {xs ys : List (Str × Json)} (hkeys : (xs.map Prod.fst).Nodup) :
    sortItems xs = sortItems ys ↔ xs.Perm ys := by
  constructor
  · intro h
    exact (sortItems_perm xs).symm.trans (h ▸ sortItems_perm ys)
  · intro h
    have hperm : (sortItems xs).Perm (sortItems ys) :=
      (sortItems_perm xs).trans (h.trans (sortItems_perm ys).symm)
    have htotal : Std.Total fun a b : Str × Json => a.1 ≤ b.1 := ⟨fun a b => le_total a.1 b.1⟩
    have htrans : IsTrans (Str × Json) fun a b => a.1 ≤ b.1 := ⟨fun _ _ _ => le_trans⟩
    refine hperm.eq_of_pairwise (fun a b ha hb hab hba => ?_) (List.pairwise_insertionSort _ xs)
      (List.pairwise_insertionSort _ ys)
    -- Items with one key are one item.
    have ha' : a ∈ xs := (sortItems_perm xs).mem_iff.mp ha
    have hb' : b ∈ xs := h.mem_iff.mpr ((sortItems_perm ys).mem_iff.mp hb)
    exact List.inj_on_of_nodup_map hkeys ha' hb' (le_antisymm hab hba)

/-- Items with distinct keys among as many others are these others. -/
theorem perm_of_subset {xs ys : List (Str × Json)} (hkeys : (xs.map Prod.fst).Nodup)
    (hlength : xs.length = ys.length) (hsub : xs ⊆ ys) : xs.Perm ys :=
  (List.subperm_of_subset (List.Nodup.of_map _ hkeys) hsub).perm_of_length_le hlength.ge

/-! ## Sorting and equality -/

mutual

/-- Sorting keeps the floats. -/
theorem finite_sorted : ∀ v : Json, v.finite = true → v.sorted.finite = true
  | .null, _ | .bool _, _ | .int _, _ | .str _, _ => rfl
  | .float _, h => h
  | .list items, h => finiteList_sortedList items h
  | .dict items, h => by
      have hitems := finiteItems_sortedItems items h
      rw [sorted, finite, finiteItems_iff]
      rw [finiteItems_iff] at hitems
      exact fun item hitem => hitems item ((sortItems_perm _).mem_iff.mp hitem)

/-- Element by element. -/
theorem finiteList_sortedList : ∀ items : List Json, finiteList items = true →
    finiteList (sortedList items) = true
  | [], _ => rfl
  | x :: items, h => by
      rw [finiteList, Bool.and_eq_true] at h
      rw [sortedList, finiteList, finite_sorted x h.1, finiteList_sortedList items h.2]
      rfl

/-- Value by value. -/
theorem finiteItems_sortedItems : ∀ items : List (Str × Json), finiteItems items = true →
    finiteItems (sortedItems items) = true
  | [], _ => rfl
  | (k, x) :: items, h => by
      rw [finiteItems, Bool.and_eq_true] at h
      rw [sortedItems, finiteItems, finite_sorted x h.1, finiteItems_sortedItems items h.2]
      rfl

end

mutual

/-- Equal values are sorted into one. -/
theorem sorted_eq_of_alike : ∀ v w : Json, v.distinct = true → w.distinct = true →
    alike v w = true → v.sorted = w.sorted
  | .null, w, _, _, h => by
      cases w <;> simp [alike] at h
      rfl
  | .bool b, w, _, _, h => by
      cases w <;> simp [alike] at h
      rw [h]
  | .int i, w, _, _, h => by
      cases w <;> simp [alike] at h
      rw [h]
  | .float f, w, _, _, h => by
      cases w <;> simp [alike] at h
      rw [h]
  | .str s, w, _, _, h => by
      cases w <;> simp [alike] at h
      rw [h]
  | .list xs, w, hv, hw, h => by
      cases w with
      | list ys =>
          rw [alike] at h
          rw [sorted, sorted, sortedList_eq_of_alike xs ys hv hw h]
      | null | bool _ | int _ | float _ | str _ | dict _ => simp [alike] at h
  | .dict xs, w, hv, hw, h => by
      cases w with
      | dict ys =>
          rw [alike, Bool.and_eq_true, decide_eq_true_eq] at h
          rw [distinct, Bool.and_eq_true, decide_eq_true_eq] at hv hw
          have hkeys : ((sortedItems xs).map Prod.fst).Nodup := by
            rw [keys_sortedItems]
            exact hv.1
          have hlength : (sortedItems xs).length = (sortedItems ys).length := by
            rw [sortedItems_eq_map, sortedItems_eq_map, List.length_map, List.length_map, h.1]
          rw [sorted, sorted, (sortItems_eq_iff hkeys).mpr (perm_of_subset hkeys hlength
            (sortedItems_subset_of_alike xs ys hv.2 hw.2 h.2))]
      | null | bool _ | int _ | float _ | str _ | list _ => simp [alike] at h

/-- Element by element. -/
theorem sortedList_eq_of_alike : ∀ xs ys : List Json, distinctList xs = true →
    distinctList ys = true → alikeList xs ys = true → sortedList xs = sortedList ys
  | [], [], _, _, _ => rfl
  | [], _ :: _, _, _, h => by simp [alikeList] at h
  | _ :: _, [], _, _, h => by simp [alikeList] at h
  | x :: xs, y :: ys, hxs, hys, h => by
      rw [distinctList, Bool.and_eq_true] at hxs hys
      rw [alikeList, Bool.and_eq_true] at h
      rw [sortedList, sortedList, sorted_eq_of_alike x y hxs.1 hys.1 h.1,
        sortedList_eq_of_alike xs ys hxs.2 hys.2 h.2]

/-- Item by item. -/
theorem sortedItems_subset_of_alike : ∀ xs ys : List (Str × Json), distinctItems xs = true →
    distinctItems ys = true → alikeItems xs ys = true → sortedItems xs ⊆ sortedItems ys
  | [], ys, _, _, _ => List.nil_subset _
  | (k, x) :: xs, ys, hxs, hys, h => by
      rw [distinctItems, Bool.and_eq_true] at hxs
      rw [alikeItems, Bool.and_eq_true] at h
      refine List.cons_subset.mpr ⟨?_, sortedItems_subset_of_alike xs ys hxs.2 hys h.2⟩
      cases hlookup : ys.lookup k with
      | none =>
          rw [hlookup] at h
          exact absurd h.1 Bool.false_ne_true
      | some y =>
          rw [hlookup] at h
          have hdistinct : y.distinct = true := distinct_of_lookup hys hlookup
          rw [sorted_eq_of_alike x y hxs.1 hdistinct h.1, sortedItems_eq_map]
          exact List.mem_map_of_mem (f := fun item : Str × Json => (item.1, item.2.sorted))
            (mem_of_lookup hlookup)

end

mutual

/-- Values that are sorted into one are equal. -/
theorem alike_of_sorted_eq : ∀ v w : Json, v.distinct = true → w.distinct = true →
    v.sorted = w.sorted → alike v w = true
  | .null, w, _, _, h => by
      cases w <;> simp [sorted] at h
      rw [alike]
  | .bool b, w, _, _, h => by
      cases w <;> simp [sorted] at h
      simp [alike, h]
  | .int i, w, _, _, h => by
      cases w <;> simp [sorted] at h
      simp [alike, h]
  | .float f, w, _, _, h => by
      cases w <;> simp [sorted] at h
      simp [alike, h]
  | .str s, w, _, _, h => by
      cases w <;> simp [sorted] at h
      simp [alike, h]
  | .list xs, w, hv, hw, h => by
      cases w with
      | list ys =>
          rw [sorted, sorted, list.injEq] at h
          rw [alike]
          exact alikeList_of_sorted_eq xs ys hv hw h
      | null | bool _ | int _ | float _ | str _ | dict _ => simp [sorted] at h
  | .dict xs, w, hv, hw, h => by
      cases w with
      | dict ys =>
          rw [sorted, sorted, dict.injEq] at h
          rw [distinct, Bool.and_eq_true, decide_eq_true_eq] at hv hw
          have hkeys : ((sortedItems xs).map Prod.fst).Nodup := by
            rw [keys_sortedItems]
            exact hv.1
          have hperm := (sortItems_eq_iff hkeys).mp h
          have hlength : xs.length = ys.length := by
            have hperm := hperm.length_eq
            rwa [sortedItems_eq_map, sortedItems_eq_map, List.length_map, List.length_map] at hperm
          rw [alike, decide_eq_true hlength, Bool.true_and]
          exact alikeItems_of_subset xs ys hw.1 hv.2 hw.2 hperm.subset
      | null | bool _ | int _ | float _ | str _ | list _ => simp [sorted] at h

/-- Element by element. -/
theorem alikeList_of_sorted_eq : ∀ xs ys : List Json, distinctList xs = true →
    distinctList ys = true → sortedList xs = sortedList ys → alikeList xs ys = true
  | [], [], _, _, _ => by rw [alikeList]
  | [], _ :: _, _, _, h => nomatch h
  | _ :: _, [], _, _, h => nomatch h
  | x :: xs, y :: ys, hxs, hys, h => by
      rw [distinctList, Bool.and_eq_true] at hxs hys
      obtain ⟨hhead, htail⟩ := List.cons.inj h
      rw [alikeList, alike_of_sorted_eq x y hxs.1 hys.1 hhead,
        alikeList_of_sorted_eq xs ys hxs.2 hys.2 htail]
      rfl

/-- Item by item. -/
theorem alikeItems_of_subset : ∀ xs ys : List (Str × Json), (ys.map Prod.fst).Nodup →
    distinctItems xs = true → distinctItems ys = true → sortedItems xs ⊆ sortedItems ys →
    alikeItems xs ys = true
  | [], ys, _, _, _, _ => by rw [alikeItems]
  | (k, x) :: xs, ys, hkeys, hxs, hys, h => by
      rw [distinctItems, Bool.and_eq_true] at hxs
      obtain ⟨hhead, htail⟩ := List.cons_subset.mp h
      rw [sortedItems_eq_map] at hhead
      obtain ⟨⟨l, y⟩, hy, heq⟩ := List.mem_map.mp hhead
      obtain ⟨rfl, hsorted⟩ := Prod.mk.inj heq
      have hlookup := lookup_of_mem hkeys hy
      rw [alikeItems, hlookup]
      simp only [alike_of_sorted_eq x y hxs.1 (distinct_of_lookup hys hlookup) hsorted.symm,
        alikeItems_of_subset xs ys hkeys hxs.2 hys htail, Bool.and_self]

end

/-- **Sorting the keys forgets their order, and nothing else.** -/
theorem sorted_eq_iff {v w : Json} (hv : v.distinct = true) (hw : w.distinct = true) :
    v.sorted = w.sorted ↔ alike v w = true :=
  ⟨alike_of_sorted_eq v w hv hw, sorted_eq_of_alike v w hv hw⟩

end Python.Json
