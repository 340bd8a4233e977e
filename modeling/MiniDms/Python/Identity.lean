import MiniDms.Python.Json

/-! # Identity of JSON values

Python's `==` compares a boolean as the number zero or one, at every depth; JSON tells booleans and
numbers apart. `same` is the identity JSON knows, and `==` is that identity after every boolean has
been counted as a number. -/

namespace Python.Json

/-- Both sides are numbers, of one value. -/
def sameNumber (x y : Json) : Bool :=
  match x.number, y.number with
  | some a, some b => a = b
  | _, _ => false

mutual

/-- Identity of JSON values. A boolean is no number, numbers are told apart by their values, and the
order of the keys says nothing. -/
def same : Json → Json → Bool
  | .null, .null => true
  | .bool b, .bool c => b = c
  | .int i, .int j => sameNumber (.int i) (.int j)
  | .int i, .float g => sameNumber (.int i) (.float g)
  | .float f, .int j => sameNumber (.float f) (.int j)
  | .float f, .float g => sameNumber (.float f) (.float g)
  | .str s, .str t => s = t
  | .list xs, .list ys => sameList xs ys
  -- Keys are distinct, as in `eq`.
  | .dict xs, .dict ys => xs.length = ys.length && sameItems xs ys
  | _, _ => false

/-- Element by element, of equal length. -/
def sameList : List Json → List Json → Bool
  | [], [] => true
  | x :: xs, y :: ys => same x y && sameList xs ys
  | _, _ => false

/-- Every item of the first dictionary has the same value in the second. -/
def sameItems : List (Str × Json) → List (Str × Json) → Bool
  | [], _ => true
  | (k, x) :: xs, ys =>
      (match ys.lookup k with
        | some y => same x y
        | none => false) && sameItems xs ys

end

mutual

/-- The value with every boolean counted as zero or one. -/
def counted : Json → Json
  | .bool b => .int (if b then 1 else 0)
  | .list items => .list (countedList items)
  | .dict items => .dict (countedItems items)
  | .null => .null
  | .int i => .int i
  | .float f => .float f
  | .str s => .str s

/-- Count in every element. -/
def countedList : List Json → List Json
  | [] => []
  | x :: xs => counted x :: countedList xs

/-- Count in every value. -/
def countedItems : List (Str × Json) → List (Str × Json)
  | [] => []
  | (k, x) :: xs => (k, counted x) :: countedItems xs

end

/-! ## Numbers -/

/-- Counting keeps the numeric value. -/
@[simp] theorem number_counted (v : Json) : v.counted.number = v.number := by
  cases v with
  | bool b => cases b <;> simp [counted, number]
  | null | int _ | float _ | str _ | list _ | dict _ => simp [counted, number]

/-- Every float has a numeric value. -/
theorem exists_number_float (f : Double) : ∃ n, (Json.float f).number = some n := by
  rw [number]
  split
  · exact ⟨_, rfl⟩
  · split <;> exact ⟨_, rfl⟩

/-- A finite number has an exact value. -/
theorem number_of_finite {v : Json} {n : Number} (hv : v.finite = true) (h : v.number = some n) :
    ∃ q, n = .exact q := by
  cases v with
  | bool b => exact ⟨_, (Option.some.inj h).symm⟩
  | int i => exact ⟨_, (Option.some.inj h).symm⟩
  | float f =>
      rw [finite] at hv
      rw [number, if_pos hv] at h
      exact ⟨_, (Option.some.inj h).symm⟩
  | null | str _ | list _ | dict _ => cases h

/-- Against a finite number, `==` compares the values. -/
theorem eqNumber_eq_sameNumber (v : Json) {w : Json} (hw : w.finite = true) :
    eqNumber v w = sameNumber v w := by
  rw [eqNumber, sameNumber]
  cases hn : w.number with
  | none => cases v.number <;> rfl
  | some b =>
      obtain ⟨q, rfl⟩ := number_of_finite hw hn
      cases v.number with
      | none => rfl
      | some a => cases a <;> simp [Number.eq]

/-- Counted numbers are the same when their values are. -/
theorem same_counted_of_number {v : Json} {n : Number} (hv : v.number = some n) (w : Json) :
    same v.counted w.counted = sameNumber v w := by
  have hcounted : sameNumber v w = sameNumber v.counted w.counted := by
    rw [sameNumber, sameNumber, number_counted, number_counted]
  rw [hcounted]
  cases v with
  | bool b => cases w <;> simp [counted, same, sameNumber, number]
  | int i => cases w <;> simp [counted, same, sameNumber, number]
  | float f => cases w <;> simp [counted, same, sameNumber, number]
  | null | str _ | list _ | dict _ => cases hv

/-! ## Lookups -/

/-- Looking a key up before or after counting. -/
theorem lookup_countedItems (k : Str) (items : List (Str × Json)) :
    (countedItems items).lookup k = (items.lookup k).map counted := by
  induction items with
  | nil => rfl
  | cons item items ih =>
      obtain ⟨l, x⟩ := item
      rw [countedItems, List.lookup_cons, List.lookup_cons, ih]
      cases k == l <;> rfl

/-- Counting booleans drops no item. -/
theorem length_countedItems (items : List (Str × Json)) :
    (countedItems items).length = items.length := by
  induction items with
  | nil => rfl
  | cons item items ih => rw [countedItems, List.length_cons, ih, List.length_cons]

/-- A value found in a finite dictionary is finite. -/
theorem finite_of_lookup {k : Str} {x : Json} {items : List (Str × Json)}
    (hitems : finiteItems items = true) (h : items.lookup k = some x) : x.finite = true := by
  induction items with
  | nil => cases h
  | cons item items ih =>
      obtain ⟨l, y⟩ := item
      rw [finiteItems, Bool.and_eq_true] at hitems
      rw [List.lookup_cons] at h
      cases hk : k == l with
      | true =>
          rw [hk] at h
          cases h
          exact hitems.1
      | false =>
          rw [hk] at h
          exact ih hitems.2 h

/-! ## Python's equality -/

mutual

/-- **Python's `==`** is JSON identity once booleans count as numbers. -/
theorem eq_eq_same_counted : ∀ v w : Json, w.finite = true → eq v w = same v.counted w.counted
  | .null, w, _ => by cases w <;> simp [eq, counted, same]
  | .str s, w, _ => by cases w <;> simp [eq, counted, same]
  | .bool b, w, hw => by
      rw [same_counted_of_number rfl, ← eqNumber_eq_sameNumber _ hw]
      cases w <;> rw [eq]
  | .int i, w, hw => by
      rw [same_counted_of_number rfl, ← eqNumber_eq_sameNumber _ hw]
      cases w <;> rw [eq]
  | .float f, w, hw => by
      obtain ⟨n, hn⟩ := exists_number_float f
      rw [same_counted_of_number hn, ← eqNumber_eq_sameNumber _ hw]
      cases w <;> rw [eq]
  | .list xs, w, hw => by
      cases w with
      | list ys =>
          rw [eq, counted, counted, same]
          exact eqList_eq_sameList xs ys hw
      | null | bool _ | int _ | float _ | str _ | dict _ => simp [eq, counted, same]
  | .dict xs, w, hw => by
      cases w with
      | dict ys =>
          rw [eq, counted, counted, same, length_countedItems, length_countedItems,
            eqItems_eq_sameItems xs ys hw]
      | null | bool _ | int _ | float _ | str _ | list _ => simp [eq, counted, same]

/-- Element by element. -/
theorem eqList_eq_sameList : ∀ xs ys : List Json, finiteList ys = true →
    eqList xs ys = sameList (countedList xs) (countedList ys)
  | [], [], _ => by rw [eqList, countedList, sameList]
  | [], _ :: _, _ => by simp [eqList, countedList, sameList]
  | _ :: _, [], _ => by simp [eqList, countedList, sameList]
  | x :: xs, y :: ys, h => by
      rw [finiteList, Bool.and_eq_true] at h
      rw [eqList, countedList, countedList, sameList, eq_eq_same_counted x y h.1,
        eqList_eq_sameList xs ys h.2]

/-- Item by item. -/
theorem eqItems_eq_sameItems : ∀ xs ys : List (Str × Json), finiteItems ys = true →
    eqItems xs ys = sameItems (countedItems xs) (countedItems ys)
  | [], ys, _ => by rw [eqItems, countedItems, sameItems]
  | (k, x) :: xs, ys, h => by
      rw [eqItems, countedItems, sameItems, lookup_countedItems, eqItems_eq_sameItems xs ys h]
      cases hk : ys.lookup k with
      | none => rfl
      | some y => simp only [Option.map_some, eq_eq_same_counted x y (finite_of_lookup h hk)]

end

/-! ## Reflexivity -/

mutual

/-- The keys of every dictionary are distinct, as in every Python `dict`. -/
def distinct : Json → Bool
  | .list items => distinctList items
  | .dict items => (items.map Prod.fst).Nodup && distinctItems items
  | _ => true

/-- In every element. -/
def distinctList : List Json → Bool
  | [] => true
  | x :: xs => distinct x && distinctList xs

/-- In every value. -/
def distinctItems : List (Str × Json) → Bool
  | [] => true
  | (_, x) :: xs => distinct x && distinctItems xs

end

/-- A list of strings has no keys. -/
theorem distinct_list_map_str (tags : List Str) : (Json.list (tags.map .str)).distinct = true := by
  have hlist : distinctList (tags.map .str) = true := by
    induction tags with
    | nil => rfl
    | cons tag tags ih => rw [List.map_cons, distinctList, ih]; rfl
  exact hlist

/-- With distinct keys, an item is found under its key. -/
theorem lookup_of_mem {k : Str} {x : Json} {items : List (Str × Json)}
    (hkeys : (items.map Prod.fst).Nodup) (h : (k, x) ∈ items) : items.lookup k = some x := by
  induction items with
  | nil => cases h
  | cons item items ih =>
      obtain ⟨l, y⟩ := item
      rw [List.map_cons, List.nodup_cons] at hkeys
      rcases List.mem_cons.mp h with hhead | htail
      · cases hhead
        exact List.lookup_cons_self
      · have hmem : k ∈ items.map Prod.fst := List.mem_map_of_mem htail
        have hne : (k == l) = false := by
          rw [beq_eq_false_iff_ne]
          exact fun hk => hkeys.1 (hk ▸ hmem)
        rw [List.lookup_cons, hne]
        exact ih hkeys.2 htail

/-- A value found in a dictionary has distinct keys when the dictionary has. -/
theorem distinct_of_lookup {k : Str} {x : Json} {items : List (Str × Json)}
    (hitems : distinctItems items = true) (h : items.lookup k = some x) : x.distinct = true := by
  induction items with
  | nil => cases h
  | cons item items ih =>
      obtain ⟨l, y⟩ := item
      rw [distinctItems, Bool.and_eq_true] at hitems
      rw [List.lookup_cons] at h
      split at h
      · cases h
        exact hitems.1
      · exact ih hitems.2 h

/-- A number is the same as itself. -/
theorem sameNumber_self {v : Json} {n : Number} (h : v.number = some n) :
    sameNumber v v = true := by
  rw [sameNumber, h]
  exact decide_eq_true rfl

mutual

/-- A value is the same as itself. -/
theorem same_refl : ∀ v : Json, v.distinct = true → same v v = true
  | .null, _ => by rw [same]
  | .bool b, _ => by simp [same]
  | .int i, _ => by rw [same, sameNumber_self rfl]
  | .float f, _ => by
      obtain ⟨n, hn⟩ := exists_number_float f
      rw [same, sameNumber_self hn]
  | .str s, _ => by simp [same]
  | .list items, h => by
      rw [same]
      exact sameList_refl items h
  | .dict items, h => by
      rw [distinct, Bool.and_eq_true, decide_eq_true_eq] at h
      simp only [same, decide_true, Bool.true_and]
      exact sameItems_refl items items h.1 h.2 (fun _ hitem => hitem)

/-- Element by element. -/
theorem sameList_refl : ∀ items : List Json, distinctList items = true →
    sameList items items = true
  | [], _ => by rw [sameList]
  | x :: xs, h => by
      rw [distinctList, Bool.and_eq_true] at h
      rw [sameList, same_refl x h.1, sameList_refl xs h.2]
      rfl

/-- Each item is found under its key among items with distinct keys. -/
theorem sameItems_refl : ∀ items all : List (Str × Json), (all.map Prod.fst).Nodup →
    distinctItems items = true → items ⊆ all → sameItems items all = true
  | [], _, _, _, _ => by rw [sameItems]
  | (k, x) :: items, all, hkeys, h, hsub => by
      rw [distinctItems, Bool.and_eq_true] at h
      have hlookup : all.lookup k = some x :=
        lookup_of_mem hkeys (hsub List.mem_cons_self)
      rw [sameItems, hlookup, sameItems_refl items all hkeys h.2
        fun item hitem => hsub (List.mem_cons_of_mem _ hitem)]
      simp only [same_refl x h.1, Bool.and_self]

end

/-! ## Counting -/

mutual

/-- Values that are the same stay so when booleans are counted. -/
theorem same_counted : ∀ v w : Json, same v w = true → same v.counted w.counted = true
  | .null, w, h => by cases w <;> simp_all [counted, same]
  | .str s, w, h => by cases w <;> simp_all [counted, same]
  | .bool b, w, h => by
      cases w with
      | bool c =>
          rw [same, decide_eq_true_eq] at h
          rw [h, counted, same, sameNumber_self rfl]
      | null | int _ | float _ | str _ | list _ | dict _ => simp [same] at h
  | .int i, w, h => by cases w <;> simp_all [counted, same]
  | .float f, w, h => by cases w <;> simp_all [counted, same]
  | .list xs, w, h => by
      cases w with
      | list ys =>
          rw [same] at h
          rw [counted, counted, same]
          exact sameList_counted xs ys h
      | null | bool _ | int _ | float _ | str _ | dict _ => simp [same] at h
  | .dict xs, w, h => by
      cases w with
      | dict ys =>
          rw [same, Bool.and_eq_true] at h
          rw [counted, counted, same, length_countedItems, length_countedItems, h.1,
            sameItems_counted xs ys h.2]
          rfl
      | null | bool _ | int _ | float _ | str _ | list _ => simp [same] at h

/-- Element by element. -/
theorem sameList_counted : ∀ xs ys : List Json, sameList xs ys = true →
    sameList (countedList xs) (countedList ys) = true
  | [], [], _ => by rw [countedList, sameList]
  | [], _ :: _, h => by simp [sameList] at h
  | _ :: _, [], h => by simp [sameList] at h
  | x :: xs, y :: ys, h => by
      rw [sameList, Bool.and_eq_true] at h
      rw [countedList, countedList, sameList, same_counted x y h.1, sameList_counted xs ys h.2]
      rfl

/-- Item by item. -/
theorem sameItems_counted : ∀ xs ys : List (Str × Json), sameItems xs ys = true →
    sameItems (countedItems xs) (countedItems ys) = true
  | [], ys, _ => by rw [countedItems, sameItems]
  | (k, x) :: xs, ys, h => by
      rw [sameItems, Bool.and_eq_true] at h
      rw [countedItems, sameItems, lookup_countedItems, sameItems_counted xs ys h.2]
      cases hk : ys.lookup k with
      | none =>
          rw [hk] at h
          exact absurd h.1 Bool.false_ne_true
      | some y =>
          rw [hk] at h
          simp only [Option.map_some, same_counted x y h.1, Bool.and_self]

end

end Python.Json
