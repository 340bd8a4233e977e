import MiniDms.Python.Json

/-! # How deep a value nests, and what `json.dumps` raises

The C encoder descends into a value: it takes a level of the C stack for every list and dictionary it
enters, an empty one included, and gives it back on leaving. Without a level left it raises
`RecursionError`. On the way it raises `ValueError` for a float that is infinite or NaN and for an
integer with more than 4300 digits; whichever it meets first is raised. -/

namespace Python

namespace Json

/-! ## Nesting -/

mutual

/-- The number of containers around the innermost value. -/
def nesting : Json → Nat
  | .list items => 1 + nestingList items
  | .dict items => 1 + nestingItems items
  | _ => 0

/-- The deepest nesting among the elements. -/
def nestingList : List Json → Nat
  | [] => 0
  | x :: xs => max (nesting x) (nestingList xs)

/-- The deepest nesting among the values. -/
def nestingItems : List (Str × Json) → Nat
  | [] => 0
  | (_, x) :: xs => max (nesting x) (nestingItems xs)

end

/-- A list of strings nests once. -/
theorem nesting_list_map_str (tags : List Str) : (Json.list (tags.map .str)).nesting = 1 := by
  have hlist : nestingList (tags.map .str) = 0 := by
    induction tags with
    | nil => rfl
    | cons tag tags ih =>
        rw [List.map_cons, nestingList, ih]
        rfl
  rw [nesting, hlist]

/-! ## The encoder -/

/-- What `json.dumps` raises. -/
inductive DumpError
  | valueError
  | recursionError
  deriving DecidableEq, Repr

mutual

/-- The exception of `json.dumps(value, allow_nan=False)` with this many levels left; `none` when it
returns. -/
def dumpError : Nat → Json → Option DumpError
  | _, .int i => if (natRepr i.natAbs).length ≤ 4300 then none else some .valueError
  | _, .float f => if f.isFinite then none else some .valueError
  | 0, .list _ | 0, .dict _ => some .recursionError
  | levels + 1, .list items => dumpErrorList levels items
  | levels + 1, .dict items => dumpErrorItems levels items
  | _, .null | _, .bool _ | _, .str _ => none

/-- The first exception among the elements. -/
def dumpErrorList : Nat → List Json → Option DumpError
  | _, [] => none
  | levels, x :: xs => (dumpError levels x).or (dumpErrorList levels xs)

/-- The first exception among the values. -/
def dumpErrorItems : Nat → List (Str × Json) → Option DumpError
  | _, [] => none
  | levels, (_, x) :: xs => (dumpError levels x).or (dumpErrorItems levels xs)

end

/-! ## When it returns -/

mutual

/-- **`json.dumps` returns** exactly on finite values without too long integers that nest no deeper
than there are levels. -/
theorem dumpError_eq_none_iff : ∀ (levels : Nat) (v : Json), dumpError levels v = none ↔
    v.finite = true ∧ v.printable = true ∧ v.nesting ≤ levels
  | levels, .int i => by simp [dumpError, finite, printable, nesting]
  | levels, .float f => by simp [dumpError, finite, printable, nesting]
  | 0, .list items => by simp [dumpError, nesting]
  | 0, .dict items => by simp [dumpError, nesting]
  | levels + 1, .list items => by
      rw [dumpError, dumpErrorList_eq_none_iff levels items, finite, printable, nesting,
        Nat.add_comm 1, Nat.succ_le_succ_iff]
  | levels + 1, .dict items => by
      rw [dumpError, dumpErrorItems_eq_none_iff levels items, finite, printable, nesting,
        Nat.add_comm 1, Nat.succ_le_succ_iff]
  | levels, .null | levels, .bool _ | levels, .str _ => by
      simp [dumpError, finite, printable, nesting]

/-- Element by element. -/
theorem dumpErrorList_eq_none_iff : ∀ (levels : Nat) (items : List Json),
    dumpErrorList levels items = none ↔
      finiteList items = true ∧ printableList items = true ∧ nestingList items ≤ levels
  | levels, [] => by simp [dumpErrorList, finiteList, printableList, nestingList]
  | levels, x :: xs => by
      rw [dumpErrorList, Option.or_eq_none_iff, dumpError_eq_none_iff levels x,
        dumpErrorList_eq_none_iff levels xs, finiteList, printableList, nestingList,
        Bool.and_eq_true, Bool.and_eq_true, max_le_iff]
      tauto

/-- Value by value. -/
theorem dumpErrorItems_eq_none_iff : ∀ (levels : Nat) (items : List (Str × Json)),
    dumpErrorItems levels items = none ↔
      finiteItems items = true ∧ printableItems items = true ∧ nestingItems items ≤ levels
  | levels, [] => by simp [dumpErrorItems, finiteItems, printableItems, nestingItems]
  | levels, (k, x) :: xs => by
      rw [dumpErrorItems, Option.or_eq_none_iff, dumpError_eq_none_iff levels x,
        dumpErrorItems_eq_none_iff levels xs, finiteItems, printableItems, nestingItems,
        Bool.and_eq_true, Bool.and_eq_true, max_le_iff]
      tauto

end

/-! ## What it raises -/

/-- What an exception tells of the value, or of the elements, with these numbers and this nesting. -/
def DumpError.Explained (levels nesting : Nat) (finite printable : Bool) : DumpError → Prop
  | .valueError => finite = false ∨ printable = false
  | .recursionError => levels < nesting

/-- What is wrong with a part is wrong with the whole. -/
theorem DumpError.Explained.mono {levels n n' : Nat} {f f' p p' : Bool} {e : DumpError}
    (h : e.Explained levels n f p) (hn : n ≤ n') (hf : f = false → f' = false)
    (hp : p = false → p' = false) : e.Explained levels n' f' p' := by
  cases e with
  | valueError => exact h.imp hf hp
  | recursionError => exact Nat.lt_of_lt_of_le h hn

mutual

/-- **An exception has its reason**: a number that cannot be written, or a nesting the levels do not
allow. -/
theorem dumpError_explained : ∀ (levels : Nat) (v : Json) (e : DumpError),
    dumpError levels v = some e → e.Explained levels v.nesting v.finite v.printable
  | levels, .int i, e, h => by
      rw [dumpError] at h
      split at h
      · cases h
      · next hlong =>
          cases h
          exact .inr (decide_eq_false hlong)
  | levels, .float f, e, h => by
      rw [dumpError] at h
      split at h
      · cases h
      · next hfinite =>
          cases h
          exact .inl (Bool.eq_false_of_not_eq_true hfinite)
  | 0, .list items, e, h => by
      rw [dumpError] at h
      cases h
      rw [nesting, DumpError.Explained]
      omega
  | 0, .dict items, e, h => by
      rw [dumpError] at h
      cases h
      rw [nesting, DumpError.Explained]
      omega
  | levels + 1, .list items, e, h => by
      rw [dumpError] at h
      have hitems := dumpErrorList_explained levels items e h
      rw [nesting, finite, printable]
      cases e with
      | valueError => exact hitems
      | recursionError =>
          rw [DumpError.Explained] at hitems ⊢
          omega
  | levels + 1, .dict items, e, h => by
      rw [dumpError] at h
      have hitems := dumpErrorItems_explained levels items e h
      rw [nesting, finite, printable]
      cases e with
      | valueError => exact hitems
      | recursionError =>
          rw [DumpError.Explained] at hitems ⊢
          omega
  | levels, .null, e, h | levels, .bool _, e, h | levels, .str _, e, h => by
      simp only [dumpError] at h
      cases h

/-- Element by element. -/
theorem dumpErrorList_explained : ∀ (levels : Nat) (items : List Json) (e : DumpError),
    dumpErrorList levels items = some e →
      e.Explained levels (nestingList items) (finiteList items) (printableList items)
  | levels, [], e, h => by
      rw [dumpErrorList] at h
      cases h
  | levels, x :: xs, e, h => by
      rw [dumpErrorList, Option.or_eq_some_iff] at h
      rw [nestingList, finiteList, printableList]
      obtain hx | ⟨-, hxs⟩ := h
      · exact (dumpError_explained levels x e hx).mono (le_max_left _ _) (by simp +contextual)
          (by simp +contextual)
      · exact (dumpErrorList_explained levels xs e hxs).mono (le_max_right _ _)
          (by simp +contextual) (by simp +contextual)

/-- Value by value. -/
theorem dumpErrorItems_explained : ∀ (levels : Nat) (items : List (Str × Json)) (e : DumpError),
    dumpErrorItems levels items = some e →
      e.Explained levels (nestingItems items) (finiteItems items) (printableItems items)
  | levels, [], e, h => by
      rw [dumpErrorItems] at h
      cases h
  | levels, (k, x) :: xs, e, h => by
      rw [dumpErrorItems, Option.or_eq_some_iff] at h
      rw [nestingItems, finiteItems, printableItems]
      obtain hx | ⟨-, hxs⟩ := h
      · exact (dumpError_explained levels x e hx).mono (le_max_left _ _) (by simp +contextual)
          (by simp +contextual)
      · exact (dumpErrorItems_explained levels xs e hxs).mono (le_max_right _ _)
          (by simp +contextual) (by simp +contextual)

end

/-! ## What exhausts the levels -/

/-- The value can be written with this many levels. -/
structure Writable (levels : Nat) (v : Json) : Prop where
  finite : v.finite = true
  printable : v.printable = true
  shallow : v.nesting ≤ levels

/-- **The value exhausts the levels**: a container with no level left for it, or one of whose parts
exhausts the levels inside it, after parts that can be written. -/
inductive Overruns : Nat → Json → Prop
  | list (items : List Json) : Overruns 0 (.list items)
  | dict (items : List (Str × Json)) : Overruns 0 (.dict items)
  | element {levels : Nat} {written rest : List Json} {x : Json}
      (hwritten : ∀ y ∈ written, Writable levels y) (hx : Overruns levels x) :
      Overruns (levels + 1) (.list (written ++ x :: rest))
  | value {levels : Nat} {written rest : List (Str × Json)} {k : Str} {x : Json}
      (hwritten : ∀ item ∈ written, Writable levels item.2) (hx : Overruns levels x) :
      Overruns (levels + 1) (.dict (written ++ (k, x) :: rest))

/-- `json.dumps` returns on what can be written. -/
theorem Writable.dumpError {levels : Nat} {v : Json} (h : Writable levels v) :
    v.dumpError levels = none :=
  (dumpError_eq_none_iff levels v).mpr ⟨h.finite, h.printable, h.shallow⟩

/-- What it returns on can be written. -/
theorem Writable.of_dumpError {levels : Nat} {v : Json} (h : v.dumpError levels = none) :
    Writable levels v := by
  obtain ⟨hfinite, hprintable, hshallow⟩ := (dumpError_eq_none_iff levels v).mp h
  exact ⟨hfinite, hprintable, hshallow⟩

/-- Of the elements the first that raises is reported. -/
theorem dumpErrorList_eq_findSome (levels : Nat) (items : List Json) :
    dumpErrorList levels items = items.findSome? (dumpError levels) := by
  induction items with
  | nil => rfl
  | cons x xs ih =>
      rw [dumpErrorList, List.findSome?_cons, ih]
      cases dumpError levels x <;> rfl

/-- Of the values the first that raises is reported. -/
theorem dumpErrorItems_eq_findSome (levels : Nat) (items : List (Str × Json)) :
    dumpErrorItems levels items = items.findSome? fun item => dumpError levels item.2 := by
  induction items with
  | nil => rfl
  | cons item items ih =>
      obtain ⟨k, x⟩ := item
      rw [dumpErrorItems, List.findSome?_cons, ih]
      cases dumpError levels x <;> rfl

/-- **`json.dumps` raises `RecursionError`** exactly on the values that exhaust the levels. -/
theorem dumpError_eq_recursionError_iff {levels : Nat} {v : Json} :
    dumpError levels v = some .recursionError ↔ Overruns levels v := by
  constructor
  · intro h
    induction levels generalizing v with
    | zero =>
        cases v with
        | list items => exact .list items
        | dict items => exact .dict items
        | int i | float f =>
            rw [dumpError] at h
            split at h <;> cases h
        | null | bool _ | str _ => cases h
    | succ levels ih =>
        cases v with
        | list items =>
            rw [dumpError, dumpErrorList_eq_findSome, List.findSome?_eq_some_iff] at h
            obtain ⟨written, x, rest, rfl, hx, hwritten⟩ := h
            exact .element (fun y hy => .of_dumpError (hwritten y hy)) (ih hx)
        | dict items =>
            rw [dumpError, dumpErrorItems_eq_findSome, List.findSome?_eq_some_iff] at h
            obtain ⟨written, ⟨k, x⟩, rest, rfl, hx, hwritten⟩ := h
            exact .value (fun item hitem => .of_dumpError (hwritten item hitem)) (ih hx)
        | int i | float f =>
            rw [dumpError] at h
            split at h <;> cases h
        | null | bool _ | str _ => cases h
  · intro h
    induction h with
    | list items => rfl
    | dict items => rfl
    | element hwritten _ ih =>
        rw [dumpError, dumpErrorList_eq_findSome, List.findSome?_eq_some_iff]
        exact ⟨_, _, _, rfl, ih, fun y hy => (hwritten y hy).dumpError⟩
    | value hwritten _ ih =>
        rw [dumpError, dumpErrorItems_eq_findSome, List.findSome?_eq_some_iff]
        exact ⟨_, _, _, rfl, ih, fun item hitem => (hwritten item hitem).dumpError⟩

/-- A value that nests no deeper than there are levels does not exhaust them. -/
theorem not_overruns_of_shallow {levels : Nat} {v : Json} (h : v.nesting ≤ levels) :
    ¬ Overruns levels v := by
  intro hover
  have hdeep : levels < v.nesting :=
    dumpError_explained levels v _ (dumpError_eq_recursionError_iff.mpr hover)
  omega

/-- **Where `json.dumps` does not exhaust the levels** the numbers of the value decide. -/
theorem dumpError_of_not_overruns {levels : Nat} {v : Json} (h : ¬ Overruns levels v) :
    dumpError levels v =
      if v.finite = true ∧ v.printable = true then none else some .valueError := by
  cases hraised : dumpError levels v with
  | none =>
      obtain ⟨hfinite, hprintable, -⟩ := (dumpError_eq_none_iff levels v).mp hraised
      rw [if_pos ⟨hfinite, hprintable⟩]
  | some e =>
      cases e with
      | recursionError => exact absurd (dumpError_eq_recursionError_iff.mp hraised) h
      | valueError =>
          have hnumbers : v.finite = false ∨ v.printable = false :=
            dumpError_explained levels v _ hraised
          rw [if_neg]
          rintro ⟨hfinite, hprintable⟩
          rw [hfinite, hprintable] at hnumbers
          rcases hnumbers with h | h <;> cases h

end Json

end Python
