import MiniDms.Relations.Query

/-! # Pages of an ordered result

A result is ordered by a key, from the greatest down, and shown in pages. The place of a row is the
number of rows with a greater key. Rows that come or go behind it leave its place as it is; as long as
none in front of it goes, the place only grows. -/

namespace Relational

universe u v w

variable {α : Type u} {κ : Type v} [LinearOrder κ] {key : α → κ}

/-- The number of rows in front of a key. -/
def place (key : α → κ) (k : κ) (rows : List α) : Nat := rows.countP fun row => k < key row

/-- A result in the order of its keys has every row at its place. -/
theorem getElem?_place_of_pairwise {rows : List α}
    (hsorted : rows.Pairwise fun a b => key b < key a) {row : α} (hrow : row ∈ rows) :
    rows[place key (key row) rows]? = some row := by
  induction rows with
  | nil => cases hrow
  | cons a rows ih =>
      obtain ⟨hfirst, hrest⟩ := List.pairwise_cons.mp hsorted
      obtain rfl | hrow := List.mem_cons.mp hrow
      · -- Nothing is in front of the first row.
        have hzero : place key (key row) (row :: rows) = 0 := by
          refine List.countP_eq_zero.mpr fun b hb hlt => ?_
          have hlt := of_decide_eq_true hlt
          obtain rfl | hb := List.mem_cons.mp hb
          · exact lt_irrefl _ hlt
          · exact lt_asymm hlt (hfirst b hb)
        rw [hzero]
        rfl
      · have hsucc : place key (key row) (a :: rows) = place key (key row) rows + 1 := by
          simp [place, hfirst row hrow]
        rw [hsucc, List.getElem?_cons_succ]
        exact ih hrest hrow

/-- **A sorted result has every row at its place**, when the keys tell the rows apart. -/
theorem getElem?_place {r : α → α → Prop} [DecidableRel r] [Std.Total r] [IsTrans α r]
    (hr : ∀ a b, r a b ↔ key b ≤ key a) {rows : List α} (hkeys : (rows.map key).Nodup) {row : α}
    (hrow : row ∈ rows) : (rows.insertionSort r)[place key (key row) rows]? = some row := by
  have hperm := List.perm_insertionSort r rows
  have hsorted : (rows.insertionSort r).Pairwise fun a b => key b < key a := by
    have hdistinct : (rows.insertionSort r).Pairwise fun a b => key a ≠ key b :=
      List.pairwise_map.mp ((hperm.map key).nodup_iff.mpr hkeys)
    refine ((List.pairwise_insertionSort r rows).and hdistinct).imp fun ⟨hle, hne⟩ => ?_
    exact lt_of_le_of_ne ((hr _ _).mp hle) hne.symm
  have hplace : place key (key row) rows = place key (key row) (rows.insertionSort r) :=
    (hperm.countP_eq _).symm
  rw [hplace]
  exact getElem?_place_of_pairwise hsorted (hperm.mem_iff.mpr hrow)

/-- **A place only grows** while the rows in front of it stay, told apart by an identifier. -/
theorem place_le_place {ι : Type w} {identify : α → ι} {k : κ} {rows rows' : List α}
    (hrows : (rows.map identify).Nodup)
    (hstay : ∀ a ∈ rows, k < key a → ∃ b ∈ rows', identify b = identify a ∧ k < key b) :
    place key k rows ≤ place key k rows' := by
  rw [place, place, List.countP_eq_length_filter, List.countP_eq_length_filter,
    ← List.length_map identify, ← @List.length_map _ _ (rows'.filter _) identify]
  refine (List.subperm_of_subset ((List.filter_sublist.map identify).nodup hrows) ?_).length_le
  intro i hi
  obtain ⟨a, ha, rfl⟩ := List.mem_map.mp hi
  obtain ⟨hmem, hlt⟩ := List.mem_filter.mp ha
  obtain ⟨b, hb, heq, hltb⟩ := hstay a hmem (of_decide_eq_true hlt)
  exact List.mem_map.mpr ⟨b, List.mem_filter.mpr ⟨hb, decide_eq_true hltb⟩, heq⟩

/-- A row is on the page its place falls on. -/
theorem mem_page {rows : List α} {i start length : Nat} {row : α} (h : rows[i]? = some row)
    (hstart : start ≤ i) (hend : i < start + length) : row ∈ (rows.drop start).take length := by
  obtain ⟨j, rfl⟩ := Nat.exists_eq_add_of_le hstart
  refine List.mem_of_getElem? (i := j) ?_
  rw [List.getElem?_take_of_lt (Nat.lt_of_add_lt_add_left hend), List.getElem?_drop, h]

end Relational
