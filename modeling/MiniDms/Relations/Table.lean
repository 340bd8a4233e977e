import Mathlib

/-! # Tables with a primary key

A `Table κ α key` is a finite relation whose rows are told apart by `key`. The key constraint is a
field of the structure, so no operation can produce two rows with one key. `find` is the lookup by
primary key, `put` the upsert of a whole row, `erase` the deletion of a row and `update` the bulk
`UPDATE … SET … WHERE …`. -/

namespace Relational

universe u v

variable {κ : Type u} {α : Type v} [DecidableEq κ] {key : α → κ}

/-- A finite set of rows with distinct keys. -/
structure Table (κ : Type u) (α : Type v) (key : α → κ) where
  /-- The rows, in no significant order. -/
  rows : List α
  /-- The primary-key constraint. -/
  nodup : (rows.map key).Nodup

namespace Table

/-- The table without rows. -/
def empty : Table κ α key := ⟨[], List.nodup_nil⟩

/-- The row with a given key. -/
def find (t : Table κ α key) (k : κ) : Option α := t.rows.find? fun r => key r = k

/-- Delete the row with a given key. -/
def erase (t : Table κ α key) (k : κ) : Table κ α key where
  rows := t.rows.filter fun r => key r ≠ k
  nodup := (List.filter_sublist.map key).nodup t.nodup

/-- Insert a row, replacing the row with the same key. -/
def put (t : Table κ α key) (r : α) : Table κ α key where
  rows := r :: (t.erase (key r)).rows
  nodup := by
    rw [List.map_cons, List.nodup_cons]
    refine ⟨?_, (t.erase (key r)).nodup⟩
    -- The erased table has no row with the key of `r`.
    intro hmem
    obtain ⟨x, hx, hk⟩ := List.mem_map.mp hmem
    simp [erase, hk] at hx

/-- Rewrite the rows that satisfy `p`, leaving their keys. -/
def update (t : Table κ α key) (p : α → Bool) (f : α → α) (hf : ∀ r, key (f r) = key r) :
    Table κ α key where
  rows := t.rows.map fun r => if p r then f r else r
  nodup := by
    have hkey : (t.rows.map fun r => if p r then f r else r).map key = t.rows.map key := by
      rw [List.map_map]
      refine List.map_congr_left fun r _ => ?_
      simp only [Function.comp_apply]
      split
      · exact hf r
      · rfl
    rw [hkey]
    exact t.nodup

/-! ## Lookup after each operation -/

/-- The empty table has no row. -/
@[simp] theorem find_empty (k : κ) : (empty : Table κ α key).find k = none := rfl

/-- A lookup answers a row filed under the key asked for. -/
theorem key_of_find {t : Table κ α key} {k : κ} {r : α} (h : t.find k = some r) : key r = k := by
  simpa using List.find?_some h

omit [DecidableEq κ] in
/-- Two rows of a table with one key are the same row. -/
theorem eq_of_key_eq {t : Table κ α key} {r r' : α} (hr : r ∈ t.rows) (hr' : r' ∈ t.rows)
    (hk : key r = key r') : r = r' :=
  List.inj_on_of_nodup_map t.nodup hr hr' hk

/-- Lookup is membership. -/
theorem find_eq_some_iff {t : Table κ α key} {k : κ} {r : α} :
    t.find k = some r ↔ r ∈ t.rows ∧ key r = k := by
  constructor
  · intro h
    exact ⟨List.mem_of_find?_eq_some h, key_of_find h⟩
  · rintro ⟨hr, rfl⟩
    cases hf : t.find (key r) with
    -- The row itself would have been found.
    | none =>
        have := List.find?_eq_none.mp hf r hr
        simp at this
    | some r' =>
        rw [eq_of_key_eq (List.mem_of_find?_eq_some hf) hr (key_of_find hf)]

/-- A row is found under its own key. -/
theorem find_of_mem {t : Table κ α key} {r : α} (h : r ∈ t.rows) : t.find (key r) = some r :=
  find_eq_some_iff.mpr ⟨h, rfl⟩

/-- Deletion removes exactly the row with the key. -/
@[simp] theorem find_erase (t : Table κ α key) (k k' : κ) :
    (t.erase k).find k' = if k' = k then none else t.find k' := by
  -- The search skips the rows with the key; whether it was after one of them decides the answer.
  rw [find, erase, List.find?_filter]
  split
  · next h => simp [h]
  · next h =>
      rw [find]
      congr 1
      funext r
      by_cases hr : key r = k' <;> simp [hr, h]

/-- An upsert changes the lookup of the row's own key only. -/
@[simp] theorem find_put (t : Table κ α key) (r : α) (k : κ) :
    (t.put r).find k = if k = key r then some r else t.find k := by
  by_cases h : key r = k
  · simp [find, put, h]
  · have hne : k ≠ key r := fun e => h e.symm
    -- The new row is passed over, and the erased row has another key than `k`.
    have := find_erase t (key r) k
    simp only [find, put, List.find?_cons, h, decide_false, hne, if_false] at this ⊢
    exact this

/-- A bulk update rewrites the looked-up row when it is selected. -/
@[simp] theorem find_update (t : Table κ α key) (p : α → Bool) (f : α → α)
    (hf : ∀ r, key (f r) = key r) (k : κ) :
    (t.update p f hf).find k = (t.find k).map fun r => if p r then f r else r := by
  have hkey : ∀ r, key (if p r then f r else r) = key r := by
    intro r
    split
    · exact hf r
    · rfl
  simp only [find, update, List.find?_map, Function.comp_def, hkey]

end Table

end Relational
