import MiniDms.Relations.Table

/-! # Queries of a table

A query selects rows and may order them. Its result depends on the rows it selects only: not on the
other rows of the table, and, once it is ordered by a relation that tells the rows apart, not on the
order in which the table keeps them. -/

namespace Relational

universe u v

section Order

variable {α : Type u} {r : α → α → Prop} [DecidableRel r] [Std.Total r] [IsTrans α r]

/-- Sorting forgets the order the elements came in when the relation tells them apart. -/
theorem insertionSort_eq_of_perm {xs ys : List α} (h : xs.Perm ys)
    (anti : ∀ a ∈ xs, ∀ b ∈ xs, r a b → r b a → a = b) :
    xs.insertionSort r = ys.insertionSort r := by
  have hsorted : (xs.insertionSort r).Perm (ys.insertionSort r) :=
    (List.perm_insertionSort r xs).trans (h.trans (List.perm_insertionSort r ys).symm)
  refine hsorted.eq_of_pairwise ?_ (List.pairwise_insertionSort r xs)
    (List.pairwise_insertionSort r ys)
  intro a b ha hb
  have hax : a ∈ xs := (List.perm_insertionSort r xs).mem_iff.mp ha
  have hby : b ∈ ys := (List.perm_insertionSort r ys).mem_iff.mp hb
  exact anti a hax b (h.mem_iff.mpr hby)

end Order

namespace Table

variable {κ : Type u} {α : Type v} [DecidableEq κ] {key : α → κ}

omit [DecidableEq κ] in
/-- A table holds no row twice. -/
theorem rows_nodup (t : Table κ α key) : t.rows.Nodup := t.nodup.of_map key

/-- A row that satisfies `p` is what the restricted lookup answers under its key. -/
theorem mem_filter_iff {t : Table κ α key} {p : α → Bool} {r : α} :
    r ∈ t.rows.filter p ↔ (t.find (key r)).filter p = some r := by
  rw [List.mem_filter, Option.filter_eq_some_iff, find_eq_some_iff]
  tauto

/-- **Two tables that answer the same restricted lookups select the same rows.** -/
theorem filter_perm {t t' : Table κ α key} {p : α → Bool}
    (h : ∀ k, (t.find k).filter p = (t'.find k).filter p) :
    (t.rows.filter p).Perm (t'.rows.filter p) := by
  rw [List.perm_ext_iff_of_nodup (t.rows_nodup.filter p) (t'.rows_nodup.filter p)]
  intro r
  rw [mem_filter_iff, mem_filter_iff, h]

/-- **An ordered query** has the same result on two tables that answer the same restricted
lookups, if the order tells rows with different keys apart. -/
theorem ordered_filter_eq {t t' : Table κ α key} {p : α → Bool} {r : α → α → Prop}
    [DecidableRel r] [Std.Total r] [IsTrans α r]
    (h : ∀ k, (t.find k).filter p = (t'.find k).filter p)
    (anti : ∀ a b, r a b → r b a → key a = key b) :
    (t.rows.filter p).insertionSort r = (t'.rows.filter p).insertionSort r := by
  refine insertionSort_eq_of_perm (filter_perm h) fun a ha b hb hab hba => ?_
  exact eq_of_key_eq (List.mem_filter.mp ha).1 (List.mem_filter.mp hb).1 (anti a b hab hba)

end Table

end Relational
