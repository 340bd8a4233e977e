import Mathlib

/-! # Separators

What a separator does to a text put together around it: a pattern without the separator lies on one
side of it. -/

namespace Sequences

universe u

variable {α : Type u}

/-- A pattern without `c` does not reach across `c`. -/
theorem infix_append_cons_iff {p a b : List α} {c : α} (hc : c ∉ p) :
    p <:+: a ++ c :: b ↔ p <:+: a ∨ p <:+: b := by
  constructor
  · intro h
    rcases List.infix_append_iff.mp h with h | h | ⟨l, r, rfl, hl, hr⟩
    · exact .inl h
    -- Inside `c :: b` the pattern cannot start at `c` unless it is empty.
    · rcases List.infix_cons_iff.mp h with h | h
      · cases p with
        | nil => exact .inl (List.nil_infix)
        | cons x p =>
            obtain ⟨rfl, -⟩ := List.cons_prefix_cons.mp h
            exact absurd List.mem_cons_self hc
      · exact .inr h
    -- Across the boundary the part that enters `c :: b` is empty for the same reason.
    · cases r with
      | nil => exact .inl (by simpa using hl.isInfix)
      | cons x r =>
          obtain ⟨rfl, -⟩ := List.cons_prefix_cons.mp hr
          exact absurd (List.mem_append_right l List.mem_cons_self) hc
  · rintro (h | h)
    · exact h.trans (List.prefix_append a _).isInfix
    · exact h.trans ((List.suffix_cons c b).trans (List.suffix_append a _)).isInfix

/-- A beginning without `c` ends before `c`. -/
theorem prefix_append_cons_iff {p a b : List α} {c : α} (hc : c ∉ p) :
    p <+: a ++ c :: b ↔ p <+: a := by
  refine ⟨fun h => ?_, fun h => h.trans (List.prefix_append a _)⟩
  induction p generalizing a with
  | nil => exact List.nil_prefix
  | cons x p ih =>
      cases a with
      | nil =>
          obtain ⟨rfl, -⟩ := List.cons_prefix_cons.mp h
          exact absurd List.mem_cons_self hc
      | cons y a =>
          obtain ⟨rfl, hp⟩ := List.cons_prefix_cons.mp h
          exact List.cons_prefix_cons.mpr ⟨rfl, ih (fun h => hc (List.mem_cons_of_mem x h)) hp⟩

/-- A pattern that shares no element with a separator lies on one side of it. -/
theorem infix_append_append_iff {p a sep b : List α} (hsep : sep ≠ [])
    (hp : ∀ c ∈ sep, c ∉ p) : p <:+: a ++ sep ++ b ↔ p <:+: a ∨ p <:+: b := by
  induction sep generalizing a with
  | nil => exact absurd rfl hsep
  | cons c sep ih =>
      have hc : c ∉ p := hp c List.mem_cons_self
      rw [List.append_assoc, List.cons_append, infix_append_cons_iff hc]
      cases sep with
      | nil => rw [List.nil_append]
      | cons d sep =>
          have hrest : p <:+: [] ++ d :: sep ++ b ↔ p <:+: [] ∨ p <:+: b :=
            ih (List.cons_ne_nil d sep) fun e he => hp e (List.mem_cons_of_mem c he)
          rw [List.nil_append] at hrest
          rw [hrest]
          constructor
          · rintro (h | h | h)
            · exact .inl h
            · exact .inl (h.trans (List.nil_infix))
            · exact .inr h
          · rintro (h | h)
            · exact .inl h
            · exact .inr (.inr h)

/-- A nonempty pattern occurs in a joined text exactly when it occurs in a part. -/
theorem infix_intercalate_iff {p sep : List α} (hne : p ≠ []) (hsep : sep ≠ [])
    (hp : ∀ c ∈ sep, c ∉ p) (parts : List (List α)) :
    p <:+: sep.intercalate parts ↔ ∃ part ∈ parts, p <:+: part := by
  induction parts with
  | nil => simp [List.intercalate_nil, hne]
  | cons part parts ih =>
      cases parts with
      | nil => simp [List.intercalate_singleton]
      | cons next parts =>
          rw [List.intercalate_cons_cons, infix_append_append_iff hsep hp, ih]
          simp

end Sequences
