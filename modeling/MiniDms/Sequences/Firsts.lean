import Mathlib

/-! # First occurrences

The elements a set built from a sequence keeps: of equal ones the first, for an equality that need
not be that of Lean. -/

namespace Sequences

universe u v

variable {α : Type u} {β : Type v}

/-- Keep an element when no earlier one equals it. -/
def firsts (eq : α → α → Bool) : List α → List α
  | [] => []
  | a :: l => a :: (firsts eq l).filter fun b => !eq a b

variable {eq : α → α → Bool}

/-- Kept elements are elements. -/
theorem mem_of_mem_firsts {l : List α} {a : α} (h : a ∈ firsts eq l) : a ∈ l := by
  induction l with
  | nil => exact h
  | cons b l ih =>
      rcases List.mem_cons.mp h with rfl | h
      · exact List.mem_cons_self
      · exact List.mem_cons_of_mem b (ih (List.mem_filter.mp h).1)

/-- No kept element equals an earlier one. -/
theorem firsts_pairwise (l : List α) : (firsts eq l).Pairwise fun a b => eq a b = false := by
  induction l with
  | nil => exact .nil
  | cons a l ih =>
      refine List.pairwise_cons.mpr ⟨fun b hb => ?_, ih.filter _⟩
      simpa using (List.mem_filter.mp hb).2

/-- **Every element has a kept representative** that agrees with it in whatever equal elements agree
in. -/
theorem exists_firsts {f : α → β} (hf : ∀ a b, eq a b = true → f a = f b) {l : List α} {a : α}
    (h : a ∈ l) : ∃ b ∈ firsts eq l, f b = f a := by
  induction l with
  | nil => cases h
  | cons c l ih =>
      rcases List.mem_cons.mp h with rfl | h
      · exact ⟨a, List.mem_cons_self, rfl⟩
      · obtain ⟨b, hb, hba⟩ := ih h
        by_cases hc : eq c b = true
        · exact ⟨c, List.mem_cons_self, (hf c b hc).trans hba⟩
        · exact ⟨b, List.mem_cons_of_mem c (List.mem_filter.mpr ⟨hb, by simpa using hc⟩), hba⟩

/-! ## Keeping the first of equal values -/

section EraseDups

variable [BEq α] [LawfulBEq α]

/-- Distinct values are all kept. -/
theorem eraseDups_of_nodup {l : List α} (h : l.Nodup) : l.eraseDups = l := by
  induction l with
  | nil => rfl
  | cons a l ih =>
      obtain ⟨ha, hl⟩ := List.nodup_cons.mp h
      have hfilter : (l.filter fun b => !b == a) = l := by
        refine List.filter_eq_self.mpr fun b hb => ?_
        have hne : b ≠ a := fun h => ha (h ▸ hb)
        simpa using hne
      rw [List.eraseDups_cons, hfilter, ih hl]

/-- The kept values are distinct, and no more than there were. -/
theorem nodup_eraseDups (l : List α) : l.eraseDups.Nodup ∧ l.eraseDups.length ≤ l.length := by
  -- The tail is filtered before it is searched, so the induction is on the length.
  induction hn : l.length using Nat.strong_induction_on generalizing l with
  | _ n ih =>
      cases l with
      | nil => simp
      | cons a l =>
          have hfilter := List.length_filter_le (fun b => !b == a) l
          rw [List.length_cons] at hn
          obtain ⟨hnodup, hlength⟩ := ih _ (by omega) (l.filter fun b => !b == a) rfl
          rw [List.eraseDups_cons]
          refine ⟨List.nodup_cons.mpr ⟨fun hmem => ?_, hnodup⟩, ?_⟩
          · have hne := (List.mem_filter.mp (List.mem_eraseDups.mp hmem)).2
            simp at hne
          · rw [List.length_cons]
            omega

end EraseDups

end Sequences
