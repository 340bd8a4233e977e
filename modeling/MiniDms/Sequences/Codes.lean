import Mathlib

/-! # Unambiguous codes

A code need not be prefix-free to be read back from a longer text: it is enough that what may follow a
code word shows where the word ends. Such codes can be put one after the other, and between separators
and a closing element. -/

namespace Sequences

universe u v w

variable {α : Type u} {β : Type v} {γ : Type w}

/-- Among valid values, a value is determined by its code word in front of a text that may follow, and
so is that text. -/
def Readable (Follows : List α → Prop) (Valid : β → Prop) (code : β → List α) (b : β) : Prop :=
  ∀ c, Valid c → ∀ s t, Follows s → Follows t → code b ++ s = code c ++ t → b = c ∧ s = t

/-- A part whose end shows by itself, a connective, and a second part. -/
theorem Readable.pair {Follows : List α → Prop} {Valid : γ → Prop} {first : β → List α}
    {second : γ → List α} {between : List α} {b : β} {c : γ}
    (hb : Readable (fun _ => True) (fun _ => True) first b) (hc : Readable Follows Valid second c) :
    Readable Follows (fun p : β × γ => Valid p.2)
      (fun p => first p.1 ++ between ++ second p.2) (b, c) := by
  rintro ⟨b', c'⟩ hvalid s t hs ht h
  simp only [List.append_assoc] at h
  obtain ⟨rfl, hrest⟩ := hb b' trivial _ _ trivial trivial h
  obtain ⟨rfl, rfl⟩ := hc c' hvalid s t hs ht (List.append_cancel_left hrest)
  exact ⟨rfl, rfl⟩

/-- How a sequence of code words begins and goes on. -/
theorem intercalate_cons_append (sep word : List α) (words : List (List α)) (s : List α) :
    sep.intercalate (word :: words) ++ s =
      word ++ (if words = [] then s else sep ++ (sep.intercalate words ++ s)) := by
  cases words with
  | nil => simp [List.intercalate_singleton]
  | cons next words =>
      rw [List.intercalate_cons_cons, if_neg (List.cons_ne_nil next words)]
      simp only [List.append_assoc]

/-- **A separated sequence up to its closing element is read back**: no element begins like the
closing one, and the closing one is not the separator's first. -/
theorem readable_intercalate {Follows : List α → Prop} {Valid : β → Prop} {code : β → List α}
    {first close : α} {sep : List α} (hsep : ∀ s, Follows (first :: sep ++ s))
    (hclose : ∀ s, Follows (close :: s)) (hne : first ≠ close)
    (hhead : ∀ b, Valid b → ∃ c r, code b = c :: r ∧ c ≠ close) {bs cs : List β}
    (hread : ∀ b ∈ bs, Readable Follows Valid code b) (hbs : ∀ b ∈ bs, Valid b)
    (hcs : ∀ c ∈ cs, Valid c) {s t : List α}
    (h : (first :: sep).intercalate (bs.map code) ++ close :: s =
      (first :: sep).intercalate (cs.map code) ++ close :: t) : bs = cs ∧ s = t := by
  induction bs generalizing cs with
  | nil =>
      cases cs with
      | nil => exact ⟨rfl, (List.cons.inj h).2⟩
      | cons c cs =>
          obtain ⟨d, r, hd, hdne⟩ := hhead c (hcs c List.mem_cons_self)
          rw [List.map_cons, intercalate_cons_append, hd] at h
          exact absurd (List.cons.inj h).1.symm hdne
  | cons b bs ih =>
      cases cs with
      | nil =>
          obtain ⟨d, r, hd, hdne⟩ := hhead b (hbs b List.mem_cons_self)
          rw [List.map_cons, intercalate_cons_append, hd] at h
          exact absurd (List.cons.inj h).1 hdne
      | cons c cs =>
          rw [List.map_cons, List.map_cons, intercalate_cons_append, intercalate_cons_append] at h
          obtain ⟨hb, hread'⟩ := List.forall_mem_cons.mp hread
          have hbs' := (List.forall_mem_cons.mp hbs).2
          obtain ⟨hc, hcs'⟩ := List.forall_mem_cons.mp hcs
          have hfollows : ∀ (ds : List β) (u : List α), Follows (if ds.map code = [] then close :: u
              else first :: sep ++ ((first :: sep).intercalate (ds.map code) ++ close :: u)) := by
            intro ds u
            split
            · exact hclose u
            · exact hsep _
          obtain ⟨rfl, hrest⟩ := hb c hc _ _ (hfollows bs s) (hfollows cs t) h
          simp only [List.map_eq_nil_iff] at hrest
          -- Both sequences go on, or both end here.
          split at hrest
          next hnil =>
            split at hrest
            next hnil' =>
              rw [hnil, hnil']
              exact ⟨rfl, (List.cons.inj hrest).2⟩
            next => exact absurd (List.cons.inj hrest).1.symm hne
          next =>
            split at hrest
            next => exact absurd (List.cons.inj hrest).1 hne
            next =>
              obtain ⟨rfl, rfl⟩ := ih hread' hbs' hcs' (List.append_cancel_left hrest)
              exact ⟨rfl, rfl⟩

end Sequences
