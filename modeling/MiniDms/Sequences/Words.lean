import Mathlib

/-! # Words

The words of a text are its maximal nonempty runs of word characters. An element that belongs to no
word separates the words on its two sides, so the words of a text put together around separators are
those of its parts. A text rewritten character by character keeps its words as long as the rewriting
leaves word characters alone and begins every other replacement with a separator; what such a
replacement ends with is glued to the word that follows. -/

namespace Sequences

universe u v

variable {α : Type u}

/-- `w` is a maximal nonempty run of word characters in `l`. -/
def WordOf (p : α → Bool) (l w : List α) : Prop :=
  w ≠ [] ∧ (∀ x ∈ w, p x = true) ∧ ∃ a b, l = a ++ (w ++ b) ∧
    (∀ x ∈ a.getLast?, p x = false) ∧ ∀ x ∈ b.head?, p x = false

variable {p : α → Bool} {w : List α}

/-- An empty text has no words. -/
theorem not_wordOf_nil : ¬ WordOf p [] w := by
  rintro ⟨hne, -, a, b, h, -⟩
  exact hne (List.append_eq_nil_iff.mp (List.append_eq_nil_iff.mp h.symm).2).1

/-! ## Separators -/

/-- A run without `c` lies on one side of `c`. -/
theorem append_cons_eq_append_append {c : α} {a b x y : List α} (hc : c ∉ w) (hw : w ≠ [])
    (h : a ++ c :: b = x ++ (w ++ y)) :
    (∃ t, a = x ++ (w ++ t) ∧ y = t ++ c :: b) ∨ ∃ t, x = a ++ c :: t ∧ b = t ++ (w ++ y) := by
  rcases List.append_eq_append_iff.mp h with ⟨t, rfl, ht⟩ | ⟨t, rfl, ht⟩
  · cases t with
    | nil =>
        -- The run would begin with `c`.
        cases w with
        | nil => exact absurd rfl hw
        | cons d w =>
            obtain ⟨rfl, -⟩ := List.cons.inj ht
            exact absurd List.mem_cons_self hc
    | cons d t =>
        obtain ⟨rfl, rfl⟩ := List.cons.inj ht
        exact .inr ⟨t, rfl, rfl⟩
  · rcases List.append_eq_append_iff.mp ht with ⟨s, rfl, hs⟩ | ⟨s, rfl, hs⟩
    · exact .inl ⟨s, rfl, hs⟩
    · cases s with
      | nil => exact .inl ⟨[], by simp, by simpa using hs.symm⟩
      | cons d s =>
          obtain ⟨rfl, -⟩ := List.cons.inj hs
          exact absurd (List.mem_append_right t List.mem_cons_self) hc

/-- **The words around an element that belongs to no word** are the words of both sides. -/
theorem wordOf_append_cons_iff {c : α} (hc : p c = false) (a b : List α) :
    WordOf p (a ++ c :: b) w ↔ WordOf p a w ∨ WordOf p b w := by
  constructor
  · rintro ⟨hne, hall, x, y, h, hx, hy⟩
    have hcw : c ∉ w := fun hmem => by simp [hall c hmem] at hc
    rcases append_cons_eq_append_append hcw hne h with ⟨t, rfl, rfl⟩ | ⟨t, rfl, rfl⟩
    · refine .inl ⟨hne, hall, x, t, rfl, hx, fun d hd => hy d ?_⟩
      rw [List.head?_append, hd]
      rfl
    · refine .inr ⟨hne, hall, t, y, rfl, fun d hd => hx d ?_, hy⟩
      rw [List.getLast?_append, List.getLast?_cons, hd]
      rfl
  · rintro (⟨hne, hall, x, y, rfl, hx, hy⟩ | ⟨hne, hall, x, y, rfl, hx, hy⟩)
    · refine ⟨hne, hall, x, y ++ c :: b, by simp, hx, fun d hd => ?_⟩
      cases y with
      | nil => cases hd; exact hc
      | cons e y => exact hy d hd
    · refine ⟨hne, hall, a ++ c :: x, y, by simp, fun d hd => ?_, hy⟩
      cases hlast : x.getLast? with
      | none =>
          rw [List.getLast?_eq_none_iff.mp hlast, List.getLast?_concat] at hd
          cases hd
          exact hc
      | some e =>
          rw [List.getLast?_append, List.getLast?_cons, hlast] at hd
          cases hd
          exact hx e hlast

/-- An element that belongs to no word may stand in front. -/
theorem wordOf_cons_iff {c : α} (hc : p c = false) (b : List α) :
    WordOf p (c :: b) w ↔ WordOf p b w := by
  have h : WordOf p ([] ++ c :: b) w ↔ _ := wordOf_append_cons_iff hc [] b
  simpa only [List.nil_append, not_wordOf_nil, false_or] using h

/-- The words around a separator are the words of both sides. -/
theorem wordOf_append_append_iff {a sep b : List α} (hne : sep ≠ [])
    (hsep : ∀ c ∈ sep, p c = false) :
    WordOf p (a ++ (sep ++ b)) w ↔ WordOf p a w ∨ WordOf p b w := by
  have hskip : ∀ sep : List α, (∀ c ∈ sep, p c = false) →
      (WordOf p (sep ++ b) w ↔ WordOf p b w) := by
    intro sep hsep
    induction sep with
    | nil => rfl
    | cons c sep ih =>
        obtain ⟨hc, hsep⟩ := List.forall_mem_cons.mp hsep
        rw [List.cons_append, wordOf_cons_iff hc, ih hsep]
  cases sep with
  | nil => exact absurd rfl hne
  | cons c sep =>
      obtain ⟨hc, hsep⟩ := List.forall_mem_cons.mp hsep
      rw [List.cons_append, wordOf_append_cons_iff hc, hskip sep hsep]

/-- The words of a joined text are the words of its parts. -/
theorem wordOf_intercalate_iff {sep : List α} (hne : sep ≠ []) (hsep : ∀ c ∈ sep, p c = false)
    (parts : List (List α)) :
    WordOf p (sep.intercalate parts) w ↔ ∃ part ∈ parts, WordOf p part w := by
  induction parts with
  | nil => simp [List.intercalate_nil, not_wordOf_nil]
  | cons part parts ih =>
      cases parts with
      | nil => simp [List.intercalate_singleton]
      | cons next parts =>
          rw [List.intercalate_cons_cons, List.append_assoc, wordOf_append_append_iff hne hsep, ih]
          simp

/-! ## Texts without separators -/

/-- The only word of a text of word characters is the text. -/
theorem wordOf_iff_of_forall {l : List α} (h : ∀ x ∈ l, p x = true) :
    WordOf p l w ↔ w ≠ [] ∧ w = l := by
  constructor
  · rintro ⟨hne, -, a, b, rfl, ha, hb⟩
    have hleft : a = [] := by
      rcases List.eq_nil_or_concat a with rfl | ⟨a, c, rfl⟩
      · rfl
      · have hc := ha c (by simp)
        rw [h c (by simp)] at hc
        cases hc
    have hright : b = [] := by
      cases b with
      | nil => rfl
      | cons c b =>
          have hc := hb c rfl
          rw [h c (by simp)] at hc
          cases hc
    rw [hleft, hright, List.nil_append, List.append_nil]
    exact ⟨hne, rfl⟩
  · rintro ⟨hne, rfl⟩
    exact ⟨hne, h, [], [], by simp, by simp, by simp⟩

/-! ## Computing the words -/

/-- The words of a text, in order. -/
def words (p : α → Bool) (l : List α) : List (List α) :=
  (l.splitOnP fun a => !p a).filter fun w => !w.isEmpty

/-- **What `words` computes** are the words. -/
theorem mem_words_iff {l : List α} : w ∈ words p l ↔ WordOf p l w := by
  -- The first word character run ends the text or stands before a separator.
  induction hn : l.length using Nat.strong_induction_on generalizing l with
  | h n ih =>
      have hrun : ∀ x ∈ l.takeWhile p, p x = true := fun x hx => List.mem_takeWhile_imp hx
      have hone : ∀ u : List α, (∀ x ∈ u, p x = true) → (w ∈ words p u ↔ WordOf p u w) := by
        intro u hu
        have hsplit : (u.splitOnP fun a => !p a) = [u] :=
          List.splitOnP_eq_singleton fun a ha => by simp [hu a ha]
        rw [wordOf_iff_of_forall hu, words, hsplit, List.mem_filter, List.mem_singleton]
        constructor
        · rintro ⟨rfl, hne⟩
          exact ⟨by simpa using hne, rfl⟩
        · rintro ⟨hne, rfl⟩
          exact ⟨rfl, by simpa using hne⟩
      have hsplit := @List.takeWhile_append_dropWhile _ p l
      cases hrest : l.dropWhile p with
      | nil =>
          rw [hrest, List.append_nil] at hsplit
          exact hone l (hsplit ▸ hrun)
      | cons c rest =>
          have hc : p c = false := by
            have hne : l.dropWhile p ≠ [] := by simp [hrest]
            have hhead := List.head_dropWhile_not p hne
            simpa [hrest] using hhead
          rw [hrest] at hsplit
          have hlt : rest.length < n := by
            rw [← hn, ← hsplit]
            simp only [List.length_append, List.length_cons]
            omega
          have hwords : words p (l.takeWhile p ++ c :: rest) =
              words p (l.takeWhile p) ++ words p rest := by
            have hparts := @List.splitOnP_append_cons _ (fun x => !p x) (l.takeWhile p) rest c
              (by simp [hc])
            rw [words, hparts, List.filter_append, words, words]
          rw [← hsplit, hwords, List.mem_append, wordOf_append_cons_iff hc, hone _ hrun,
            ih rest.length hlt rfl]

/-- Whether a list is a word of another is decided by listing the words. -/
instance decidableWordOf [DecidableEq α] (l : List α) : Decidable (WordOf p l w) :=
  decidable_of_iff _ mem_words_iff

/-! ## Rewriting -/

/-- A map that keeps word characters and separators apart maps the words. -/
theorem wordOf_map_iff {β : Type v} {q : β → Bool} {f : α → β} (hf : ∀ x, q (f x) = p x)
    (l : List α) (w : List β) : WordOf q (l.map f) w ↔ ∃ v, WordOf p l v ∧ v.map f = w := by
  constructor
  · rintro ⟨hne, hall, a, b, h, ha, hb⟩
    obtain ⟨a, r, rfl, rfl, hr⟩ := List.map_eq_append_iff.mp h
    obtain ⟨v, b, rfl, rfl, rfl⟩ := List.map_eq_append_iff.mp hr
    refine ⟨v, ⟨fun h => hne (by rw [h]; rfl), fun x hx => ?_, a, b, rfl, fun x hx => ?_,
      fun x hx => ?_⟩, rfl⟩
    · rw [← hf]
      exact hall _ (List.mem_map_of_mem hx)
    · rw [← hf]
      exact ha _ (by rw [List.getLast?_map, hx]; rfl)
    · rw [← hf]
      exact hb _ (by rw [List.head?_map, hx]; rfl)
  · rintro ⟨v, ⟨hne, hall, a, b, rfl, ha, hb⟩, rfl⟩
    refine ⟨by simpa using hne, fun y hy => ?_, a.map f, b.map f, by simp, fun y hy => ?_,
      fun y hy => ?_⟩
    · obtain ⟨x, hx, rfl⟩ := List.mem_map.mp hy
      rw [hf, hall x hx]
    · rw [List.getLast?_map] at hy
      obtain ⟨x, hx, rfl⟩ := Option.map_eq_some_iff.mp hy
      rw [hf, ha x hx]
    · rw [List.head?_map] at hy
      obtain ⟨x, hx, rfl⟩ := Option.map_eq_some_iff.mp hy
      rw [hf, hb x hx]

/-- A word of `l` with what is glued to it: the ending of the replacement that stands before it. The
run itself may be empty when the ending is not. -/
def GluedWord (p : α → Bool) (glue : α → List α) (l w : List α) : Prop :=
  w ≠ [] ∧ ∃ a u b, l = a ++ (u ++ b) ∧ (∀ x ∈ u, p x = true) ∧ (∀ x ∈ a.getLast?, p x = false) ∧
    (∀ x ∈ b.head?, p x = false) ∧ w = a.getLast?.elim [] glue ++ u

/-- A run of word characters of `l` behind what opens it: `g` at the beginning, and the ending of the
replacement elsewhere. -/
def GluedRun (p : α → Bool) (glue : α → List α) (g l w : List α) : Prop :=
  ∃ a u b, l = a ++ (u ++ b) ∧ (∀ x ∈ u, p x = true) ∧ (∀ x ∈ a.getLast?, p x = false) ∧
    (∀ x ∈ b.head?, p x = false) ∧ w = a.getLast?.elim g glue ++ u

/-- In an empty text there is only what opens the run. -/
theorem gluedRun_nil_iff {glue : α → List α} {g : List α} : GluedRun p glue g [] w ↔ w = g := by
  constructor
  · rintro ⟨a, u, b, hl, -, -, -, rfl⟩
    obtain ⟨rfl, hub⟩ := List.append_eq_nil_iff.mp hl.symm
    obtain ⟨rfl, -⟩ := List.append_eq_nil_iff.mp hub
    simp
  · intro hw
    exact ⟨[], [], [], by simp [hw]⟩

/-- What opens a run is decided by the character before it. -/
theorem elim_getLast?_cons (glue : α → List α) (g g' : List α) (c d : α) (a : List α) :
    (c :: d :: a).getLast?.elim g glue = (d :: a).getLast?.elim g' glue := by
  rw [List.getLast?_cons_cons, List.getLast?_cons]
  rfl

/-- A later run stays one behind one more character. -/
theorem gluedRun_cons_cons {glue : α → List α} {g g' a u b : List α} {c d : α}
    (hu : ∀ x ∈ u, p x = true) (ha : ∀ x ∈ (d :: a).getLast?, p x = false)
    (hb : ∀ x ∈ b.head?, p x = false) :
    GluedRun p glue g (c :: (d :: a ++ (u ++ b))) ((d :: a).getLast?.elim g' glue ++ u) := by
  refine ⟨c :: d :: a, u, b, rfl, hu, ?_, hb, ?_⟩
  · rwa [List.getLast?_cons_cons]
  · rw [elim_getLast?_cons glue g g']

/-- **A word character** in front belongs to what opens the first run. -/
theorem gluedRun_cons_of_word {glue : α → List α} {c : α} (hc : p c = true) {g l : List α} :
    GluedRun p glue (g ++ [c]) l w ↔ GluedRun p glue g (c :: l) w := by
  constructor
  · rintro ⟨a, u, b, rfl, hu, ha, hb, rfl⟩
    cases a with
    | nil => exact ⟨[], c :: u, b, rfl, List.forall_mem_cons.mpr ⟨hc, hu⟩, ha, hb, by simp⟩
    | cons d a => exact gluedRun_cons_cons hu ha hb
  · rintro ⟨a, u, b, hl, hu, ha, hb, rfl⟩
    cases a with
    | nil =>
        cases u with
        | nil =>
            -- The run would end in front of a word character.
            cases b with
            | nil => cases hl
            | cons d b =>
                cases hl
                have hd := hb c rfl
                rw [hc] at hd
                cases hd
        | cons d u =>
            cases hl
            exact ⟨[], u, b, rfl, (List.forall_mem_cons.mp hu).2, ha, hb, by simp⟩
    | cons d a =>
        cases hl
        cases a with
        | nil =>
            have hd := ha c rfl
            rw [hc] at hd
            cases hd
        | cons e a =>
            rw [List.getLast?_cons_cons] at ha
            exact ⟨e :: a, u, b, rfl, hu, ha, hb, by rw [elim_getLast?_cons]⟩

/-- **Any other character** in front ends what opens the first run, and opens the next one. -/
theorem gluedRun_cons_of_separator {glue : α → List α} {c : α} (hc : p c = false) {g l : List α} :
    w = g ∨ GluedRun p glue (glue c) l w ↔ GluedRun p glue g (c :: l) w := by
  constructor
  · rintro (rfl | ⟨a, u, b, rfl, hu, ha, hb, rfl⟩)
    · exact ⟨[], [], c :: l, rfl, by simp, by simp, by simpa using hc, by simp⟩
    · cases a with
      | nil => exact ⟨[c], u, b, rfl, hu, by simpa using hc, hb, by simp⟩
      | cons d a => exact gluedRun_cons_cons hu ha hb
  · rintro ⟨a, u, b, hl, hu, ha, hb, rfl⟩
    cases a with
    | nil =>
        cases u with
        | nil => exact .inl (by simp)
        | cons d u =>
            cases hl
            have hd := hu c List.mem_cons_self
            rw [hc] at hd
            cases hd
    | cons d a =>
        cases hl
        cases a with
        | nil => exact .inr ⟨[], u, b, rfl, hu, by simp, hb, by simp⟩
        | cons e a =>
            rw [List.getLast?_cons_cons] at ha
            exact .inr ⟨e :: a, u, b, rfl, hu, ha, hb, by rw [elim_getLast?_cons]⟩

/-- A rewriting that leaves word characters alone and replaces anything else by a separator and an
ending of word characters. -/
structure Rewriting (p : α → Bool) (rewrite glue : α → List α) : Prop where
  keeps : ∀ c, p c = true → rewrite c = [c]
  separates : ∀ c, p c = false →
    ∃ sep, sep ≠ [] ∧ (∀ x ∈ sep, p x = false) ∧ rewrite c = sep ++ glue c
  ending : ∀ c, ∀ x ∈ glue c, p x = true

namespace Rewriting

variable {rewrite glue : α → List α}

/-- The words behind a run that is still open. `g` is the run, or what is glued to it, so far. -/
theorem wordOf_append_flatMap_iff (h : Rewriting p rewrite glue) (l : List α) {g : List α}
    (hg : ∀ x ∈ g, p x = true) :
    WordOf p (g ++ l.flatMap rewrite) w ↔ w ≠ [] ∧ GluedRun p glue g l w := by
  induction l generalizing g with
  | nil => rw [List.flatMap_nil, List.append_nil, wordOf_iff_of_forall hg, gluedRun_nil_iff]
  | cons c l ih =>
      rw [List.flatMap_cons]
      cases hc : p c with
      | true =>
          -- The run goes on.
          have hgc : ∀ x ∈ g ++ [c], p x = true := by
            intro x hx
            rcases List.mem_append.mp hx with hx | hx
            · exact hg x hx
            · exact List.mem_singleton.mp hx ▸ hc
          rw [h.keeps c hc, ← List.append_assoc, ih hgc, gluedRun_cons_of_word hc]
      | false =>
          -- The run ends, and what the replacement ends with opens the next one.
          obtain ⟨sep, hne, hsep, hrewrite⟩ := h.separates c hc
          rw [hrewrite, List.append_assoc, wordOf_append_append_iff hne hsep,
            wordOf_iff_of_forall hg, ih (h.ending c), ← and_or_left, gluedRun_cons_of_separator hc]

/-- **The words of a rewritten text** are the words of the text with what is glued to them. -/
theorem wordOf_flatMap_iff (h : Rewriting p rewrite glue) (l : List α) :
    WordOf p (l.flatMap rewrite) w ↔ GluedWord p glue l w := by
  have hopen := h.wordOf_append_flatMap_iff (w := w) l (g := []) (by simp)
  rwa [List.nil_append] at hopen

end Rewriting

end Sequences
