import Mathlib.Data.List.Basic
import Mathlib.Order.Nat
import Mathlib.Tactic.Common

/-! # Compatibility composition

Normalization form KC over given character tables: every character is replaced by its compatibility
decomposition, the marks behind a starter are put in the order of their combining classes, and starters
are composed with what follows them and is not blocked.

A character that composes with nothing cuts the composition; a letter that composes with a single
mark does so exactly when that mark is the first one of its class. -/

namespace Unicode

variable {α : Type}

/-- The tables of the character database that normalization reads. -/
structure Tables (α : Type) where
  /-- The full compatibility decomposition. -/
  decompose : α → List α
  /-- The canonical combining class, zero for a starter. -/
  combining : α → Nat
  /-- The primary composite of two characters. -/
  compose : α → α → Option α

namespace Tables

variable (u : Tables α)

/-! ## The algorithm -/

/-- Put a character before ordered ones: a mark moves behind the marks of lower classes. -/
def insertMark (c : α) : List α → List α
  | [] => [c]
  | d :: s =>
      if u.combining d ≠ 0 ∧ u.combining d < u.combining c then d :: insertMark c s else c :: d :: s

/-- The canonical ordering: between starters, marks are sorted by class, and marks of one class keep
their order. -/
def reorder : List α → List α
  | [] => []
  | c :: s => u.insertMark c (reorder s)

/-- Compose behind a starter, given the marks kept behind it and the class of the last one. A
character is blocked by a kept mark of the same or a higher class. -/
def composeFrom (starter : α) (kept : List α) (last : Nat) : List α → List α
  | [] => starter :: kept
  | c :: s =>
      match if last = 0 ∨ last < u.combining c then u.compose starter c else none with
      | some composite => composeFrom composite kept last s
      | none =>
          if u.combining c = 0 then starter :: kept ++ composeFrom c [] 0 s
          else composeFrom starter (kept ++ [c]) (u.combining c) s

/-- The canonical composition; marks in front of the first starter stay. -/
def composeAll : List α → List α
  | [] => []
  | c :: s => if u.combining c = 0 then u.composeFrom c [] 0 s else c :: composeAll s

/-- `unicodedata.normalize("NFKC", s)`. -/
def nfkc (s : List α) : List α := u.composeAll (u.reorder (s.flatMap u.decompose))

/-- The first mark of a class before the next starter. -/
def markOfClass (k : Nat) (s : List α) : Option α :=
  (s.takeWhile fun c => u.combining c ≠ 0).find? fun c => u.combining c = k

variable {u}

/-! ## The order of marks -/

/-- A starter is put in front. -/
theorem insertMark_of_starter {c : α} (hc : u.combining c = 0) (s : List α) :
    u.insertMark c s = c :: s := by
  cases s with
  | nil => rfl
  | cons d s =>
      rw [insertMark, if_neg]
      rintro ⟨-, hlt⟩
      omega

/-- Marks do not move across a starter. -/
theorem insertMark_append {c : α} (hc : u.combining c = 0) (d : α) (s t : List α) :
    u.insertMark d (s ++ c :: t) = u.insertMark d s ++ c :: t := by
  induction s with
  | nil =>
      show u.insertMark d (c :: t) = d :: c :: t
      rw [insertMark, if_neg]
      rintro ⟨hne, -⟩
      exact hne hc
  | cons x s ih =>
      rw [List.cons_append, insertMark, insertMark, ih]
      split <;> rfl

/-- **A starter cuts the ordering.** -/
theorem reorder_append {c : α} (hc : u.combining c = 0) (s t : List α) :
    u.reorder (s ++ c :: t) = u.reorder s ++ c :: u.reorder t := by
  induction s with
  | nil => exact insertMark_of_starter hc _
  | cons d s ih => rw [List.cons_append, reorder, ih, insertMark_append hc, reorder]

/-- From a class on, every mark up to the next starter has at least the class of the one before. -/
def Ordered (u : Tables α) : Nat → List α → Prop
  | _, [] => True
  | n, c :: s => (u.combining c = 0 ∨ n ≤ u.combining c) ∧ u.Ordered (u.combining c) s

/-- A mark that is put in keeps the order. -/
theorem Ordered.insertMark {n : Nat} {c : α} {s : List α} (hs : u.Ordered n s)
    (hc : u.combining c = 0 ∨ n ≤ u.combining c) : u.Ordered n (u.insertMark c s) := by
  induction s generalizing n with
  | nil => exact ⟨hc, trivial⟩
  | cons d s ih =>
      obtain ⟨hd, hs⟩ := hs
      rw [Tables.insertMark]
      split_ifs with hlt
      · exact ⟨hd, ih hs (.inr hlt.2.le)⟩
      · refine ⟨hc, ?_, hs⟩
        by_cases hzero : u.combining d = 0
        · exact .inl hzero
        · exact .inr (Nat.le_of_not_lt fun h => hlt ⟨hzero, h⟩)

/-- The canonical ordering is one. -/
theorem ordered_reorder (s : List α) : u.Ordered 0 (u.reorder s) := by
  induction s with
  | nil => trivial
  | cons c s ih => exact ih.insertMark (.inr (Nat.zero_le _))

/-- No mark is reached behind a starter. -/
theorem markOfClass_of_starter {k : Nat} {c : α} (hc : u.combining c = 0) (s : List α) :
    u.markOfClass k (c :: s) = none := by
  unfold markOfClass
  rw [List.takeWhile_cons_of_neg (by simpa using hc)]
  rfl

/-- The first mark of a class is the one that is reached. -/
theorem markOfClass_of_mark {k : Nat} {c : α} (hc : u.combining c ≠ 0) (s : List α) :
    u.markOfClass k (c :: s) = if u.combining c = k then some c else u.markOfClass k s := by
  unfold markOfClass
  rw [List.takeWhile_cons_of_pos (by simpa using hc), List.find?_cons]
  by_cases hk : u.combining c = k
  · rw [if_pos hk, decide_eq_true hk]
  · rw [if_neg hk, decide_eq_false hk]

/-- Sorting keeps the first mark of a class. -/
theorem markOfClass_insertMark {k : Nat} (c : α) (s : List α) :
    u.markOfClass k (u.insertMark c s) = u.markOfClass k (c :: s) := by
  induction s with
  | nil => rfl
  | cons d s ih =>
      rw [insertMark]
      split_ifs with hlt
      · -- The mark that is passed has another class than the one that passes it.
        have hc : u.combining c ≠ 0 := by omega
        rw [markOfClass_of_mark hlt.1, ih, markOfClass_of_mark hc, markOfClass_of_mark hc,
          markOfClass_of_mark hlt.1]
        split_ifs with hd hck
        · omega
        · rfl
        · rfl
        · rfl
      · rfl

/-- **The ordering keeps the first mark of every class.** -/
theorem markOfClass_reorder (k : Nat) (s : List α) :
    u.markOfClass k (u.reorder s) = u.markOfClass k s := by
  induction s with
  | nil => rfl
  | cons c s ih =>
      rw [reorder, markOfClass_insertMark]
      by_cases hc : u.combining c = 0
      · rw [markOfClass_of_starter hc, markOfClass_of_starter hc]
      · rw [markOfClass_of_mark hc, markOfClass_of_mark hc, ih]

/-- Marks of higher classes have no mark of a lower one behind them. -/
theorem markOfClass_of_lt {k n : Nat} (hk : k < n) {s : List α} (hs : u.Ordered n s) :
    u.markOfClass k s = none := by
  induction s generalizing n with
  | nil => rfl
  | cons c s ih =>
      obtain ⟨hc, hs⟩ := hs
      by_cases hzero : u.combining c = 0
      · exact markOfClass_of_starter hzero s
      · have hle : n ≤ u.combining c := hc.resolve_left hzero
        rw [markOfClass_of_mark hzero, if_neg (by omega)]
        exact ih (hk.trans_le hle) hs

/-! ## Characters that compose with nothing -/

/-- A character that never composes with what follows it. -/
def Inert (u : Tables α) (c : α) : Prop := ∀ d, u.compose c d = none

/-- **Behind an inert character the composition starts anew.** -/
theorem composeFrom_of_inert {c : α} (hc : u.Inert c) (kept : List α) (last : Nat) (s : List α) :
    u.composeFrom c kept last s = c :: kept ++ u.composeAll s := by
  induction s generalizing kept last with
  | nil => rw [composeFrom, composeAll, List.append_nil]
  | cons d s ih =>
      rw [composeFrom, hc d, ite_self, composeAll]
      dsimp only
      split_ifs with hd
      · rfl
      · rw [ih, List.cons_append, List.cons_append, List.append_assoc, List.singleton_append]

/-- A starter that composes with nothing, on either side. -/
structure Cuts (u : Tables α) (c : α) : Prop where
  whole : u.decompose c = [c]
  starter : u.combining c = 0
  inert : u.Inert c
  notSecond : ∀ d, u.compose d c = none

/-- In front of such a starter the composition ends. -/
theorem composeFrom_append {c : α} (hc : u.Cuts c) (starter : α) (kept : List α) (last : Nat)
    (s t : List α) : u.composeFrom starter kept last (s ++ c :: t) =
      u.composeFrom starter kept last s ++ c :: u.composeAll t := by
  induction s generalizing starter kept last with
  | nil =>
      show u.composeFrom starter kept last (c :: t) = starter :: kept ++ c :: u.composeAll t
      rw [composeFrom.eq_2, hc.notSecond, ite_self]
      dsimp only
      rw [if_pos hc.starter, composeFrom_of_inert hc.inert, List.singleton_append]
  | cons d s ih =>
      rw [List.cons_append, composeFrom, composeFrom]
      split
      · exact ih _ _ _
      · split_ifs
        · rw [ih, List.append_assoc]
        · exact ih _ _ _

/-- Composition does not go over a cut. -/
theorem composeAll_append {c : α} (hc : u.Cuts c) (s t : List α) :
    u.composeAll (s ++ c :: t) = u.composeAll s ++ c :: u.composeAll t := by
  induction s with
  | nil =>
      show u.composeAll (c :: t) = c :: u.composeAll t
      rw [composeAll, if_pos hc.starter, composeFrom_of_inert hc.inert, List.singleton_append]
  | cons d s ih =>
      rw [List.cons_append, composeAll, composeAll]
      split_ifs
      · exact composeFrom_append hc d [] 0 s t
      · rw [ih, List.cons_append]

/-- **A text is normalized piece by piece** between such starters. -/
theorem nfkc_append {c : α} (hc : u.Cuts c) (s t : List α) :
    u.nfkc (s ++ c :: t) = u.nfkc s ++ c :: u.nfkc t := by
  unfold nfkc
  rw [List.flatMap_append, List.flatMap_cons, hc.whole, List.singleton_append,
    reorder_append hc.starter, composeAll_append hc]

/-! ## Letters that compose with one mark -/

/-- A letter that composes with one mark only, to a character that composes with nothing. -/
structure Takes [DecidableEq α] (u : Tables α) (letter mark composite : α) : Prop where
  compose : ∀ d, u.compose letter d = if d = mark then some composite else none
  isMark : u.combining mark ≠ 0
  inert : u.Inert composite

variable [DecidableEq α]

/-- Behind a mark of the same or a higher class the letter composes with nothing. -/
theorem Takes.composeFrom_of_le {letter mark composite : α} (h : u.Takes letter mark composite)
    (kept : List α) {last : Nat} (hlast : u.combining mark ≤ last) {s : List α}
    (hs : u.Ordered last s) : u.composeFrom letter kept last s = letter :: kept ++ u.composeAll s := by
  have hmark := h.isMark
  induction s generalizing kept last with
  | nil => rw [composeFrom, composeAll, List.append_nil]
  | cons c s ih =>
      obtain ⟨hc, hs⟩ := hs
      have hnone : (if last = 0 ∨ last < u.combining c then u.compose letter c else none) = none := by
        rw [h.compose]
        split_ifs with hfree heq
        · rw [heq] at hfree
          omega
        · rfl
        · rfl
      rw [composeFrom, hnone, composeAll]
      dsimp only
      split_ifs with hzero
      · rfl
      · have hle : last ≤ u.combining c := hc.resolve_left hzero
        rw [ih (kept ++ [c]) (hlast.trans hle) hs, List.cons_append, List.cons_append,
          List.append_assoc, List.singleton_append]

/-- **When a letter takes its mark**: when that is the first mark of its class. Otherwise the
composition starts anew behind the letter. -/
theorem Takes.composeFrom {letter mark composite : α} (h : u.Takes letter mark composite)
    (kept : List α) {last : Nat} (hlast : last < u.combining mark) {s : List α}
    (hs : u.Ordered last s) : u.composeFrom letter kept last s =
      if u.markOfClass (u.combining mark) s = some mark then
        composite :: kept ++ (u.composeAll s).erase mark
      else letter :: kept ++ u.composeAll s := by
  have hmark := h.isMark
  induction s generalizing kept last with
  | nil =>
      rw [if_neg (fun h => nomatch h), Tables.composeFrom, composeAll, List.append_nil]
  | cons c s ih =>
      obtain ⟨hc, hs⟩ := hs
      by_cases hzero : u.combining c = 0
      · -- The next starter ends the marks.
        have hne : c ≠ mark := by
          rintro rfl
          exact hmark hzero
        rw [markOfClass_of_starter hzero, if_neg (fun h => nomatch h), Tables.composeFrom, h.compose,
          if_neg hne, ite_self, composeAll]
        dsimp only
        rw [if_pos hzero, if_pos hzero]
      have hle : last ≤ u.combining c := hc.resolve_left hzero
      rw [markOfClass_of_mark hzero, composeAll, if_neg hzero]
      by_cases heq : c = mark
      · subst heq
        rw [if_pos rfl, if_pos rfl, Tables.composeFrom, h.compose, if_pos rfl, if_pos (.inr hlast)]
        dsimp only
        rw [composeFrom_of_inert h.inert, List.erase_cons_head]
      have hkeep : u.composeFrom letter kept last (c :: s) =
          u.composeFrom letter (kept ++ [c]) (u.combining c) s := by
        rw [Tables.composeFrom, h.compose, if_neg heq, ite_self]
        dsimp only
        rw [if_neg hzero]
      rw [hkeep]
      by_cases hlt : u.combining c < u.combining mark
      · have hclass : u.combining c ≠ u.combining mark := hlt.ne
        rw [ih (kept ++ [c]) hlt hs, if_neg hclass, List.erase_cons_tail (by simpa using heq)]
        split_ifs <;>
          rw [List.cons_append, List.cons_append, List.append_assoc, List.singleton_append]
      · rw [h.composeFrom_of_le (kept ++ [c]) (Nat.le_of_not_lt hlt) hs, if_neg]
        · rw [List.cons_append, List.cons_append, List.append_assoc, List.singleton_append]
        · split_ifs with hclass
          · exact fun hsome => heq (Option.some.inj hsome)
          · rw [markOfClass_of_lt (by omega) hs]
            exact fun hsome => nomatch hsome

end Tables

end Unicode
