import MiniDms.Python.Encoding
import MiniDms.Sequences.Words

/-! # The words of the text `json.dumps` writes

Quotes, brackets, commas and colons separate words, so an encoding has the words of its escaped
strings and of the texts of the other values. An escape begins with a backslash, which separates
words too; but the escape of a control character ends with letters and digits, and these are glued to
the word that follows. -/

namespace Python

open Sequences

/-- An ASCII text. -/
def Ascii (s : Str) : Prop := ∀ c ∈ s, c.val < 0x80

/-- Whether a text is ASCII is decided code point by code point. -/
instance decidableAscii (s : Str) : Decidable (Ascii s) :=
  inferInstanceAs (Decidable (∀ c ∈ s, c.val < 0x80))

namespace Json

/-! ## The words of a value -/

mutual

/-- The texts of the values that are no strings and no containers. -/
def atoms : Json → List Str
  | .list items => atomsList items
  | .dict items => atomsItems items
  | .str _ => []
  | .null => [dumps .null]
  | .bool b => [dumps (.bool b)]
  | .int i => [dumps (.int i)]
  | .float f => [dumps (.float f)]

/-- The texts of the elements. -/
def atomsList : List Json → List Str
  | [] => []
  | x :: xs => atoms x ++ atomsList xs

/-- The texts of the values of the items. -/
def atomsItems : List (Str × Json) → List Str
  | [] => []
  | (_, x) :: xs => atoms x ++ atomsItems xs

end

variable {w : Str}

/-- A text between two characters that belong to no word. -/
theorem wordOf_enclosed_iff {o c : CodePoint} (ho : isAlnum o = false) (hc : isAlnum c = false)
    (s : Str) : WordOf isAlnum ([o] ++ s ++ [c]) w ↔ WordOf isAlnum s w := by
  have hclose : WordOf isAlnum (s ++ c :: []) w ↔ _ := wordOf_append_cons_iff hc s []
  rw [List.append_assoc, List.singleton_append, wordOf_cons_iff ho, hclose]
  simp only [not_wordOf_nil, or_false]

/-- The words of a quoted string. -/
theorem wordOf_quote_iff (s : Str) :
    WordOf isAlnum (quote s) w ↔ WordOf isAlnum (s.flatMap escape) w :=
  wordOf_enclosed_iff (by decide) (by decide) (s.flatMap escape)

/-- The words of an item are those of its key and its value. -/
theorem wordOf_item_iff (k : Str) (x : Json) : WordOf isAlnum (quote k ++ lit ": " ++ dumps x) w ↔
    WordOf isAlnum (k.flatMap escape) w ∨ WordOf isAlnum x.dumps w := by
  rw [List.append_assoc, wordOf_append_append_iff (by decide) (by decide), wordOf_quote_iff]

mutual

/-- **The words of an encoding** are those of its escaped strings and of its other values. -/
theorem wordOf_dumps_iff : ∀ v : Json, WordOf isAlnum v.dumps w ↔
    (∃ s ∈ v.strings, WordOf isAlnum (s.flatMap escape) w) ∨ ∃ t ∈ v.atoms, WordOf isAlnum t w
  | .null => by simp [strings, atoms]
  | .bool b => by simp [strings, atoms]
  | .int i => by simp [strings, atoms]
  | .float f => by simp [strings, atoms]
  | .str s => by simp [dumps, strings, atoms, wordOf_quote_iff]
  | .list items => by
      have hbrackets : WordOf isAlnum (Json.list items).dumps w ↔ _ :=
        wordOf_enclosed_iff (by decide) (by decide) (join (lit ", ") (dumpsList items))
      rw [hbrackets, join, wordOf_intercalate_iff (by decide) (by decide), strings, atoms,
        wordOf_dumpsList_iff items]
  | .dict items => by
      have hbraces : WordOf isAlnum (Json.dict items).dumps w ↔ _ :=
        wordOf_enclosed_iff (by decide) (by decide) (join (lit ", ") (dumpsItems items))
      rw [hbraces, join, wordOf_intercalate_iff (by decide) (by decide), strings, atoms,
        wordOf_dumpsItems_iff items]

/-- Element by element. -/
theorem wordOf_dumpsList_iff : ∀ items : List Json,
    (∃ part ∈ dumpsList items, WordOf isAlnum part w) ↔
      (∃ s ∈ stringsList items, WordOf isAlnum (s.flatMap escape) w) ∨
        ∃ t ∈ atomsList items, WordOf isAlnum t w
  | [] => by simp [dumpsList, stringsList, atomsList]
  | x :: xs => by
      simp only [dumpsList, stringsList, atomsList, List.exists_mem_cons_iff, List.mem_append,
        or_and_right, exists_or, wordOf_dumps_iff x, wordOf_dumpsList_iff xs]
      exact or_or_or_comm

/-- Item by item. -/
theorem wordOf_dumpsItems_iff : ∀ items : List (Str × Json),
    (∃ part ∈ dumpsItems items, WordOf isAlnum part w) ↔
      (∃ s ∈ stringsItems items, WordOf isAlnum (s.flatMap escape) w) ∨
        ∃ t ∈ atomsItems items, WordOf isAlnum t w
  | [] => by simp [dumpsItems, stringsItems, atomsItems]
  | (k, x) :: xs => by
      simp only [dumpsItems, stringsItems, atomsItems, List.exists_mem_cons_iff, List.cons_append,
        List.mem_append, or_and_right, exists_or, wordOf_item_iff, wordOf_dumps_iff x,
        wordOf_dumpsItems_iff xs]
      have hkey := @or_assoc (WordOf isAlnum (k.flatMap escape) w)
      rw [hkey, hkey]
      exact or_congr_right or_or_or_comm

end

/-! ## The words of an escaped string -/

/-- The letters and digits with which the escape of a control character ends: `n` for a line feed,
`u000b` for a vertical tab. -/
def escapeEnding (c : CodePoint) : Str := if c.val < 0x20 then (escape c).tail else []

/-- The digits of an escape are letters and digits. -/
theorem isAlnum_hexDigit : ∀ n : Nat, n < 16 → isAlnum (hexDigit n) = true := by decide

/-- **An escape separates and ends with what it glues** to the next word. -/
theorem escape_rewriting : Rewriting isAlnum escape escapeEnding where
  keeps c hc := by
    rcases escape_cases c with ⟨h, -⟩ | ⟨d, hd, -⟩ | ⟨-, hlow⟩
    · exact h
    · simp only [shortEscapes, List.mem_cons, List.not_mem_nil, or_false, Prod.mk.injEq] at hd
      rcases hd with ⟨rfl, rfl⟩ | ⟨rfl, rfl⟩ | ⟨rfl, rfl⟩ | ⟨rfl, rfl⟩ | ⟨rfl, rfl⟩ | ⟨rfl, rfl⟩ |
        ⟨rfl, rfl⟩ <;> exact absurd hc (by decide)
    · rw [isAlnum_iff] at hc
      omega
  separates c hc := by
    rcases escape_cases c with ⟨h, -, -, hlow⟩ | ⟨d, hd, h⟩ | ⟨h, hlow⟩
    · refine ⟨[c], List.cons_ne_nil c [], by simpa using hc, ?_⟩
      rw [h, escapeEnding, if_neg (Nat.not_lt.mpr hlow), List.append_nil]
    · simp only [shortEscapes, List.mem_cons, List.not_mem_nil, or_false, Prod.mk.injEq] at hd
      rcases hd with ⟨rfl, rfl⟩ | ⟨rfl, rfl⟩ | hd
      · exact ⟨lit "\\\"", by decide, by decide, by decide⟩
      · exact ⟨lit "\\\\", by decide, by decide, by decide⟩
      · refine ⟨lit "\\", by decide, by decide, ?_⟩
        rcases hd with ⟨rfl, rfl⟩ | ⟨rfl, rfl⟩ | ⟨rfl, rfl⟩ | ⟨rfl, rfl⟩ | ⟨rfl, rfl⟩ <;> decide
    · refine ⟨lit "\\", by decide, by decide, ?_⟩
      rw [escapeEnding, if_pos hlow, h]
      rfl
  ending c := by
    rw [escapeEnding]
    split
    next hlow =>
      rcases escape_cases c with ⟨-, -, -, h⟩ | ⟨d, hd, h⟩ | ⟨h, -⟩
      · omega
      · simp only [shortEscapes, List.mem_cons, List.not_mem_nil, or_false, Prod.mk.injEq] at hd
        rcases hd with ⟨rfl, rfl⟩ | ⟨rfl, rfl⟩ | ⟨rfl, rfl⟩ | ⟨rfl, rfl⟩ | ⟨rfl, rfl⟩ |
          ⟨rfl, rfl⟩ | ⟨rfl, rfl⟩
        · exact absurd hlow (by decide)
        · exact absurd hlow (by decide)
        all_goals decide
      · rw [h]
        intro x hx
        have htail : x ∈ lit "u00" ++ [hexDigit (c.val / 16), hexDigit (c.val % 16)] := hx
        rcases List.mem_append.mp htail with hx | hx
        · exact (by decide : ∀ x ∈ lit "u00", isAlnum x = true) x hx
        · rcases List.mem_pair.mp hx with rfl | rfl
          · exact isAlnum_hexDigit _ (by omega)
          · exact isAlnum_hexDigit _ (by omega)
    next => exact fun x hx => absurd hx List.not_mem_nil

/-- **The words of an escaped string** are the words of the string, with what is glued to them. -/
theorem wordOf_escaped_iff (s : Str) :
    WordOf isAlnum (s.flatMap escape) w ↔ GluedWord isAlnum escapeEnding s w :=
  escape_rewriting.wordOf_flatMap_iff s

/-! ## ASCII -/

/-- Only strings contribute a character beyond ASCII to an encoding. -/
theorem foreign_of_not_ascii {c : CodePoint} (h : ¬ c.val < 0x80) : Foreign [c] where
  separated d hd hmem := by
    rw [List.mem_singleton.mp hmem] at hd
    exact h ((by decide : ∀ d ∈ structural, d.val < 0x80) c hd)
  notAtomic hatomic := h (ascii_of_isAtomic (hatomic c (List.mem_singleton_self c)))

/-- **The encoding of ASCII strings** is ASCII. -/
theorem ascii_dumps {v : Json} (h : ∀ s ∈ v.strings, Ascii s) : Ascii v.dumps := by
  intro c hc
  by_contra hascii
  have hinfix : [c] <:+: v.dumps := (List.singleton_infix_iff c _).mpr hc
  obtain ⟨s, hs, hinfix⟩ := (foreign_of_not_ascii hascii).infix_dumps_iff v |>.mp hinfix
  obtain ⟨d, hd, hmem⟩ := List.mem_flatMap.mp ((List.singleton_infix_iff c _).mp hinfix)
  rcases escape_eq_or_ascii d with hself | ⟨-, hall⟩
  · rw [hself, List.mem_singleton] at hmem
    exact hascii (hmem ▸ h s hs d hd)
  · exact hascii (hall c hmem)

end Json

end Python
