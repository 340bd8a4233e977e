import Mathlib

/-! # Python strings and bytes

A Python `str` is a sequence of code points, lone surrogates included, so it is not a Lean `String`.
`bytes` is a list of octets. `encode` is `str.encode()` with the default codec and error handler:
it fails on a surrogate. -/

namespace Python

/-- A Unicode code point, surrogates included. -/
abbrev CodePoint := Fin 0x110000

/-- There are code points. -/
instance codePointNeZero : NeZero 0x110000 := ⟨by decide⟩

/-- Comparing code points tells them apart. -/
instance codePointLawfulBEq : LawfulBEq CodePoint := inferInstance

/-- A Python `str`. -/
abbrev Str := List CodePoint

/-- A bounded statement about a text is decided on its characters, not on all code points. -/
instance (priority := 2000) decidableForallMem (q : CodePoint → Prop) [DecidablePred q] (s : Str) :
    Decidable (∀ c ∈ s, q c) := List.decidableBAll q s

/-- A Python `bytes`. -/
abbrev Bytes := List UInt8

/-- The code point of a character. -/
def codePoint (c : Char) : CodePoint := Fin.ofNat 0x110000 c.toNat

/-- A string literal. -/
def lit (s : String) : Str := s.toList.map codePoint

/-- An ASCII digit. -/
def isDigit (c : CodePoint) : Bool := codePoint '0' ≤ c && c ≤ codePoint '9'

/-- An ASCII letter or digit. -/
def isAlnum (c : CodePoint) : Bool :=
  isDigit c || (codePoint 'A' ≤ c && c ≤ codePoint 'Z') || (codePoint 'a' ≤ c && c ≤ codePoint 'z')

/-- `str.lower` on ASCII. -/
def asciiLower (c : CodePoint) : CodePoint := if 65 ≤ c.val ∧ c.val ≤ 90 then c + 32 else c

/-- The decimal digits of a natural number, as `str(n)` writes them. -/
def natRepr (n : Nat) : Str := (Nat.toDigits 10 n).map codePoint

/-- A character's code point is its scalar value. -/
@[simp] theorem codePoint_val (c : Char) : (codePoint c).val = c.toNat := by
  have hlt : c.toNat < 0x110000 := by
    have hvalid : c.toNat < 0xD800 ∨ 0xDFFF < c.toNat ∧ c.toNat < 0x110000 := c.valid
    omega
  exact Nat.mod_eq_of_lt hlt

/-- Different characters have different code points. -/
theorem codePoint_injective : Function.Injective codePoint := by
  intro a b h
  have hval : (codePoint a).val = (codePoint b).val := congrArg Fin.val h
  rw [codePoint_val, codePoint_val] at hval
  exact Char.toNat_inj.mp hval

/-- A letter or digit, by its code point. -/
theorem isAlnum_iff {c : CodePoint} : isAlnum c = true ↔
    48 ≤ c.val ∧ c.val ≤ 57 ∨ 65 ≤ c.val ∧ c.val ≤ 90 ∨ 97 ≤ c.val ∧ c.val ≤ 122 := by
  have hvals : ('0'.toNat = 48 ∧ '9'.toNat = 57) ∧ ('A'.toNat = 65 ∧ 'Z'.toNat = 90) ∧
      'a'.toNat = 97 ∧ 'z'.toNat = 122 := by decide
  simp only [isAlnum, isDigit, Bool.or_eq_true, Bool.and_eq_true, decide_eq_true_eq, Fin.le_def,
    codePoint_val, hvals, or_assoc]

/-- Lower-casing keeps letters and digits apart from the rest. -/
theorem isAlnum_asciiLower (c : CodePoint) : isAlnum (asciiLower c) = isAlnum c := by
  rw [Bool.eq_iff_iff, isAlnum_iff, isAlnum_iff, asciiLower]
  split
  next h =>
    have hval : (c + 32 : CodePoint).val = c.val + 32 := by
      rw [Fin.val_add]
      exact Nat.mod_eq_of_lt (by have := h.2; show c.val + 32 < _; omega)
    omega
  next => rfl

/-- Different numbers are written differently. -/
theorem natRepr_injective : Function.Injective natRepr := by
  intro a b h
  have hdigits : Nat.toDigits 10 a = Nat.toDigits 10 b :=
    List.map_injective_iff.mpr codePoint_injective h
  -- Reading the digits back gives the number.
  have hvalue := congrArg (fun ds => Nat.ofDigitChars 10 ds 0) hdigits
  simpa only [Nat.ofDigitChars_ten_toDigits] using hvalue

/-- `str(i)` of an integer. -/
def intRepr : Int → Str
  | .ofNat n => natRepr n
  | .negSucc n => codePoint '-' :: natRepr (n + 1)

/-- The code points `U+D800` to `U+DFFF`, which no UTF-8 text contains. -/
def isSurrogate (c : CodePoint) : Bool := 0xD800 ≤ c.val && c.val ≤ 0xDFFF

/-- The UTF-8 octets of one code point. -/
def utf8 (c : CodePoint) : Bytes :=
  let n := c.val
  if n < 0x80 then [n.toUInt8]
  else if n < 0x800 then [(0xC0 + n / 0x40).toUInt8, (0x80 + n % 0x40).toUInt8]
  else if n < 0x10000 then
    [(0xE0 + n / 0x1000).toUInt8, (0x80 + n / 0x40 % 0x40).toUInt8, (0x80 + n % 0x40).toUInt8]
  else
    [(0xF0 + n / 0x40000).toUInt8, (0x80 + n / 0x1000 % 0x40).toUInt8,
      (0x80 + n / 0x40 % 0x40).toUInt8, (0x80 + n % 0x40).toUInt8]

/-- `s.encode()`; `none` is the `UnicodeEncodeError` a surrogate raises. -/
def encode (s : Str) : Option Bytes :=
  if s.any isSurrogate then none else some (s.flatMap utf8)

/-- `separator.join(parts)`. -/
def join (separator : Str) (parts : List Str) : Str := List.intercalate separator parts

/-- `str.isspace` of one code point. -/
def isSpace (c : CodePoint) : Bool :=
  (0x09 ≤ c.val && c.val ≤ 0x0D) || (0x1C ≤ c.val && c.val ≤ 0x20) ||
    (0x2000 ≤ c.val && c.val ≤ 0x200A) ||
    c.val ∈ [0x85, 0xA0, 0x1680, 0x2028, 0x2029, 0x202F, 0x205F, 0x3000]

/-- `s.strip()`. -/
def strip (s : Str) : Str := (s.dropWhile isSpace).rdropWhile isSpace

/-! ## Stripping -/

/-- What is stripped from either end of a text is whitespace. -/
theorem mem_strip {s : Str} {c : CodePoint} (hc : isSpace c = false) : c ∈ strip s ↔ c ∈ s := by
  have hleft : ∀ t : Str, c ∈ t.dropWhile isSpace ↔ c ∈ t := by
    intro t
    refine ⟨fun h => (List.dropWhile_sublist isSpace).subset h, fun h => ?_⟩
    rw [← List.takeWhile_append_dropWhile (p := isSpace) (l := t), List.mem_append] at h
    rcases h with h | h
    · exact absurd (List.mem_takeWhile_imp h) (by simp [hc])
    · exact h
  rw [strip, List.rdropWhile, List.mem_reverse, hleft, List.mem_reverse, hleft]

/-- A text with no whitespace at either end is left as it is, and no other. -/
theorem strip_eq_self_iff {s : Str} :
    strip s = s ↔ (∀ c ∈ s.head?, isSpace c = false) ∧ ∀ c ∈ s.getLast?, isSpace c = false := by
  have hprefix : strip s <+: s.dropWhile isSpace := List.rdropWhile_prefix isSpace _
  have hsuffix : s.dropWhile isSpace <:+ s := List.dropWhile_suffix isSpace
  have hleft : s.dropWhile isSpace = s ↔ ∀ c ∈ s.head?, isSpace c = false := by
    cases s with
    | nil => simp
    | cons c s => simp
  have hright : s.rdropWhile isSpace = s ↔ ∀ c ∈ s.getLast?, isSpace c = false := by
    rw [List.rdropWhile_eq_self_iff]
    constructor
    · intro h c hc
      obtain ⟨init, rfl⟩ := List.getLast?_eq_some_iff.mp hc
      simpa using h
    · intro h hne
      simp [h _ (List.getLast?_eq_some_getLast hne)]
  rw [← hleft, ← hright]
  constructor
  · intro h
    -- The two steps only shorten, so neither does anything.
    have hle : s.length ≤ (s.dropWhile isSpace).length := by
      have hle := hprefix.length_le
      rwa [h] at hle
    have hdrop : s.dropWhile isSpace = s := hsuffix.eq_of_length_le hle
    exact ⟨hdrop, by rw [strip, hdrop] at h; exact h⟩
  · rintro ⟨hdrop, hrdrop⟩
    rw [strip, hdrop, hrdrop]

/-- A trimmed text has no whitespace around it. -/
theorem eq_of_strip_eq {w t w' : Str} (hw : ∀ c ∈ w, isSpace c = true)
    (hw' : ∀ c ∈ w', isSpace c = true) (h : strip (w ++ (t ++ w')) = w ++ (t ++ w')) :
    w ++ (t ++ w') = t := by
  obtain ⟨hfirst, hlast⟩ := strip_eq_self_iff.mp h
  have hleft : w = [] := by
    cases w with
    | nil => rfl
    | cons c w =>
        have hc := hfirst c rfl
        rw [hw c List.mem_cons_self] at hc
        cases hc
  have hright : w' = [] := by
    rcases List.eq_nil_or_concat w' with rfl | ⟨init, c, rfl⟩
    · rfl
    · have hc := hlast c (by simp)
      rw [hw' c (by simp)] at hc
      cases hc
  rw [hleft, hright, List.nil_append, List.append_nil]

/-- Whitespace in front of a text is stripped. -/
theorem strip_append_of_isSpace {w : Str} (hw : ∀ c ∈ w, isSpace c = true) (s : Str) :
    strip (w ++ s) = strip s := by
  rw [strip, List.dropWhile_append_of_pos hw, strip]

/-- **Stripping twice is stripping once.** -/
theorem strip_strip (s : Str) : strip (strip s) = strip s := by
  have hfirst : (strip s).dropWhile isSpace = strip s := by
    obtain ⟨rest, hrest⟩ := List.rdropWhile_prefix isSpace (s.dropWhile isSpace)
    cases hstrip : strip s with
    | nil => rfl
    | cons c t =>
        -- The first character left is the first one that is no whitespace.
        rw [← strip, hstrip, List.cons_append] at hrest
        have hhead := List.head?_dropWhile_not isSpace s
        rw [← hrest] at hhead
        have hc : isSpace c = false := by simpa using hhead
        rw [List.dropWhile_cons_of_neg (by simp [hc])]
  rw [strip, hfirst, strip, List.rdropWhile_idempotent]

/-- A surrogate is no whitespace. -/
theorem isSpace_surrogate {c : CodePoint} (h : isSurrogate c = true) : isSpace c = false := by
  simp only [isSurrogate, Bool.and_eq_true, decide_eq_true_eq] at h
  simp only [isSpace, Bool.or_eq_false_iff, Bool.and_eq_false_iff, decide_eq_false_iff_not,
    List.mem_cons, List.not_mem_nil, or_false, not_or]
  omega

end Python
