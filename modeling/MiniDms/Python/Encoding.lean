import MiniDms.Python.Json
import MiniDms.Sequences.Separators

/-! # The text `json.dumps` writes

The strings of a value stand in its encoding escaped and quoted, between separators and the texts of
the other values. A pattern that no separator and no other value contributes to is therefore found
in the encoding exactly when it is found in an escaped string. -/

namespace Python

open Sequences

/-! ## Digits and numbers -/

/-- The characters of numbers and of the words `null`, `true`, `false`, `NaN` and `Infinity`. -/
def isAtomic (c : CodePoint) : Bool :=
  isDigit c || (codePoint 'A' ≤ c && c ≤ codePoint 'Z') ||
    (codePoint 'a' ≤ c && c ≤ codePoint 'z') || c ∈ lit "+-."

/-- Atomic characters are ASCII. -/
theorem ascii_of_isAtomic {c : CodePoint} (h : isAtomic c = true) : c.val < 0x80 := by
  simp only [isAtomic, isDigit, Bool.or_eq_true, Bool.and_eq_true, decide_eq_true_eq, Fin.le_def,
    codePoint_val] at h
  rcases h with ((h | h) | h) | h
  · exact Nat.lt_of_le_of_lt h.2 (by decide)
  · exact Nat.lt_of_le_of_lt h.2 (by decide)
  · exact Nat.lt_of_le_of_lt h.2 (by decide)
  · exact (by decide : ∀ d ∈ lit "+-.", d.val < 0x80) c h

/-- A decimal numeral consists of digits. -/
theorem isDigit_of_mem_natRepr {n : Nat} {c : CodePoint} (h : c ∈ natRepr n) :
    isDigit c = true := by
  obtain ⟨d, hd, rfl⟩ := List.mem_map.mp h
  have hdigit : d.isDigit = true := Nat.isDigit_of_mem_toDigits (by decide) (by decide) hd
  simp only [Char.isDigit, Bool.and_eq_true, decide_eq_true_eq, ge_iff_le] at hdigit
  simp only [isDigit, Bool.and_eq_true, decide_eq_true_eq, Fin.le_def, codePoint_val]
  exact ⟨UInt32.le_iff_toNat_le.mp hdigit.1, UInt32.le_iff_toNat_le.mp hdigit.2⟩

/-- A text without structure: nothing in it needs a quote, a separator or an escape. -/
def Atomic (s : Str) : Prop := ∀ c ∈ s, isAtomic c = true

/-- Whether a text is atomic is decided code point by code point. -/
instance decidableAtomic (s : Str) : Decidable (Atomic s) :=
  inferInstanceAs (Decidable (∀ c ∈ s, isAtomic c = true))

/-- Atomic texts put together are atomic. -/
theorem Atomic.append {s t : Str} (hs : Atomic s) (ht : Atomic t) : Atomic (s ++ t) := by
  intro c hc
  rcases List.mem_append.mp hc with hc | hc
  · exact hs c hc
  · exact ht c hc

/-- The beginning of an atomic text is atomic. -/
theorem Atomic.take {s : Str} (hs : Atomic s) (n : Nat) : Atomic (s.take n) := fun c hc =>
  hs c (List.mem_of_mem_take hc)

/-- The rest of an atomic text is atomic. -/
theorem Atomic.drop {s : Str} (hs : Atomic s) (n : Nat) : Atomic (s.drop n) := fun c hc =>
  hs c (List.mem_of_mem_drop hc)

/-- The decimal text of a natural number is atomic. -/
theorem atomic_natRepr (n : Nat) : Atomic (natRepr n) := fun c hc => by
  simp [isAtomic, isDigit_of_mem_natRepr hc]

/-- The decimal text of an integer is atomic. -/
theorem atomic_intRepr (i : Int) : Atomic (intRepr i) := by
  cases i with
  | ofNat n => exact atomic_natRepr n
  | negSucc n =>
      have hsign : Atomic [codePoint '-'] := by decide
      exact hsign.append (atomic_natRepr (n + 1))

/-- The text of a finite float is a sign, digits, a point and an exponent. -/
theorem Double.atomic_repr (f : Double) : Atomic f.repr := by
  have hzeros : ∀ n, Atomic (List.replicate n (codePoint '0')) := fun n c hc => by
    rw [List.eq_of_mem_replicate hc]
    decide
  have hsign : Atomic (if f.negative then lit "-" else []) := by split <;> decide
  have hpoint : Atomic (lit ".") := by decide
  have hdigits : Atomic (natRepr f.shortest.1) := atomic_natRepr _
  unfold Double.repr
  simp only []
  split
  · exact hsign.append (by decide)
  · split
    -- Fixed notation: the point stands before, after or among the digits.
    · split
      · exact ((hsign.append (by decide)).append (hzeros _)).append hdigits
      · split
        · exact ((hsign.append hdigits).append (hzeros _)).append (by decide)
        · exact ((hsign.append (hdigits.take _)).append hpoint).append (hdigits.drop _)
    -- Scientific notation.
    · refine (((hsign.append ?_).append ?_).append ?_).append (atomic_natRepr _)
      · split
        · exact hdigits
        · exact ((hdigits.take _).append hpoint).append (hdigits.drop _)
      · split <;> decide
      · split <;> decide

/-- The text of a float is atomic. -/
theorem atomic_floatText (f : Double) : Atomic (Json.floatText f) := by
  unfold Json.floatText
  split
  · exact f.atomic_repr
  · split
    · decide
    · split <;> decide

/-! ## Strings of a value -/

namespace Json

mutual

/-- Every string in a value, at any depth: string values and keys. -/
def strings : Json → List Str
  | .str s => [s]
  | .list items => stringsList items
  | .dict items => stringsItems items
  | _ => []

/-- The strings of the elements. -/
def stringsList : List Json → List Str
  | [] => []
  | x :: xs => strings x ++ stringsList xs

/-- The keys and the strings of the values. -/
def stringsItems : List (Str × Json) → List Str
  | [] => []
  | (k, x) :: xs => k :: strings x ++ stringsItems xs

end

/-- The strings of a list of strings. -/
theorem strings_list_map_str (tags : List Str) : (Json.list (tags.map .str)).strings = tags := by
  have hlist : stringsList (tags.map .str) = tags := by
    induction tags with
    | nil => rfl
    | cons tag tags ih => rw [List.map_cons, stringsList, ih]; rfl
  exact hlist

/-- The characters between the texts of strings, numbers and words. -/
def structural : Str := lit "\"[]\x7b\x7d,: "

/-- A text that only strings can contribute to an encoding: nothing in it is structural, and
something in it is not atomic. -/
structure Foreign (p : Str) : Prop where
  separated : ∀ c ∈ structural, c ∉ p
  notAtomic : ¬ Atomic p

variable {p : Str}

/-- A foreign text is not empty. -/
theorem Foreign.ne_nil (hp : Foreign p) : p ≠ [] := by
  rintro rfl
  exact hp.notAtomic (by decide)

/-- A foreign text does not occur in an atomic one. -/
theorem Foreign.not_infix (hp : Foreign p) {s : Str} (hs : Atomic s) : ¬ p <:+: s := fun h =>
  hp.notAtomic fun c hc => hs c (h.subset hc)

/-- Structural characters around a text hide nothing of it. -/
theorem Foreign.infix_enclosed_iff (hp : Foreign p) {o c : CodePoint} (ho : o ∈ structural)
    (hc : c ∈ structural) (s : Str) : p <:+: [o] ++ s ++ [c] ↔ p <:+: s := by
  have hempty : ¬ p <:+: [] := fun h => hp.ne_nil (List.infix_nil.mp h)
  have hright : p <:+: [o] ++ s ++ [c] ↔ p <:+: [o] ++ s ∨ p <:+: [] :=
    infix_append_cons_iff (hp.separated c hc)
  have hleft : p <:+: [] ++ o :: s ↔ p <:+: [] ∨ p <:+: s :=
    infix_append_cons_iff (hp.separated o ho)
  rw [hright, List.singleton_append, ← List.nil_append (o :: s), hleft]
  simp only [hempty, false_or, or_false]

/-- A foreign text occurs in a quoted string when it occurs in the escaped one. -/
theorem Foreign.infix_quote_iff (hp : Foreign p) (s : Str) :
    p <:+: quote s ↔ p <:+: s.flatMap escape :=
  hp.infix_enclosed_iff (by decide) (by decide) (s.flatMap escape)

/-- A foreign text shares nothing with a structural separator. -/
theorem Foreign.disjoint (hp : Foreign p) {sep : Str} (h : ∀ c ∈ sep, c ∈ structural) :
    ∀ c ∈ sep, c ∉ p := fun c hc => hp.separated c (h c hc)

/-- A foreign text occurs in joined parts when it occurs in a part. -/
theorem Foreign.infix_join_iff (hp : Foreign p) (parts : List Str) :
    p <:+: join (lit ", ") parts ↔ ∃ part ∈ parts, p <:+: part :=
  infix_intercalate_iff hp.ne_nil (by decide) (hp.disjoint (by decide)) parts

/-- A foreign text occurs in an item when it occurs in its key or its value. -/
theorem Foreign.infix_item_iff (hp : Foreign p) (k : Str) (x : Json) :
    p <:+: quote k ++ lit ": " ++ dumps x ↔ p <:+: k.flatMap escape ∨ p <:+: dumps x := by
  rw [infix_append_append_iff (by decide) (hp.disjoint (by decide)), hp.infix_quote_iff]

mutual

/-- **A foreign text in an encoding** is a foreign text in one of the escaped strings. -/
theorem Foreign.infix_dumps_iff (hp : Foreign p) : ∀ v : Json,
    p <:+: v.dumps ↔ ∃ s ∈ v.strings, p <:+: s.flatMap escape
  | .null => by simp [dumps, strings, hp.not_infix (s := lit "null") (by decide)]
  | .bool true => by simp [dumps, strings, hp.not_infix (s := lit "true") (by decide)]
  | .bool false => by simp [dumps, strings, hp.not_infix (s := lit "false") (by decide)]
  | .int i => by simp [dumps, strings, hp.not_infix (atomic_intRepr i)]
  | .float f => by simp [dumps, strings, hp.not_infix (atomic_floatText f)]
  | .str s => by simp [dumps, strings, hp.infix_quote_iff]
  | .list items => by
      have hbrackets := hp.infix_enclosed_iff (o := codePoint '[') (c := codePoint ']') (by decide)
        (by decide) (join (lit ", ") (dumpsList items))
      rw [strings, ← Foreign.infix_dumpsList_iff hp items, ← hp.infix_join_iff]
      exact hbrackets
  | .dict items => by
      have hbraces := hp.infix_enclosed_iff (o := codePoint '\x7b') (c := codePoint '\x7d')
        (by decide) (by decide) (join (lit ", ") (dumpsItems items))
      rw [strings, ← Foreign.infix_dumpsItems_iff hp items, ← hp.infix_join_iff]
      exact hbraces

/-- Element by element. -/
theorem Foreign.infix_dumpsList_iff (hp : Foreign p) : ∀ items : List Json,
    (∃ part ∈ dumpsList items, p <:+: part) ↔ ∃ s ∈ stringsList items, p <:+: s.flatMap escape
  | [] => by simp [dumpsList, stringsList]
  | x :: xs => by
      simp only [dumpsList, stringsList, List.exists_mem_cons_iff, List.mem_append, or_and_right,
        exists_or, Foreign.infix_dumps_iff hp x, Foreign.infix_dumpsList_iff hp xs]

/-- Item by item. -/
theorem Foreign.infix_dumpsItems_iff (hp : Foreign p) : ∀ items : List (Str × Json),
    (∃ part ∈ dumpsItems items, p <:+: part) ↔ ∃ s ∈ stringsItems items, p <:+: s.flatMap escape
  | [] => by simp [dumpsItems, stringsItems]
  | (k, x) :: xs => by
      simp only [dumpsItems, stringsItems, List.exists_mem_cons_iff, List.mem_append, or_and_right,
        exists_or, hp.infix_item_iff, Foreign.infix_dumps_iff hp x, List.cons_append, or_assoc,
        Foreign.infix_dumpsItems_iff hp xs]

end

/-! ## Escapes -/

/-- The escapes of two characters: what is escaped and the letter that stands for it. -/
def shortEscapes : List (CodePoint × CodePoint) :=
  [(codePoint '"', codePoint '"'), (codePoint '\\', codePoint '\\'), (0x08, codePoint 'b'),
    (0x0C, codePoint 'f'), (0x0A, codePoint 'n'), (0x0D, codePoint 'r'), (0x09, codePoint 't')]

/-- **The three forms of an escape**: the code point itself, a backslash and a letter, or a
backslash and four digits. -/
theorem escape_cases (c : CodePoint) :
    (escape c = [c] ∧ c ≠ codePoint '"' ∧ c ≠ codePoint '\\' ∧ 0x20 ≤ c.val) ∨
    (∃ d, (c, d) ∈ shortEscapes ∧ escape c = [codePoint '\\', d]) ∨
    (escape c = lit "\\u00" ++ [hexDigit (c.val / 16), hexDigit (c.val % 16)] ∧ c.val < 0x20) := by
  have hval : ∀ n : CodePoint, c.val = n.val → c = n := fun n h => Fin.ext h
  unfold escape
  split
  next h => exact .inr (.inl ⟨_, by rw [h]; decide, rfl⟩)
  split
  next h => exact .inr (.inl ⟨_, by rw [h]; decide, rfl⟩)
  split
  next h => exact .inr (.inl ⟨_, by rw [hval 0x08 h]; decide, rfl⟩)
  split
  next h => exact .inr (.inl ⟨_, by rw [hval 0x0C h]; decide, rfl⟩)
  split
  next h => exact .inr (.inl ⟨_, by rw [hval 0x0A h]; decide, rfl⟩)
  split
  next h => exact .inr (.inl ⟨_, by rw [hval 0x0D h]; decide, rfl⟩)
  split
  next h => exact .inr (.inl ⟨_, by rw [hval 0x09 h]; decide, rfl⟩)
  split
  next h => exact .inr (.inr ⟨rfl, h⟩)
  next hq hb _ _ _ _ _ h => exact .inl ⟨rfl, hq, hb, Nat.le_of_not_lt h⟩

/-- An escape that is not the code point itself begins with a backslash and is longer. -/
theorem escape_ne_self {c : CodePoint} (h : escape c ≠ [c]) :
    ∃ d r, escape c = codePoint '\\' :: d :: r := by
  rcases escape_cases c with ⟨hc, -⟩ | ⟨d, -, hc⟩ | ⟨hc, -⟩
  · exact absurd hc h
  · exact ⟨d, [], hc⟩
  · exact ⟨codePoint 'u', _, hc⟩

/-- A text that needs no escape begins an escaped string exactly when it begins the string. -/
theorem prefix_escaped_iff {q : Str} (hq : ∀ c ∈ q, escape c = [c]) (s : Str) :
    q <+: s.flatMap escape ↔ q <+: s := by
  induction q generalizing s with
  | nil => simp
  | cons c q ih =>
      have hc : escape c = [c] := hq c List.mem_cons_self
      cases s with
      | nil => simp
      | cons d s =>
          rw [List.flatMap_cons]
          by_cases hd : escape d = [d]
          · rw [hd, List.singleton_append, List.cons_prefix_cons, List.cons_prefix_cons,
              ih (fun c h => hq c (List.mem_cons_of_mem _ h)) s]
          -- An escape starts with a backslash, which is itself escaped.
          · obtain ⟨e, r, hr⟩ := escape_ne_self hd
            have hbackslash : escape (codePoint '\\') ≠ [codePoint '\\'] := by decide
            rw [hr, List.cons_append, List.cons_prefix_cons, List.cons_prefix_cons]
            constructor
            · rintro ⟨rfl, -⟩
              exact absurd hc hbackslash
            · rintro ⟨rfl, -⟩
              exact absurd hc hd

/-- What `validate_metadata` searches for. -/
theorem foreign_nulEscape : Foreign (lit "\\u0000") := ⟨by decide, by decide⟩

/-- A digit of an escape is no backslash, and zero when the number is. -/
theorem hexDigit_spec : ∀ n : Nat, n < 16 →
    hexDigit n ≠ codePoint '\\' ∧ (codePoint '0' = hexDigit n ↔ n = 0) := by decide

/-- No short escape is one of NUL, and only the one of the backslash has a letter that could go on
as the pattern does. -/
theorem shortEscapes_spec {c d : CodePoint} (h : (c, d) ∈ shortEscapes) :
    0 ≠ c ∧ codePoint 'u' ≠ d ∧
      (c = codePoint '\\' ∧ d = codePoint '\\' ∨ c ≠ codePoint '\\' ∧ d ≠ codePoint '\\') := by
  simp only [shortEscapes, List.mem_cons, List.not_mem_nil, or_false, Prod.mk.injEq] at h
  rcases h with ⟨rfl, rfl⟩ | ⟨rfl, rfl⟩ | ⟨rfl, rfl⟩ | ⟨rfl, rfl⟩ | ⟨rfl, rfl⟩ | ⟨rfl, rfl⟩ |
    ⟨rfl, rfl⟩ <;> decide

/-- **The escape of NUL in an escaped string** comes from a NUL or from the same six characters in
the string itself. -/
theorem nulEscape_infix_escaped_iff (s : Str) :
    lit "\\u0000" <:+: s.flatMap escape ↔ 0 ∈ s ∨ lit "\\u0000" <:+: s := by
  have hplain : ∀ t : Str, lit "u0000" <+: t.flatMap escape ↔ lit "u0000" <+: t :=
    prefix_escaped_iff (by decide)
  -- Only a backslash can begin the pattern.
  have hstart : ∀ (c : CodePoint) (t : Str), lit "\\u0000" <:+: c :: t ↔
      codePoint '\\' = c ∧ lit "u0000" <+: t ∨ lit "\\u0000" <:+: t := by
    intro c t
    have hlit : lit "\\u0000" = codePoint '\\' :: lit "u0000" := rfl
    rw [List.infix_cons_iff, hlit, List.cons_prefix_cons]
  have hskip : ∀ (c : CodePoint) (t : Str), c ≠ codePoint '\\' →
      (lit "\\u0000" <:+: c :: t ↔ lit "\\u0000" <:+: t) := by
    intro c t hc
    simp only [hstart, Ne.symm hc, false_and, false_or]
  have hsecond : ∀ (d : CodePoint) (t : Str), codePoint 'u' ≠ d → ¬ lit "u0000" <+: d :: t := by
    intro d t hd h
    exact hd (List.cons_prefix_cons.mp h).1
  induction s with
  | nil => simp
  | cons c s ih =>
      rw [List.flatMap_cons, List.mem_cons]
      rcases escape_cases c with ⟨hc, hquote, hbackslash, hlow⟩ | ⟨d, hd, hc⟩ | ⟨hc, hlow⟩
      · have hzero : (0 : CodePoint) ≠ c := by
          rintro rfl
          exact absurd hlow (by decide)
        rw [hc, List.singleton_append, hskip c _ hbackslash, hskip c _ hbackslash]
        simp only [ih, hzero, false_or]
      · obtain ⟨hzero, hu, ⟨rfl, rfl⟩ | ⟨hcb, hdb⟩⟩ := shortEscapes_spec hd
        -- Of the two backslashes the second can begin the pattern, as the one in the string can.
        · rw [hc, List.cons_append, List.singleton_append, hstart, hstart, hstart, hplain]
          simp only [hsecond _ _ hu, ih, hzero, and_false, false_or, true_and]
          exact or_left_comm
        · rw [hc, List.cons_append, List.singleton_append, hstart, hskip d _ hdb, hskip c _ hcb]
          simp only [hsecond _ _ hu, ih, hzero, and_false, false_or]
      · obtain ⟨hhi, hhizero⟩ := hexDigit_spec (c.val / 16) (by omega)
        obtain ⟨hlo, hlozero⟩ := hexDigit_spec (c.val % 16) (by omega)
        have hcb : c ≠ codePoint '\\' := by
          rintro rfl
          exact absurd hlow (by decide)
        have hzero : (0 : CodePoint) = c ↔ c.val / 16 = 0 ∧ c.val % 16 = 0 := by
          rw [Fin.ext_iff]
          change 0 = c.val ↔ _
          omega
        have hdigits : lit "u0000" <+: lit "u00" ++ hexDigit (c.val / 16) ::
            hexDigit (c.val % 16) :: s.flatMap escape ↔ (0 : CodePoint) = c := by
          have hlit : lit "u0000" = lit "u00" ++ [codePoint '0', codePoint '0'] := rfl
          rw [hlit, List.prefix_append_right_inj, List.cons_prefix_cons, List.cons_prefix_cons,
            hhizero, hlozero, hzero]
          simp only [List.nil_prefix, and_true]
        have hrest : lit "\\u0000" <:+: lit "u00" ++ hexDigit (c.val / 16) ::
            hexDigit (c.val % 16) :: s.flatMap escape ↔ lit "\\u0000" <:+: s.flatMap escape := by
          have hlit : lit "u00" = [codePoint 'u', codePoint '0', codePoint '0'] := rfl
          rw [hlit, List.cons_append, List.cons_append, List.singleton_append,
            hskip _ _ (by decide), hskip _ _ (by decide), hskip _ _ (by decide), hskip _ _ hhi,
            hskip _ _ hlo]
        have hlit : escape c ++ s.flatMap escape = codePoint '\\' :: (lit "u00" ++
            hexDigit (c.val / 16) :: hexDigit (c.val % 16) :: s.flatMap escape) := by
          rw [hc]
          rfl
        rw [hlit, hstart, hdigits, hrest, hskip c _ hcb]
        simp only [ih, true_and, or_assoc]

/-- **Searching an encoding for the escape of NUL** finds a NUL in a string, or the same six
characters in a string. -/
theorem nulEscape_infix_dumps_iff (v : Json) : lit "\\u0000" <:+: v.dumps ↔
    ∃ s ∈ v.strings, 0 ∈ s ∨ lit "\\u0000" <:+: s := by
  rw [foreign_nulEscape.infix_dumps_iff]
  simp only [nulEscape_infix_escaped_iff]

/-! ## Surrogates -/

/-- The digits of an escape are ASCII. -/
theorem hexDigit_lt : ∀ n : Nat, n < 16 → (hexDigit n).val < 0x80 := by decide

/-- An escape is the code point itself or ASCII. -/
theorem escape_eq_or_ascii (c : CodePoint) : escape c = [c] ∨
    c.val < 0x80 ∧ ∀ d ∈ escape c, d.val < 0x80 := by
  rcases escape_cases c with ⟨hc, -⟩ | ⟨d, hd, hc⟩ | ⟨hc, hlow⟩
  · exact .inl hc
  · refine .inr ?_
    rw [hc]
    simp only [shortEscapes, List.mem_cons, List.not_mem_nil, or_false, Prod.mk.injEq] at hd
    rcases hd with ⟨rfl, rfl⟩ | ⟨rfl, rfl⟩ | ⟨rfl, rfl⟩ | ⟨rfl, rfl⟩ | ⟨rfl, rfl⟩ | ⟨rfl, rfl⟩ |
      ⟨rfl, rfl⟩ <;> decide
  · refine .inr ⟨by omega, fun d hd => ?_⟩
    rw [hc, List.mem_append] at hd
    rcases hd with hd | hd
    · exact (by decide : ∀ d ∈ lit "\\u00", d.val < 0x80) d hd
    · rcases List.mem_pair.mp hd with rfl | rfl
      · exact hexDigit_lt _ (by omega)
      · exact hexDigit_lt _ (by omega)

/-- A surrogate is not ASCII. -/
theorem le_of_isSurrogate {c : CodePoint} (h : isSurrogate c = true) : 0xD800 ≤ c.val := by
  simp only [isSurrogate, Bool.and_eq_true, decide_eq_true_eq] at h
  exact h.1

/-- A surrogate occurs in an escaped string exactly when it occurs in the string. -/
theorem mem_escaped_iff {c : CodePoint} (h : isSurrogate c = true) (s : Str) :
    c ∈ s.flatMap escape ↔ c ∈ s := by
  have hc : ¬ c.val < 0x80 := Nat.not_lt.mpr (Nat.le_trans (by decide) (le_of_isSurrogate h))
  rw [List.mem_flatMap]
  constructor
  · rintro ⟨d, hd, hmem⟩
    rcases escape_eq_or_ascii d with hself | ⟨-, hascii⟩
    · rw [hself, List.mem_singleton] at hmem
      rwa [hmem]
    · exact absurd (hascii c hmem) hc
  · intro hmem
    rcases escape_eq_or_ascii c with hself | ⟨hascii, -⟩
    · exact ⟨c, hmem, by rw [hself]; exact List.mem_singleton_self c⟩
    · exact absurd hascii hc

/-- Only strings contribute a surrogate to an encoding. -/
theorem foreign_surrogate {c : CodePoint} (h : isSurrogate c = true) : Foreign [c] where
  separated d hd hmem := by
    rw [List.mem_singleton.mp hmem] at hd
    have hlt : c.val < 0x80 := (by decide : ∀ d ∈ structural, d.val < 0x80) c hd
    exact absurd (le_of_isSurrogate h) (by omega)
  notAtomic hatomic := by
    have hlt : c.val < 0x80 := ascii_of_isAtomic (hatomic c (List.mem_singleton_self c))
    exact absurd (le_of_isSurrogate h) (by omega)

/-- **An encoding contains a surrogate** exactly when a string does. -/
theorem any_isSurrogate_dumps_iff (v : Json) :
    v.dumps.any isSurrogate = true ↔ ∃ s ∈ v.strings, s.any isSurrogate = true := by
  simp only [List.any_eq_true]
  constructor
  · rintro ⟨c, hc, h⟩
    have hinfix : [c] <:+: v.dumps := (List.singleton_infix_iff c _).mpr hc
    obtain ⟨s, hs, hinfix⟩ := (foreign_surrogate h).infix_dumps_iff v |>.mp hinfix
    exact ⟨s, hs, c, (mem_escaped_iff h s).mp ((List.singleton_infix_iff c _).mp hinfix), h⟩
  · rintro ⟨s, hs, c, hc, h⟩
    have hinfix : [c] <:+: s.flatMap escape :=
      (List.singleton_infix_iff c _).mpr ((mem_escaped_iff h s).mpr hc)
    have hdumps := (foreign_surrogate h).infix_dumps_iff v |>.mpr ⟨s, hs, hinfix⟩
    exact ⟨c, (List.singleton_infix_iff c _).mp hdumps, h⟩

end Json

end Python
