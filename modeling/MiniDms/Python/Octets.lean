import MiniDms.Python.Json

/-! # How many bytes a text takes

The length of the UTF-8 encoding of a text, and what `json.dumps` adds to it: a character takes one to
four bytes, an escaped one up to six, a string two quotes, and a list its brackets and separators. -/

namespace Python

/-- `len(s.encode())`, where `s` has an encoding. -/
def octets (s : Str) : Nat := (s.flatMap utf8).length

/-! ## Texts -/

/-- No text takes no bytes. -/
@[simp] theorem octets_nil : octets [] = 0 := rfl

/-- Texts put together take the bytes of both. -/
@[simp] theorem octets_append (s t : Str) : octets (s ++ t) = octets s + octets t := by
  unfold octets
  rw [List.flatMap_append, List.length_append]

/-- A code point takes the bytes of its encoding. -/
theorem octets_cons (c : CodePoint) (s : Str) : octets (c :: s) = (utf8 c).length + octets s := by
  unfold octets
  rw [List.flatMap_cons, List.length_append]

/-- A repeated character. -/
theorem octets_replicate (n : Nat) (c : CodePoint) :
    octets (List.replicate n c) = n * (utf8 c).length := by
  induction n with
  | zero => rw [List.replicate_zero, octets_nil, Nat.zero_mul]
  | succ n ih => rw [List.replicate_succ, octets_cons, ih, Nat.succ_mul, Nat.add_comm]

/-- A character takes at most four bytes. -/
theorem length_utf8_le (c : CodePoint) : (utf8 c).length ≤ 4 := by
  unfold utf8
  dsimp only
  split_ifs <;> simp

/-- A character of the Basic Multilingual Plane takes at most three. -/
theorem length_utf8_le_of_lt {c : CodePoint} (h : c.val < 0x10000) : (utf8 c).length ≤ 3 := by
  unfold utf8
  dsimp only
  split_ifs <;> simp

/-- **A text is at most as many times longer encoded** as its characters are. -/
theorem octets_le_of_forall {s : Str} {k : Nat} (h : ∀ c ∈ s, (utf8 c).length ≤ k) :
    octets s ≤ k * s.length := by
  induction s with
  | nil => exact Nat.zero_le _
  | cons c s ih =>
      have hc : (utf8 c).length ≤ k := h c List.mem_cons_self
      have hs : octets s ≤ k * s.length := ih fun d hd => h d (List.mem_cons_of_mem c hd)
      rw [octets_cons, List.length_cons, Nat.mul_succ]
      omega

/-- Four bytes for each character suffice. -/
theorem octets_le (s : Str) : octets s ≤ 4 * s.length :=
  octets_le_of_forall fun c _ => length_utf8_le c

/-- A text whose characters are replaced by texts. -/
theorem octets_flatMap_le {s : Str} {f : CodePoint → Str} {k : Nat}
    (h : ∀ c, octets (f c) ≤ k) : octets (s.flatMap f) ≤ k * s.length := by
  induction s with
  | nil => exact Nat.zero_le _
  | cons c s ih =>
      have hc : octets (f c) ≤ k := h c
      rw [List.flatMap_cons, octets_append, List.length_cons, Nat.mul_succ]
      omega

/-- Joined texts take their own bytes and those of the separators between them. -/
theorem octets_join_cons (separator first : Str) (parts : List Str) :
    octets (join separator (first :: parts)) =
      octets first + (parts.map fun part => octets separator + octets part).sum := by
  unfold join
  induction parts generalizing first with
  | nil => rw [List.intercalate_singleton, List.map_nil, List.sum_nil, Nat.add_zero]
  | cons part parts ih =>
      rw [List.intercalate_cons_cons, octets_append, octets_append, ih, List.map_cons, List.sum_cons]
      omega

/-- Joined texts, when none of them takes more than `k` bytes. -/
theorem octets_join_le {separator : Str} {parts : List Str} {k : Nat}
    (h : ∀ part ∈ parts, octets part ≤ k) :
    octets (join separator parts) ≤ (k + octets separator) * parts.length := by
  cases parts with
  | nil => exact Nat.zero_le _
  | cons first parts =>
      rw [octets_join_cons]
      have hfirst : octets first ≤ k := h first List.mem_cons_self
      have hsum : (parts.map fun part => octets separator + octets part).sum ≤
          (parts.map fun part => octets separator + octets part).length • (k + octets separator) :=
        List.sum_le_card_nsmul _ _ (by
          simp only [List.mem_map]
          rintro _ ⟨part, hpart, rfl⟩
          have hle : octets part ≤ k := h part (List.mem_cons_of_mem first hpart)
          omega)
      rw [List.length_map, smul_eq_mul, Nat.mul_comm] at hsum
      rw [List.length_cons, Nat.mul_succ]
      omega

/-- Joined texts of equal length. -/
theorem octets_join_eq {separator : Str} {parts : List Str} {k : Nat}
    (h : ∀ part ∈ parts, octets part = k) :
    octets (join separator parts) = k * parts.length + octets separator * (parts.length - 1) := by
  cases parts with
  | nil => rfl
  | cons first parts =>
      have hrest : (parts.map fun part => octets separator + octets part) =
          List.replicate parts.length (octets separator + k) := by
        rw [← List.map_const']
        exact List.map_congr_left fun part hpart => by rw [h part (List.mem_cons_of_mem _ hpart)]
      rw [octets_join_cons, h first List.mem_cons_self, hrest, List.sum_replicate, smul_eq_mul,
        List.length_cons, Nat.add_sub_cancel]
      ring

/-! ## JSON -/

namespace Json

/-- An escaped character takes at most six bytes. -/
theorem octets_escape_le (c : CodePoint) : octets (escape c) ≤ 6 := by
  have hhex : ∀ n, n < 16 → octets [hexDigit n] = 1 := by decide
  unfold escape
  split_ifs with hquote hbackslash hb hf hn hr ht hcontrol
  iterate 7 decide
  · have hval : c.val < 0x20 := hcontrol
    have hlow : octets [hexDigit (c.val % 16)] = 1 := hhex _ (by omega)
    have hhigh : octets [hexDigit (c.val / 16)] = 1 := hhex _ (by omega)
    rw [octets_append, ← List.singleton_append, octets_append, hlow, hhigh]
    decide
  · have hc : (utf8 c).length ≤ 4 := length_utf8_le c
    rw [octets_cons, octets_nil]
    omega

/-- A quoted string. -/
theorem octets_quote_le (s : Str) : octets (quote s) ≤ 6 * s.length + 2 := by
  have hbody : octets (s.flatMap escape) ≤ 6 * s.length := octets_flatMap_le octets_escape_le
  have hmark : octets [codePoint '"'] = 1 := by decide
  unfold quote
  rw [List.cons_append, ← List.singleton_append, octets_append, octets_append, hmark]
  omega

/-- A list of strings is printed as their quoted texts. -/
theorem dumps_list_map_str (texts : List Str) :
    dumps (.list (texts.map .str)) = lit "[" ++ join (lit ", ") (texts.map quote) ++ lit "]" := by
  have hitems : dumpsList (texts.map .str) = texts.map quote := by
    induction texts with
    | nil => rfl
    | cons text texts ih => rw [List.map_cons, dumpsList, ih, List.map_cons, dumps]
  rw [dumps, hitems]

/-- **A list of short strings.** -/
theorem octets_dumps_list_le {texts : List Str} {n : Nat} (h : ∀ text ∈ texts, text.length ≤ n) :
    octets (dumps (.list (texts.map .str))) ≤ (6 * n + 4) * texts.length + 2 := by
  have hquoted : ∀ part ∈ texts.map quote, octets part ≤ 6 * n + 2 := by
    simp only [List.mem_map]
    rintro _ ⟨text, htext, rfl⟩
    have hquote := octets_quote_le text
    have hlength := h text htext
    omega
  have hjoin : octets (join (lit ", ") (texts.map quote)) ≤ (6 * n + 4) * texts.length := by
    have hle := @octets_join_le (lit ", ") _ _ hquoted
    rwa [List.length_map] at hle
  have hbrackets : octets (lit "[") = 1 ∧ octets (lit "]") = 1 := by decide
  rw [dumps_list_map_str, octets_append, octets_append, hbrackets.1, hbrackets.2]
  omega

end Json

end Python
