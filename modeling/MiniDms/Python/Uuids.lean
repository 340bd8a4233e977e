import MiniDms.Python.Integers

/-! # The texts of UUIDs

`str(u)` writes thirty-two hexadecimal digits in five groups. `uuid.UUID(text)` reads much more than
that: the URN prefixes, braces and all hyphens are dropped first, and what is left, if it has
thirty-two characters, goes through `int(text, 16)`. -/

namespace Python

/-! ## Writing -/

/-- The last digits of a number in base 16, `"%0*x"` of a number that has no more. -/
def hexText : Nat → Nat → Str
  | 0, _ => []
  | width + 1, n => hexText width (n / 16) ++ [Json.hexDigit (n % 16)]

/-- `str(uuid.UUID(int=n))`. -/
def uuidText (n : Nat) : Str :=
  let hex := hexText 32 n
  join (lit "-") [hex.take 8, (hex.drop 8).take 4, (hex.drop 12).take 4, (hex.drop 16).take 4,
    hex.drop 20]

/-! ## Reading -/

/-- `s.replace(pattern, "")`, with the characters of the last match that are still to be skipped. -/
def removeFrom (pattern : Str) : Nat → Str → Str
  | _, [] => []
  | skip + 1, _ :: s => removeFrom pattern skip s
  | 0, c :: s =>
      if pattern.isPrefixOf (c :: s) then removeFrom pattern (pattern.length - 1) s
      else c :: removeFrom pattern 0 s

/-- `s.strip("\x7b\x7d")`. -/
def stripBraces (s : Str) : Str :=
  let brace := fun c => c = codePoint '\x7b' ∨ c = codePoint '\x7d'
  (s.dropWhile fun c => brace c).rdropWhile fun c => brace c

/-- `uuid.UUID(text)`, as its integer; `none` is its `ValueError`. -/
def parseUuid (decimal : CodePoint → Option Nat) (text : Str) : Option Nat :=
  let hex := removeFrom (lit "uuid:") 0 (removeFrom (lit "urn:") 0 text)
  let hex := (stripBraces hex).filter fun c => c ≠ codePoint '-'
  if hex.length = 32 then
    (hexInt decimal hex).bind fun n => if 0 ≤ n ∧ n < 2 ^ 128 then some n.toNat else none
  else none

/-! ## What is read back -/

/-- A hexadecimal digit of either case. -/
def isHex (c : CodePoint) : Bool := (Json.hexValue c).isSome

/-- No digit is one of the characters that are taken out. -/
theorem hex_kept {c : CodePoint} (h : isHex c = true) : c ≠ codePoint '-' ∧ c ≠ codePoint ':' ∧
    c ≠ codePoint '\x7b' ∧ c ≠ codePoint '\x7d' :=
  @forall_ascii (fun c => isHex c = true → c ≠ codePoint '-' ∧ c ≠ codePoint ':' ∧
    c ≠ codePoint '\x7b' ∧ c ≠ codePoint '\x7d') (by decide) c (ascii_of_hexValue h) h

/-- Nothing is removed from a text that lacks a character of the pattern. -/
theorem removeFrom_of_not_mem {pattern : Str} {c : CodePoint} (hc : c ∈ pattern) {s : Str}
    (hs : c ∉ s) : removeFrom pattern 0 s = s := by
  induction s with
  | nil => rfl
  | cons a s ih =>
      rw [removeFrom, if_neg, ih fun h => hs (List.mem_cons_of_mem a h)]
      intro hstarts
      exact hs ((List.isPrefixOf_iff_prefix.mp hstarts).subset hc)

/-- **A text of hexadecimal digits and hyphens**, wherever they stand, is read as a UUID exactly when
the digits are thirty-two. -/
theorem parseUuid_hyphenated (decimal : CodePoint → Option Nat) {text : Str}
    (htext : ∀ c ∈ text, isHex c = true ∨ c = codePoint '-') :
    parseUuid decimal text =
      if (text.filter fun c => c ≠ codePoint '-').length = 32 then
        some (digitsNumber Json.hexValue 16 0 (text.filter fun c => c ≠ codePoint '-'))
      else none := by
  have hcolon : codePoint ':' ∉ text := by
    intro hmem
    obtain h | h := htext _ hmem
    · exact (hex_kept h).2.1 rfl
    · exact absurd h (by decide)
  have hbrace : ∀ c ∈ text, c ≠ codePoint '\x7b' ∧ c ≠ codePoint '\x7d' := by
    intro c hc
    obtain h | rfl := htext c hc
    · exact (hex_kept h).2.2
    · decide
  have hstrip : stripBraces text = text := by
    have hnot : ∀ c ∈ text, ¬ decide (c = codePoint '\x7b' ∨ c = codePoint '\x7d') = true :=
      fun c hc => by simp [hbrace c hc]
    rw [stripBraces]
    dsimp only
    rw [List.dropWhile_eq_self_iff.mpr fun hl => hnot _ (List.getElem_mem _),
      List.rdropWhile_eq_self_iff.mpr fun hl => hnot _ (List.getLast_mem hl)]
  have hdigits : ∀ c ∈ text.filter fun c => c ≠ codePoint '-', isHex c = true := by
    intro c hc
    obtain ⟨hmem, hne⟩ := List.mem_filter.mp hc
    exact (htext c hmem).resolve_right (of_decide_eq_true hne)
  rw [parseUuid, removeFrom_of_not_mem (by decide) hcolon, removeFrom_of_not_mem (by decide) hcolon,
    hstrip]
  split
  · next hlength =>
      have hne : (text.filter fun c => c ≠ codePoint '-') ≠ [] := by
        intro hnil
        rw [hnil] at hlength
        cases hlength
      have hlt := @digitsNumber_lt Json.hexValue 16 (fun _ _ => hexValue_lt) (by decide)
        (text.filter fun c => c ≠ codePoint '-') 0
      rw [hlength] at hlt
      rw [hexInt_digits decimal hne hdigits, Option.bind_some, if_pos]
      · rfl
      · exact ⟨Int.natCast_nonneg _, by exact_mod_cast hlt.trans_eq (by norm_num)⟩
  · rfl

/-! ## Reading back what is written -/

/-- A written digit is a digit, and stands for itself. -/
theorem hexValue_hexDigit : ∀ d : Fin 16, Json.hexValue (Json.hexDigit d.val) = some d.val := by
  decide

/-- A hexadecimal text has the width asked for. -/
theorem length_hexText (width n : Nat) : (hexText width n).length = width := by
  induction width generalizing n with
  | zero => rfl
  | succ width ih => rw [hexText, List.length_append, ih, List.length_singleton]

/-- It consists of hexadecimal digits. -/
theorem isHex_of_mem_hexText {width n : Nat} {c : CodePoint} (hc : c ∈ hexText width n) :
    isHex c = true := by
  induction width generalizing n with
  | zero => cases hc
  | succ width ih =>
      obtain hc | hc := List.mem_append.mp hc
      · exact ih hc
      · obtain rfl := List.mem_singleton.mp hc
        have hdigit := hexValue_hexDigit ⟨n % 16, Nat.mod_lt _ (by decide)⟩
        rw [isHex, hdigit]
        rfl

/-- The written digits stand for the number. -/
theorem digitsNumber_hexText (width n : Nat) :
    digitsNumber Json.hexValue 16 0 (hexText width n) = n % 16 ^ width := by
  induction width generalizing n with
  | zero => exact (Nat.mod_one n).symm
  | succ width ih =>
      have hdigit := hexValue_hexDigit ⟨n % 16, Nat.mod_lt _ (by decide)⟩
      have hlast : ∀ m, digitsNumber Json.hexValue 16 m [Json.hexDigit (n % 16)] =
          m * 16 + n % 16 := by
        intro m
        show m * 16 + (Json.hexValue (Json.hexDigit (n % 16))).getD 0 = _
        rw [hdigit]
        rfl
      rw [hexText, digitsNumber_append, ih, hlast, pow_succ, Nat.mul_comm (16 ^ width) 16,
        Nat.mod_mul]
      omega

/-- The five groups of the digits are the digits. -/
theorem groups_append (hex : Str) :
    hex.take 8 ++ ((hex.drop 8).take 4 ++ ((hex.drop 12).take 4 ++ ((hex.drop 16).take 4 ++
      hex.drop 20))) = hex := by
  have hnext : ∀ i, (hex.drop i).take 4 ++ hex.drop (i + 4) = hex.drop i := by
    intro i
    rw [← List.drop_drop, List.take_append_drop]
  rw [hnext 16, hnext 12, hnext 8, List.take_append_drop]

/-- A UUID is written as its groups with hyphens between them. -/
theorem uuidText_eq (n : Nat) : uuidText n =
    (hexText 32 n).take 8 ++ codePoint '-' :: (((hexText 32 n).drop 8).take 4 ++ codePoint '-' ::
      (((hexText 32 n).drop 12).take 4 ++ codePoint '-' :: (((hexText 32 n).drop 16).take 4 ++
        codePoint '-' :: (hexText 32 n).drop 20))) := by
  have hdash : lit "-" = [codePoint '-'] := rfl
  simp only [uuidText, join, hdash, List.intercalate, List.intersperse, List.flatten_cons,
    List.flatten_nil, List.append_nil, List.singleton_append]

/-- The text of a UUID has hexadecimal digits and hyphens only. -/
theorem uuidText_plain (n : Nat) : ∀ c ∈ uuidText n, isHex c = true ∨ c = codePoint '-' := by
  have htake : ∀ {i c}, c ∈ (hexText 32 n).take i → isHex c = true := fun hc =>
    isHex_of_mem_hexText (List.mem_of_mem_take hc)
  have hdrop : ∀ {i c}, c ∈ (hexText 32 n).drop i → isHex c = true := fun hc =>
    isHex_of_mem_hexText (List.mem_of_mem_drop hc)
  have hgroup : ∀ {i j c}, c ∈ ((hexText 32 n).drop i).take j → isHex c = true := fun hc =>
    hdrop (List.mem_of_mem_take hc)
  intro c hc
  simp only [uuidText_eq, List.mem_append, List.mem_cons] at hc
  rcases hc with hc | hc | hc | hc | hc | hc | hc | hc | hc
  · exact .inl (htake hc)
  · exact .inr hc
  · exact .inl (hgroup hc)
  · exact .inr hc
  · exact .inl (hgroup hc)
  · exact .inr hc
  · exact .inl (hgroup hc)
  · exact .inr hc
  · exact .inl (hdrop hc)

/-- Without its hyphens the text of a UUID is its digits. -/
theorem filter_uuidText (n : Nat) :
    ((uuidText n).filter fun c => c ≠ codePoint '-') = hexText 32 n := by
  have hall : (hexText 32 n).filter (fun c => c ≠ codePoint '-') = hexText 32 n :=
    List.filter_eq_self.mpr fun c hc =>
      decide_eq_true (hex_kept (isHex_of_mem_hexText hc)).1
  have hcons : ∀ s : Str, (codePoint '-' :: s).filter (fun c => c ≠ codePoint '-') =
      s.filter fun c => c ≠ codePoint '-' := fun s => List.filter_cons_of_neg (by decide)
  rw [uuidText_eq]
  simp only [List.filter_append, hcons]
  rw [← List.filter_append, ← List.filter_append, ← List.filter_append, ← List.filter_append,
    groups_append, hall]

/-- The text of a UUID has 36 characters. -/
theorem length_uuidText (n : Nat) : (uuidText n).length = 36 := by
  simp only [uuidText_eq, List.length_append, List.length_cons, List.length_take, List.length_drop,
    length_hexText]
  rfl

/-- **A UUID is read back from its text.** -/
theorem parseUuid_uuidText (decimal : CodePoint → Option Nat) {n : Nat} (hn : n < 2 ^ 128) :
    parseUuid decimal (uuidText n) = some n := by
  rw [parseUuid_hyphenated decimal (uuidText_plain n), filter_uuidText, length_hexText, if_pos rfl,
    digitsNumber_hexText, Nat.mod_eq_of_lt (hn.trans_eq (by norm_num))]

/-- What is read is a UUID. -/
theorem lt_of_parseUuid {decimal : CodePoint → Option Nat} {text : Str} {n : Nat}
    (h : parseUuid decimal text = some n) : n < 2 ^ 128 := by
  unfold parseUuid at h
  dsimp only at h
  split at h
  · obtain ⟨i, -, hi⟩ := Option.bind_eq_some_iff.mp h
    split at hi
    · next hbounds =>
        cases hi
        have hlt : i < 2 ^ 128 := hbounds.2
        omega
    · cases hi
  · cases h

/-- Prefix, braces and capitals are read over. -/
example : parseUuid (fun _ => none) (lit "urn:uuid:\x7b0000ABCD-0000-0000-0000-000000000001\x7d") =
    some 0xABCD000000000000000000000001 := by decide +kernel

end Python
