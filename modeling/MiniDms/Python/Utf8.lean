import MiniDms.Python.Text

/-! # UTF-8

`bytes.decode("utf-8", errors="replace")` as a machine that reads one byte at a time, and the round
trip with `encode`: a text without surrogates is read back from its encoding, so different texts have
different encodings. -/

namespace Python

/-! ## Decoding -/

/-- The sequence the decoder is inside of: the bytes still needed, the range of the next one, and the
bits read so far. -/
structure Pending where
  needed : Nat
  low : Nat
  high : Nat
  bits : Nat

/-- The character that stands for what cannot be decoded. -/
def replacement : CodePoint := 0xFFFD

/-- A byte between two sequences: the characters it completes, and the sequence it starts. -/
def firstByte (b : UInt8) : Str × Option Pending :=
  let n := b.toNat
  if n < 0x80 then ([Fin.ofNat 0x110000 n], none)
  else if 0xC2 ≤ n ∧ n ≤ 0xDF then ([], some ⟨1, 0x80, 0xBF, n - 0xC0⟩)
  -- The range of the second byte excludes overlong forms, surrogates and what is above U+10FFFF.
  else if n = 0xE0 then ([], some ⟨2, 0xA0, 0xBF, 0⟩)
  else if n = 0xED then ([], some ⟨2, 0x80, 0x9F, 0xD⟩)
  else if 0xE1 ≤ n ∧ n ≤ 0xEF then ([], some ⟨2, 0x80, 0xBF, n - 0xE0⟩)
  else if n = 0xF0 then ([], some ⟨3, 0x90, 0xBF, 0⟩)
  else if n = 0xF4 then ([], some ⟨3, 0x80, 0x8F, 4⟩)
  else if 0xF1 ≤ n ∧ n ≤ 0xF3 then ([], some ⟨3, 0x80, 0xBF, n - 0xF0⟩)
  else ([replacement], none)

/-- The next byte: the characters it completes, and the sequence it leaves the decoder in. -/
def nextByte : Option Pending → UInt8 → Str × Option Pending
  | none, b => firstByte b
  | some p, b =>
      if p.low ≤ b.toNat ∧ b.toNat ≤ p.high then
        let bits := p.bits * 0x40 + (b.toNat - 0x80)
        if p.needed = 1 then ([Fin.ofNat 0x110000 bits], none)
        else ([], some ⟨p.needed - 1, 0x80, 0xBF, bits⟩)
      -- The sequence so far is one error, and the byte is read again as a first one.
      else (replacement :: (firstByte b).1, (firstByte b).2)

/-- Decode from the middle of a sequence on. -/
def decodeFrom : Option Pending → Bytes → Str
  | none, [] => []
  | some _, [] => [replacement]
  | pending, b :: bs => (nextByte pending b).1 ++ decodeFrom (nextByte pending b).2 bs

/-- `data.decode("utf-8", errors="replace")`. -/
def decodeReplace (data : Bytes) : Str := decodeFrom none data

/-! ## The round trip -/

/-- One step of the decoder. -/
theorem decodeFrom_cons (pending : Option Pending) (b : UInt8) (bs : Bytes) :
    decodeFrom pending (b :: bs) =
      (nextByte pending b).1 ++ decodeFrom (nextByte pending b).2 bs := by
  cases pending <;> rfl

/-- Outside a sequence the next byte begins one. -/
@[simp] theorem nextByte_none (b : UInt8) : nextByte none b = firstByte b := rfl

/-- A small number is kept as a byte. -/
theorem toNat_toUInt8 {n : Nat} (h : n < 0x100) : n.toUInt8.toNat = n := by
  simp [Nat.toUInt8, Nat.mod_eq_of_lt h]

/-- A continuation byte inside a sequence. -/
theorem nextByte_continuation {needed low high bits n : Nat} (hn : n < 0x40)
    (hlow : low ≤ 0x80 + n) (hhigh : 0x80 + n ≤ high) :
    nextByte (some ⟨needed, low, high, bits⟩) (0x80 + n).toUInt8 =
      if needed = 1 then ([Fin.ofNat 0x110000 (bits * 0x40 + n)], none)
      else ([], some ⟨needed - 1, 0x80, 0xBF, bits * 0x40 + n⟩) := by
  have hbyte : (0x80 + n).toUInt8.toNat = 0x80 + n := toNat_toUInt8 (by omega)
  have hrange : low ≤ (0x80 + n).toUInt8.toNat ∧ (0x80 + n).toUInt8.toNat ≤ high := by
    rw [hbyte]
    exact ⟨hlow, hhigh⟩
  simp only [nextByte, if_pos hrange]
  rw [hbyte, Nat.add_sub_cancel_left]

/-- A code point is the number it is made from. -/
theorem ofNat_val (c : CodePoint) : Fin.ofNat 0x110000 c.val = c := by
  apply Fin.ext
  exact Nat.mod_eq_of_lt c.isLt

/-- The first of two bytes. -/
theorem firstByte_two {k : Nat} (hlow : 2 ≤ k) (hhigh : k ≤ 0x1F) :
    firstByte (0xC0 + k).toUInt8 = ([], some ⟨1, 0x80, 0xBF, k⟩) := by
  have hbyte : (0xC0 + k).toUInt8.toNat = 0xC0 + k := toNat_toUInt8 (by omega)
  simp only [firstByte, hbyte]
  rw [if_neg (by omega), if_pos (by omega), Nat.add_sub_cancel_left]

/-- The first of three bytes. Which range the second byte must be in depends on it. -/
theorem firstByte_three {k n : Nat} (hk : k ≤ 0xF) (hn : n < 0x40) (hlow : k = 0 → 0x20 ≤ n)
    (hhigh : k = 0xD → n < 0x20) :
    ∃ low high, firstByte (0xE0 + k).toUInt8 = ([], some ⟨2, low, high, k⟩) ∧
      low ≤ 0x80 + n ∧ 0x80 + n ≤ high := by
  have hbyte : (0xE0 + k).toUInt8.toNat = 0xE0 + k := toNat_toUInt8 (by omega)
  simp only [firstByte, hbyte]
  rw [if_neg (by omega), if_neg (by omega)]
  by_cases h0 : k = 0
  · subst h0
    exact ⟨0xA0, 0xBF, rfl, by omega, by omega⟩
  by_cases hd : k = 0xD
  · subst hd
    exact ⟨0x80, 0x9F, rfl, by omega, by omega⟩
  · rw [if_neg (by omega), if_neg (by omega), if_pos (by omega), Nat.add_sub_cancel_left]
    exact ⟨0x80, 0xBF, rfl, by omega, by omega⟩

/-- The first of four bytes. -/
theorem firstByte_four {k n : Nat} (hk : k ≤ 4) (hn : n < 0x40) (hlow : k = 0 → 0x10 ≤ n)
    (hhigh : k = 4 → n < 0x10) :
    ∃ low high, firstByte (0xF0 + k).toUInt8 = ([], some ⟨3, low, high, k⟩) ∧
      low ≤ 0x80 + n ∧ 0x80 + n ≤ high := by
  have hbyte : (0xF0 + k).toUInt8.toNat = 0xF0 + k := toNat_toUInt8 (by omega)
  simp only [firstByte, hbyte]
  rw [if_neg (by omega), if_neg (by omega), if_neg (by omega), if_neg (by omega), if_neg (by omega)]
  by_cases h0 : k = 0
  · subst h0
    exact ⟨0x90, 0xBF, rfl, by omega, by omega⟩
  by_cases h4 : k = 4
  · subst h4
    exact ⟨0x80, 0x8F, rfl, by omega, by omega⟩
  · rw [if_neg (by omega), if_neg (by omega), if_pos (by omega), Nat.add_sub_cancel_left]
    exact ⟨0x80, 0xBF, rfl, by omega, by omega⟩

/-- The encoding of a code point that is no surrogate is read as that code point. -/
theorem decodeFrom_utf8 {c : CodePoint} (hc : isSurrogate c = false) (rest : Bytes) :
    decodeFrom none (utf8 c ++ rest) = c :: decodeFrom none rest := by
  have hlt : c.val < 0x110000 := c.isLt
  have hsurrogate : c.val < 0xD800 ∨ 0xDFFF < c.val := by
    simp only [isSurrogate, Bool.and_eq_false_iff, decide_eq_false_iff_not] at hc
    omega
  unfold utf8
  dsimp only
  split
  · next h1 =>
      have hbyte : c.val.toUInt8.toNat = c.val := toNat_toUInt8 (by omega)
      rw [List.cons_append, List.nil_append, decodeFrom_cons]
      simp only [nextByte_none, firstByte, hbyte, if_pos h1, ofNat_val, List.singleton_append]
  split
  · next h1 h2 =>
      have hfirst : firstByte (0xC0 + c.val / 0x40).toUInt8 =
          ([], some ⟨1, 0x80, 0xBF, c.val / 0x40⟩) := firstByte_two (by omega) (by omega)
      simp only [List.cons_append, List.nil_append, decodeFrom_cons, nextByte_none, hfirst]
      rw [nextByte_continuation (by omega) (by omega) (by omega), if_pos rfl]
      have hbits : c.val / 0x40 * 0x40 + c.val % 0x40 = c.val := by omega
      rw [hbits, ofNat_val]
      rfl
  split
  · next h1 h2 h3 =>
      obtain ⟨low, high, hfirst, hlow, hhigh⟩ :=
        @firstByte_three (c.val / 0x1000) (c.val / 0x40 % 0x40) (by omega) (by omega) (by omega)
          (by omega)
      simp only [List.cons_append, List.nil_append, decodeFrom_cons, nextByte_none, hfirst]
      rw [nextByte_continuation (by omega) hlow hhigh, if_neg (by decide)]
      dsimp only
      rw [nextByte_continuation (by omega) (by omega) (by omega), if_pos rfl]
      have hbits : (c.val / 0x1000 * 0x40 + c.val / 0x40 % 0x40) * 0x40 + c.val % 0x40 = c.val := by
        omega
      rw [hbits, ofNat_val]
      rfl
  · next h1 h2 h3 =>
      obtain ⟨low, high, hfirst, hlow, hhigh⟩ :=
        @firstByte_four (c.val / 0x40000) (c.val / 0x1000 % 0x40) (by omega) (by omega) (by omega)
          (by omega)
      simp only [List.cons_append, List.nil_append, decodeFrom_cons, nextByte_none, hfirst]
      rw [nextByte_continuation (by omega) hlow hhigh, if_neg (by decide)]
      dsimp only
      rw [nextByte_continuation (by omega) (by omega) (by omega), if_neg (by decide)]
      dsimp only
      rw [nextByte_continuation (by omega) (by omega) (by omega), if_pos rfl]
      have hbits : ((c.val / 0x40000 * 0x40 + c.val / 0x1000 % 0x40) * 0x40 +
          c.val / 0x40 % 0x40) * 0x40 + c.val % 0x40 = c.val := by omega
      rw [hbits, ofNat_val]
      rfl

/-- **A text without surrogates is read back from its encoding.** -/
theorem decodeReplace_encode {s : Str} {data : Bytes} (h : encode s = some data) :
    decodeReplace data = s := by
  have hread : ∀ t : Str, (∀ c ∈ t, isSurrogate c = false) →
      decodeFrom none (t.flatMap utf8) = t := by
    intro t
    induction t with
    | nil => intro _; rfl
    | cons c t ih =>
        intro ht
        rw [List.flatMap_cons, decodeFrom_utf8 (ht c List.mem_cons_self),
          ih fun d hd => ht d (List.mem_cons_of_mem c hd)]
  unfold encode at h
  split at h
  · cases h
  · next hs =>
      cases h
      exact hread s fun c hc => by simpa using fun hsur => hs (List.any_eq_true.mpr ⟨c, hc, hsur⟩)

/-- Texts with the same encoding are the same. -/
theorem eq_of_encode_eq {s t : Str} {data : Bytes} (hs : encode s = some data)
    (ht : encode t = some data) : s = t := by
  rw [← decodeReplace_encode hs, decodeReplace_encode ht]

end Python
