import MiniDms.Python.Doubles

/-! # The texts of numbers

A number is printed as a sign, digits, a fraction and an exponent, and its text says which: the digits
end at the point or the letter. An integer has neither, a float one of them, and a float's numeral is
read back as the float. So numbers that are printed alike are the same. -/

namespace Python

open Json

/-! ## Digits -/

/-- Digits in front of others count for a power of ten more. -/
theorem digitsValue_append (a b : Str) :
    digitsValue (a ++ b) = digitsValue a * 10 ^ b.length + digitsValue b := by
  induction b using List.reverseRecOn with
  | nil => simp [digitsValue]
  | append_singleton b c ih =>
      have hsnoc : ∀ s : Str, digitsValue (s ++ [c]) = 10 * digitsValue s + (c.val - 0x30) := by
        intro s
        simp [digitsValue, List.foldl_append]
      rw [← List.append_assoc, hsnoc, hsnoc, ih, List.length_append, List.length_singleton]
      ring

/-- Zeros count nothing. -/
theorem digitsValue_zeros (n : Nat) : digitsValue (List.replicate n (codePoint '0')) = 0 := by
  induction n with
  | zero => rfl
  | succ n ih =>
      rw [List.replicate_succ']
      rw [digitsValue_append, ih]
      rfl

/-- **The digits of a number denote it.** -/
theorem digitsValue_natRepr (n : Nat) : digitsValue (natRepr n) = n := by
  have hchars : ∀ (ds : List Char) (m : Nat),
      (ds.map codePoint).foldl (fun n c => 10 * n + (c.val - 0x30)) m = Nat.ofDigitChars 10 ds m := by
    intro ds m
    rw [List.foldl_map, Nat.ofDigitChars]
    congr 1
    funext n c
    rw [codePoint_val]
    rfl
  rw [digitsValue, natRepr, hchars]
  exact Nat.ofDigitChars_ten_toDigits

/-- A decimal text has a digit. -/
theorem natRepr_ne_nil (n : Nat) : natRepr n ≠ [] := by
  intro h
  have hdigits : Nat.toDigits 10 n = [] := List.map_eq_nil_iff.mp h
  exact absurd hdigits (Nat.toDigits_ne_nil)

/-! ## Numerals -/

/-- All characters are digits. -/
def Digits (s : Str) : Prop := ∀ c ∈ s, isDigit c = true

/-- Zeros are digits. -/
theorem digits_zeros (k : Nat) : Digits (List.replicate k (codePoint '0')) := by
  intro c hc
  rw [List.eq_of_mem_replicate hc]
  decide

/-- Digits put together are digits. -/
theorem Digits.append {s t : Str} (hs : Digits s) (ht : Digits t) : Digits (s ++ t) :=
  fun c hc => (List.mem_append.mp hc).elim (hs c) (ht c)

/-- The first digits are digits. -/
theorem Digits.take {s : Str} (hs : Digits s) (k : Nat) : Digits (s.take k) :=
  fun c hc => hs c (List.mem_of_mem_take hc)

/-- The other digits are digits. -/
theorem Digits.drop {s : Str} (hs : Digits s) (k : Nat) : Digits (s.drop k) :=
  fun c hc => hs c (List.mem_of_mem_drop hc)

/-- The parts of a number's text. -/
structure Numeral where
  negative : Bool
  digits : Str
  fraction : Str
  /-- The sign and the digits behind the letter. -/
  exponent : Option (Bool × Str)
  digits_ne_nil : digits ≠ []
  isDigit_digits : Digits digits
  isDigit_fraction : Digits fraction

namespace Numeral

/-- The fraction behind its point. -/
def fractionText (fraction : Str) : Str := if fraction = [] then [] else codePoint '.' :: fraction

/-- The exponent behind its letter and sign. -/
def exponentText : Option (Bool × Str) → Str
  | none => []
  | some (down, e) => codePoint 'e' :: (if down then codePoint '-' else codePoint '+') :: e

/-- The number as it is printed. -/
def text (n : Numeral) : Str :=
  (if n.negative then lit "-" else []) ++
    (n.digits ++ (fractionText n.fraction ++ exponentText n.exponent))

/-- The exponent as a number. -/
def power (n : Numeral) : Int :=
  match n.exponent with
  | none => 0
  | some (down, e) => if down then -digitsValue e else digitsValue e

/-- The number without its sign. -/
def magnitude (n : Numeral) : Rat := numberValue.decimal n.digits n.fraction n.power

/-- The text has a point or an exponent. -/
def Fractional (n : Numeral) : Prop := n.fraction ≠ [] ∨ n.exponent ≠ none

/-- What comes after the digits begins with no digit, and after the fraction with no point either. -/
theorem head_not_digit (fraction : Str) (exponent : Option (Bool × Str)) :
    (∀ c ∈ (fractionText fraction ++ exponentText exponent).head?, isDigit c = false) ∧
      ∀ c ∈ (exponentText exponent).head?, isDigit c = false ∧ c ≠ codePoint '.' := by
  have hexponent : ∀ c ∈ (exponentText exponent).head?, isDigit c = false ∧ c ≠ codePoint '.' := by
    intro c hc
    cases exponent with
    | none => cases hc
    | some e =>
        cases hc
        decide
  refine ⟨fun c hc => ?_, hexponent⟩
  unfold fractionText at hc
  split at hc
  · exact (hexponent c hc).1
  · cases hc
    decide

/-- **A numeral's text determines its parts.** -/
theorem eq_of_text_eq {n m : Numeral} (h : n.text = m.text) : n = m := by
  obtain ⟨negative, digits, fraction, exponent, hne, hdigits, hfraction⟩ := n
  obtain ⟨negative', digits', fraction', exponent', hne', hdigits', hfraction'⟩ := m
  unfold text at h
  dsimp only at h
  -- A digit is no sign.
  have hhead : ∀ (ds rest s : Str), ds ≠ [] → Digits ds → lit "-" ++ s ≠ ds ++ rest := by
    intro ds rest s hds hall heq
    obtain ⟨d, ds, rfl⟩ := List.exists_cons_of_ne_nil hds
    have hd : codePoint '-' = d := (List.cons.inj heq).1
    exact absurd (hall d List.mem_cons_self) (hd ▸ by decide)
  obtain rfl : negative = negative' := by
    cases negative <;> cases negative' <;>
      simp only [Bool.false_eq_true, if_false, if_true, List.nil_append] at h
    · rfl
    · exact absurd h.symm (hhead _ _ _ hne hdigits)
    · exact absurd h (hhead _ _ _ hne' hdigits')
    · rfl
  have hbody := List.append_cancel_left h
  have hfirst := takeWhile_digits hdigits (head_not_digit fraction exponent).1
  have hsecond := takeWhile_digits hdigits' (head_not_digit fraction' exponent').1
  obtain rfl : digits = digits' := by rw [← hfirst.1, hbody, hsecond.1]
  have hrest := List.append_cancel_left hbody
  obtain ⟨-, hexponent⟩ := head_not_digit fraction exponent
  obtain ⟨-, hexponent'⟩ := head_not_digit fraction' exponent'
  have hfractions : fraction = fraction' ∧ exponentText exponent = exponentText exponent' := by
    unfold fractionText at hrest
    split at hrest
    next hnil =>
      split at hrest
      next hnil' => exact ⟨hnil.trans hnil'.symm, hrest⟩
      next =>
        rw [List.nil_append] at hrest
        rw [hrest] at hexponent
        exact absurd rfl (hexponent _ rfl).2
    next =>
      split at hrest
      next =>
        rw [List.nil_append] at hrest
        rw [← hrest] at hexponent'
        exact absurd rfl (hexponent' _ rfl).2
      next =>
        have htail : fraction ++ exponentText exponent = fraction' ++ exponentText exponent' :=
          (List.cons.inj hrest).2
        have htake := takeWhile_digits hfraction fun c hc => (hexponent c hc).1
        have htake' := takeWhile_digits hfraction' fun c hc => (hexponent' c hc).1
        exact ⟨by rw [← htake.1, htail, htake'.1], by rw [← htake.2, htail, htake'.2]⟩
  obtain ⟨rfl, htext⟩ := hfractions
  obtain rfl : exponent = exponent' := by
    cases exponent with
    | none =>
        cases exponent' with
        | none => rfl
        | some => cases htext
    | some e =>
        cases exponent' with
        | none => cases htext
        | some e' =>
            obtain ⟨down, e⟩ := e
            obtain ⟨down', e'⟩ := e'
            obtain ⟨-, htext⟩ := List.cons.inj htext
            obtain ⟨hdown, rfl⟩ := List.cons.inj htext
            obtain rfl : down = down' := by
              revert hdown
              cases down <;> cases down' <;> decide
            rfl
  rfl

/-! ## Integers -/

/-- The numeral of an integer. -/
def ofInt (i : Int) : Numeral where
  negative := i < 0
  digits := natRepr i.natAbs
  fraction := []
  exponent := none
  digits_ne_nil := natRepr_ne_nil _
  isDigit_digits _ := isDigit_of_mem_natRepr
  isDigit_fraction _ hc := nomatch hc

/-- The text of an integer is its decimal text. -/
theorem text_ofInt (i : Int) : (ofInt i).text = intRepr i := by
  cases i with
  | ofNat n =>
      have hsign : ¬ (Int.ofNat n < 0) := by simp
      simp [text, ofInt, fractionText, exponentText, intRepr]
  | negSucc n =>
      have hsign : Int.negSucc n < 0 := Int.negSucc_lt_zero n
      simp only [text, ofInt, fractionText, exponentText, intRepr, hsign, decide_true, if_true,
        Int.natAbs_negSucc, List.append_nil]
      rfl

/-- Integers are told apart by their texts. -/
theorem intRepr_injective : Function.Injective intRepr := by
  intro i j h
  rw [← text_ofInt, ← text_ofInt] at h
  have heq := eq_of_text_eq h
  have hsign : decide (i < 0) = decide (j < 0) := congrArg Numeral.negative heq
  have habs : i.natAbs = j.natAbs := natRepr_injective (congrArg Numeral.digits heq)
  rw [decide_eq_decide] at hsign
  omega

/-! ## Floats -/

/-- A numeral whose digits and power of ten are known. -/
theorem magnitude_eq {n : Numeral} {d : Nat} {p : Int} (zeros : Nat)
    (hdigits : digitsValue (n.digits ++ n.fraction) = d * 10 ^ zeros)
    (hpower : n.power - n.fraction.length + zeros = p) : n.magnitude = d * (10 : Rat) ^ p := by
  rw [magnitude, numberValue.decimal, hdigits, ← hpower, zpow_add₀ (by norm_num), zpow_natCast]
  push_cast
  ring

/-- A text is that of a numeral with a point or an exponent, of this sign and magnitude. -/
def Prints (text : Str) (negative : Bool) (q : Rat) : Prop :=
  ∃ n : Numeral, n.text = text ∧ n.negative = negative ∧ n.Fractional ∧ n.magnitude = q

/-- The sign in front. -/
def sign (negative : Bool) : Str := if negative then lit "-" else []

section Notations

variable (negative : Bool) {digits : Str} (hne : digits ≠ []) (hdigits : Digits digits)

include hne hdigits

/-- Fixed notation with the point before the digits. -/
theorem prints_before (k : Nat) :
    Prints (sign negative ++ lit "0." ++ List.replicate k (codePoint '0') ++ digits) negative
      (digitsValue digits * (10 : Rat) ^ (-(k + digits.length : Nat) : Int)) := by
  have hfraction : List.replicate k (codePoint '0') ++ digits ≠ [] := by simp [hne]
  refine ⟨⟨negative, lit "0", List.replicate k (codePoint '0') ++ digits, none, by decide,
    digits_zeros 1, (digits_zeros k).append hdigits⟩, ?_, rfl, .inl hfraction,
    magnitude_eq 0 ?_ ?_⟩
  · have hpoint : lit "0." = lit "0" ++ [codePoint '.'] := rfl
    simp only [text, sign, fractionText, hfraction, if_false, exponentText, hpoint,
      List.append_assoc, List.append_nil, List.cons_append, List.nil_append]
  · dsimp only
    rw [← List.append_assoc, digitsValue_append]
    have hzero : digitsValue (lit "0" ++ List.replicate k (codePoint '0')) = 0 := digitsValue_zeros (k + 1)
    rw [hzero]
    ring
  · simp only [power, List.length_append, List.length_replicate]
    omega

/-- Fixed notation with the point behind the digits and some zeros. -/
theorem prints_behind (k : Nat) :
    Prints (sign negative ++ digits ++ List.replicate k (codePoint '0') ++ lit ".0") negative
      (digitsValue digits * (10 : Rat) ^ (k : Int)) := by
  refine ⟨⟨negative, digits ++ List.replicate k (codePoint '0'), lit "0", none, by simp [hne],
    hdigits.append (digits_zeros k), digits_zeros 1⟩, ?_, rfl, .inl (by simp [lit]),
    magnitude_eq (k + 1) ?_ ?_⟩
  · have hpoint : lit ".0" = codePoint '.' :: lit "0" := rfl
    have hzero : lit "0" ≠ [] := by decide
    simp only [text, sign, fractionText, hzero, if_false, exponentText, hpoint,
      List.append_assoc, List.append_nil]
  · dsimp only
    rw [List.append_assoc, digitsValue_append]
    have hzero : digitsValue (List.replicate k (codePoint '0') ++ lit "0") = 0 := by
      have hlit : lit "0" = List.replicate 1 (codePoint '0') := rfl
      rw [hlit, List.replicate_append_replicate, digitsValue_zeros]
    rw [hzero, List.length_append, List.length_replicate]
    rfl
  · have hlength : (lit "0").length = 1 := rfl
    simp only [power, hlength]
    push_cast
    ring

omit hne in
/-- Fixed notation with the point among the digits. -/
theorem prints_among {k : Nat} (hpos : 0 < k) (hk : k < digits.length) :
    Prints (sign negative ++ digits.take k ++ lit "." ++ digits.drop k) negative
      (digitsValue digits * (10 : Rat) ^ ((k : Int) - digits.length)) := by
  have hbefore : digits.take k ≠ [] := by
    rw [← List.length_pos_iff, List.length_take]
    omega
  have hbehind : digits.drop k ≠ [] := by
    rw [Ne, List.drop_eq_nil_iff]
    omega
  refine ⟨⟨negative, digits.take k, digits.drop k, none, hbefore, hdigits.take k, hdigits.drop k⟩,
    ?_, rfl, .inl hbehind, magnitude_eq 0 ?_ ?_⟩
  · have hpoint : lit "." = [codePoint '.'] := rfl
    simp only [text, sign, fractionText, hbehind, if_false, exponentText, hpoint,
      List.append_assoc, List.append_nil, List.cons_append, List.nil_append]
  · dsimp only
    rw [List.take_append_drop]
    ring
  · simp only [power, List.length_drop, Nat.cast_sub hk.le]
    push_cast
    ring

/-- Scientific notation. -/
theorem prints_scientific (e : Int) :
    Prints (sign negative ++
        (if digits.length ≤ 1 then digits else digits.take 1 ++ lit "." ++ digits.drop 1) ++
        (if e < 0 then lit "e-" else lit "e+") ++
        (if e.natAbs < 10 then lit "0" else []) ++ natRepr e.natAbs) negative
      (digitsValue digits * (10 : Rat) ^ (e - (digits.length - 1))) := by
  have hlength : 0 < digits.length := List.length_pos_of_ne_nil hne
  have hbefore : digits.take 1 ≠ [] := by
    rw [← List.length_pos_iff, List.length_take]
    omega
  refine ⟨⟨negative, digits.take 1, digits.drop 1,
    some (decide (e < 0), (if e.natAbs < 10 then lit "0" else []) ++ natRepr e.natAbs), hbefore,
    hdigits.take 1, hdigits.drop 1⟩, ?_, rfl, .inr (by simp), magnitude_eq 0 ?_ ?_⟩
  · have hexponent : (if e < 0 then lit "e-" else lit "e+") =
        [codePoint 'e', if e < 0 then codePoint '-' else codePoint '+'] := by
      split <;> rfl
    have hmantissa : (if digits.length ≤ 1 then digits
        else digits.take 1 ++ lit "." ++ digits.drop 1) =
          digits.take 1 ++ fractionText (digits.drop 1) := by
      split
      next hone =>
        rw [List.take_of_length_le hone, List.drop_eq_nil_of_le hone, fractionText, if_pos rfl,
          List.append_nil]
      next hmore =>
        rw [fractionText, if_neg (by rw [List.drop_eq_nil_iff]; omega), List.append_assoc]
        rfl
    rw [hmantissa, hexponent]
    simp only [text, sign, exponentText, decide_eq_true_eq, List.append_assoc, List.cons_append,
      List.nil_append]
  · dsimp only
    rw [List.take_append_drop]
    ring
  · have hvalue : digitsValue ((if e.natAbs < 10 then lit "0" else []) ++ natRepr e.natAbs) =
        e.natAbs := by
      rw [digitsValue_append, digitsValue_natRepr]
      split <;> simp [digitsValue, lit]
    have hdrop : ((digits.length - 1 : Nat) : Int) = digits.length - 1 := by omega
    simp only [power, hvalue, decide_eq_true_eq, List.length_drop, hdrop]
    split <;> omega

end Notations

/-- **The text of a double is a numeral** that is read back as it. -/
theorem exists_prints_repr (f : Double) :
    ∃ q, Prints f.repr f.negative q ∧ f.readsBack q = true := by
  unfold Double.repr
  by_cases hzero : f.magnitude = 0
  · refine ⟨0, ?_, ?_⟩
    · simp only [hzero, if_true]
      refine ⟨⟨f.negative, lit "0", lit "0", none, by decide, digits_zeros 1, digits_zeros 1⟩, rfl, rfl,
        .inl (by simp [lit]), ?_⟩
      rw [@magnitude_eq _ 0 (-1) 0 rfl rfl]
      norm_num
    · have hgap := Double.gap_pos f.index
      rw [Double.magnitude_eq] at hzero
      refine Double.readsBack_of_lt ?_ ?_
      · rw [Double.boundary, hzero]
        split <;> linarith
      · rw [Double.boundary_succ, hzero]
        linarith
  · have hpos : 0 < f.magnitude := by
      refine lt_of_le_of_ne ?_ (Ne.symm hzero)
      rw [Double.magnitude_eq, Double.level]
      have hgap := Double.gap_pos f.index
      positivity
    refine ⟨_, ?_, Double.readsBack_shortest hpos⟩
    simp only [hzero, if_false]
    generalize f.shortest.1 = d
    generalize f.shortest.2 = p
    have hvalue : digitsValue (natRepr d) = d := digitsValue_natRepr d
    have hne : natRepr d ≠ [] := natRepr_ne_nil d
    have hdigits : Digits (natRepr d) := fun _ => isDigit_of_mem_natRepr
    generalize natRepr d = digits at hvalue hne hdigits
    subst hvalue
    split
    · split
      next hbefore =>
        have hprints := prints_before f.negative hne hdigits (-(digits.length + p)).toNat
        have hpower : (-((-(digits.length + p)).toNat + digits.length : Nat) : Int) = p := by omega
        rw [hpower] at hprints
        exact hprints
      next hbefore =>
        split
        next hbehind =>
          have hprints := prints_behind f.negative hne hdigits
            (digits.length + p - digits.length).toNat
          have hpower : ((digits.length + p - digits.length).toNat : Int) = p := by omega
          rw [hpower] at hprints
          exact hprints
        next hamong =>
          have hpos : 0 < (digits.length + p).toNat := by omega
          have hprints := prints_among f.negative hdigits hpos (by omega)
          have hpower : ((digits.length + p).toNat : Int) - digits.length = p := by omega
          rw [hpower] at hprints
          exact hprints
    · have hprints := prints_scientific f.negative hne hdigits (digits.length + p - 1)
      have hpower : (digits.length + p - 1 - (digits.length - 1) : Int) = p := by ring
      rw [hpower] at hprints
      exact hprints

/-- **Doubles are told apart by their texts.** -/
theorem repr_injective : Function.Injective Double.repr := by
  intro f g h
  obtain ⟨q, ⟨n, hn, hsign, -, hq⟩, hf⟩ := exists_prints_repr f
  obtain ⟨q', ⟨m, hm, hsign', -, hq'⟩, hg⟩ := exists_prints_repr g
  have heq : n = m := eq_of_text_eq (hn.trans (h.trans hm.symm))
  subst heq
  rw [← hq] at hf
  rw [← hq'] at hg
  exact Double.eq_of_index_eq (hsign.symm.trans hsign') (Double.index_eq_of_readsBack hf hg)

/-- No integer is printed like a float. -/
theorem intRepr_ne_repr (i : Int) (f : Double) : intRepr i ≠ f.repr := by
  intro h
  obtain ⟨q, ⟨n, hn, -, hfractional, -⟩, -⟩ := exists_prints_repr f
  rw [← text_ofInt, ← hn] at h
  rw [← eq_of_text_eq h] at hfractional
  exact hfractional.elim (fun h => h rfl) (fun h => h rfl)

end Numeral

end Python
