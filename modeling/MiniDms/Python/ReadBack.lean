import MiniDms.Python.Rounding
import MiniDms.Python.Unambiguous
import MiniDms.Python.Identity
import MiniDms.Python.Nesting

/-! # `json.loads` reads back what `json.dumps` writes

The numbers first: the text `dumps` writes for a number is scanned part by part up to the character
behind it, and its value is the number. Then the whole grammar with any whitespace between the parts:
every text of a value is read as the value, and the texts `dumps` writes, on one line or indented, are
among them. -/

namespace Python

/-! ## Digits without a leading zero -/

/-- The text of a positive number begins with another digit than zero. -/
theorem natRepr_head {n : Nat} (hn : 0 < n) : ∃ d ds, natRepr n = d :: ds ∧ d ≠ codePoint '0' := by
  have hdigits : ∀ m : Nat, 0 < m →
      ∃ c cs, Nat.toDigits 10 m = c :: cs ∧ codePoint c ≠ codePoint '0' := by
    intro m
    induction m using Nat.strongRecOn with
    | ind m ih =>
        intro hm
        by_cases hlt : m < 10
        · have hdigit : ∀ k < 10, 0 < k → codePoint (Nat.digitChar k) ≠ codePoint '0' := by decide
          exact ⟨m.digitChar, [], Nat.toDigits_of_lt_base hlt, hdigit m hlt hm⟩
        · obtain ⟨c, cs, hc, hne⟩ := ih (m / 10) (by omega) (by omega)
          refine ⟨c, cs ++ [(m % 10).digitChar], ?_, hne⟩
          rw [Nat.toDigits_of_base_le (by norm_num) (by omega), hc]
          rfl
  obtain ⟨c, cs, hc, hne⟩ := hdigits n hn
  exact ⟨codePoint c, cs.map codePoint, by rw [natRepr, hc]; rfl, hne⟩

/-- The text of a number is an integer text. -/
theorem integerText_natRepr (n : Nat) : Json.IntegerText (natRepr n) := by
  obtain rfl | hn := Nat.eq_zero_or_pos n
  · exact .zero
  · obtain ⟨d, ds, hd, hne⟩ := natRepr_head hn
    have hall : ∀ c ∈ d :: ds, isDigit c = true := fun c hc => isDigit_of_mem_natRepr (hd ▸ hc)
    rw [hd]
    exact .digits (hall d List.mem_cons_self) hne fun c hc => hall c (List.mem_cons_of_mem _ hc)

namespace Numeral

open Json

/-- A numeral that a number scanner takes in whole: no leading zero, and digits behind the letter. -/
structure Standard (n : Numeral) : Prop where
  integer : IntegerText n.digits
  exponent : ∀ down e, n.exponent = some (down, e) → e ≠ [] ∧ Digits e

/-- The value a scanner gives a numeral. -/
def value (n : Numeral) : Option Json := numberValue n.negative n.digits n.fraction n.exponent

/-- What follows a number: nothing that could continue it. -/
theorem not_digit_of_ends {rest : Str} (hrest : Ends rest) {c : CodePoint} (hc : c ∈ rest.head?) :
    isDigit c = false ∧ c ∉ lit ".eE" := by
  have hatomic := hrest c hc
  refine ⟨?_, fun hmem => ?_⟩
  · cases hdigit : isDigit c with
    | false => rfl
    | true =>
        rw [isAtomic, hdigit] at hatomic
        cases hatomic
  · have hall : ∀ d ∈ lit ".eE", isAtomic d = true := by decide
    rw [hall c hmem] at hatomic
    cases hatomic

/-- The fraction is scanned up to what follows it. -/
theorem scan_fraction {fraction : Str} (hfraction : Digits fraction) {rest : Str}
    (hrest : ∀ c ∈ rest.head?, isDigit c = false ∧ c ≠ codePoint '.') :
    scanFraction (fractionText fraction ++ rest) = (fraction, rest) := by
  cases fraction with
  | nil =>
      rw [fractionText, if_pos rfl, List.nil_append]
      unfold scanFraction
      split
      next c d rest => rw [if_neg fun h => (hrest c rfl).2 h.1]
      next => rfl
  | cons d ds =>
      have hd : isDigit d = true := hfraction d List.mem_cons_self
      obtain ⟨htake, hdrop⟩ := takeWhile_digits (List.forall_mem_cons.mp hfraction).2
        fun c hc => (hrest c hc).1
      rw [fractionText, if_neg (List.cons_ne_nil d ds), List.cons_append, List.cons_append,
        scanFraction]
      simp only [hd, and_self, if_true, List.takeWhile_cons_of_pos, htake, hdrop]

/-- The exponent is scanned up to what follows it. -/
theorem scan_exponent {exponent : Option (Bool × Str)}
    (hexponent : ∀ down e, exponent = some (down, e) → e ≠ [] ∧ Digits e) {rest : Str}
    (hrest : Ends rest) : scanExponent (exponentText exponent ++ rest) = (exponent, rest) := by
  cases exponent with
  | none =>
      rw [exponentText, List.nil_append]
      cases rest with
      | nil => rfl
      | cons c rest =>
          have hnot := (not_digit_of_ends hrest (c := c) rfl).2
          have hletter : ¬ (c = codePoint 'e' ∨ c = codePoint 'E') := by
            rintro (rfl | rfl)
            · exact hnot (by decide)
            · exact hnot (by decide)
          rw [scanExponent, if_neg hletter]
  | some x =>
      obtain ⟨down, e⟩ := x
      obtain ⟨hne, hdigits⟩ := hexponent down e rfl
      obtain ⟨htake, hdrop⟩ := takeWhile_digits hdigits fun c hc => (not_digit_of_ends hrest hc).1
      have hsign : ∀ s : Str, scanExponentSign
          ((if down then codePoint '-' else codePoint '+') :: s) = (down, s) := by
        intro s
        cases down with
        | true => rfl
        | false => rfl
      rw [exponentText, List.cons_append, List.cons_append, scanExponent, if_pos (.inl rfl), hsign]
      simp only [htake, hdrop, if_neg hne]

/-- **A numeral is scanned up to what follows it**, and gets its value. -/
theorem Standard.scanNumber {n : Numeral} (hn : n.Standard) {rest : Str} (hrest : Ends rest) :
    Json.scanNumber (n.text ++ rest) = n.value.map fun v => (v, rest) := by
  have hsign : scanSign (n.text ++ rest) = (n.negative,
      n.digits ++ (fractionText n.fraction ++ (exponentText n.exponent ++ rest))) := by
    have hbody : n.text ++ rest = (if n.negative then lit "-" else []) ++
        (n.digits ++ (fractionText n.fraction ++ (exponentText n.exponent ++ rest))) := by
      simp only [text, List.append_assoc]
    rw [hbody]
    cases n.negative with
    | true => rfl
    | false =>
        obtain ⟨d, ds, hd⟩ := List.exists_cons_of_ne_nil n.digits_ne_nil
        have hdigit : isDigit d = true := n.isDigit_digits d (hd ▸ List.mem_cons_self)
        have hminus : d ≠ codePoint '-' := by
          rintro rfl
          exact absurd hdigit (by decide)
        rw [hd]
        simp only [Bool.false_eq_true, if_false, List.nil_append, List.cons_append, scanSign,
          if_neg hminus]
  -- Neither the point nor the letter is a digit.
  have hexponentHead : ∀ c ∈ (exponentText n.exponent ++ rest).head?,
      isDigit c = false ∧ c ≠ codePoint '.' := by
    cases n.exponent with
    | none =>
        intro c hc
        obtain ⟨hdigit, hnot⟩ := not_digit_of_ends hrest (c := c) hc
        refine ⟨hdigit, ?_⟩
        rintro rfl
        exact hnot (by decide)
    | some e =>
        intro c hc
        cases hc
        exact ⟨by decide, by decide⟩
  have hfractionHead : ∀ c ∈ (fractionText n.fraction ++
      (exponentText n.exponent ++ rest)).head?, isDigit c = false := by
    unfold fractionText
    split
    · exact fun c hc => (hexponentHead c hc).1
    · intro c hc
      cases hc
      decide
  rw [Json.scanNumber, hsign]
  simp only [hn.integer.scan hfractionHead, Option.bind_some,
    scan_fraction n.isDigit_fraction hexponentHead, scan_exponent hn.exponent hrest]
  rfl

/-! ## The numerals of integers and floats -/

/-- The numeral of an integer is in standard form. -/
theorem standard_ofInt (i : Int) : (ofInt i).Standard where
  integer := integerText_natRepr _
  exponent _ _ h := nomatch h

/-- An integer that is not too long to be read is the value of its numeral. -/
theorem value_ofInt {i : Int} (hi : (natRepr i.natAbs).length ≤ 4300) :
    (ofInt i).value = some (.int i) := by
  rw [value, ofInt, numberValue]
  dsimp only
  rw [if_neg (not_not.mpr rfl), if_pos hi, digitsValue_natRepr]
  by_cases hneg : i < 0
  · simp only [hneg, decide_true, if_true]
    congr 2
    omega
  · simp only [hneg, decide_false, Bool.false_eq_true, if_false]
    congr 2
    omega

/-- The digits of a numeral are those its text shows behind the sign. -/
theorem digits_of_text {n : Numeral} {ds r : Str} (htext : n.text = sign n.negative ++ (ds ++ r))
    (hds : Digits ds) (hr : ∀ c ∈ r.head?, isDigit c = false) : n.digits = ds := by
  have hbody : n.digits ++ (fractionText n.fraction ++ exponentText n.exponent) = ds ++ r :=
    List.append_cancel_left htext
  rw [← (takeWhile_digits n.isDigit_digits (head_not_digit n.fraction n.exponent).1).1, hbody,
    (takeWhile_digits hds hr).1]

/-- No digit is the letter. -/
theorem letter_not_mem {s : Str} (hs : Digits s) : codePoint 'e' ∉ s := fun hmem =>
  absurd (hs _ hmem) (by decide)

/-- The exponent of a numeral is what its text shows from the letter on. -/
theorem exponentText_of_text (n : Numeral) :
    n.text.dropWhile (· ≠ codePoint 'e') = exponentText n.exponent := by
  have hfront : ∀ c ∈ sign n.negative ++ (n.digits ++ fractionText n.fraction),
      decide (c ≠ codePoint 'e') = true := by
    intro c hc
    refine decide_eq_true ?_
    rintro rfl
    rcases List.mem_append.mp hc with hc | hc
    · cases hsign : n.negative <;> rw [hsign] at hc <;> exact absurd hc (by decide)
    · rcases List.mem_append.mp hc with hc | hc
      · exact letter_not_mem n.isDigit_digits hc
      · unfold fractionText at hc
        split at hc
        · cases hc
        · rcases List.mem_cons.mp hc with hc | hc
          · exact absurd hc (by decide)
          · exact letter_not_mem n.isDigit_fraction hc
  have htext : n.text = sign n.negative ++ (n.digits ++ fractionText n.fraction) ++
      exponentText n.exponent := by
    simp only [text, sign, List.append_assoc]
  rw [htext, List.dropWhile_append_of_pos hfront]
  cases n.exponent with
  | none => rfl
  | some e => rfl

/-- A text that shows no letter, or one with a sign and digits behind it. -/
def LetterLast (r : Str) : Prop :=
  codePoint 'e' ∉ r ∨ ∃ front c e, r = front ++ codePoint 'e' :: c :: e ∧ codePoint 'e' ∉ front ∧
    e ≠ [] ∧ Digits e

/-- **A numeral is standard when its text shows it.** -/
theorem standard_of_text {n : Numeral} {ds r : Str} (htext : n.text = sign n.negative ++ (ds ++ r))
    (hds : IntegerText ds) (hall : Digits ds) (hr : ∀ c ∈ r.head?, isDigit c = false)
    (hlast : LetterLast r) : n.Standard where
  integer := by
    rw [digits_of_text htext hall hr]
    exact hds
  exponent down e he := by
    have hshow := exponentText_of_text n
    have hfront : ∀ s : Str, codePoint 'e' ∉ s → ∀ c ∈ sign n.negative ++ (ds ++ s),
        decide (c ≠ codePoint 'e') = true := by
      intro s hs c hc
      refine decide_eq_true ?_
      rintro rfl
      rcases List.mem_append.mp hc with hc | hc
      · cases hsign : n.negative <;> rw [hsign] at hc <;> exact absurd hc (by decide)
      · exact (List.mem_append.mp hc).elim (letter_not_mem hall) hs
    rw [htext, he, exponentText] at hshow
    obtain hno | ⟨front, c, e', rfl, hno, hne, hdigits⟩ := hlast
    · rw [List.dropWhile_eq_nil_iff.mpr (hfront r hno)] at hshow
      cases hshow
    · have hsplit : sign n.negative ++ (ds ++ (front ++ codePoint 'e' :: c :: e')) =
          sign n.negative ++ (ds ++ front) ++ codePoint 'e' :: c :: e' := by
        simp only [List.append_assoc]
      rw [hsplit, List.dropWhile_append_of_pos (hfront front hno),
        List.dropWhile_cons_of_neg (by simp)] at hshow
      obtain ⟨-, htail⟩ := List.cons.inj hshow
      obtain ⟨-, rfl⟩ := List.cons.inj htail
      exact ⟨hne, hdigits⟩

/-- The digits of a positive number, continued or cut, are an integer text. -/
theorem integerText_of_head {d : CodePoint} {ds : Str} (hd : d ≠ codePoint '0')
    (hall : Digits (d :: ds)) : IntegerText (d :: ds) :=
  .digits (hall d List.mem_cons_self) hd (List.forall_mem_cons.mp hall).2

/-- The decimals of a positive double are positive. -/
theorem pos_of_readsBack {f : Double} (hf : 0 < f.magnitude) {q : Rat}
    (hback : f.readsBack q = true) : 0 < q := by
  obtain ⟨hlow, -⟩ := (Double.readsBack_iff f q).mp hback
  have hindex : f.index ≠ 0 := by
    intro h
    rw [Double.magnitude_eq, h, Double.level, Nat.zero_div, if_pos rfl, Nat.zero_mod, Nat.cast_zero,
      zero_mul] at hf
    exact lt_irrefl 0 hf
  obtain ⟨n, hn⟩ := Nat.exists_eq_succ_of_ne_zero hindex
  have hgap := Double.gap_pos n
  have hlevel : 0 ≤ Double.level n := by
    rw [Double.level]
    positivity
  rw [hn, Double.boundary_succ] at hlow
  linarith

/-- The shortest decimal of a positive double is positive. -/
theorem shortest_pos {f : Double} (hf : 0 < f.magnitude) : 0 < f.shortest.1 := by
  have hpos := pos_of_readsBack hf (Double.readsBack_shortest hf)
  by_contra hzero
  rw [Nat.eq_zero_of_not_pos hzero, Nat.cast_zero, zero_mul] at hpos
  exact lt_irrefl 0 hpos

/-- A magnitude is zero or positive. -/
theorem magnitude_cases (f : Double) : f.magnitude = 0 ∨ 0 < f.magnitude := by
  refine (eq_or_lt_of_le ?_).imp_left Eq.symm
  have hgap := Double.gap_pos f.index
  rw [Double.magnitude_eq, Double.level]
  positivity

/-- **What the text of a double shows.** -/
theorem repr_shows (f : Double) : ∃ ds r, f.repr = sign f.negative ++ (ds ++ r) ∧ IntegerText ds ∧
    Digits ds ∧ (∀ c ∈ r.head?, isDigit c = false) ∧ LetterLast r := by
  unfold Double.repr
  obtain hzero | hpos := magnitude_cases f
  · simp only [hzero, if_true]
    refine ⟨lit "0", lit ".0", rfl, .zero, digits_zeros 1, fun c hc => ?_, .inl (by decide)⟩
    cases hc
    decide
  obtain ⟨d, ds, hdigits, hhead⟩ := natRepr_head (shortest_pos hpos)
  have hall : Digits (d :: ds) := fun c hc => isDigit_of_mem_natRepr (hdigits ▸ hc)
  have htail : Digits ds := (List.forall_mem_cons.mp hall).2
  simp only [hpos.ne', if_false, hdigits]
  generalize f.shortest.2 = p
  split
  · split
    -- The point in front of the digits.
    · generalize (-(((d :: ds).length : Int) + p)).toNat = k
      refine ⟨lit "0", codePoint '.' :: (List.replicate k (codePoint '0') ++ d :: ds), ?_, .zero,
        digits_zeros 1, ?_, .inl ?_⟩
      · have hpoint : lit "0." = lit "0" ++ [codePoint '.'] := rfl
        simp only [sign, hpoint, List.append_assoc, List.cons_append, List.nil_append]
      · intro c hc
        cases hc
        decide
      · intro hmem
        rcases List.mem_cons.mp hmem with hmem | hmem
        · exact absurd hmem (by decide)
        · exact letter_not_mem ((digits_zeros k).append hall) hmem
    · split
      -- The point behind the digits and some zeros.
      · generalize (((d :: ds).length : Int) + p - (d :: ds).length).toNat = k
        refine ⟨d :: (ds ++ List.replicate k (codePoint '0')), lit ".0", ?_,
          integerText_of_head hhead (hall.append (digits_zeros k)), hall.append (digits_zeros k),
          fun c hc => ?_, .inl (by decide)⟩
        · simp only [sign, List.append_assoc, List.cons_append]
        · cases hc
          decide
      -- The point among the digits.
      · next hbefore hbehind =>
        obtain ⟨k, hk⟩ : ∃ k, (((d :: ds).length : Int) + p).toNat = k + 1 :=
          ⟨(((d :: ds).length : Int) + p).toNat - 1, by omega⟩
        rw [hk]
        refine ⟨d :: ds.take k, codePoint '.' :: ds.drop k, ?_,
          integerText_of_head hhead (hall.take (k + 1)), hall.take (k + 1), ?_, .inl ?_⟩
        · have hpoint : lit "." = [codePoint '.'] := rfl
          simp only [sign, hpoint, List.take_succ_cons, List.drop_succ_cons, List.append_assoc,
            List.cons_append, List.nil_append]
        · intro c hc
          cases hc
          decide
        · intro hmem
          rcases List.mem_cons.mp hmem with hmem | hmem
          · exact absurd hmem (by decide)
          · exact letter_not_mem (htail.drop k) hmem
  -- Scientific notation.
  · generalize ((d :: ds).length : Int) + p - 1 = e
    refine ⟨[d], (if ds = [] then [] else codePoint '.' :: ds) ++
      codePoint 'e' :: (if e < 0 then codePoint '-' else codePoint '+') ::
        ((if e.natAbs < 10 then lit "0" else []) ++ natRepr e.natAbs), ?_,
      integerText_of_head hhead (hall.take 1), hall.take 1, ?_,
      .inr ⟨_, _, _, rfl, ?_, ?_, ?_⟩⟩
    · have hletter : (if e < 0 then lit "e-" else lit "e+") =
          [codePoint 'e', if e < 0 then codePoint '-' else codePoint '+'] := by
        split <;> rfl
      rw [hletter]
      cases ds with
      | nil =>
          simp only [sign, List.length_singleton, le_refl, if_true, List.append_assoc,
            List.cons_append, List.nil_append]
      | cons d' ds =>
          have hlength : ¬ (d :: d' :: ds).length ≤ 1 := by simp
          have hpoint : lit "." = [codePoint '.'] := rfl
          simp only [sign, hlength, if_false, hpoint, List.take_succ_cons, List.take_zero,
            List.drop_succ_cons, List.drop_zero, List.append_assoc, List.cons_append,
            List.nil_append, List.cons_ne_nil]
    · intro c hc
      split at hc <;> cases hc <;> decide
    · split
      · exact List.not_mem_nil
      · intro hmem
        rcases List.mem_cons.mp hmem with hmem | hmem
        · exact absurd hmem (by decide)
        · exact letter_not_mem htail hmem
    · simp [natRepr_ne_nil]
    · refine Digits.append ?_ fun _ => isDigit_of_mem_natRepr
      split
      · exact digits_zeros 1
      · exact List.forall_mem_nil _

/-- **The text of a finite double is a standard numeral whose value is the double.** -/
theorem exists_standard_repr {f : Double} (hf : f.isFinite = true) :
    ∃ n : Numeral, n.text = f.repr ∧ n.Standard ∧ n.value = some (.float f) := by
  obtain ⟨q, ⟨n, htext, hsign, hfractional, hq⟩, hback⟩ := exists_prints_repr f
  obtain ⟨ds, r, hshows, hinteger, hdigits, hr, hlast⟩ := repr_shows f
  refine ⟨n, htext, standard_of_text ?_ hinteger hdigits hr hlast, ?_⟩
  · rw [htext, hshows, hsign]
  · have hfloat : n.value = some (.float (.ofRat n.negative n.magnitude)) := by
      rw [value, magnitude, power]
      cases hexponent : n.exponent with
      | none =>
          have hfraction : n.fraction ≠ [] := hfractional.resolve_right (not_not.mpr hexponent)
          rw [numberValue, if_pos hfraction]
      | some x => rfl
    rw [hfloat, hsign]
    congr 2
    obtain hzero | hpos := magnitude_cases f
    -- A zero is printed as one, with its sign.
    · have hprinted : n = ⟨f.negative, lit "0", lit "0", none, by decide, digits_zeros 1,
          digits_zeros 1⟩ := by
        refine eq_of_text_eq ?_
        rw [htext, Double.repr]
        simp only [hzero, if_true]
        rfl
      have hmagnitude : n.magnitude = 0 := by
        rw [hprinted, @magnitude_eq _ 0 (-1) 0 rfl rfl]
        norm_num
      rw [hmagnitude, Double.ofRat_zero hzero]
    · rw [hq, Double.ofRat_of_readsBack hf (pos_of_readsBack hpos hback) hback]

end Numeral

namespace Json

/-! ## Scalars -/

/-- What follows a value may be whitespace and then a structural character. -/
theorem ends_blank_append {w : Str} (hw : Blank w) {s : Str} (hs : Ends s) : Ends (w ++ s) := by
  cases w with
  | nil => exact hs
  | cons c w =>
      intro d hd
      cases hd
      have hblank : ∀ x ∈ lit " \t\n\r", isAtomic x = false := by decide
      exact hblank c (of_decide_eq_true (hw c List.mem_cons_self))

/-- An atomic character is no whitespace and closes nothing. -/
theorem not_mem_of_isAtomic {c : CodePoint} (hc : isAtomic c = true) :
    c ∉ lit " \t\n\r]\x7d,:\"[\x7b" := by
  intro hmem
  have hnone : ∀ x ∈ lit " \t\n\r]\x7d,:\"[\x7b", isAtomic x = false := by decide
  rw [hnone c hmem] at hc
  cases hc

/-- A numeral is read as the number it denotes. -/
theorem scanValue_numeral {n : Numeral} (hn : n.Standard) {v : Json} (hv : n.value = some v)
    {fuel levels : Nat} {rest : Str} (hrest : Ends rest) :
    scanValue (fuel + 1) levels (n.text ++ rest) = .ok (v, rest) := by
  obtain ⟨c, s, htext, hc⟩ := numeral_head n
  have hscan := hn.scanNumber hrest
  have hne : ∀ d ∈ lit "\"[\x7bntf \t\n\r", c ≠ d := by
    rintro d hd rfl
    exact isDigit_or_minus_spec hc hd
  have hword : ∀ d w, d ∈ lit "\"[\x7bntf \t\n\r" → ¬ d :: w <+: c :: (s ++ rest) :=
    fun d w hd hw => hne d hd (List.cons_prefix_cons.mp hw).1.symm
  rw [htext, List.cons_append] at hscan ⊢
  have hquiet : ∀ d ∈ lit "\"[\x7b", c ≠ d := fun d hd =>
    hne d ((by decide : ∀ d ∈ lit "\"[\x7b", d ∈ lit "\"[\x7bntf \t\n\r") d hd)
  rw [scanValue_of_quiet hquiet,
    if_neg (show ¬ lit "null" <+: c :: (s ++ rest) from hword _ _ (by decide)),
    if_neg (show ¬ lit "true" <+: c :: (s ++ rest) from hword _ _ (by decide)),
    if_neg (show ¬ lit "false" <+: c :: (s ++ rest) from hword _ _ (by decide)), hscan, hv]
  rfl

/-- **A scalar is read back.** -/
theorem scanValue_scalar {v : Json} (hscalar : Scalar v) (hfinite : v.finite = true)
    (hprint : v.printable = true) {fuel levels : Nat} {rest : Str} (hrest : Ends rest) :
    scanValue (fuel + 1) levels (v.dumps ++ rest) = .ok (v, rest) := by
  cases v with
  | null => rfl
  | bool b => cases b <;> rfl
  | int i =>
      have hi : (natRepr i.natAbs).length ≤ 4300 := of_decide_eq_true hprint
      rw [dumps, ← Numeral.text_ofInt]
      exact scanValue_numeral (Numeral.standard_ofInt i) (Numeral.value_ofInt hi) hrest
  | float f =>
      have hf : f.isFinite = true := hfinite
      obtain ⟨n, htext, hstandard, hvalue⟩ := Numeral.exists_standard_repr hf
      rw [dumps, floatText, if_pos hf, ← htext]
      exact scanValue_numeral hstandard hvalue hrest
  | str _ | list _ | dict _ => cases hscalar

/-! ## The grammar -/

/-- What a decoder keeps of the items of a dictionary, read one after the other. -/
def stored (items : List (Str × Json)) : List (Str × Json) :=
  items.foldl (fun acc item => storeItem acc item.1 item.2) []

mutual

/-- The texts of a value, with any whitespace between its parts, that nest at most this deep. A key
may be repeated, and then only its last value is the dictionary's; the others nest as well. -/
inductive ValueText : Nat → Json → Str → Prop
  | scalar {n : Nat} {v : Json} (hscalar : Scalar v) (hfinite : v.finite = true)
      (hprint : v.printable = true) : ValueText n v v.dumps
  | str {n : Nat} {s t : Str} (h : LiteralText s t) :
      ValueText n (.str s) (codePoint '"' :: (t ++ [codePoint '"']))
  | emptyList {n : Nat} {w : Str} (hw : Blank w) :
      ValueText (n + 1) (.list []) (codePoint '[' :: (w ++ [codePoint ']']))
  | list {n : Nat} {items : List Json} {w body : Str} (hw : Blank w)
      (h : ElementsText n items body) :
      ValueText (n + 1) (.list items) (codePoint '[' :: (w ++ body))
  | emptyDict {n : Nat} {w : Str} (hw : Blank w) :
      ValueText (n + 1) (.dict []) (codePoint '\x7b' :: (w ++ [codePoint '\x7d']))
  | dict {n : Nat} {items : List (Str × Json)} {w body : Str} (hw : Blank w)
      (h : ItemsText n items body) :
      ValueText (n + 1) (.dict (stored items)) (codePoint '\x7b' :: (w ++ body))

/-- The elements of a list, up to its bracket. -/
inductive ElementsText : Nat → List Json → Str → Prop
  | last {n : Nat} {x : Json} {t w : Str} (hx : ValueText n x t) (hw : Blank w) :
      ElementsText n [x] (t ++ (w ++ [codePoint ']']))
  | cons {n : Nat} {x : Json} {xs : List Json} {t w w' body : Str} (hx : ValueText n x t)
      (hw : Blank w) (hw' : Blank w') (h : ElementsText n xs body) :
      ElementsText n (x :: xs) (t ++ (w ++ codePoint ',' :: (w' ++ body)))

/-- The items of a dictionary, up to its brace. -/
inductive ItemsText : Nat → List (Str × Json) → Str → Prop
  | last {n : Nat} {k : Str} {x : Json} {kt w w' t u : Str} (hk : LiteralText k kt) (hw : Blank w)
      (hw' : Blank w') (hx : ValueText n x t) (hu : Blank u) :
      ItemsText n [(k, x)]
        (codePoint '"' :: (kt ++ codePoint '"' :: (w ++ codePoint ':' ::
          (w' ++ (t ++ (u ++ [codePoint '\x7d']))))))
  | cons {n : Nat} {k : Str} {x : Json} {items : List (Str × Json)} {kt w w' t u v body : Str}
      (hk : LiteralText k kt) (hw : Blank w) (hw' : Blank w') (hx : ValueText n x t)
      (hu : Blank u) (hv : Blank v) (h : ItemsText n items body) :
      ItemsText n ((k, x) :: items)
        (codePoint '"' :: (kt ++ codePoint '"' :: (w ++ codePoint ':' ::
          (w' ++ (t ++ (u ++ codePoint ',' :: (v ++ body)))))))

end

variable {n : Nat}

/-- A value's text begins with no whitespace and with nothing that closes. -/
theorem ValueText.head {v : Json} {t : Str} (h : ValueText n v t) :
    ∃ c r, t = c :: r ∧ isBlank c = false ∧ c ≠ codePoint ']' := by
  cases h with
  | scalar hscalar hfinite =>
      obtain ⟨c, r, hc, hatomic⟩ := exists_scalar_cons hscalar hfinite
      have hnot := not_mem_of_isAtomic hatomic
      refine ⟨c, r, hc, ?_, ?_⟩
      · rw [isBlank, decide_eq_false_iff_not]
        exact fun hmem => hnot ((by decide : ∀ d ∈ lit " \t\n\r",
          d ∈ lit " \t\n\r]\x7d,:\"[\x7b") c hmem)
      · rintro rfl
        exact hnot (by decide)
  | str | emptyList | list | emptyDict | dict => exact ⟨_, _, rfl, by decide, by decide⟩

/-- The elements begin as a value does. -/
theorem ElementsText.head {xs : List Json} {body : Str} (h : ElementsText n xs body) :
    ∃ c r, body = c :: r ∧ isBlank c = false ∧ c ≠ codePoint ']' := by
  cases h with
  | last hx =>
      obtain ⟨c, r, rfl, hc⟩ := hx.head
      exact ⟨c, _, rfl, hc⟩
  | cons hx =>
      obtain ⟨c, r, rfl, hc⟩ := hx.head
      exact ⟨c, _, rfl, hc⟩

/-- The items begin with a quote. -/
theorem ItemsText.head {items : List (Str × Json)} {body : Str} (h : ItemsText n items body) :
    ∃ r, body = codePoint '"' :: r := by
  cases h with
  | last | cons => exact ⟨_, rfl⟩

/-- A structural character ends a value, whatever follows. -/
theorem ends_structural {c : CodePoint} (hc : isAtomic c = false) (s : Str) : Ends (c :: s) := by
  intro d hd
  cases hd
  exact hc

/-- Whitespace in front of a text that begins with none is skipped. -/
theorem skipBlanks_of_head {w s : Str} (hw : Blank w) (rest : Str) {P : CodePoint → Prop}
    (hs : ∃ c r, s = c :: r ∧ isBlank c = false ∧ P c) :
    ∃ c r, skipBlanks (w ++ (s ++ rest)) = c :: r ∧ s ++ rest = c :: r ∧ P c := by
  obtain ⟨c, r, rfl, hblank, hc⟩ := hs
  exact ⟨c, r ++ rest, skipBlanks_append hw hblank _, rfl, hc⟩

mutual

/-- **Every text of a value is read as the value**, up to what follows it, with as many levels as it
nests deep. -/
theorem ValueText.scan : ∀ {n : Nat} {v : Json} {t : Str}, ValueText n v t →
    ∀ (fuel : Nat) (rest : Str), t.length ≤ fuel → Ends rest →
      scanValue fuel n (t ++ rest) = .ok (v, rest)
  | _, v, _, .scalar hscalar hfinite hprint, fuel, rest, hfuel, hrest => by
      obtain ⟨c, r, hc, -⟩ := exists_scalar_cons hscalar hfinite
      obtain ⟨fuel, rfl⟩ : ∃ n, fuel = n + 1 := ⟨fuel - 1, by
        rw [hc, List.length_cons] at hfuel
        omega⟩
      exact scanValue_scalar hscalar hfinite hprint hrest
  | _, _, _, .str h, fuel, rest, hfuel, _ => by
      obtain ⟨fuel, rfl⟩ : ∃ n, fuel = n + 1 := ⟨fuel - 1, by
        rw [List.length_cons] at hfuel
        omega⟩
      rw [List.cons_append, List.append_assoc]
      exact h.scanValue fuel _ rest
  | _, _, _, .emptyList hw, fuel, rest, hfuel, _ => by
      obtain ⟨fuel, rfl⟩ : ∃ n, fuel = n + 1 := ⟨fuel - 1, by
        rw [List.length_cons] at hfuel
        omega⟩
      have hskip := skipBlanks_append hw (c := codePoint ']') (by decide) rest
      have hquote : codePoint '[' ≠ codePoint '"' := by decide
      rw [List.cons_append, List.append_assoc, List.singleton_append, Json.scanValue]
      simp only [if_neg hquote, if_true, hskip]
  | _, _, _, .list hw h, fuel, rest, hfuel, _ => by
      obtain ⟨fuel, rfl⟩ : ∃ n, fuel = n + 1 := ⟨fuel - 1, by
        rw [List.length_cons] at hfuel
        omega⟩
      obtain ⟨c, r, hskip, hbody, hc⟩ := skipBlanks_of_head hw rest h.head
      have helements := h.scan fuel rest (by
        rw [List.length_cons, List.length_append] at hfuel
        omega)
      have hquote : codePoint '[' ≠ codePoint '"' := by decide
      rw [hbody] at helements
      rw [List.cons_append, List.append_assoc, Json.scanValue]
      simp only [if_neg hquote, if_true, hskip, if_neg hc, helements, ok_map]
  | _, _, _, .emptyDict hw, fuel, rest, hfuel, _ => by
      obtain ⟨fuel, rfl⟩ : ∃ n, fuel = n + 1 := ⟨fuel - 1, by
        rw [List.length_cons] at hfuel
        omega⟩
      have hskip := skipBlanks_append hw (c := codePoint '\x7d') (by decide) rest
      have hquote : codePoint '\x7b' ≠ codePoint '"' := by decide
      have hbracket : codePoint '\x7b' ≠ codePoint '[' := by decide
      rw [List.cons_append, List.append_assoc, List.singleton_append, Json.scanValue]
      simp only [if_neg hquote, if_neg hbracket, if_true, hskip]
  | _, _, _, .dict hw h, fuel, rest, hfuel, _ => by
      obtain ⟨fuel, rfl⟩ : ∃ n, fuel = n + 1 := ⟨fuel - 1, by
        rw [List.length_cons] at hfuel
        omega⟩
      obtain ⟨r, rfl⟩ := h.head
      have hskip := skipBlanks_append hw (c := codePoint '"') (by decide) (r ++ rest)
      have hitems := h.scan fuel [] rest (by
        rw [List.length_cons, List.length_append] at hfuel
        omega)
      have hquote : codePoint '\x7b' ≠ codePoint '"' := by decide
      have hbracket : codePoint '\x7b' ≠ codePoint '[' := by decide
      have hclose : codePoint '"' ≠ codePoint '\x7d' := by decide
      rw [List.cons_append] at hitems
      rw [List.cons_append, List.append_assoc, List.cons_append, Json.scanValue]
      simp only [if_neg hquote, if_neg hbracket, if_true, hskip, if_neg hclose, hitems,
        ok_map, stored]

/-- The elements of a list are read up to its bracket. -/
theorem ElementsText.scan : ∀ {n : Nat} {xs : List Json} {body : Str}, ElementsText n xs body →
    ∀ (fuel : Nat) (rest : Str), body.length ≤ fuel →
      scanElements fuel n (body ++ rest) = .ok (xs, rest)
  | _, _, _, .last hx hw, fuel, rest, hfuel => by
      simp only [List.length_append, List.length_singleton] at hfuel
      obtain ⟨fuel, rfl⟩ : ∃ n, fuel = n + 1 := ⟨fuel - 1, by omega⟩
      have hvalue := hx.scan fuel _ (by omega)
        (ends_blank_append hw (ends_structural (c := codePoint ']') (by decide) rest))
      have hskip := skipBlanks_append hw (c := codePoint ']') (by decide) rest
      rw [List.append_assoc, List.append_assoc, List.singleton_append, Json.scanElements, hvalue,
        ok_bind]
      simp only [hskip, if_true]
  | _, _, _, .cons hx hw hw' h, fuel, rest, hfuel => by
      simp only [List.length_append, List.length_cons] at hfuel
      obtain ⟨fuel, rfl⟩ : ∃ n, fuel = n + 1 := ⟨fuel - 1, by omega⟩
      obtain ⟨c, r, hnext, hbody, -⟩ := skipBlanks_of_head hw' rest h.head
      have helements := h.scan fuel rest (by omega)
      have hvalue := fun s => hx.scan fuel _ (by omega)
        (ends_blank_append hw (ends_structural (c := codePoint ',') (by decide) s))
      have hskip := skipBlanks_append hw (c := codePoint ',') (by decide)
      have hclose : codePoint ',' ≠ codePoint ']' := by decide
      rw [hbody] at helements
      rw [List.append_assoc, List.append_assoc, List.cons_append, List.append_assoc,
        Json.scanElements, hvalue, ok_bind]
      simp only [hskip, if_neg hclose, if_true, hnext, helements, ok_map]

/-- The items of a dictionary are read up to its brace, and stored behind those read before. -/
theorem ItemsText.scan : ∀ {n : Nat} {items : List (Str × Json)} {body : Str},
    ItemsText n items body → ∀ (fuel : Nat) (acc : List (Str × Json)) (rest : Str),
      body.length ≤ fuel → scanItems fuel n acc (body ++ rest) =
        .ok (items.foldl (fun acc item => storeItem acc item.1 item.2) acc, rest)
  | _, _, _, .last hk hw hw' hx hw'', fuel, acc, rest, hfuel => by
      simp only [List.length_append, List.length_cons, List.length_nil] at hfuel
      obtain ⟨fuel, rfl⟩ : ∃ n, fuel = n + 1 := ⟨fuel - 1, by omega⟩
      have hvalue := hx.scan fuel _ (by omega)
        (ends_blank_append hw'' (ends_structural (c := codePoint '\x7d') (by decide) rest))
      obtain ⟨c, r, rfl, hblank, -⟩ := hx.head
      have hcolon := skipBlanks_append hw (c := codePoint ':') (by decide)
      have hskip := skipBlanks_append hw' hblank
      have hclose := skipBlanks_append hw'' (c := codePoint '\x7d') (by decide) rest
      simp only [List.cons_append] at hvalue
      simp only [List.cons_append, List.append_assoc, List.nil_append]
      rw [Json.scanItems]
      simp only [if_true, hk.scan, orValueError, ok_bind, hcolon, hskip, hvalue, hclose, List.foldl_cons,
        List.foldl_nil]
  | _, _, _, .cons hk hw hw' hx hw'' hv h, fuel, acc, rest, hfuel => by
      simp only [List.length_append, List.length_cons] at hfuel
      obtain ⟨fuel, rfl⟩ : ∃ n, fuel = n + 1 := ⟨fuel - 1, by omega⟩
      have hitems := fun acc => h.scan fuel acc rest (by omega)
      obtain ⟨b, rfl⟩ := h.head
      have hvalue := fun s => hx.scan fuel _ (by omega)
        (ends_blank_append hw'' (ends_structural (c := codePoint ',') (by decide) s))
      obtain ⟨c, r, rfl, hblank, -⟩ := hx.head
      have hcolon := skipBlanks_append hw (c := codePoint ':') (by decide)
      have hskip := skipBlanks_append hw' hblank
      have hcomma := skipBlanks_append hw'' (c := codePoint ',') (by decide)
      have hnext := skipBlanks_append hv (c := codePoint '"') (by decide) (b ++ rest)
      have hclose : codePoint ',' ≠ codePoint '\x7d' := by decide
      simp only [List.cons_append] at hvalue hitems
      simp only [List.cons_append, List.append_assoc]
      rw [Json.scanItems]
      simp only [if_true, hk.scan, orValueError, ok_bind, hcolon, hskip, hvalue, hcomma, if_neg hclose,
        hnext, hitems, List.foldl_cons]

end

/-- **A text of a value between whitespace is read as the value**, with as many levels as it nests
deep. -/
theorem ValueText.loads {v : Json} {t w w' : Str} (h : ValueText n v t) (hw : Blank w)
    (hw' : Blank w') : Json.loads n (w ++ (t ++ w')) = .ok v := by
  obtain ⟨c, r, hskip, hbody, -⟩ := skipBlanks_of_head hw w' h.head
  have hends : Ends w' := by
    have hnil := ends_blank_append hw' (s := []) fun c hc => nomatch hc
    rwa [List.append_nil] at hnil
  have hscan := h.scan ((w ++ (t ++ w')).length + 1) _
    (by simp only [List.length_append]; omega) hends
  rw [hbody] at hscan
  rw [Json.loads, hskip, ← hbody, hbody, hscan]
  simp only [ok_bind, skipBlanks_eq_nil hw', if_true]

/-! ## What the encoder writes -/

/-- The text of a string. -/
theorem valueText_quote (s : Str) : ValueText n (.str s) (quote s) := .str (literalText_escape s)

/-- Storing under a new key appends. -/
theorem storeItem_of_not_mem {acc : List (Str × Json)} {k : Str} {x : Json}
    (hk : k ∉ acc.map Prod.fst) : storeItem acc k x = acc ++ [(k, x)] := by
  rw [storeItem, if_neg]
  rw [List.any_eq_true]
  rintro ⟨item, hitem, heq⟩
  exact hk (List.mem_map.mpr ⟨item, hitem, of_decide_eq_true heq⟩)

/-- Items with distinct keys are stored as they are. -/
theorem stored_of_nodup {items : List (Str × Json)} (h : (items.map Prod.fst).Nodup) :
    stored items = items := by
  have hfold : ∀ (items acc : List (Str × Json)), ((acc ++ items).map Prod.fst).Nodup →
      items.foldl (fun acc item => storeItem acc item.1 item.2) acc = acc ++ items := by
    intro items
    induction items with
    | nil => exact fun acc _ => (List.append_nil acc).symm
    | cons item items ih =>
        intro acc hnodup
        have hnew : item.1 ∉ acc.map Prod.fst := by
          rw [List.map_append, List.map_cons] at hnodup
          exact fun hmem => (List.nodup_append.mp hnodup).2.2 _ hmem _ List.mem_cons_self rfl
        rw [List.foldl_cons, storeItem_of_not_mem hnew, ih _ (by
          rw [List.append_assoc]
          exact hnodup), List.append_assoc]
        rfl
  exact hfold items [] h

/-- How separated parts begin and go on. -/
theorem join_cons (separator part : Str) (parts : List Str) (rest : Str) :
    join separator (part :: parts) ++ rest =
      part ++ (if parts = [] then rest else separator ++ (join separator parts ++ rest)) :=
  Sequences.intercalate_cons_append separator part parts rest

/-- One space. -/
theorem blank_space : Blank (lit " ") := by
  intro c hc
  rw [List.mem_singleton.mp hc]
  decide

/-- No whitespace. -/
theorem blank_nil : Blank [] := List.forall_mem_nil _

mutual

/-- **What `dumps` writes is a text of the value**, and nests as the value does. -/
theorem valueText_dumps : ∀ (v : Json) (n : Nat), v.finite = true → v.printable = true →
    v.distinct = true → v.nesting ≤ n → ValueText n v v.dumps
  | .null, _, hfinite, hprint, _, _ => .scalar trivial hfinite hprint
  | .bool _, _, hfinite, hprint, _, _ => .scalar trivial hfinite hprint
  | .int _, _, hfinite, hprint, _, _ => .scalar trivial hfinite hprint
  | .float _, _, hfinite, hprint, _, _ => .scalar trivial hfinite hprint
  | .str s, _, _, _, _, _ => valueText_quote s
  | .list items, n, hfinite, hprint, hdistinct, hnesting => by
      rw [nesting] at hnesting
      obtain ⟨n, rfl⟩ : ∃ m, n = m + 1 := ⟨n - 1, by omega⟩
      by_cases hnil : items = []
      · rw [hnil]
        exact .emptyList (w := []) blank_nil
      · exact .list (w := []) blank_nil
          (elementsText_dumps items n hfinite hprint hdistinct (by omega) hnil)
  | .dict items, n, hfinite, hprint, hdistinct, hnesting => by
      rw [nesting] at hnesting
      obtain ⟨n, rfl⟩ : ∃ m, n = m + 1 := ⟨n - 1, by omega⟩
      by_cases hnil : items = []
      · rw [hnil]
        exact .emptyDict (w := []) blank_nil
      · rw [distinct, Bool.and_eq_true] at hdistinct
        have htext := ValueText.dict (w := []) blank_nil
          (itemsText_dumps items n hfinite hprint hdistinct.2 (by omega) hnil)
        rw [stored_of_nodup (of_decide_eq_true hdistinct.1)] at htext
        exact htext

/-- The elements and the bracket. -/
theorem elementsText_dumps : ∀ (items : List Json) (n : Nat), finiteList items = true →
    printableList items = true → distinctList items = true → nestingList items ≤ n → items ≠ [] →
      ElementsText n items (join (lit ", ") (dumpsList items) ++ lit "]")
  | [], _, _, _, _, _, hne => absurd rfl hne
  | x :: xs, n, hfinite, hprint, hdistinct, hnesting, _ => by
      rw [finiteList, Bool.and_eq_true] at hfinite
      rw [printableList, Bool.and_eq_true] at hprint
      rw [distinctList, Bool.and_eq_true] at hdistinct
      rw [nestingList, max_le_iff] at hnesting
      have hx := valueText_dumps x n hfinite.1 hprint.1 hdistinct.1 hnesting.1
      have hxs := elementsText_dumps xs n hfinite.2 hprint.2 hdistinct.2 hnesting.2
      rw [dumpsList, join_cons]
      cases xs with
      | nil => exact .last (w := []) hx blank_nil
      | cons y ys => exact .cons (w := []) hx blank_nil blank_space (hxs (List.cons_ne_nil y ys))

/-- The items and the brace. -/
theorem itemsText_dumps : ∀ (items : List (Str × Json)) (n : Nat), finiteItems items = true →
    printableItems items = true → distinctItems items = true → nestingItems items ≤ n →
      items ≠ [] → ItemsText n items (join (lit ", ") (dumpsItems items) ++ lit "\x7d")
  | [], _, _, _, _, _, hne => absurd rfl hne
  | (k, x) :: items, n, hfinite, hprint, hdistinct, hnesting, _ => by
      rw [finiteItems, Bool.and_eq_true] at hfinite
      rw [printableItems, Bool.and_eq_true] at hprint
      rw [distinctItems, Bool.and_eq_true] at hdistinct
      rw [nestingItems, max_le_iff] at hnesting
      have hx := valueText_dumps x n hfinite.1 hprint.1 hdistinct.1 hnesting.1
      have hitems := itemsText_dumps items n hfinite.2 hprint.2 hdistinct.2 hnesting.2
      have hitem : ∀ s : Str, quote k ++ lit ": " ++ x.dumps ++ s =
          codePoint '"' :: (k.flatMap escape ++ codePoint '"' :: ([] ++ codePoint ':' ::
            (lit " " ++ (x.dumps ++ s)))) := by
        intro s
        have hcolon : lit ": " = codePoint ':' :: lit " " := rfl
        simp only [quote, hcolon, List.append_assoc, List.cons_append, List.nil_append]
      rw [dumpsItems, join_cons, hitem]
      cases items with
      | nil => exact .last (u := []) (literalText_escape k) blank_nil blank_space hx blank_nil
      | cons item rest =>
          exact .cons (u := []) (literalText_escape k) blank_nil blank_space hx blank_nil blank_space
            (hitems (List.cons_ne_nil item rest))

end

/-- **`loads` reads back what `dumps` writes**, for every value whose numbers are finite and not too
long, whose dictionaries have distinct keys, and which nests no deeper than there are levels. -/
theorem loads_dumps {v : Json} (hfinite : v.finite = true) (hprint : v.printable = true)
    (hdistinct : v.distinct = true) (hnesting : v.nesting ≤ n) : loads n v.dumps = .ok v := by
  have h := (valueText_dumps v n hfinite hprint hdistinct hnesting).loads blank_nil blank_nil
  rwa [List.nil_append, List.append_nil] at h

/-! ## What the decoder builds -/

/-- The items of a Python dictionary. -/
def DistinctDict (items : List (Str × Json)) : Prop :=
  (items.map Prod.fst).Nodup ∧ distinctItems items = true

/-- Items are distinct when the values of all of them are. -/
theorem distinctItems_iff (items : List (Str × Json)) :
    distinctItems items = true ↔ ∀ item ∈ items, item.2.distinct = true := by
  induction items with
  | nil => simp [distinctItems]
  | cons item items ih => simp [distinctItems, ih]

/-- Storing an item keeps the keys distinct. -/
theorem DistinctDict.storeItem {items : List (Str × Json)} (h : DistinctDict items) (k : Str)
    {x : Json} (hx : x.distinct = true) : DistinctDict (storeItem items k x) := by
  obtain ⟨hkeys, hvalues⟩ := h
  rw [distinctItems_iff] at hvalues
  unfold Json.storeItem
  split
  -- An old key keeps its place and gets the new value.
  · have hsame : (items.map fun item => if item.1 = k then (k, x) else item).map Prod.fst =
        items.map Prod.fst := by
      rw [List.map_map]
      refine List.map_congr_left fun item _ => ?_
      show (if item.1 = k then (k, x) else item).1 = item.1
      split
      · next heq => exact heq.symm
      · rfl
    refine ⟨by rw [hsame]; exact hkeys, (distinctItems_iff _).mpr fun item hitem => ?_⟩
    obtain ⟨old, hold, rfl⟩ := List.mem_map.mp hitem
    split
    · exact hx
    · exact hvalues old hold
  · next hnew =>
    have hmem : k ∉ items.map Prod.fst := by
      intro hmem
      obtain ⟨item, hitem, heq⟩ := List.mem_map.mp hmem
      exact hnew (List.any_eq_true.mpr ⟨item, hitem, decide_eq_true heq⟩)
    refine ⟨?_, (distinctItems_iff _).mpr fun item hitem => ?_⟩
    · rw [List.map_append, List.map_singleton, List.nodup_append]
      exact ⟨hkeys, List.nodup_singleton k, fun a ha b hb => by
        rw [List.mem_singleton.mp hb]
        rintro rfl
        exact hmem ha⟩
    · rcases List.mem_append.mp hitem with hitem | hitem
      · exact hvalues item hitem
      · rw [List.mem_singleton.mp hitem]
        exact hx

end Json

end Python
