import MiniDms.Python.Doubles

/-! # Reading decimals rounds correctly

`float(text)` takes the double whose interval the decimal falls into; a decimal half way between two
doubles goes to the one with the even number. So a decimal that is read back as a double is read as
that double. -/

namespace Python

namespace Double

/-- The decimals that belong to the double with a number: those between its boundaries, which
themselves belong to it when the number is even. -/
def Rounds (n : Nat) (q : Rat) : Prop :=
  boundary n ≤ q ∧ q ≤ boundary (n + 1) ∧ (n % 2 = 1 → q ≠ boundary n ∧ q ≠ boundary (n + 1))

/-- A decimal belongs to one number only. -/
theorem Rounds.unique {n m : Nat} {q : Rat} (hn : Rounds n q) (hm : Rounds m q) : n = m := by
  wlog hle : n ≤ m generalizing n m
  · exact (this hm hn (Nat.le_of_not_le hle)).symm
  by_contra hne
  obtain ⟨-, hhigh, hodd⟩ := hn
  obtain ⟨hlow, -, hodd'⟩ := hm
  have hlt : n + 1 ≤ m := by omega
  have hmono := boundary_strictMono.monotone hlt
  -- The decimal is the boundary the two share, which belongs to the even one.
  have hq : q = boundary (n + 1) := le_antisymm hhigh (hmono.trans hlow)
  have hq' : q = boundary m := le_antisymm (hhigh.trans hmono) hlow
  have hnext : n + 1 = m := boundary_strictMono.injective (hq.symm.trans hq')
  obtain hn | hm : n % 2 = 1 ∨ m % 2 = 1 := by omega
  · exact (hodd hn).2 hq
  · exact (hodd' hm).1 hq'

/-- A boundary lies half a gap below its double at most. -/
theorem boundary_lt_level (n : Nat) : boundary n < level n := by
  have hgap := gap_pos n
  rw [boundary]
  split <;> linarith

/-- The next boundary lies above the double. -/
theorem level_lt_boundary (n : Nat) : level n < boundary (n + 1) := by
  rw [boundary_succ]
  have hgap := gap_pos n
  linarith

/-- **Rounding to the nearest, ties to even**: from a double not above the decimal and less than one
gap away from it. -/
theorem rounds_of_floor {n low : Nat} {q : Rat} (hparity : n % 2 = low % 2)
    (hq : q / gap n = (q - level n) / gap n + low) (hlow : level n ≤ q) (hhigh : q < level (n + 1)) :
    Rounds (n + (roundHalfEven (q / gap n) - low)) q := by
  have hgap := gap_pos n
  have hrest : 0 ≤ (q - level n) / gap n := div_nonneg (by linarith) hgap.le
  have hrest' : (q - level n) / gap n < 1 := by
    rw [div_lt_one hgap]
    rw [level_succ] at hhigh
    linarith
  have hfloor : ⌊q / gap n⌋₊ = low := by
    rw [hq, Nat.floor_add_natCast hrest, Nat.floor_eq_zero.mpr hrest', Nat.zero_add]
  have hdiff : q / gap n - low = (q - level n) / gap n := by
    rw [hq]
    ring
  have hbelow := boundary_lt_level n
  have habove := level_lt_boundary (n + 1)
  have hmiddle : boundary (n + 1) = level n + gap n / 2 := boundary_succ n
  simp only [roundHalfEven, hfloor, hdiff]
  by_cases hless : (q - level n) / gap n < 1 / 2
  · rw [if_pos hless, Nat.sub_self, Nat.add_zero]
    rw [div_lt_iff₀ hgap] at hless
    exact ⟨by linarith, by linarith, fun _ => ⟨by linarith, by linarith⟩⟩
  rw [if_neg hless]
  by_cases hmore : 1 / 2 < (q - level n) / gap n
  · rw [if_pos hmore, Nat.add_sub_cancel_left]
    rw [lt_div_iff₀ hgap] at hmore
    exact ⟨by linarith, by linarith, fun _ => ⟨by linarith, by linarith⟩⟩
  -- Half way, the even neighbour is taken.
  rw [if_neg hmore, Nat.add_sub_cancel_left]
  have htie : q = boundary (n + 1) := by
    have hhalf : (q - level n) / gap n = 1 / 2 := le_antisymm (not_lt.mp hmore) (not_lt.mp hless)
    rw [div_eq_iff hgap.ne'] at hhalf
    linarith
  obtain heven | hodd := Nat.mod_two_eq_zero_or_one low
  · rw [heven, Nat.add_zero]
    exact ⟨by linarith, htie.le, fun h => by omega⟩
  · rw [hodd]
    exact ⟨htie.ge, by linarith, fun h => by omega⟩

/-- What a decimal is divided by before it is rounded. -/
def unit (q : Rat) : Rat := (2 : Rat) ^ (max (Int.log 2 q) (-1022) - 52)

/-- The doubles below the binade of a decimal. -/
def start (q : Rat) : Nat := (max (Int.log 2 q) (-1022) + 1022).toNat * 2 ^ 52

/-- **Where a decimal lies**: the double below it is counted from the start of its binade, in steps of
the unit. -/
theorem floor_spec {q : Rat} (hq : 0 < q) :
    gap (start q + ⌊q / unit q⌋₊) = unit q ∧
      level (start q + ⌊q / unit q⌋₊) = ⌊q / unit q⌋₊ * unit q := by
  have hlow : ((2 : Nat) : Rat) ^ Int.log 2 q ≤ q := Int.zpow_log_le_self (by norm_num) hq
  have hhigh : q < ((2 : Nat) : Rat) ^ (Int.log 2 q + 1) := Int.lt_zpow_succ_log_self (by norm_num) q
  push_cast at hlow hhigh
  have hunit : 0 < unit q := by
    unfold unit
    positivity
  by_cases hnormal : -1022 ≤ Int.log 2 q
  -- A normal double: the quotient has 53 bits.
  · obtain ⟨e, he⟩ : ∃ e : Nat, Int.log 2 q = e - 1022 := ⟨(Int.log 2 q + 1022).toNat, by omega⟩
    have hstart : start q = e * 2 ^ 52 := by
      rw [start, max_eq_left hnormal, he]
      congr 1
      omega
    have hunitEq : unit q = (2 : Rat) ^ ((e : Int) - 1074) := by
      rw [unit, max_eq_left hnormal, he]
      congr 1
      omega
    have hbelow : (2 : Rat) ^ 52 * unit q ≤ q := by
      refine le_trans (le_of_eq ?_) hlow
      rw [hunitEq, he, ← zpow_natCast, ← zpow_add₀ (by norm_num)]
      congr 1
      push_cast
      ring
    have habove : q < (2 : Rat) ^ 53 * unit q := by
      refine hhigh.trans_le (le_of_eq ?_)
      rw [hunitEq, he, ← zpow_natCast, ← zpow_add₀ (by norm_num)]
      congr 1
      push_cast
      ring
    have hfloor : 2 ^ 52 ≤ ⌊q / unit q⌋₊ := by
      refine Nat.le_floor ?_
      rw [le_div_iff₀ hunit]
      exact_mod_cast hbelow
    have hfloor' : ⌊q / unit q⌋₊ < 2 ^ 53 := by
      rw [Nat.floor_lt (by positivity), div_lt_iff₀ hunit]
      exact_mod_cast habove
    generalize ⌊q / unit q⌋₊ = low at hfloor hfloor'
    have hexponent : (start q + low) / 2 ^ 52 = e + 1 := by omega
    have hgap : gap (start q + low) = unit q := by
      rw [gap, hexponent, hunitEq, max_eq_left (by omega)]
      congr 1
      push_cast
      ring
    refine ⟨hgap, ?_⟩
    rw [level, hgap, if_neg (by omega)]
    congr 2
    omega
  -- A subnormal one: it is a multiple of the smallest.
  · have hstart : start q = 0 := by
      rw [start, max_eq_right (by omega)]
      rfl
    have hunitEq : unit q = (2 : Rat) ^ (-1074 : Int) := by
      rw [unit, max_eq_right (by omega)]
      rfl
    have habove : q < (2 : Rat) ^ 52 * unit q := by
      refine hhigh.trans_le ?_
      rw [hunitEq, ← zpow_natCast, ← zpow_add₀ (by norm_num)]
      exact zpow_le_zpow_right₀ (by norm_num) (by push_cast; omega)
    have hfloor : ⌊q / unit q⌋₊ < 2 ^ 52 := by
      rw [Nat.floor_lt (by positivity), div_lt_iff₀ hunit]
      exact_mod_cast habove
    generalize ⌊q / unit q⌋₊ = low at hfloor
    have hgap : gap (start q + low) = unit q := by
      rw [gap, hstart, hunitEq, max_eq_right (by omega)]
      rfl
    refine ⟨hgap, ?_⟩
    rw [level, hgap, hstart, if_pos (by omega)]
    congr 2
    omega

/-- **Reading rounds correctly**: a decimal is read as the number it belongs to. -/
theorem rounds_roundHalfEven {q : Rat} (hq : 0 < q) :
    Rounds (start q + roundHalfEven (q / unit q)) q := by
  obtain ⟨hgap, hlevel⟩ := floor_spec hq
  have hunit : 0 < unit q := by
    unfold unit
    positivity
  have hle : ⌊q / unit q⌋₊ ≤ roundHalfEven (q / unit q) := by
    unfold roundHalfEven
    dsimp only
    split
    · exact le_rfl
    · split <;> omega
  have hbelow : ⌊q / unit q⌋₊ * unit q ≤ q := by
    rw [← le_div_iff₀ hunit]
    exact Nat.floor_le (by positivity)
  have habove : q < (⌊q / unit q⌋₊ + 1) * unit q := by
    rw [← div_lt_iff₀ hunit]
    exact Nat.lt_floor_add_one _
  have hrounds := @rounds_of_floor (start q + ⌊q / unit q⌋₊) ⌊q / unit q⌋₊ q
    (by rw [start]; omega)
    (by
      rw [hgap, hlevel]
      field_simp
      ring)
    (by rw [hlevel]; exact hbelow)
    (by rw [level_succ, hlevel, hgap]; linarith)
  rw [hgap] at hrounds
  have hsum : start q + ⌊q / unit q⌋₊ + (roundHalfEven (q / unit q) - ⌊q / unit q⌋₊) =
      start q + roundHalfEven (q / unit q) := by omega
  rwa [hsum] at hrounds

/-- The double with a sign and a number. -/
theorem of_bits {f : Double} :
    (⟨BitVec.ofNat 64 (f.index + if f.negative then 2 ^ 63 else 0)⟩ : Double) = f := by
  obtain ⟨a⟩ := f
  have ha := a.isLt
  congr 1
  apply BitVec.eq_of_toNat_eq
  rw [BitVec.toNat_ofNat, index, negative, BitVec.msb_eq_decide]
  by_cases hsign : 2 ^ (64 - 1) ≤ a.toNat
  · simp only [hsign, decide_true, if_true]
    omega
  · simp only [hsign, decide_false, Bool.false_eq_true, if_false]
    omega

/-- A finite double has a number below those of the infinities. -/
theorem index_lt_of_isFinite {f : Double} (hf : f.isFinite = true) : f.index < 2047 * 2 ^ 52 := by
  rw [isFinite, decide_eq_true_eq, exponent_eq] at hf
  have hlt : f.index < 2 ^ 63 := Nat.mod_lt _ (by norm_num)
  omega

/-- The number of a double whose magnitude is zero. -/
theorem index_of_magnitude_zero {f : Double} (hzero : f.magnitude = 0) : f.index = 0 := by
  by_contra hne
  obtain ⟨n, hn⟩ := Nat.exists_eq_succ_of_ne_zero hne
  rw [magnitude_eq, hn, level_succ] at hzero
  have hgap := gap_pos n
  have hlevel : 0 ≤ level n := by
    rw [level]
    positivity
  linarith

/-- **Reading back what was printed**: a finite double is read from every decimal that is read back as
it. -/
theorem ofRat_of_readsBack {f : Double} (hf : f.isFinite = true) {q : Rat} (hq : 0 < q)
    (hback : f.readsBack q = true) : ofRat f.negative q = f := by
  have hindex : start q + roundHalfEven (q / unit q) = f.index :=
    (rounds_roundHalfEven hq).unique ((readsBack_iff f q).mp hback)
  have hfinite := index_lt_of_isFinite hf
  have hbits : ofRat f.negative q =
      ⟨BitVec.ofNat 64 (f.index + if f.negative then 2 ^ 63 else 0)⟩ := by
    rw [ofRat, if_neg hq.ne']
    show (⟨BitVec.ofNat 64 (min (start q + roundHalfEven (q / unit q)) (2047 * 2 ^ 52) + _)⟩ :
      Double) = _
    rw [hindex, Nat.min_eq_left hfinite.le]
  rw [hbits, of_bits]

/-- Zero is read with its sign. -/
theorem ofRat_zero {f : Double} (hzero : f.magnitude = 0) : ofRat f.negative 0 = f := by
  have hindex := index_of_magnitude_zero hzero
  conv_rhs => rw [← of_bits (f := f), hindex]
  rw [ofRat, if_pos rfl]

end Double

end Python
