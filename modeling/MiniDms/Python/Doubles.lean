import MiniDms.Python.Decoding

/-! # Doubles are told apart by their decimals

The doubles of one sign are numbered by their bits, and the decimals that are read back as one of
them fill the interval between two neighbouring boundaries; a boundary belongs to the double with the
even number. So a decimal is read back as one double only. Seventeen digits always suffice, so what
`repr` prints is read back as what was printed, and different doubles are printed differently. -/

namespace Python

namespace Double

/-! ## Intervals -/

/-- The number of a double among those of its sign: its bits without the sign. -/
def index (f : Double) : Nat := f.bits.toNat % 2 ^ 63

/-- The distance from one double to the next. -/
def gap (n : Nat) : Rat := (2 : Rat) ^ ((max (n / 2 ^ 52) 1 : Nat) - 1075 : Int)

/-- The magnitude of the double with a number. -/
def level (n : Nat) : Rat := (if n / 2 ^ 52 = 0 then n % 2 ^ 52 else 2 ^ 52 + n % 2 ^ 52 : Nat) * gap n

/-- Where the decimals that are read back as the double with a number begin. -/
def boundary (n : Nat) : Rat :=
  level n - if n % 2 ^ 52 = 0 ∧ 1 < n / 2 ^ 52 then gap n / 4 else gap n / 2

/-- The exponent of a double is read off its place. -/
theorem exponent_eq (f : Double) : f.exponent = f.index / 2 ^ 52 := by
  unfold exponent index
  omega

/-- The fraction of a double is read off its place. -/
theorem fraction_eq (f : Double) : f.fraction = f.index % 2 ^ 52 := by
  unfold fraction index
  omega

/-- The unit in the last place is the gap to the next double. -/
theorem ulp_eq (f : Double) : f.ulp = gap f.index := by rw [ulp, gap, exponent_eq]

/-- The magnitude of a double is the level of its place. -/
theorem magnitude_eq (f : Double) : f.magnitude = level f.index := by
  rw [magnitude, level, exponent_eq, fraction_eq, ulp_eq]

/-- Doubles lie apart. -/
theorem gap_pos (n : Nat) : 0 < gap n := by
  unfold gap
  positivity

/-- From the last double of a binade on, doubles are twice as far apart. -/
theorem gap_succ (n : Nat) :
    gap (n + 1) = if (n + 1) % 2 ^ 52 = 0 ∧ 1 < (n + 1) / 2 ^ 52 then 2 * gap n else gap n := by
  unfold gap
  split
  next h =>
    have hmax : (max ((n + 1) / 2 ^ 52) 1 : Nat) = (max (n / 2 ^ 52) 1 : Nat) + 1 := by omega
    have hexponent : ((max (n / 2 ^ 52) 1 + 1 : Nat) - 1075 : Int) =
        ((max (n / 2 ^ 52) 1 : Nat) - 1075 : Int) + 1 := by
      push_cast
      ring
    rw [hmax, hexponent, zpow_add_one₀ (by norm_num), mul_comm]
  next h =>
    have hmax : (max ((n + 1) / 2 ^ 52) 1 : Nat) = (max (n / 2 ^ 52) 1 : Nat) := by omega
    rw [hmax]

/-- The next magnitude. -/
theorem level_succ (n : Nat) : level (n + 1) = level n + gap n := by
  by_cases hcarry : (n + 1) % 2 ^ 52 = 0
  · have hlast : n % 2 ^ 52 = 2 ^ 52 - 1 := by omega
    have hexponent : (n + 1) / 2 ^ 52 = n / 2 ^ 52 + 1 := by omega
    by_cases hzero : n / 2 ^ 52 = 0
    -- The first normal double follows the last subnormal one at their distance.
    · have hgap : gap (n + 1) = gap n := by rw [gap_succ, if_neg (by omega)]
      rw [level, level, hgap, if_neg (by omega), if_pos hzero, hcarry, hlast]
      push_cast
      ring
    · have hgap : gap (n + 1) = 2 * gap n := by rw [gap_succ, if_pos (by omega)]
      rw [level, level, hgap, if_neg (by omega), if_neg hzero, hcarry, hlast]
      push_cast
      ring
  · have hnext : (n + 1) % 2 ^ 52 = n % 2 ^ 52 + 1 := by omega
    have hexponent : (n + 1) / 2 ^ 52 = n / 2 ^ 52 := by omega
    have hgap : gap (n + 1) = gap n := by rw [gap_succ, if_neg (by omega)]
    rw [level, level, hgap, hnext, hexponent]
    split <;> push_cast <;> ring

/-- Half a gap above a double the decimals of the next one begin. -/
theorem boundary_succ (n : Nat) : boundary (n + 1) = level n + gap n / 2 := by
  rw [boundary, level_succ, gap_succ]
  split <;> ring

/-- Boundaries grow. -/
theorem boundary_strictMono : StrictMono boundary := by
  refine strictMono_nat_of_lt_succ fun n => ?_
  have hgap := gap_pos n
  rw [boundary_succ, boundary]
  split <;> linarith

/-- **What is read back as a double**: the decimals between two boundaries, which belong to it when
its number is even. -/
theorem readsBack_iff (f : Double) (q : Rat) : f.readsBack q = true ↔
    boundary f.index ≤ q ∧ q ≤ boundary (f.index + 1) ∧
      (f.index % 2 = 1 → q ≠ boundary f.index ∧ q ≠ boundary (f.index + 1)) := by
  have hlow : f.magnitude - (if f.fraction = 0 ∧ 1 < f.exponent then f.ulp / 4 else f.ulp / 2) =
      boundary f.index := by
    rw [boundary, magnitude_eq, ulp_eq, fraction_eq, exponent_eq]
  have hhigh : f.magnitude + f.ulp / 2 = boundary (f.index + 1) := by
    rw [boundary_succ, magnitude_eq, ulp_eq]
  have hparity : f.fraction % 2 = f.index % 2 := by
    rw [fraction_eq]
    omega
  unfold readsBack
  simp only [hlow, hhigh, hparity]
  split
  next heven =>
    rw [Bool.and_eq_true, decide_eq_true_eq, decide_eq_true_eq]
    exact ⟨fun h => ⟨h.1, h.2, fun hodd => absurd hodd (by omega)⟩, fun h => ⟨h.1, h.2.1⟩⟩
  next hodd =>
    rw [Bool.and_eq_true, decide_eq_true_eq, decide_eq_true_eq]
    constructor
    · exact fun h => ⟨h.1.le, h.2.le, fun _ => ⟨h.1.ne', h.2.ne⟩⟩
    · intro h
      obtain ⟨hne, hne'⟩ := h.2.2 (by omega)
      exact ⟨lt_of_le_of_ne h.1 hne.symm, lt_of_le_of_ne h.2.1 hne'⟩

/-- A decimal is read back as one double of a sign only. -/
theorem index_eq_of_readsBack {f g : Double} {q : Rat} (hf : f.readsBack q = true)
    (hg : g.readsBack q = true) : f.index = g.index := by
  wlog hle : f.index ≤ g.index generalizing f g
  · exact (this hg hf (Nat.le_of_not_le hle)).symm
  by_contra hne
  obtain ⟨-, hfhigh, hfodd⟩ := (readsBack_iff f q).mp hf
  obtain ⟨hglow, -, hgodd⟩ := (readsBack_iff g q).mp hg
  have hlt : f.index + 1 ≤ g.index := by omega
  have hmono := boundary_strictMono.monotone hlt
  -- The decimal is the boundary the two share, which belongs to one of them.
  have hq : q = boundary (f.index + 1) := le_antisymm hfhigh (hmono.trans hglow)
  have hq' : q = boundary g.index := le_antisymm (hfhigh.trans hmono) hglow
  have hnext : f.index + 1 = g.index := boundary_strictMono.injective (hq.symm.trans hq')
  obtain hodd | hodd : f.index % 2 = 1 ∨ g.index % 2 = 1 := by omega
  · exact (hfodd hodd).2 hq
  · exact (hgodd hodd).1 hq'

/-- The sign and the number are all there is to a double. -/
theorem eq_of_index_eq {f g : Double} (hsign : f.negative = g.negative) (h : f.index = g.index) :
    f = g := by
  obtain ⟨a⟩ := f
  obtain ⟨b⟩ := g
  have ha := a.isLt
  have hb := b.isLt
  simp only [negative, BitVec.msb_eq_decide, index, decide_eq_decide] at hsign h
  have hbits : a.toNat = b.toNat := by omega
  rw [BitVec.eq_of_toNat_eq hbits]

/-! ## Seventeen digits -/

/-- A decimal strictly between the boundaries is read back. -/
theorem readsBack_of_lt {f : Double} {q : Rat} (hlow : boundary f.index < q)
    (hhigh : q < boundary (f.index + 1)) : f.readsBack q = true :=
  (readsBack_iff f q).mpr ⟨hlow.le, hhigh.le, fun _ => ⟨hlow.ne', hhigh.ne⟩⟩

/-- A decimal that `decimal?` finds is read back. -/
theorem readsBack_of_decimal {f : Double} {n digits : Nat} {power : Int}
    (h : f.decimal? n = some (digits, power)) : f.readsBack (digits * (10 : Rat) ^ power) = true := by
  unfold decimal? at h
  dsimp only at h
  split at h
  next hlow =>
    cases h
    exact (Bool.and_eq_true_iff.mp hlow).1
  next =>
    split at h
    next hhigh =>
      split at h
      next hpower =>
        -- The digits are a one and zeros, one place further on.
        cases h
        rw [hpower] at hhigh
        have hshift : (10 : Rat) ^ (n + 1) * (10 : Rat) ^ (Int.log 10 f.magnitude - n) =
            (10 : Rat) ^ n * (10 : Rat) ^ (Int.log 10 f.magnitude - n + 1) := by
          rw [zpow_add_one₀ (by norm_num), pow_succ]
          ring
        push_cast at hhigh ⊢
        rw [hshift] at hhigh
        exact hhigh
      next =>
        cases h
        exact hhigh
    next => cases h

/-- A decimal is found when one of the two neighbours is read back. -/
theorem decimal_isSome {f : Double} {n : Nat}
    (h : f.readsBack (⌊f.magnitude / (10 : Rat) ^ (Int.log 10 f.magnitude - n)⌋₊ *
        (10 : Rat) ^ (Int.log 10 f.magnitude - n)) = true ∨
      f.readsBack ((⌊f.magnitude / (10 : Rat) ^ (Int.log 10 f.magnitude - n)⌋₊ + 1 : Nat) *
        (10 : Rat) ^ (Int.log 10 f.magnitude - n)) = true) : (f.decimal? n).isSome = true := by
  unfold decimal?
  dsimp only
  split
  · rfl
  next hlow =>
    split
    · rfl
    next hhigh =>
      -- The higher neighbour is not read back, so the lower one is, and is chosen.
      obtain h | h := h
      · rw [h, Bool.eq_false_of_not_eq_true hhigh] at hlow
        exact absurd rfl hlow
      · exact absurd h hhigh

/-- A magnitude is less than `2 ^ 53` gaps, and `2 ^ 52` gaps at the start of a binade. -/
theorem level_lt (n : Nat) : level n < 2 ^ 53 * gap n ∧
    (n % 2 ^ 52 = 0 ∧ 1 < n / 2 ^ 52 → level n = 2 ^ 52 * gap n) := by
  have hgap := gap_pos n
  constructor
  · rw [level]
    refine mul_lt_mul_of_pos_right ?_ hgap
    have hlt : (if n / 2 ^ 52 = 0 then n % 2 ^ 52 else 2 ^ 52 + n % 2 ^ 52) < 2 ^ 53 := by
      split <;> omega
    exact_mod_cast hlt
  · rintro ⟨hzero, hone⟩
    rw [level, if_neg (by omega), hzero]
    norm_num

/-- **Seventeen digits are enough**: one of the two decimals around a double is nearer to it than the
boundaries are. -/
theorem decimal_sixteen {f : Double} (hf : 0 < f.magnitude) : (f.decimal? 16).isSome = true := by
  apply decimal_isSome
  generalize hunit : (10 : Rat) ^ (Int.log 10 f.magnitude - (16 : Nat)) = unit
  have hunitPos : 0 < unit := by
    rw [← hunit]
    positivity
  have hsmall : unit * 10 ^ 16 ≤ f.magnitude := by
    have hlog : ((10 : Nat) : Rat) ^ Int.log 10 f.magnitude ≤ f.magnitude :=
      Int.zpow_log_le_self (by norm_num) hf
    rw [← hunit, zpow_sub₀ (by norm_num)]
    push_cast at hlog ⊢
    linarith
  -- The two decimals lie on both sides of the double, one unit apart.
  have hbelow : ⌊f.magnitude / unit⌋₊ * unit ≤ f.magnitude := by
    rw [← le_div_iff₀ hunitPos]
    exact Nat.floor_le (by positivity)
  have habove : f.magnitude < (⌊f.magnitude / unit⌋₊ + 1 : Nat) * unit := by
    rw [← div_lt_iff₀ hunitPos]
    push_cast
    exact Nat.lt_floor_add_one _
  have hstep : ((⌊f.magnitude / unit⌋₊ + 1 : Nat) : Rat) * unit = ⌊f.magnitude / unit⌋₊ * unit + unit := by
    push_cast
    ring
  obtain ⟨hlevel, hbinade⟩ := level_lt f.index
  rw [magnitude_eq] at hsmall hbelow habove hstep ⊢
  have hgap := gap_pos f.index
  have hnear : ∀ q, level f.index - unit / 2 ≤ q → q ≤ level f.index + unit / 2 →
      f.readsBack q = true := by
    intro q hlow hhigh
    refine readsBack_of_lt ?_ ?_
    · rw [boundary]
      split
      next hstart =>
        have hlevel' := hbinade hstart
        linarith
      next => linarith
    · rw [boundary_succ]
      linarith
  by_cases hhalf : level f.index - ⌊level f.index / unit⌋₊ * unit ≤ unit / 2
  · exact .inl (hnear _ (by linarith) (by linarith))
  · exact .inr (hnear _ (by linarith) (by linarith))

/-- **What `repr` prints is read back.** -/
theorem readsBack_shortest {f : Double} (hf : 0 < f.magnitude) :
    f.readsBack (f.shortest.1 * (10 : Rat) ^ f.shortest.2) = true := by
  unfold shortest
  cases hfind : (List.range 17).findSome? f.decimal? with
  | none =>
      have hnone := List.findSome?_eq_none_iff.mp hfind 16 (by decide)
      have hsome := decimal_sixteen hf
      rw [hnone] at hsome
      cases hsome
  | some decimal =>
      obtain ⟨n, -, hn⟩ := List.exists_of_findSome?_eq_some hfind
      exact readsBack_of_decimal hn

end Double

end Python
