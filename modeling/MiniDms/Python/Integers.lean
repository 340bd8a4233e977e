import MiniDms.Python.Numerals

/-! # `int` of a text

`int(text)` and `int(text, 16)` take more than digits: whitespace around the number, a sign, single
underscores between the digits, and the decimal digits of every script. -/

namespace Python

/-- The characters `int` sees: spaces and decimal digits outside ASCII stand for those of ASCII.
`decimal` is `unicodedata.decimal`. -/
def toAsciiNumber (decimal : CodePoint → Option Nat) (s : Str) : Str :=
  s.map fun c =>
    if c.val < 127 then c
    else if isSpace c then codePoint ' '
    else match decimal c with
      | some d => Json.hexDigit d
      | none => codePoint '?'

/-- The whitespace `int` skips. -/
def isIntSpace (c : CodePoint) : Bool := (0x09 ≤ c.val && c.val ≤ 0x0D) || c.val = 0x20

/-- The text of the number, without the whitespace around it. -/
def intBody (decimal : CodePoint → Option Nat) (s : Str) : Str :=
  ((toAsciiNumber decimal s).dropWhile isIntSpace).rdropWhile isIntSpace

/-- The sign, and what follows it. -/
def splitSign : Str → Bool × Str
  | [] => (false, [])
  | c :: s =>
      if c = codePoint '-' then (true, s) else if c = codePoint '+' then (false, s)
      else (false, c :: s)

/-- The digits of a number, with single underscores between them, behind the number read before. -/
def scanInt (value : CodePoint → Option Nat) (base : Nat) : Bool → Nat → Str → Option Nat
  | afterDigit, n, [] => if afterDigit then some n else none
  | afterDigit, n, c :: s =>
      if c = codePoint '_' then if afterDigit then scanInt value base false n s else none
      else (value c).bind fun d => scanInt value base true (n * base + d) s

/-- The value of a decimal digit. -/
def decimalValue (c : CodePoint) : Option Nat := if isDigit c then some (c.val - 0x30) else none

/-- `int(text)`; `none` is its `ValueError`, which more than 4300 digits raise as well. -/
def decimalInt (decimal : CodePoint → Option Nat) (text : Str) : Option Int :=
  let (negative, digits) := splitSign (intBody decimal text)
  if 4300 < (digits.filter isDigit).length then none
  else (scanInt decimalValue 10 false 0 digits).map fun n => if negative then -(n : Int) else n

/-- The text behind the prefix `0x`, if there is one, and behind an underscore after it. -/
def dropHexPrefix : Str → Str
  | z :: x :: s =>
      if z = codePoint '0' ∧ (x = codePoint 'x' ∨ x = codePoint 'X') then
        match s with
        | u :: s => if u = codePoint '_' then s else u :: s
        | [] => []
      else z :: x :: s
  | s => s

/-- `int(text, 16)`; `none` is its `ValueError`. -/
def hexInt (decimal : CodePoint → Option Nat) (text : Str) : Option Int :=
  let (negative, digits) := splitSign (intBody decimal text)
  (scanInt Json.hexValue 16 false 0 (dropHexPrefix digits)).map fun n =>
    if negative then -(n : Int) else n

/-! ## Digits alone -/

/-- The number some digits stand for, behind the number read before. -/
def digitsNumber (value : CodePoint → Option Nat) (base n : Nat) (ds : Str) : Nat :=
  ds.foldl (fun n d => n * base + (value d).getD 0) n

/-- A number is read digit by digit. -/
theorem digitsNumber_append (value : CodePoint → Option Nat) (base n : Nat) (xs ys : Str) :
    digitsNumber value base n (xs ++ ys) =
      digitsNumber value base (digitsNumber value base n xs) ys := List.foldl_append ..

/-- **Digits stand for less** than the power of the base that they fill. -/
theorem digitsNumber_lt {value : CodePoint → Option Nat} {base : Nat}
    (hvalue : ∀ c d, value c = some d → d < base) (hbase : 0 < base) (ds : Str) :
    ∀ n, digitsNumber value base n ds < (n + 1) * base ^ ds.length := by
  induction ds with
  | nil => intro n; simp [digitsNumber]
  | cons d ds ih =>
      intro n
      have hd : (value d).getD 0 < base := by
        cases hv : value d with
        | none => exact hbase
        | some v => exact hvalue d v hv
      calc digitsNumber value base n (d :: ds)
          = digitsNumber value base (n * base + (value d).getD 0) ds := rfl
        _ < (n * base + (value d).getD 0 + 1) * base ^ ds.length := ih _
        _ ≤ (n + 1) * base * base ^ ds.length := by
          refine Nat.mul_le_mul_right _ ?_
          calc n * base + (value d).getD 0 + 1 ≤ n * base + base := by omega
            _ = (n + 1) * base := by ring
        _ = (n + 1) * base ^ (d :: ds).length := by
          rw [List.length_cons, pow_succ]
          ring

/-- Digits are scanned one after the other. -/
theorem scanInt_digits {value : CodePoint → Option Nat} {base : Nat} {ds : Str}
    (hds : ∀ c ∈ ds, (value c).isSome = true) (hunderscore : value (codePoint '_') = none) :
    ∀ (b : Bool) (n : Nat), scanInt value base b n ds =
      if b = true ∨ ds ≠ [] then some (digitsNumber value base n ds) else none := by
  induction ds with
  | nil => intro b n; cases b <;> rfl
  | cons d ds ih =>
      intro b n
      obtain ⟨hd, hrest⟩ := List.forall_mem_cons.mp hds
      have hne : d ≠ codePoint '_' := by
        rintro rfl
        rw [hunderscore] at hd
        cases hd
      obtain ⟨v, hv⟩ := Option.isSome_iff_exists.mp hd
      rw [scanInt, if_neg hne, hv, Option.bind_some, ih hrest, if_pos (.inl rfl),
        if_pos (.inr (List.cons_ne_nil _ _)), digitsNumber, digitsNumber, List.foldl_cons, hv]
      rfl

/-- A character that `int` takes as it is, and that is no sign. -/
def Plain (c : CodePoint) : Prop :=
  c.val < 127 ∧ isIntSpace c = false ∧ c ≠ codePoint '-' ∧ c ≠ codePoint '+'

/-- Plain characters are the text of the number. -/
theorem intBody_of_plain (decimal : CodePoint → Option Nat) {s : Str} (hs : ∀ c ∈ s, Plain c) :
    intBody decimal s = s := by
  have hascii : toAsciiNumber decimal s = s := by
    refine (List.map_congr_left fun c hc => ?_).trans (List.map_id' s)
    rw [if_pos (hs c hc).1]
  have hspace : ∀ c ∈ s, ¬ isIntSpace c = true := fun c hc => by
    rw [(hs c hc).2.1]
    exact Bool.false_ne_true
  rw [intBody, hascii, List.dropWhile_eq_self_iff.mpr fun hl => hspace _ (List.getElem_mem _),
    List.rdropWhile_eq_self_iff.mpr fun hl => hspace _ (List.getLast_mem hl)]

/-- They have no sign. -/
theorem splitSign_of_plain {s : Str} (hs : ∀ c ∈ s, Plain c) : splitSign s = (false, s) := by
  cases s with
  | nil => rfl
  | cons c s =>
      obtain ⟨-, -, hminus, hplus⟩ := hs c List.mem_cons_self
      rw [splitSign, if_neg hminus, if_neg hplus]

/-- Statements about ASCII are decided on ASCII. -/
theorem forall_ascii {p : CodePoint → Prop} (h : ∀ n : Fin 127, p (Fin.ofNat 0x110000 n.val))
    {c : CodePoint} (hc : c.val < 127) : p c := by
  have hself : Fin.ofNat 0x110000 c.val = c := Fin.ext (Nat.mod_eq_of_lt c.isLt)
  have hp := h ⟨c.val, hc⟩
  rwa [hself] at hp

/-- Hexadecimal digits are in ASCII. -/
theorem ascii_of_hexValue {c : CodePoint} (h : (Json.hexValue c).isSome = true) : c.val < 127 := by
  by_contra hge
  have hnot : ∀ x : CodePoint, x.val < 127 → ¬ c ≤ x := fun x hx hle => hge (lt_of_le_of_lt hle hx)
  simp [Json.hexValue, isDigit, hnot (codePoint '9') (by decide), hnot (codePoint 'f') (by decide),
    hnot (codePoint 'F') (by decide)] at h

/-- Hexadecimal digits are plain, and none of them marks a prefix. -/
theorem plain_of_hexValue {c : CodePoint} (h : (Json.hexValue c).isSome = true) :
    Plain c ∧ c ≠ codePoint 'x' ∧ c ≠ codePoint 'X' := by
  have hc := ascii_of_hexValue h
  have hall := @forall_ascii (fun c => (Json.hexValue c).isSome = true → isIntSpace c = false ∧
    c ≠ codePoint '-' ∧ c ≠ codePoint '+' ∧ c ≠ codePoint 'x' ∧ c ≠ codePoint 'X') (by decide) c hc h
  obtain ⟨hspace, hminus, hplus, hx⟩ := hall
  exact ⟨⟨hc, hspace, hminus, hplus⟩, hx⟩

/-- A digit stands for less than the base. -/
theorem hexValue_lt {c : CodePoint} {d : Nat} (h : Json.hexValue c = some d) : d < 16 := by
  have hall := @forall_ascii (fun c => (Json.hexValue c).all (· < 16) = true) (by decide) c
    (ascii_of_hexValue (h ▸ rfl))
  rw [h] at hall
  exact of_decide_eq_true hall

/-- **`int` of hexadecimal digits.** -/
theorem hexInt_digits (decimal : CodePoint → Option Nat) {ds : Str} (hne : ds ≠ [])
    (hds : ∀ c ∈ ds, (Json.hexValue c).isSome = true) :
    hexInt decimal ds = some (digitsNumber Json.hexValue 16 0 ds : Int) := by
  have hplain : ∀ c ∈ ds, Plain c := fun c hc => (plain_of_hexValue (hds c hc)).1
  have hstarts : dropHexPrefix ds = ds := by
    match ds, hds with
    | [], _ => rfl
    | [_], _ => rfl
    | z :: x :: s, hds =>
        obtain ⟨-, hlow, hhigh⟩ :=
          plain_of_hexValue (hds x (List.mem_cons_of_mem _ List.mem_cons_self))
        unfold dropHexPrefix
        dsimp only
        rw [if_neg]
        exact fun h => h.2.elim hlow hhigh
  rw [hexInt, intBody_of_plain decimal hplain, splitSign_of_plain hplain]
  simp only [hstarts]
  rw [scanInt_digits hds (by decide), if_pos (.inr hne)]
  rfl

/-- Decimal digits are plain. -/
theorem plain_of_isDigit {c : CodePoint} (h : isDigit c = true) :
    Plain c ∧ (decimalValue c).isSome = true := by
  have hhex : (Json.hexValue c).isSome = true := by rw [Json.hexValue, if_pos h]; rfl
  refine ⟨(plain_of_hexValue hhex).1, ?_⟩
  rw [decimalValue, if_pos h]
  rfl

/-- **`int(str(n))` is `n`**, unless the number is too long. -/
theorem decimalInt_natRepr (decimal : CodePoint → Option Nat) (n : Nat) :
    decimalInt decimal (natRepr n) = if (natRepr n).length ≤ 4300 then some (n : Int) else none := by
  have hdigit : ∀ c ∈ natRepr n, isDigit c = true := fun c hc => isDigit_of_mem_natRepr hc
  have hplain : ∀ c ∈ natRepr n, Plain c := fun c hc => (plain_of_isDigit (hdigit c hc)).1
  have hnumber : digitsNumber decimalValue 10 0 (natRepr n) = n := by
    have hfold : ∀ (ds : Str) (m : Nat), (∀ c ∈ ds, isDigit c = true) →
        digitsNumber decimalValue 10 m ds = ds.foldl (fun n c => 10 * n + (c.val - 0x30)) m := by
      intro ds
      induction ds with
      | nil => exact fun _ _ => rfl
      | cons d ds ih =>
          intro m hds
          obtain ⟨hd, hrest⟩ := List.forall_mem_cons.mp hds
          rw [digitsNumber, List.foldl_cons, List.foldl_cons, decimalValue, if_pos hd,
            Nat.mul_comm 10]
          exact ih _ hrest
    rw [hfold _ _ hdigit]
    exact digitsValue_natRepr n
  rw [decimalInt, intBody_of_plain decimal hplain, splitSign_of_plain hplain]
  dsimp only
  have hscan : scanInt decimalValue 10 false 0 (natRepr n) = some n := by
    rw [scanInt_digits (fun c hc => (plain_of_isDigit (hdigit c hc)).2) (by decide),
      if_pos (.inr (natRepr_ne_nil n)), hnumber]
  rw [List.filter_eq_self.mpr hdigit, hscan]
  by_cases hlength : (natRepr n).length ≤ 4300
  · rw [if_neg (not_lt.mpr hlength), if_pos hlength]
    rfl
  · rw [if_pos (not_le.mp hlength), if_neg hlength]

end Python
