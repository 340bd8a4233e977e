import MiniDms.Python.Encoding
import MiniDms.Python.Exceptions

/-! # `json.loads`

The C scanner behind `json.loads`, on a text. Each scanner returns what it read and the rest. The
constants `NaN`, `Infinity` and `-Infinity` are refused, as with the framework's strict
`parse_constant`. Entering an array or an object takes one of the levels left on the C stack, before
anything inside is read; without one left the scanner raises `RecursionError`. Nested values are
read with fuel; every value takes a character, so one unit more than the text is long is enough. -/

namespace Python

open Sequences

/-! ## Floats from decimals -/

/-- Round to an integer, ties to even. -/
def roundHalfEven (q : Rat) : Nat :=
  let low := ⌊q⌋₊
  let rest := q - low
  if rest < 1 / 2 then low else if 1 / 2 < rest then low + 1 else low + low % 2

/-- The double closest to a decimal. A carry out of the fraction runs into the exponent, and what
exceeds the range is an infinity. -/
def Double.ofRat (negative : Bool) (q : Rat) : Double :=
  let exponent := max (Int.log 2 q) (-1022)
  let ulp := (2 : Rat) ^ (exponent - 52)
  let magnitude := (exponent + 1022).toNat * 2 ^ 52 + roundHalfEven (q / ulp)
  let bits := if q = 0 then 0 else min magnitude (2047 * 2 ^ 52)
  ⟨BitVec.ofNat 64 (bits + if negative then 2 ^ 63 else 0)⟩

namespace Json

/-! ## Characters -/

/-- JSON whitespace. -/
def isBlank (c : CodePoint) : Bool := c ∈ lit " \t\n\r"

/-- Skip whitespace. -/
def skipBlanks (s : Str) : Str := s.dropWhile isBlank

/-- The value of a hexadecimal digit. -/
def hexValue (c : CodePoint) : Option Nat :=
  if isDigit c then some (c.val - 0x30)
  else if codePoint 'a' ≤ c ∧ c ≤ codePoint 'f' then some (c.val - 0x61 + 10)
  else if codePoint 'A' ≤ c ∧ c ≤ codePoint 'F' then some (c.val - 0x41 + 10)
  else none

/-- The number four hexadecimal digits denote. -/
def hexQuad (a b c d : CodePoint) : Option Nat := do
  let a ← hexValue a
  let b ← hexValue b
  let c ← hexValue c
  let d ← hexValue d
  return a * 0x1000 + b * 0x100 + c * 0x10 + d

/-- The code point of a number. -/
def ofNumber (n : Nat) : CodePoint := Fin.ofNat 0x110000 n

/-- `Py_UNICODE_JOIN_SURROGATES`. -/
def joinSurrogates (high low : Nat) : CodePoint :=
  ofNumber (0x10000 + (high - 0xD800) * 0x400 + (low - 0xDC00))

/-- What a backslash and one character stand for. -/
def unescape (c : CodePoint) : Option CodePoint :=
  if c ∈ lit "\"\\/" then some c
  else if c = codePoint 'b' then some 0x08
  else if c = codePoint 'f' then some 0x0C
  else if c = codePoint 'n' then some 0x0A
  else if c = codePoint 'r' then some 0x0D
  else if c = codePoint 't' then some 0x09
  else none

/-! ## Strings -/

/-- The rest of a string literal after its opening quote. -/
def scanString : Str → Option (Str × Str)
  | [] => none
  | c :: rest =>
      if c = codePoint '"' then some ([], rest)
      else if c = codePoint '\\' then
        match rest with
        | [] => none
        | e :: rest =>
            if e = codePoint 'u' then
              match rest with
              | x₁ :: x₂ :: x₃ :: x₄ :: rest =>
                  (hexQuad x₁ x₂ x₃ x₄).bind fun n =>
                    match rest with
                    | b :: u :: y₁ :: y₂ :: y₃ :: y₄ :: rest' =>
                        -- A high surrogate and an escaped low one are one character.
                        if 0xD800 ≤ n ∧ n ≤ 0xDBFF ∧ b = codePoint '\\' ∧ u = codePoint 'u' then
                          (hexQuad y₁ y₂ y₃ y₄).bind fun m =>
                            if 0xDC00 ≤ m ∧ m ≤ 0xDFFF then
                              (scanString rest').map fun r => (joinSurrogates n m :: r.1, r.2)
                            else (scanString (b :: u :: y₁ :: y₂ :: y₃ :: y₄ :: rest')).map fun r =>
                              (ofNumber n :: r.1, r.2)
                        else (scanString (b :: u :: y₁ :: y₂ :: y₃ :: y₄ :: rest')).map fun r =>
                          (ofNumber n :: r.1, r.2)
                    | rest => (scanString rest).map fun r => (ofNumber n :: r.1, r.2)
              | _ => none
            else
              (unescape e).bind fun d => (scanString rest).map fun r => (d :: r.1, r.2)
      -- Unescaped control characters are refused.
      else if c.val < 0x20 then none
      else (scanString rest).map fun r => (c :: r.1, r.2)

/-! ## Numbers -/

/-- The number a run of decimal digits denotes. -/
def digitsValue (digits : Str) : Nat := digits.foldl (fun n c => 10 * n + (c.val - 0x30)) 0

/-- An optional minus sign. -/
def scanSign : Str → Bool × Str
  | c :: rest => if c = codePoint '-' then (true, rest) else (false, c :: rest)
  | [] => (false, [])

/-- The digits before the point; a zero in front stands alone. -/
def scanInteger (s : Str) : Option (Str × Str) :=
  match s with
  | c :: rest =>
      if c = codePoint '0' then some ([c], rest)
      else if isDigit c then some (c :: rest.takeWhile isDigit, rest.dropWhile isDigit)
      else none
  | [] => none

/-- The digits after a point; without a digit the point is left. -/
def scanFraction (s : Str) : Str × Str :=
  match s with
  | c :: d :: rest =>
      if c = codePoint '.' ∧ isDigit d then ((d :: rest).takeWhile isDigit, rest.dropWhile isDigit)
      else ([], c :: d :: rest)
  | s => ([], s)

/-- An optional sign. -/
def scanExponentSign : Str → Bool × Str
  | c :: rest =>
      if c = codePoint '-' then (true, rest)
      else if c = codePoint '+' then (false, rest)
      else (false, c :: rest)
  | [] => (false, [])

/-- The sign and the digits after an `e`; without a digit the `e` is left. -/
def scanExponent : Str → Option (Bool × Str) × Str
  | c :: rest =>
      if c = codePoint 'e' ∨ c = codePoint 'E' then
        let (negative, s) := scanExponentSign rest
        let digits := s.takeWhile isDigit
        if digits = [] then (none, c :: rest) else (some (negative, digits), s.dropWhile isDigit)
      else (none, c :: rest)
  | [] => (none, [])

/-- The value of a number literal. Only one without fraction and exponent is an integer; its digits
are limited in number, and `ValueError` is raised above. -/
def numberValue (negative : Bool) (digits fraction : Str) : Option (Bool × Str) → Option Json
  | none =>
      if fraction ≠ [] then some (.float (.ofRat negative (decimal digits fraction 0)))
      else if digits.length ≤ 4300 then
        let n : Int := digitsValue digits
        some (.int (if negative then -n else n))
      else none
  | some (down, e) =>
      let e : Int := digitsValue e
      some (.float (.ofRat negative (decimal digits fraction (if down then -e else e))))
where
  /-- The decimal with these digits before and after the point and this exponent. -/
  decimal (digits fraction : Str) (e : Int) : Rat :=
    digitsValue (digits ++ fraction) * (10 : Rat) ^ (e - fraction.length)

/-- `_match_number_unicode`. -/
def scanNumber (s : Str) : Option (Json × Str) :=
  let sign := scanSign s
  (scanInteger sign.2).bind fun digits =>
    let fraction := scanFraction digits.2
    let exponent := scanExponent fraction.2
    (numberValue sign.1 digits.1 fraction.1 exponent.1).map fun value => (value, exponent.2)

/-! ## Values -/

/-- Store an item in a dictionary: a new key goes to the end, a known one keeps its place. -/
def storeItem (items : List (Str × Json)) (key : Str) (value : Json) : List (Str × Json) :=
  if items.any fun item => item.1 = key then
    items.map fun item => if item.1 = key then (key, value) else item
  else items ++ [(key, value)]

/-- What `json.loads` raises. -/
inductive LoadError
  | valueError
  | recursionError
  deriving DecidableEq, Repr

/-- A part that either reads something or raises `ValueError`. -/
def orValueError {α : Type} : Option α → Except LoadError α
  | some a => .ok a
  | none => .error .valueError

mutual

/-- A value and the rest, with this many levels left. -/
def scanValue : Nat → Nat → Str → Except LoadError (Json × Str)
  | 0, _, _ => .error .valueError
  | fuel + 1, levels, s =>
      match s with
      | [] => .error .valueError
      | c :: rest =>
          if c = codePoint '"' then orValueError ((scanString rest).map fun r => (.str r.1, r.2))
          else if c = codePoint '[' then
            match levels with
            | 0 => .error .recursionError
            | levels + 1 =>
                match skipBlanks rest with
                | d :: rest' =>
                    if d = codePoint ']' then .ok (.list [], rest')
                    else (scanElements fuel levels (d :: rest')).map fun r => (.list r.1, r.2)
                | [] => .error .valueError
          else if c = codePoint '\x7b' then
            match levels with
            | 0 => .error .recursionError
            | levels + 1 =>
                match skipBlanks rest with
                | d :: rest' =>
                    if d = codePoint '\x7d' then .ok (.dict [], rest')
                    else (scanItems fuel levels [] (d :: rest')).map fun r => (.dict r.1, r.2)
                | [] => .error .valueError
          else if lit "null" <+: c :: rest then .ok (.null, (c :: rest).drop 4)
          else if lit "true" <+: c :: rest then .ok (.bool true, (c :: rest).drop 4)
          else if lit "false" <+: c :: rest then .ok (.bool false, (c :: rest).drop 5)
          -- The three constants fail here as well: none of them begins a number.
          else orValueError (scanNumber (c :: rest))

/-- The elements of an array up to its bracket, from the first character of one. -/
def scanElements : Nat → Nat → Str → Except LoadError (List Json × Str)
  | 0, _, _ => .error .valueError
  | fuel + 1, levels, s =>
      scanValue fuel levels s >>= fun (x, rest) =>
        match skipBlanks rest with
        | c :: rest =>
            if c = codePoint ']' then .ok ([x], rest)
            else if c = codePoint ',' then
              (scanElements fuel levels (skipBlanks rest)).map fun r => (x :: r.1, r.2)
            else .error .valueError
        | [] => .error .valueError

/-- The items of an object up to its brace, after those already read. -/
def scanItems : Nat → Nat → List (Str × Json) → Str → Except LoadError (List (Str × Json) × Str)
  | 0, _, _, _ => .error .valueError
  | fuel + 1, levels, items, s =>
      match s with
      | q :: rest =>
          if q = codePoint '"' then
            orValueError (scanString rest) >>= fun (key, rest) =>
              match skipBlanks rest with
              | colon :: rest =>
                  if colon = codePoint ':' then
                    scanValue fuel levels (skipBlanks rest) >>= fun (value, rest) =>
                      match skipBlanks rest with
                      | c :: rest =>
                          if c = codePoint '\x7d' then .ok (storeItem items key value, rest)
                          else if c = codePoint ',' then
                            scanItems fuel levels (storeItem items key value) (skipBlanks rest)
                          else .error .valueError
                      | [] => .error .valueError
                  else .error .valueError
              | [] => .error .valueError
          else .error .valueError
      | [] => .error .valueError

end

/-- `json.loads` with this many levels left. A byte order mark is no value, so it is refused too. -/
def loads (levels : Nat) (s : Str) : Except LoadError Json :=
  scanValue (s.length + 1) levels (skipBlanks s) >>= fun (value, rest) =>
    if skipBlanks rest = [] then .ok value else .error .valueError

/-- A part returns what it has read. -/
theorem orValueError_eq_ok {α : Type} {read : Option α} {a : α} :
    orValueError read = .ok a ↔ read = some a := by
  cases read with
  | none => exact iff_of_false (fun h => by cases h) fun h => by cases h
  | some b =>
      constructor
      · intro h
        cases h
        rfl
      · intro h
        cases h
        rfl

/-- A part never exhausts the levels. -/
theorem orValueError_ne_recursionError {α : Type} (read : Option α) :
    orValueError read ≠ .error .recursionError := by
  intro h
  cases read <;> cases h

/-! ## Reading back a string -/

/-- What may stand between the quotes of a string: plain characters, escapes of two characters, and
escapes of a number. Beyond the first plane two surrogates are escaped; a high one alone must not
stand before another escape of a number. -/
inductive LiteralText : Str → Str → Prop
  | nil : LiteralText [] []
  | plain {c : CodePoint} {s text : Str} (hquote : c ≠ codePoint '"')
      (hbackslash : c ≠ codePoint '\\') (hlow : 0x20 ≤ c.val) (h : LiteralText s text) :
      LiteralText (c :: s) (c :: text)
  | short {c d : CodePoint} {s text : Str} (hd : d ≠ codePoint 'u') (hc : unescape d = some c)
      (h : LiteralText s text) : LiteralText (c :: s) (codePoint '\\' :: d :: text)
  | hex {x₁ x₂ x₃ x₄ : CodePoint} {n : Nat} {s text : Str} (hn : hexQuad x₁ x₂ x₃ x₄ = some n)
      (halone : 0xD800 ≤ n → n ≤ 0xDBFF → ¬ [codePoint '\\', codePoint 'u'] <+: text)
      (h : LiteralText s text) :
      LiteralText (ofNumber n :: s) (codePoint '\\' :: codePoint 'u' :: x₁ :: x₂ :: x₃ :: x₄ :: text)
  | pair {x₁ x₂ x₃ x₄ y₁ y₂ y₃ y₄ : CodePoint} {n m : Nat} {s text : Str}
      (hn : hexQuad x₁ x₂ x₃ x₄ = some n) (hhigh : 0xD800 ≤ n ∧ n ≤ 0xDBFF)
      (hm : hexQuad y₁ y₂ y₃ y₄ = some m) (hlow : 0xDC00 ≤ m ∧ m ≤ 0xDFFF)
      (h : LiteralText s text) :
      LiteralText (joinSurrogates n m :: s)
        (codePoint '\\' :: codePoint 'u' :: x₁ :: x₂ :: x₃ :: x₄ ::
          codePoint '\\' :: codePoint 'u' :: y₁ :: y₂ :: y₃ :: y₄ :: text)

/-- The backslash is no quote. -/
theorem backslash_ne_quote : codePoint '\\' ≠ codePoint '"' := by decide

/-- **Reading back a string.** -/
theorem LiteralText.scan {s text : Str} (h : LiteralText s text) (rest : Str) :
    scanString (text ++ codePoint '"' :: rest) = some (s, rest) := by
  induction h with
  | nil =>
      rw [List.nil_append, scanString.eq_def]
      exact if_pos rfl
  | plain hquote hbackslash hlow h ih =>
      rw [List.cons_append, scanString.eq_def]
      simp only [if_neg hquote, if_neg hbackslash, if_neg (Nat.not_lt.mpr hlow), ih]
      rfl
  | short hd hc h ih =>
      rw [List.cons_append, List.cons_append, scanString.eq_def]
      simp only [if_neg backslash_ne_quote, if_true, if_neg hd, hc, Option.bind_some, ih]
      rfl
  | @hex x₁ x₂ x₃ x₄ n s text hn halone h ih =>
      simp only [List.cons_append]
      rw [scanString.eq_def]
      simp only [if_neg backslash_ne_quote, if_true, hn, Option.bind_some]
      split
      next b u y₁ y₂ y₃ y₄ rest' hrest =>
        rw [if_neg, ← hrest, ih]
        · rfl
        -- An escape right after this one would begin the text itself, before its quote.
        rintro ⟨hhigh, hhigh', rfl, rfl⟩
        have hescape : [codePoint '\\', codePoint 'u'] <+: text ++ codePoint '"' :: rest :=
          ⟨_, hrest.symm⟩
        exact halone hhigh hhigh' ((prefix_append_cons_iff (by decide)).mp hescape)
      next =>
        rw [ih]
        rfl
  | pair hn hhigh hm hlow h ih =>
      simp only [List.cons_append]
      rw [scanString.eq_def]
      simp only [if_neg backslash_ne_quote, if_true, hn, Option.bind_some, hhigh, and_self, hm,
        if_pos hlow, ih]
      rfl

/-- The digits of an escape denote the control character. -/
theorem hexQuad_hexDigit : ∀ n : Nat, n < 0x20 → hexQuad (codePoint '0') (codePoint '0')
    (hexDigit (n / 16)) (hexDigit (n % 16)) = some n := by decide

/-- What the encoder writes between the quotes is read as the string. -/
theorem literalText_escape (s : Str) : LiteralText s (s.flatMap escape) := by
  induction s with
  | nil => exact .nil
  | cons c s ih =>
      rw [List.flatMap_cons]
      rcases escape_cases c with ⟨hc, hquote, hbackslash, hlow⟩ | ⟨d, hd, hc⟩ | ⟨hc, hlow⟩
      · rw [hc]
        exact .plain hquote hbackslash hlow ih
      · have hunescape : unescape d = some c := by
          simp only [shortEscapes, List.mem_cons, List.not_mem_nil, or_false, Prod.mk.injEq] at hd
          rcases hd with ⟨rfl, rfl⟩ | ⟨rfl, rfl⟩ | ⟨rfl, rfl⟩ | ⟨rfl, rfl⟩ | ⟨rfl, rfl⟩ |
            ⟨rfl, rfl⟩ | ⟨rfl, rfl⟩ <;> decide
        rw [hc]
        exact .short (shortEscapes_spec hd).2.1.symm hunescape ih
      · have hself : ofNumber c.val = c := Fin.ext (Nat.mod_eq_of_lt c.isLt)
        have hhex := LiteralText.hex (hexQuad_hexDigit c.val hlow) (fun h _ => by omega) ih
        rw [hself] at hhex
        rw [hc]
        exact hhex

/-! ## Reading back an array of strings -/

/-- Whitespace. -/
def Blank (w : Str) : Prop := ∀ c ∈ w, isBlank c = true

/-- Whitespace in front of another character is skipped. -/
theorem skipBlanks_append {w : Str} (hw : Blank w) {c : CodePoint} (hc : isBlank c = false)
    (rest : Str) : skipBlanks (w ++ c :: rest) = c :: rest := by
  rw [skipBlanks, List.dropWhile_append_of_pos hw, List.dropWhile_cons_of_neg (by simp [hc])]

/-- A text of whitespace is skipped. -/
theorem skipBlanks_eq_nil {w : Str} (hw : Blank w) : skipBlanks w = [] :=
  List.dropWhile_eq_nil_iff.mpr hw

/-- The elements of an array of strings and its bracket, with any whitespace between them. -/
inductive StringsText : List Str → Str → Prop
  | last {s t w : Str} (ht : LiteralText s t) (hw : Blank w) :
      StringsText [s] (codePoint '"' :: (t ++ codePoint '"' :: (w ++ [codePoint ']'])))
  | cons {s t w w' text : Str} {ss : List Str} (ht : LiteralText s t) (hw : Blank w)
      (hw' : Blank w') (h : StringsText ss text) :
      StringsText (s :: ss)
        (codePoint '"' :: (t ++ codePoint '"' :: (w ++ codePoint ',' :: (w' ++ text))))

/-- The JSON text of an array of strings, with any whitespace between its tokens. -/
def ArrayText (ss : List Str) (text : Str) : Prop :=
  ∃ w w' body, Blank w ∧ Blank w' ∧ StringsText ss body ∧ text = codePoint '[' :: (w ++ body) ++ w'

/-- The elements begin with a quote. -/
theorem StringsText.exists_cons {ss : List Str} {text : Str} (h : StringsText ss text) :
    ∃ rest, text = codePoint '"' :: rest := by
  cases h with
  | last ht hw => exact ⟨_, rfl⟩
  | cons ht hw hw' h => exact ⟨_, rfl⟩

/-- Each element takes some characters. -/
theorem StringsText.length_le {ss : List Str} {text : Str} (h : StringsText ss text) :
    ss.length ≤ text.length := by
  induction h with
  | last ht hw => simp
  | cons ht hw hw' h ih =>
      simp only [List.length_cons, List.length_append]
      omega

/-- A quoted text is read as the string. -/
theorem LiteralText.scanValue {s t : Str} (h : LiteralText s t) (fuel levels : Nat) (rest : Str) :
    Json.scanValue (fuel + 1) levels (codePoint '"' :: (t ++ codePoint '"' :: rest)) =
      .ok (.str s, rest) := by
  rw [Json.scanValue.eq_def]
  simp only [if_true, h.scan, Option.map_some, orValueError]

/-- **Reading the elements of an array of strings.** -/
theorem StringsText.scanElements {ss : List Str} {text : Str} (h : StringsText ss text)
    (levels : Nat) (rest : Str) : ∀ fuel, ss.length < fuel →
      Json.scanElements fuel levels (text ++ rest) = .ok (ss.map .str, rest) := by
  induction h with
  | @last s t w ht hw =>
      intro fuel hfuel
      obtain ⟨fuel, rfl⟩ : ∃ n, fuel = n + 2 := ⟨fuel - 2, by simp at hfuel; omega⟩
      have hbracket : skipBlanks (w ++ codePoint ']' :: rest) = codePoint ']' :: rest :=
        skipBlanks_append hw (by decide) rest
      have htext : codePoint '"' :: (t ++ codePoint '"' :: (w ++ [codePoint ']'])) ++ rest =
          codePoint '"' :: (t ++ codePoint '"' :: (w ++ codePoint ']' :: rest)) := by simp
      rw [htext, Json.scanElements, ht.scanValue, ok_bind]
      simp only [hbracket, if_true]
      rfl
  | @cons s t w w' text ss ht hw hw' h ih =>
      intro fuel hfuel
      obtain ⟨fuel, rfl⟩ : ∃ n, fuel = n + 2 := ⟨fuel - 2, by simp at hfuel; omega⟩
      obtain ⟨body, rfl⟩ := h.exists_cons
      have hcomma : skipBlanks (w ++ codePoint ',' :: (w' ++ codePoint '"' :: body ++ rest)) =
          codePoint ',' :: (w' ++ codePoint '"' :: body ++ rest) :=
        skipBlanks_append hw (by decide) _
      have hnext : skipBlanks (w' ++ codePoint '"' :: body ++ rest) =
          codePoint '"' :: body ++ rest := by
        rw [List.append_assoc, List.cons_append]
        exact skipBlanks_append hw' (by decide) _
      have hrest := ih (fuel + 1) (by simp only [List.length_cons] at hfuel; omega)
      have hne : codePoint ',' ≠ codePoint ']' := by decide
      have htext : codePoint '"' ::
            (t ++ codePoint '"' :: (w ++ codePoint ',' :: (w' ++ codePoint '"' :: body))) ++ rest =
          codePoint '"' ::
            (t ++ codePoint '"' :: (w ++ codePoint ',' :: (w' ++ codePoint '"' :: body ++ rest))) := by
        simp
      rw [htext, Json.scanElements, ht.scanValue, ok_bind]
      simp only [hcomma, if_neg hne, if_true, hnext, hrest]
      rfl

/-- **Reading back an array of strings** takes one level. -/
theorem loads_arrayText {levels : Nat} (hlevels : 1 ≤ levels) {ss : List Str} {text : Str}
    (h : ArrayText ss text) : loads levels text = .ok (.list (ss.map .str)) := by
  obtain ⟨levels, rfl⟩ : ∃ n, levels = n + 1 := ⟨levels - 1, by omega⟩
  obtain ⟨w, w', body, hw, hw', hbody, rfl⟩ := h
  obtain ⟨rest, rfl⟩ := hbody.exists_cons
  have hopen : skipBlanks (codePoint '[' :: (w ++ codePoint '"' :: rest) ++ w') =
      codePoint '[' :: (w ++ codePoint '"' :: rest) ++ w' :=
    skipBlanks_append (w := []) (fun c hc => by cases hc) (by decide) _
  have hfirst : skipBlanks (w ++ codePoint '"' :: rest ++ w') = codePoint '"' :: rest ++ w' := by
    rw [List.append_assoc, List.cons_append]
    exact skipBlanks_append hw (by decide) _
  have helements := hbody.scanElements levels w'
    (codePoint '[' :: (w ++ codePoint '"' :: rest) ++ w').length (by
      have hle := hbody.length_le
      simp only [List.length_cons, List.length_append] at hle ⊢
      omega)
  have hquote : codePoint '[' ≠ codePoint '"' := by decide
  have hclose : codePoint '"' ≠ codePoint ']' := by decide
  rw [loads, hopen]
  rw [List.cons_append] at helements ⊢
  simp only [scanValue, hfirst, if_neg hquote, if_true, List.cons_append]
  rw [List.cons_append] at helements
  simp only [if_neg hclose, helements, ok_map, ok_bind, skipBlanks_eq_nil hw', if_true]

/-! ## Scalars -/

/-- The digits before the point of a number. -/
inductive IntegerText : Str → Prop
  | zero : IntegerText [codePoint '0']
  | digits {d : CodePoint} {ds : Str} (hd : isDigit d = true) (hzero : d ≠ codePoint '0')
      (hds : ∀ c ∈ ds, isDigit c = true) : IntegerText (d :: ds)

/-- Nothing, or a point and digits. -/
inductive FractionText : Str → Prop
  | none : FractionText []
  | digits {d : CodePoint} {ds : Str} (hd : isDigit d = true) (hds : ∀ c ∈ ds, isDigit c = true) :
      FractionText (codePoint '.' :: d :: ds)

/-- Nothing, or a letter, a sign and digits. -/
inductive ExponentText : Str → Prop
  | none : ExponentText []
  | digits {e : CodePoint} (he : e = codePoint 'e' ∨ e = codePoint 'E') {sign : Str}
      (hsign : sign = [] ∨ sign = [codePoint '+'] ∨ sign = [codePoint '-']) {d : CodePoint}
      {ds : Str} (hd : isDigit d = true) (hds : ∀ c ∈ ds, isDigit c = true) :
      ExponentText (e :: (sign ++ d :: ds))

/-- A number: `-?(0|[1-9][0-9]*)(\.[0-9]+)?([eE][-+]?[0-9]+)?`. -/
def NumberText (s : Str) : Prop :=
  ∃ sign int frac exp, (sign = [] ∨ sign = [codePoint '-']) ∧ IntegerText int ∧
    FractionText frac ∧ ExponentText exp ∧ s = sign ++ (int ++ (frac ++ exp))

/-- The text of a number, a boolean or `null`. -/
def ScalarText (s : Str) : Prop :=
  s = lit "null" ∨ s = lit "true" ∨ s = lit "false" ∨ NumberText s

/-- A value that is neither a string nor a container. -/
def Scalar : Json → Prop
  | .null | .bool _ | .int _ | .float _ => True
  | .str _ | .list _ | .dict _ => False

/-- A leading run of digits. -/
theorem takeWhile_digits {ds : Str} (hds : ∀ c ∈ ds, isDigit c = true) {rest : Str}
    (hrest : ∀ c ∈ rest.head?, isDigit c = false) :
    (ds ++ rest).takeWhile isDigit = ds ∧ (ds ++ rest).dropWhile isDigit = rest := by
  rw [List.takeWhile_append_of_pos hds, List.dropWhile_append_of_pos hds]
  cases rest with
  | nil => simp
  | cons c rest => simp [hrest c rfl]

/-- The digits of a leading run. -/
theorem isDigit_of_mem_takeWhile {s : Str} : ∀ c ∈ s.takeWhile isDigit, isDigit c = true :=
  fun _ hc => List.mem_takeWhile_imp hc

/-- The text of a scanned integer. -/
theorem scanInteger_sound {s ds rest : Str} (h : scanInteger s = some (ds, rest)) :
    IntegerText ds ∧ s = ds ++ rest := by
  cases s with
  | nil => cases h
  | cons c s =>
      rw [scanInteger] at h
      split at h
      next hzero =>
        cases h
        rw [hzero]
        exact ⟨.zero, rfl⟩
      next hzero =>
        split at h
        next hc =>
          cases h
          exact ⟨.digits hc hzero isDigit_of_mem_takeWhile,
            by rw [List.cons_append, List.takeWhile_append_dropWhile]⟩
        next => cases h

/-- The text of a scanned fraction. -/
theorem scanFraction_sound (s : Str) :
    ∃ t, FractionText t ∧ s = t ++ (scanFraction s).2 := by
  unfold scanFraction
  split
  next c d rest =>
    split
    next h =>
      refine ⟨codePoint '.' :: d :: rest.takeWhile isDigit,
        .digits h.2 isDigit_of_mem_takeWhile, ?_⟩
      rw [h.1, List.cons_append, List.cons_append, List.takeWhile_append_dropWhile]
    next => exact ⟨[], .none, rfl⟩
  next => exact ⟨[], .none, rfl⟩

/-- The text of a scanned exponent sign. -/
theorem scanExponentSign_sound (s : Str) :
    ∃ t, (t = [] ∨ t = [codePoint '+'] ∨ t = [codePoint '-']) ∧ s = t ++ (scanExponentSign s).2 := by
  cases s with
  | nil => exact ⟨[], .inl rfl, rfl⟩
  | cons c s =>
      rw [scanExponentSign]
      split
      next h => exact ⟨[codePoint '-'], .inr (.inr rfl), by rw [h]; rfl⟩
      next =>
        split
        next h => exact ⟨[codePoint '+'], .inr (.inl rfl), by rw [h]; rfl⟩
        next => exact ⟨[], .inl rfl, rfl⟩

/-- The text of a scanned exponent. -/
theorem scanExponent_sound (s : Str) :
    ∃ t, ExponentText t ∧ s = t ++ (scanExponent s).2 := by
  cases s with
  | nil => exact ⟨[], .none, rfl⟩
  | cons c s =>
      obtain ⟨sign, hsign, hs⟩ := scanExponentSign_sound s
      rw [scanExponent]
      split
      next hc =>
        cases hdigits : (scanExponentSign s).2.takeWhile isDigit with
        | nil =>
            simp only [hdigits, if_true]
            exact ⟨[], .none, rfl⟩
        | cons d ds =>
            have hall : ∀ x ∈ d :: ds, isDigit x = true := by
              rw [← hdigits]
              exact isDigit_of_mem_takeWhile
            obtain ⟨hd, hds⟩ := List.forall_mem_cons.mp hall
            simp only [hdigits, reduceCtorEq, if_false]
            refine ⟨c :: (sign ++ d :: ds), .digits hc hsign hd hds, ?_⟩
            rw [List.cons_append, List.append_assoc, ← hdigits, List.takeWhile_append_dropWhile,
              ← hs]
      next => exact ⟨[], .none, rfl⟩

/-- The text of a scanned sign. -/
theorem scanSign_sound (s : Str) :
    ∃ t, (t = [] ∨ t = [codePoint '-']) ∧ s = t ++ (scanSign s).2 := by
  cases s with
  | nil => exact ⟨[], .inl rfl, rfl⟩
  | cons c s =>
      rw [scanSign]
      split
      next h => exact ⟨[codePoint '-'], .inr rfl, by rw [h]; rfl⟩
      next => exact ⟨[], .inl rfl, rfl⟩

/-- The value of a number literal is a scalar. -/
theorem scalar_numberValue {negative : Bool} {digits fraction : Str}
    {exponent : Option (Bool × Str)} {v : Json}
    (h : numberValue negative digits fraction exponent = some v) : Scalar v := by
  unfold numberValue at h
  split at h
  · split at h
    · cases h; trivial
    · split at h
      · cases h; trivial
      · cases h
  · cases h; trivial

/-- **What the number scanner reads** is a number. -/
theorem scanNumber_sound {s rest : Str} {v : Json} (h : scanNumber s = some (v, rest)) :
    Scalar v ∧ ∃ t, NumberText t ∧ s = t ++ rest := by
  obtain ⟨⟨ds, s₁⟩, hint, h⟩ := Option.bind_eq_some_iff.mp h
  obtain ⟨value, hvalue, h⟩ := Option.map_eq_some_iff.mp h
  obtain ⟨sign, hsign, hs⟩ := scanSign_sound s
  obtain ⟨hinteger, hs₁⟩ := scanInteger_sound hint
  obtain ⟨frac, hfrac, hs₂⟩ := scanFraction_sound s₁
  obtain ⟨exp, hexp, hs₃⟩ := scanExponent_sound (scanFraction s₁).2
  cases h
  refine ⟨scalar_numberValue hvalue, _, ⟨sign, ds, frac, exp, hsign, hinteger, hfrac, hexp, rfl⟩, ?_⟩
  calc s = sign ++ (scanSign s).2 := hs
    _ = sign ++ (ds ++ s₁) := by rw [hs₁]
    _ = sign ++ (ds ++ (frac ++ (scanFraction s₁).2)) := by rw [← hs₂]
    _ = sign ++ (ds ++ (frac ++ (exp ++ (scanExponent (scanFraction s₁).2).2))) := by rw [← hs₃]
    _ = sign ++ (ds ++ (frac ++ exp)) ++ (scanExponent (scanFraction s₁).2).2 := by
      simp only [List.append_assoc]

/-- An integer text is scanned up to the next character that is no digit. -/
theorem IntegerText.scan {ds rest : Str} (h : IntegerText ds)
    (hrest : ∀ c ∈ rest.head?, isDigit c = false) :
    scanInteger (ds ++ rest) = some (ds, rest) := by
  cases h with
  | zero => rfl
  | @digits d ds hd hzero hds =>
      obtain ⟨htake, hdrop⟩ := takeWhile_digits hds hrest
      rw [List.cons_append, scanInteger]
      simp only [if_neg hzero, if_pos hd, htake, hdrop]

/-- A fraction text is scanned up to a character that cannot go on. -/
theorem FractionText.scan {t rest : Str} (h : FractionText t)
    (hrest : ∀ c ∈ rest.head?, isDigit c = false ∧ c ≠ codePoint '.') :
    (scanFraction (t ++ rest)).2 = rest := by
  cases h with
  | none =>
      rw [List.nil_append]
      unfold scanFraction
      split
      next c d rest => rw [if_neg fun h => (hrest c rfl).2 h.1]
      next => rfl
  | @digits d ds hd hds =>
      obtain ⟨-, hdrop⟩ := takeWhile_digits hds fun c hc => (hrest c hc).1
      rw [List.cons_append, List.cons_append, scanFraction]
      simp only [hd, and_self, if_true, hdrop]

/-- An exponent text is scanned to its end. -/
theorem ExponentText.scan {t : Str} (h : ExponentText t) : (scanExponent t).2 = [] := by
  cases h with
  | none => rfl
  | @digits e he sign hsign d ds hd hds =>
      have hall : ∀ c ∈ d :: ds, isDigit c = true := List.forall_mem_cons.mpr ⟨hd, hds⟩
      have htake : (d :: ds).takeWhile isDigit = d :: ds := List.takeWhile_eq_self_iff.mpr hall
      have hdrop : (d :: ds).dropWhile isDigit = [] := List.dropWhile_eq_nil_iff.mpr hall
      have hsignScan : (scanExponentSign (sign ++ d :: ds)).2 = d :: ds := by
        rcases hsign with rfl | rfl | rfl
        · have hminus : d ≠ codePoint '-' := by
            rintro rfl
            exact absurd hd (by decide)
          have hplus : d ≠ codePoint '+' := by
            rintro rfl
            exact absurd hd (by decide)
          rw [List.nil_append, scanExponentSign, if_neg hminus, if_neg hplus]
        · rfl
        · rfl
      rw [scanExponent, if_pos he]
      simp only [hsignScan, htake, hdrop, reduceCtorEq, if_false]

/-- What an exponent text begins with. -/
theorem ExponentText.head {t : Str} (h : ExponentText t) :
    ∀ c ∈ t.head?, isDigit c = false ∧ c ≠ codePoint '.' := by
  cases h with
  | none => simp
  | digits he hsign hd hds =>
      intro c hc
      cases hc
      rcases he with rfl | rfl <;> decide

/-- What a fraction text and an exponent text begin with. -/
theorem FractionText.head {t exp : Str} (h : FractionText t) (hexp : ExponentText exp) :
    ∀ c ∈ (t ++ exp).head?, isDigit c = false := by
  cases h with
  | none => exact fun c hc => (hexp.head c hc).1
  | digits hd hds =>
      intro c hc
      cases hc
      decide

/-- What an integer text begins with. -/
theorem IntegerText.exists_cons {t : Str} (h : IntegerText t) :
    ∃ d ds, t = d :: ds ∧ isDigit d = true := by
  cases h with
  | zero => exact ⟨_, _, rfl, by decide⟩
  | digits hd hzero hds => exact ⟨_, _, rfl, hd⟩

/-- A literal with few enough digits has a value. -/
theorem exists_numberValue (negative : Bool) {digits : Str} (fraction : Str)
    (exponent : Option (Bool × Str)) (hlength : digits.length ≤ 4300) :
    ∃ v, numberValue negative digits fraction exponent = some v := by
  cases exponent with
  | none =>
      rw [numberValue]
      split
      · exact ⟨_, rfl⟩
      · exact ⟨_, rfl⟩
  | some exponent => exact ⟨_, rfl⟩

/-- **The number scanner reads every number**, to its end. -/
theorem NumberText.scan {s : Str} (h : NumberText s) (hlength : s.length ≤ 4300) :
    ∃ v, scanNumber s = some (v, []) ∧ Scalar v := by
  obtain ⟨sign, int, frac, exp, hsign, hint, hfrac, hexp, rfl⟩ := h
  have hsignScan : (scanSign (sign ++ (int ++ (frac ++ exp)))).2 = int ++ (frac ++ exp) := by
    rcases hsign with rfl | rfl
    · obtain ⟨d, ds, rfl, hd⟩ := hint.exists_cons
      have hminus : d ≠ codePoint '-' := by
        rintro rfl
        exact absurd hd (by decide)
      rw [List.nil_append, List.cons_append, scanSign, if_neg hminus]
    · rfl
  have hintScan : scanInteger (int ++ (frac ++ exp)) = some (int, frac ++ exp) :=
    hint.scan (hfrac.head hexp)
  have hfracScan : (scanFraction (frac ++ exp)).2 = exp := hfrac.scan hexp.head
  obtain ⟨v, hv⟩ := exists_numberValue (scanSign (sign ++ (int ++ (frac ++ exp)))).1
    (scanFraction (frac ++ exp)).1 (scanExponent exp).1
    (show int.length ≤ 4300 by simp only [List.length_append] at hlength; omega)
  refine ⟨v, ?_, scalar_numberValue hv⟩
  rw [scanNumber]
  simp only [hsignScan, hintScan, Option.bind_some, hfracScan, hexp.scan, hv, Option.map_some]

/-- What a number begins with. -/
theorem NumberText.exists_cons {s : Str} (h : NumberText s) :
    ∃ c rest, s = c :: rest ∧ (c = codePoint '-' ∨ isDigit c = true) := by
  obtain ⟨sign, int, frac, exp, hsign, hint, -, -, rfl⟩ := h
  rcases hsign with rfl | rfl
  · obtain ⟨d, ds, rfl, hd⟩ := hint.exists_cons
    exact ⟨d, _, rfl, .inr hd⟩
  · exact ⟨_, _, rfl, .inl rfl⟩

/-- The characters a number may begin with begin no other value. -/
theorem isDigit_or_minus_spec {c : CodePoint} (h : c = codePoint '-' ∨ isDigit c = true) :
    c ∉ lit "\"[\x7bntf \t\n\r" := by
  rcases h with rfl | h
  · decide
  · intro hc
    have hnone : ∀ x ∈ lit "\"[\x7bntf \t\n\r", isDigit x = false := by decide
    rw [hnone c hc] at h
    exact absurd h (by decide)

/-- Without the opening characters of strings and containers, what is read is a word or a number. -/
theorem scanValue_of_quiet {fuel levels : Nat} {c : CodePoint} {s : Str}
    (hc : ∀ d ∈ lit "\"[\x7b", c ≠ d) : scanValue (fuel + 1) levels (c :: s) =
      if lit "null" <+: c :: s then .ok (.null, (c :: s).drop 4)
      else if lit "true" <+: c :: s then .ok (.bool true, (c :: s).drop 4)
      else if lit "false" <+: c :: s then .ok (.bool false, (c :: s).drop 5)
      else orValueError (scanNumber (c :: s)) := by
  rw [scanValue.eq_def]
  simp only [if_neg (hc (codePoint '"') (by decide)), if_neg (hc (codePoint '[') (by decide)),
    if_neg (hc (codePoint '\x7b') (by decide))]

/-- A value that begins with none of these characters is a scalar. -/
theorem scanValue_sound_of_quiet {fuel levels : Nat} {c : CodePoint} {s rest : Str} {v : Json}
    (hc : ∀ d ∈ lit "\"[\x7b", c ≠ d) (h : scanValue (fuel + 1) levels (c :: s) = .ok (v, rest)) :
    Scalar v ∧ ∃ t, ScalarText t ∧ c :: s = t ++ rest := by
  -- A word that begins the text is read off it.
  have hword : ∀ w : Str, w <+: c :: s → c :: s = w ++ (c :: s).drop w.length := by
    rintro w ⟨r, hr⟩
    rw [← hr, List.drop_left]
  rw [scanValue_of_quiet hc] at h
  split at h
  next hnull =>
    cases h
    exact ⟨trivial, lit "null", .inl rfl, hword _ hnull⟩
  next =>
    split at h
    next htrue =>
      cases h
      exact ⟨trivial, lit "true", .inr (.inl rfl), hword _ htrue⟩
    next =>
      split at h
      next hfalse =>
        cases h
        exact ⟨trivial, lit "false", .inr (.inr (.inl rfl)), hword _ hfalse⟩
      next =>
        obtain ⟨hv, t, ht, hst⟩ := scanNumber_sound (orValueError_eq_ok.mp h)
        exact ⟨hv, t, .inr (.inr (.inr ht)), hst⟩

/-- A value without the opening characters of strings and containers is a scalar. -/
theorem scanValue_sound {fuel levels : Nat} {s rest : Str} {v : Json}
    (hs : ∀ c ∈ lit "\"[\x7b", c ∉ s) (h : scanValue fuel levels s = .ok (v, rest)) :
    Scalar v ∧ ∃ t, ScalarText t ∧ s = t ++ rest := by
  cases fuel with
  | zero => rw [scanValue] at h; cases h
  | succ fuel =>
      cases s with
      | nil => rw [scanValue] at h; cases h
      | cons c s =>
          exact scanValue_sound_of_quiet (fun d hd hcd => hs d hd (hcd ▸ List.mem_cons_self)) h

/-- Skipping whitespace leaves no new characters. -/
theorem not_mem_skipBlanks {cs s : Str} (hs : ∀ c ∈ cs, c ∉ s) : ∀ c ∈ cs, c ∉ skipBlanks s :=
  fun c hc hmem => hs c hc ((List.dropWhile_sublist isBlank).subset hmem)

/-- **What is read without quotes, brackets and braces** is a scalar between whitespace. -/
theorem loads_sound {levels : Nat} {s : Str} {v : Json} (hs : ∀ c ∈ lit "\"[\x7b", c ∉ s)
    (h : loads levels s = .ok v) :
    Scalar v ∧ ∃ w t w', Blank w ∧ ScalarText t ∧ Blank w' ∧ s = w ++ (t ++ w') := by
  obtain ⟨⟨value, rest⟩, hscan, h⟩ := bind_eq_ok.mp h
  dsimp only at h
  split at h
  next hrest =>
    cases h
    have hskip : s = s.takeWhile isBlank ++ skipBlanks s := List.takeWhile_append_dropWhile.symm
    obtain ⟨hv, t, ht, hst⟩ := scanValue_sound (not_mem_skipBlanks hs) hscan
    exact ⟨hv, s.takeWhile isBlank, t, rest, fun c hc => List.mem_takeWhile_imp hc, ht,
      List.dropWhile_eq_nil_iff.mp hrest, hst ▸ hskip⟩
  next => cases h

/-- **Without brackets and braces** no level is taken. -/
theorem loads_ne_recursionError {levels : Nat} {s : Str} (hs : ∀ c ∈ lit "\"[\x7b", c ∉ s) :
    loads levels s ≠ .error .recursionError := by
  have hclean := not_mem_skipBlanks hs
  intro h
  obtain hscan | ⟨⟨value, rest⟩, -, h⟩ := bind_eq_error.mp h
  · cases hskip : skipBlanks s with
    | nil =>
        rw [hskip, scanValue] at hscan
        cases hscan
    | cons c t =>
        rw [hskip] at hclean hscan
        rw [scanValue_of_quiet fun d hd hcd => hclean d hd (hcd ▸ List.mem_cons_self)] at hscan
        split at hscan
        · cases hscan
        · split at hscan
          · cases hscan
          · split at hscan
            · cases hscan
            · exact orValueError_ne_recursionError _ hscan
  · dsimp only at h
    split at h <;> cases h

/-- **The text of a scalar is read**, as a scalar. -/
theorem ScalarText.loads {t : Str} (h : ScalarText t) (hlength : t.length ≤ 4300) (levels : Nat) :
    ∃ v, Json.loads levels t = .ok v ∧ Scalar v := by
  rcases h with rfl | rfl | rfl | h
  · exact ⟨.null, rfl, trivial⟩
  · exact ⟨.bool true, rfl, trivial⟩
  · exact ⟨.bool false, rfl, trivial⟩
  · obtain ⟨v, hscan, hv⟩ := h.scan hlength
    obtain ⟨c, rest, rfl, hc⟩ := h.exists_cons
    have hne : ∀ d ∈ lit "\"[\x7bntf \t\n\r", c ≠ d := by
      rintro d hd rfl
      exact isDigit_or_minus_spec hc hd
    have hword : ∀ d w, d ∈ lit "\"[\x7bntf \t\n\r" → ¬ d :: w <+: c :: rest :=
      fun d w hd hw => hne d hd (List.cons_prefix_cons.mp hw).1.symm
    have hblank : isBlank c = false := by
      rw [isBlank, decide_eq_false_iff_not]
      exact fun hmem => hne c ((by decide : ∀ d ∈ lit " \t\n\r",
        d ∈ lit "\"[\x7bntf \t\n\r") c hmem) rfl
    have hskip : skipBlanks (c :: rest) = c :: rest := skipBlanks_append (w := []) (by simp [Blank])
      hblank rest
    have hquiet : ∀ d ∈ lit "\"[\x7b", c ≠ d := fun d hd =>
      hne d ((by decide : ∀ d ∈ lit "\"[\x7b", d ∈ lit "\"[\x7bntf \t\n\r") d hd)
    refine ⟨v, ?_, hv⟩
    rw [Json.loads, hskip, scanValue_of_quiet hquiet,
      if_neg (show ¬ lit "null" <+: c :: rest from hword _ _ (by decide)),
      if_neg (show ¬ lit "true" <+: c :: rest from hword _ _ (by decide)),
      if_neg (show ¬ lit "false" <+: c :: rest from hword _ _ (by decide)), hscan]
    rfl

/-- A scalar's text has no separator of arrays. -/
theorem ScalarText.comma_not_mem {t : Str} (h : ScalarText t) : codePoint ',' ∉ t := by
  have hdigits : ∀ ds : Str, (∀ c ∈ ds, isDigit c = true) → codePoint ',' ∉ ds :=
    fun ds hds hmem => absurd (hds _ hmem) (by decide)
  rcases h with rfl | rfl | rfl | ⟨sign, int, frac, exp, hsign, hint, hfrac, hexp, rfl⟩
  · decide
  · decide
  · decide
  · have hsign' : codePoint ',' ∉ sign := by
      rcases hsign with rfl | rfl <;> decide
    have hint' : codePoint ',' ∉ int := by
      cases hint with
      | zero => decide
      | digits hd hzero hds => exact hdigits _ (List.forall_mem_cons.mpr ⟨hd, hds⟩)
    have hfrac' : codePoint ',' ∉ frac := by
      cases hfrac with
      | none => exact List.not_mem_nil
      | digits hd hds =>
          exact List.not_mem_cons_of_ne_of_not_mem (by decide)
            (hdigits _ (List.forall_mem_cons.mpr ⟨hd, hds⟩))
    have hexp' : codePoint ',' ∉ exp := by
      cases hexp with
      | none => exact List.not_mem_nil
      | digits he hsign hd hds =>
          refine List.not_mem_cons_of_ne_of_not_mem ?_ ?_
          · rcases he with rfl | rfl <;> decide
          · rw [List.mem_append, not_or]
            refine ⟨?_, hdigits _ (List.forall_mem_cons.mpr ⟨hd, hds⟩)⟩
            rcases hsign with rfl | rfl | rfl <;> decide
    simp only [List.mem_append, hsign', hint', hfrac', hexp', or_self, not_false_iff]

end Json

end Python
