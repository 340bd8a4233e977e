import MiniDms.Python.Text

/-! # JSON values as Python holds them

What `json.loads` produces and `json.dumps` prints: `None`, booleans, integers, floats, strings,
lists and dictionaries in insertion order. `eq` is Python's `==`, which compares numbers by value
across `bool`, `int` and `float` and dictionaries without regard to order; `dumps` is the encoder
with `ensure_ascii=False` and the default separators. -/

namespace Python

/-! ## Floats -/

/-- A Python `float`: an IEEE 754 double, given by its bit pattern. -/
structure Double where
  /-- Sign, exponent and fraction. -/
  bits : BitVec 64
  deriving DecidableEq

namespace Double

/-- The sign bit. -/
def negative (f : Double) : Bool := f.bits.msb

/-- The biased exponent field. -/
def exponent (f : Double) : Nat := f.bits.toNat / 2 ^ 52 % 2 ^ 11

/-- The fraction field. -/
def fraction (f : Double) : Nat := f.bits.toNat % 2 ^ 52

/-- Neither an infinity nor a NaN. -/
def isFinite (f : Double) : Bool := f.exponent ≠ 2047

/-- The weight of the last bit of a finite double. -/
def ulp (f : Double) : Rat := (2 : Rat) ^ ((max f.exponent 1 : Nat) - 1075 : Int)

/-- The absolute value of a finite double. -/
def magnitude (f : Double) : Rat :=
  (if f.exponent = 0 then f.fraction else 2 ^ 52 + f.fraction : Nat) * f.ulp

/-- The exact value of a finite double. -/
def value (f : Double) : Rat := if f.negative then -f.magnitude else f.magnitude

/-- Whether reading the decimal `q` back, rounding half to even, gives the magnitude of `f`. Just
above a power of two the doubles below are twice as dense. -/
def readsBack (f : Double) (q : Rat) : Bool :=
  let below := if f.fraction = 0 ∧ 1 < f.exponent then f.ulp / 4 else f.ulp / 2
  let low := f.magnitude - below
  let high := f.magnitude + f.ulp / 2
  if f.fraction % 2 = 0 then low ≤ q && q ≤ high else low < q && q < high

/-- The closest decimal with `n + 1` digits that reads back as `f`, as digits and a power of ten. -/
def decimal? (f : Double) (n : Nat) : Option (Nat × Int) :=
  let power := Int.log 10 f.magnitude - n
  let unit := (10 : Rat) ^ power
  -- The two neighbours with this many digits; the closer one wins, a tie goes to the even digit.
  let low := ⌊f.magnitude / unit⌋₊
  let lowFits := f.readsBack (low * unit)
  let highFits := f.readsBack ((low + 1 : Nat) * unit)
  let below := f.magnitude - low * unit
  let above := (low + 1 : Nat) * unit - f.magnitude
  if lowFits && (!highFits || below < above || (below = above && low % 2 = 0)) then some (low, power)
  else if highFits then
    -- Rounded up to a power of ten, the decimal would end in a zero.
    some (if low + 1 = 10 ^ (n + 1) then (10 ^ n, power + 1) else (low + 1, power))
  else none

/-- The shortest decimal that reads back as `f`; seventeen digits always suffice. -/
def shortest (f : Double) : Nat × Int :=
  ((List.range 17).findSome? f.decimal?).getD (f.magnitude.num.natAbs, 0)

/-- `float.__repr__` of a finite double: fixed notation for decimal points from `-3` to `16`,
scientific notation outside. -/
def repr (f : Double) : Str :=
  let sign := if f.negative then lit "-" else []
  if f.magnitude = 0 then sign ++ lit "0.0"
  else
    let digits := natRepr f.shortest.1
    let point : Int := digits.length + f.shortest.2
    let zeros (n : Int) : Str := List.replicate n.toNat (codePoint '0')
    -- The decimal point stands after this many digits, as in CPython's `format_float_short`.
    if -4 < point ∧ point ≤ 16 then
      if point ≤ 0 then sign ++ lit "0." ++ zeros (-point) ++ digits
      else if (digits.length : Int) ≤ point then
        sign ++ digits ++ zeros (point - digits.length) ++ lit ".0"
      else sign ++ digits.take point.toNat ++ lit "." ++ digits.drop point.toNat
    else
      let e := point - 1
      let mantissa :=
        if digits.length ≤ 1 then digits else digits.take 1 ++ lit "." ++ digits.drop 1
      let pad := if e.natAbs < 10 then lit "0" else []
      sign ++ mantissa ++ (if e < 0 then lit "e-" else lit "e+") ++ pad ++ natRepr e.natAbs

end Double

/-! ## Values -/

/-- A JSON value as Python holds it. -/
inductive Json
  /-- `None`. -/
  | null
  /-- `True` or `False`. -/
  | bool (b : Bool)
  /-- An `int`, unbounded. -/
  | int (i : Int)
  /-- A `float`. -/
  | float (f : Double)
  /-- A `str`. -/
  | str (s : Str)
  /-- A `list`. -/
  | list (items : List Json)
  /-- A `dict` with string keys, in insertion order. -/
  | dict (items : List (Str × Json))

namespace Json

/-- `value.get(key)`: what a dictionary files under a key. -/
def item (key : Str) : Json → Option Json
  | .dict items => items.lookup key
  | _ => none

/-- The numbers of Python's cross-type comparison: exact values, infinities and NaN. -/
inductive Number
  | exact (q : Rat)
  | infinite (negative : Bool)
  | nan
  deriving DecidableEq

/-- The numeric value of a `bool`, an `int` or a `float`. -/
def number : Json → Option Number
  | .bool b => some (.exact (if b then 1 else 0))
  | .int i => some (.exact i)
  | .float f =>
      if f.isFinite then some (.exact f.value)
      else if f.fraction = 0 then some (.infinite f.negative)
      else some .nan
  | _ => none

/-- Comparison of two numbers; a NaN equals nothing. -/
def Number.eq : Number → Number → Bool
  | .nan, _ => false
  | a, b => a = b

mutual

/-- Python's `==` on JSON values. -/
def eq : Json → Json → Bool
  | .null, .null => true
  | .str s, .str t => s = t
  | .list xs, .list ys => eqList xs ys
  -- Keys are distinct, so equal lengths and one inclusion make the dictionaries equal.
  | .dict xs, .dict ys => xs.length = ys.length && eqItems xs ys
  -- `True == 1 == 1.0`: numbers compare by value whatever their type.
  | .bool b, y => eqNumber (.bool b) y
  | .int i, y => eqNumber (.int i) y
  | .float f, y => eqNumber (.float f) y
  | _, _ => false

/-- Element by element, of equal length. -/
def eqList : List Json → List Json → Bool
  | [], [] => true
  | x :: xs, y :: ys => eq x y && eqList xs ys
  | _, _ => false

/-- Every item of the first dictionary has an equal value in the second. -/
def eqItems : List (Str × Json) → List (Str × Json) → Bool
  | [], _ => true
  | (k, x) :: xs, ys =>
      (match ys.lookup k with
        | some y => eq x y
        | none => false) && eqItems xs ys

/-- Comparison by value when both sides are numbers. -/
def eqNumber (x y : Json) : Bool :=
  match x.number, y.number with
  | some a, some b => a.eq b
  | _, _ => false

end

/-! ## `json.dumps` -/

/-- One digit of a `\u` escape. -/
def hexDigit (n : Nat) : CodePoint := codePoint (Nat.digitChar n)

/-- The escape of one code point: quotes, backslashes and control characters. -/
def escape (c : CodePoint) : Str :=
  if c = codePoint '"' then [codePoint '\\', codePoint '"']
  else if c = codePoint '\\' then [codePoint '\\', codePoint '\\']
  else if c.val = 0x08 then lit "\\b"
  else if c.val = 0x0C then lit "\\f"
  else if c.val = 0x0A then lit "\\n"
  else if c.val = 0x0D then lit "\\r"
  else if c.val = 0x09 then lit "\\t"
  else if c.val < 0x20 then lit "\\u00" ++ [hexDigit (c.val / 16), hexDigit (c.val % 16)]
  else [c]

/-- A quoted string. -/
def quote (s : Str) : Str := codePoint '"' :: s.flatMap escape ++ [codePoint '"']

/-- A float as the encoder writes it. -/
def floatText (f : Double) : Str :=
  if f.isFinite then f.repr
  else if f.fraction ≠ 0 then lit "NaN"
  else if f.negative then lit "-Infinity"
  else lit "Infinity"

/-- Sort dictionary items by key, in code point order. -/
def sortItems (items : List (Str × Json)) : List (Str × Json) :=
  items.insertionSort fun a b => a.1 ≤ b.1

mutual

/-- Sort the keys of every dictionary, at every depth. -/
def sorted : Json → Json
  | .list items => .list (sortedList items)
  | .dict items => .dict (sortItems (sortedItems items))
  | .null => .null
  | .bool b => .bool b
  | .int i => .int i
  | .float f => .float f
  | .str s => .str s

/-- Sort inside every element. -/
def sortedList : List Json → List Json
  | [] => []
  | x :: xs => sorted x :: sortedList xs

/-- Sort inside every value. -/
def sortedItems : List (Str × Json) → List (Str × Json)
  | [] => []
  | (k, x) :: xs => (k, sorted x) :: sortedItems xs

end

mutual

/-- `json.dumps(value, ensure_ascii=False)`. -/
def dumps : Json → Str
  | .null => lit "null"
  | .bool true => lit "true"
  | .bool false => lit "false"
  | .int i => intRepr i
  | .float f => floatText f
  | .str s => quote s
  | .list items => lit "[" ++ join (lit ", ") (dumpsList items) ++ lit "]"
  | .dict items => lit "\x7b" ++ join (lit ", ") (dumpsItems items) ++ lit "\x7d"

/-- The texts of the elements. -/
def dumpsList : List Json → List Str
  | [] => []
  | x :: xs => dumps x :: dumpsList xs

/-- The texts of the items. -/
def dumpsItems : List (Str × Json) → List Str
  | [] => []
  | (k, x) :: xs => (quote k ++ lit ": " ++ dumps x) :: dumpsItems xs

end

mutual

/-- No float in the value is infinite or NaN; `allow_nan=False` raises `ValueError` otherwise. -/
def finite : Json → Bool
  | .float f => f.isFinite
  | .list items => finiteList items
  | .dict items => finiteItems items
  | _ => true

/-- Every element is finite. -/
def finiteList : List Json → Bool
  | [] => true
  | x :: xs => finite x && finiteList xs

/-- Every value is finite. -/
def finiteItems : List (Str × Json) → Bool
  | [] => true
  | (_, x) :: xs => finite x && finiteItems xs

end

/-- A list is finite when its elements are. -/
theorem finiteList_iff (items : List Json) :
    finiteList items = true ↔ ∀ x ∈ items, x.finite = true := by
  induction items with
  | nil => simp [finiteList]
  | cons x items ih => rw [finiteList, Bool.and_eq_true, ih, List.forall_mem_cons]

/-- A dictionary is finite when its values are. -/
theorem finiteItems_iff (items : List (Str × Json)) :
    finiteItems items = true ↔ ∀ item ∈ items, item.2.finite = true := by
  induction items with
  | nil => simp [finiteItems]
  | cons item items ih => rw [finiteItems, Bool.and_eq_true, ih, List.forall_mem_cons]

/-- A list of strings is finite. -/
theorem finite_list_map_str (tags : List Str) : (Json.list (tags.map .str)).finite = true := by
  have hlist : finiteList (tags.map .str) = true := by
    induction tags with
    | nil => rfl
    | cons tag tags ih => rw [List.map_cons, finiteList, ih]; rfl
  exact hlist

mutual

/-- No integer in the value has more than 4300 digits; writing one in decimal raises `ValueError`
otherwise, and `json.loads` reads none. -/
def printable : Json → Bool
  | .int i => (natRepr i.natAbs).length ≤ 4300
  | .list items => printableList items
  | .dict items => printableItems items
  | _ => true

/-- Every element is printable. -/
def printableList : List Json → Bool
  | [] => true
  | x :: xs => printable x && printableList xs

/-- Every value is printable. -/
def printableItems : List (Str × Json) → Bool
  | [] => true
  | (_, x) :: xs => printable x && printableItems xs

end

end Json

end Python
