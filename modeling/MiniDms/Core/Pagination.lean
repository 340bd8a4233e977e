import MiniDms.Python.Integers
import MiniDms.Documents.Views

/-! # Pages

`DocumentPagination` sets the sizes of the paginator that every listing goes through: twenty rows a
page, or as many as `page_size` asks for, up to a hundred. -/

namespace MiniDms

open Python

/-- `page_size`. -/
def defaultPageSize : Nat := 20

/-- `max_page_size`. -/
def maxPageSize : Nat := 100

variable (decimal : CodePoint → Option Nat)

/-- `_positive_int(text, strict=True, cutoff=cutoff)`; `none` is its `ValueError`. -/
def positiveInt (cutoff : Nat) (text : Str) : Option Nat :=
  (decimalInt decimal text).bind fun n => if n ≤ 0 then none else some (min n.toNat cutoff)

/-- `get_page_size`. -/
def getPageSize (pageSize : Option Str) : Nat :=
  (pageSize.bind (positiveInt decimal maxPageSize)).getD defaultPageSize

/-- `num_pages` of so many rows; without rows there is an empty page. -/
def numPages (size rows : Nat) : Nat := (max 1 rows + size - 1) / size

/-- `get_page_number`, and the number it stands for. -/
def getPageNumber (page : Option Str) (pages : Nat) : Option Int :=
  match given page with
  | none => some 1
  | some text => if text = lit "last" then some pages else decimalInt decimal text

/-- `paginate_queryset` of `DocumentPagination`, for a result of some length; `none` is an invalid
page. -/
def documentPagination (page pageSize : Option Str) (rows : Nat) : Option PageWindow :=
  let size := getPageSize decimal pageSize
  let pages := numPages size rows
  (getPageNumber decimal page pages).bind fun number =>
    if number < 1 ∨ (pages : Int) < number then none
    else
      let number := number.toNat
      some
        { start := (number - 1) * size
          length := size
          next := if number < pages then some (number + 1) else none
          previous := if 1 < number then some (number - 1) else none }

variable {decimal}

/-- A page has room for a row. -/
theorem getPageSize_pos (pageSize : Option Str) : 0 < getPageSize decimal pageSize := by
  unfold getPageSize
  cases hsize : pageSize.bind (positiveInt decimal maxPageSize) with
  | none => decide
  | some n =>
      obtain ⟨text, -, htext⟩ := Option.bind_eq_some_iff.mp hsize
      obtain ⟨i, -, hi⟩ := Option.bind_eq_some_iff.mp htext
      split at hi
      · cases hi
      · next hpos =>
          cases hi
          have hmin : 0 < min i.toNat maxPageSize := lt_min (by omega) (by decide)
          exact hmin

/-- A page has a successor when there are rows behind it. -/
theorem lt_numPages_iff {size rows i : Nat} (hsize : 0 < size) :
    i + 1 < numPages size rows ↔ (i + 1) * size < rows := by
  rw [numPages, Nat.lt_div_iff_mul_lt hsize]
  have hpos : size ≤ (i + 1) * size := Nat.le_mul_of_pos_left size (Nat.succ_pos i)
  obtain hle | hlt := le_or_gt rows 1 <;> omega

/-- The page a client asks for behind `i` pages: the first one without a number. -/
def pageNumber : Nat → Option Nat
  | 0 => none
  | i + 1 => some (i + 2)

/-- **The window of a page**, by its number: the rows behind those of the pages before it, with the
number of the next page as long as there are rows behind. -/
theorem window_of_pageNumber {pageSize : Option Str} {rows i : Nat} {window : PageWindow}
    (h : documentPagination decimal ((pageNumber i).map natRepr) pageSize rows = some window) :
    window.start = i * getPageSize decimal pageSize ∧
      window.length = getPageSize decimal pageSize ∧
      window.next = if (i + 1) * getPageSize decimal pageSize < rows then pageNumber (i + 1)
        else none := by
  obtain ⟨number, hnumber, h⟩ := Option.bind_eq_some_iff.mp h
  have hself : number = (i + 1 : Nat) := by
    cases i with
    | zero => exact (Option.some.inj hnumber).symm
    | succ i =>
        have hgiven : given (some (natRepr (i + 2))) = some (natRepr (i + 2)) := by
          rw [given, Option.filter_some, if_pos (decide_eq_true (natRepr_ne_nil _))]
        have hlast : natRepr (i + 2) ≠ lit "last" := by
          intro heq
          have hmem : codePoint 'l' ∈ natRepr (i + 2) := by
            rw [heq]
            decide
          exact absurd (isDigit_of_mem_natRepr hmem) (by decide)
        have hint : decimalInt decimal (natRepr (i + 2)) = some number := by
          have hq := hnumber
          rw [getPageNumber, pageNumber, Option.map_some, hgiven] at hq
          simpa only [if_neg hlast] using hq
        rw [decimalInt_natRepr] at hint
        split at hint
        · exact (Option.some.inj hint).symm
        · cases hint
  split at h
  · cases h
  · subst hself
    cases h
    have hsize : 0 < getPageSize decimal pageSize := getPageSize_pos pageSize
    refine ⟨?_, rfl, ?_⟩
    · simp
    · simp [lt_numPages_iff hsize, pageNumber]

end MiniDms
