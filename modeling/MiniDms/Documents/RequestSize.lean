import MiniDms.Documents.Files
import MiniDms.Python.Integers

/-! # The size of a request

Two bounds that hold before a serializer sees anything: the middleware reads the announced length of
the request, and the upload handler counts the bytes of the file as they arrive. -/

namespace MiniDms

open Python

/-- `int(text)` of a header; `none` is a `ValueError`. The text is Latin-1, which has no decimal digits
but those of ASCII. -/
def headerInt (text : Str) : Option Int := decimalInt (fun _ => none) text

/-- What `http_error` answers. -/
structure HttpError where
  status : Nat
  code : String
  message : String
  deriving DecidableEq, Repr

/-- `RequestSizeMiddleware.__call__`, on the header as the request has it; `none` passes the request
on. -/
def requestSize (maxUploadBytes : Int) (contentLength : Option Str) : Option HttpError :=
  -- An empty header counts as a missing one.
  let text := match contentLength with
    | some (c :: text) => c :: text
    | _ => lit "0"
  match headerInt text with
  | none => some ⟨400, "bad_request", "Invalid Content-Length."⟩
  | some length =>
      if length < 0 then some ⟨400, "bad_request", "Invalid Content-Length."⟩
      else if maxUploadBytes + 64 * 1024 < length then
        some ⟨413, "payload_too_large", "The request exceeds the configured size limit."⟩
      else none

/-- `BoundedUploadHandler.receive_data_chunk`, on the bytes counted so far. -/
def receiveDataChunk (maxUploadBytes : Int) (total : Nat) (rawData : Bytes) :
    Except FileError Nat :=
  let total := total + rawData.length
  if maxUploadBytes < total then .error .payloadTooLarge else .ok total

/-! ## Reading a length -/

/-- **What the middleware does with the length of a body** that is announced as it is: it never
refuses a length within the bound as too large, and it passes it on if it has few enough digits. -/
theorem requestSize_natRepr {maxUploadBytes : Int} {n : Nat} (hn : n ≤ maxUploadBytes + 64 * 1024) :
    (∀ error, requestSize maxUploadBytes (some (natRepr n)) = some error → error.status ≠ 413) ∧
      ((natRepr n).length ≤ 4300 → requestSize maxUploadBytes (some (natRepr n)) = none) := by
  obtain ⟨d, ds, hds⟩ := List.exists_cons_of_ne_nil (natRepr_ne_nil n)
  have hparse : headerInt (natRepr n) = _ := decimalInt_natRepr _ n
  have hnegative : ¬ (n : Int) < 0 := by omega
  have hlarge : ¬ maxUploadBytes + 64 * 1024 < n := by omega
  rw [hds] at hparse ⊢
  unfold requestSize
  by_cases hdigits : (d :: ds).length ≤ 4300
  · rw [if_pos hdigits] at hparse
    simp only [hparse, hnegative, hlarge, if_false]
    exact ⟨(fun error h => nomatch h), fun _ => trivial⟩
  · rw [if_neg hdigits] at hparse
    simp only [hparse]
    refine ⟨fun error h => ?_, fun h => absurd h hdigits⟩
    cases h
    decide

/-- A length above the bound is refused as too large. -/
theorem requestSize_of_lt {maxUploadBytes : Int} {n : Nat} (hn : maxUploadBytes + 64 * 1024 < n)
    (hdigits : (natRepr n).length ≤ 4300) : requestSize maxUploadBytes (some (natRepr n)) =
      some ⟨413, "payload_too_large", "The request exceeds the configured size limit."⟩ := by
  obtain ⟨d, ds, hds⟩ := List.exists_cons_of_ne_nil (natRepr_ne_nil n)
  have hparse : headerInt (natRepr n) = _ := decimalInt_natRepr _ n
  have hnegative : ¬ (n : Int) < 0 := by omega
  rw [if_pos hdigits] at hparse
  rw [hds] at hparse ⊢
  unfold requestSize
  simp only [hparse, hnegative, if_false, if_pos hn]

/-! ## Counting a file -/

/-- **The handler accepts a file** in whatever chunks, when the bytes counted so far and the file fit
the limit. -/
theorem receiveDataChunks_ok {maxUploadBytes : Int} (chunks : List Bytes) (total : Nat)
    (h : total + chunks.flatten.length ≤ maxUploadBytes) :
    chunks.foldlM (receiveDataChunk maxUploadBytes) total = .ok (total + chunks.flatten.length) := by
  induction chunks generalizing total with
  | nil => rfl
  | cons chunk chunks ih =>
      rw [List.flatten_cons, List.length_append] at h ⊢
      have hchunk : receiveDataChunk maxUploadBytes total chunk = .ok (total + chunk.length) := by
        unfold receiveDataChunk
        dsimp only
        rw [if_neg (by push_cast at h ⊢; omega)]
      rw [List.foldlM_cons, hchunk]
      refine (ih (total + chunk.length) (by push_cast at h ⊢; omega)).trans ?_
      rw [Nat.add_assoc]

end MiniDms
