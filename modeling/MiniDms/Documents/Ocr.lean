import MiniDms.Python.Json

/-! # Extraction outcomes

The part of the extraction module the job workflow depends on: the finite set of safe error codes
with their messages, the failure exception and the result of a successful extraction. -/

namespace MiniDms

open Python

/-- The keys of `MESSAGES`. A row's empty `error_code` is `none` of `Option ErrorCode`. -/
inductive ErrorCode
  | invalidDocument
  | pageLimit
  | pixelLimit
  | textLimit
  | ocrTimeout
  | ocrEngineUnavailable
  | storageUnavailable
  | integrityError
  | workerLost
  | unexpectedError
  deriving DecidableEq, Repr

/-- `MESSAGES`: the text shown for each error code. -/
def messages : ErrorCode → String
  | .invalidDocument => "The document is damaged, encrypted or cannot be decoded."
  | .pageLimit => "The document exceeds the configured page limit."
  | .pixelLimit => "A page or image exceeds the configured pixel limit."
  | .textLimit => "The extracted text exceeds the configured character limit."
  | .ocrTimeout => "Text extraction exceeded its time limit."
  | .ocrEngineUnavailable => "The extraction engine or configured language is unavailable."
  | .storageUnavailable => "The original file is temporarily unavailable."
  | .integrityError => "The stored file failed its integrity check."
  | .workerLost => "The worker stopped before completing the job."
  | .unexpectedError =>
      "Processing failed unexpectedly. Use the request ID for diagnostics."

/-- `MESSAGES.get(error_code, "")`. -/
def messageFor (code : Option ErrorCode) : String := code.elim "" messages

/-- The exception `OCRFailure`; its constructor looks the code up in `MESSAGES`, so no other code
can be raised. -/
structure OCRFailure where
  code : ErrorCode
  retryable : Bool := false
  deriving DecidableEq

/-- The value `extract` returns. -/
structure ExtractionResult where
  text : Str
  info : Json

end MiniDms
