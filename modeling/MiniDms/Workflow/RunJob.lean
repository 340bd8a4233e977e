import MiniDms.Workflow.World
import MiniDms.Documents.Extraction

/-! # `run_job`

One delivery from its claim to its end. The store, the libraries and the local file system enter as
what their calls return or raise; other processes run between the transactions of the delivery; and
every call of `finish` may raise before or after it has committed. -/

namespace MiniDms

open Python Relational

/-! ## Copying the object -/

/-- One pass of the copying loop: what `source.read` returns or raises, and how `target.write` ends. -/
structure ChunkRead where
  read : Except Exn Bytes
  written : Except Exn Unit

/-- What the store, the file system and extraction answer during a delivery. -/
structure Collaborators where
  /-- `default_storage.delete`. -/
  deleted : Except Exn Unit
  /-- The query for the document. -/
  queried : Except Exn Unit
  /-- `tempfile.TemporaryDirectory` on entry. -/
  directory : Except Exn Unit
  /-- `default_storage.open` and `path.open`. -/
  opened : Except Exn Unit
  chunks : List ChunkRead
  /-- Closing both files. -/
  closed : Except Exn Unit
  /-- `extract`, on a local file with this content. -/
  extract : MimeType → Bytes → Except Exn ExtractionResult
  /-- `tempfile.TemporaryDirectory` on exit. -/
  cleaned : Except Exn Unit

/-- The loop `while chunk := source.read(64 * 1024)`, from what has been copied so far. -/
def copyChunks (maxUploadBytes : Int) : List ChunkRead → Bytes → Except Exn Bytes
  | [], copied => .ok copied
  | pass :: passes, copied => do
      let chunk ← pass.read
      -- An empty chunk ends the loop.
      if chunk = [] then return copied
      else if maxUploadBytes < (copied ++ chunk).length then
        throw (.permanent .integrityError)
      else do
        pass.written
        copyChunks maxUploadBytes passes (copied ++ chunk)

/-- Leaving a context: an exception on exit replaces what the body did. -/
def leaving {α : Type} (exit : Except Exn Unit) (body : Except Exn α) : Except Exn α :=
  match exit with
  | .ok () => body
  | .error e => .error e

/-- The retryable failure of a store that cannot be reached. -/
def storageUnavailable : Exn := .ocrFailure ⟨.storageUnavailable, true⟩

/-- The handlers around the copy: a failure is re-raised, anything else is the store's. -/
def storageFailure : Exn → Exn
  | .ocrFailure failure => .ocrFailure failure
  | _ => storageUnavailable

/-- Copy the object to the local file. -/
def fetch (maxUploadBytes : Int) (c : Collaborators) : Except Exn Bytes :=
  Except.mapError storageFailure do
    c.opened
    leaving c.closed (copyChunks maxUploadBytes c.chunks [])

/-! ## The body of the outer `try` -/

/-- The call of `extract` on a local file. -/
structure Extraction where
  mimeType : MimeType
  content : Bytes

/-- What stands inside `with tempfile.TemporaryDirectory`: the copy, the integrity check and the
extraction. -/
def process (env : Env) (maxUploadBytes : Int) (c : Collaborators) (document : Document) :
    Traced Extraction Exn (Option ExtractionResult) := do
  let content ← .call (fetch maxUploadBytes c)
  if content.length ≠ document.size ∨ env.sha256 content ≠ document.sha256 then
    .raise (.permanent .integrityError)
  else do
    .record ⟨document.mimeType, content⟩
    let result ← .call (c.extract document.mimeType content)
    return some result

/-- What the outer `try` does before it calls `finish`: the argument `result`, or an exception. The
query for the document runs without a lock; a missing document is finished without a result. -/
def work (env : Env) (maxUploadBytes : Int) (c : Collaborators) (db : Db) (job : Job) :
    Traced Extraction Exn (Option ExtractionResult) :=
  match job.kind with
  | .deleteObject => do
      .call (c.deleted.mapError fun _ => storageUnavailable)
      return none
  | .ocr => do
      .call c.queried
      match db.documents.find job.documentId with
      | none => return none
      | some document => do
          .call c.directory
          let body := process env maxUploadBytes c document
          ⟨body.events, leaving c.cleaned body.result⟩

/-! ## Finishing -/

/-- The failure each handler of `run_job` records. -/
def recorded : Exn → OCRFailure
  | .ocrFailure failure => failure
  | .softTimeLimitExceeded => ⟨.ocrTimeout, true⟩
  | _ => ⟨.unexpectedError, true⟩

/-- How a call of `finish` ends: it returns, or raises before or after its transaction committed. -/
inductive FinishAnswer
  | returned
  | rolledBack (e : Exn)
  | unacknowledged (e : Exn)

/-- A committed transaction of `finish`. -/
structure Finished where
  call : FinishCall
  before : Db
  after : Db
  reply : FinishReply

/-- What a delivery leaves: the database after its last transaction, the transactions of `finish` that
committed, and what it returned or raised. -/
structure JobRun where
  db : Db
  finished : List Finished
  answer : Except Exn FinishReply

/-- Everything else that decides how a delivery goes: what other processes do between its
transactions, and the draws and the end of each call of `finish`. -/
structure Surroundings where
  beforeRead : Db → Db
  beforeSuccess : Db → Db
  success : FinishAnswer
  successDraw : Draw
  successJitter : Fin 2000001
  beforeFailure : Db → Db
  failure : FinishAnswer
  failureDraw : Draw
  failureJitter : Fin 2000001

/-- One call of `finish`. -/
def callFinish (env : Env) (db : Db) (draw : Draw) (jitter : Fin 2000001) (job : Job)
    (call : FinishCall) (answer : FinishAnswer) : JobRun :=
  match finish env db draw jitter job call.result call.failed with
  | .error _ => ⟨db, [], .error .other⟩
  | .ok (after, reply) =>
      match answer with
      | .returned => ⟨after, [⟨call, db, after, reply⟩], .ok reply⟩
      | .rolledBack e => ⟨db, [], .error e⟩
      | .unacknowledged e => ⟨after, [⟨call, db, after, reply⟩], .error e⟩

/-- The handlers of `run_job`: the exception is recorded as a failure. -/
def handle (env : Env) (s : Surroundings) (db : Db) (job : Job) (e : Exn) : JobRun :=
  callFinish env (s.beforeFailure db) s.failureDraw s.failureJitter job (.failure (recorded e))
    s.failure

/-- `run_job` from the claimed job on. -/
def runClaimed (env : Env) (maxUploadBytes : Int) (c : Collaborators) (s : Surroundings) (db : Db)
    (job : Job) : JobRun :=
  let db := s.beforeRead db
  match (work env maxUploadBytes c db job).result with
  | .error e => handle env s db job e
  | .ok result =>
      let success := callFinish env (s.beforeSuccess db) s.successDraw s.successJitter job
        (.success result) s.success
      match success.answer with
      | .ok _ => success
      -- An error while a success is committed is handled like any other.
      | .error e =>
          let failure := handle env s success.db job e
          { failure with finished := success.finished ++ failure.finished }

/-- `run_job`; `none` is `"skipped"`. -/
def runJob (env : Env) (maxUploadBytes : Int) (c : Collaborators) (s : Surroundings) (db : Db)
    (draw : Draw) (token jobId : Uuid) : Except DbError (Option JobRun × Db) := do
  let (db, claimed) ← claim env db draw token jobId
  match claimed with
  | none => return (none, db)
  | some job =>
      let run := runClaimed env maxUploadBytes c s db job
      return (some run, run.db)

end MiniDms
