import MiniDms.Documents.Jobs
import MiniDms.Documents.Upload
import MiniDms.Transitions.Runs

/-! # The system

The database, the object store and every process that touches them: upload calls, deliveries of
`run_job`, dispatchers and the one-transaction requests. An `Event` names the next statement some
process executes and everything the environment decides about it: the clock, the random draws, which
rows are locked, whether a call fails. Any process may stop for ever at any point, since nothing
forces an event to happen; the broker may deliver any job identifier at any time, any number of
times. -/

namespace MiniDms

open Python Relational TransitionSystem

/-- One delivery of `run_job` that was granted its claim. -/
structure Delivery where
  /-- The job as `claim` returned it. -/
  job : Job
  /-- `default_storage.delete` has returned. -/
  deleted : Bool
  /-- The document was found missing by the read after the claim. -/
  missing : Bool

/-- Where a dispatcher stands inside `dispatch_once`. -/
inductive Dispatcher
  | idle
  /-- In the loop of `recover_expired`, before the listed candidates. -/
  | recovering (limit : Nat) (todo : List Uuid)
  /-- In the publication loop. -/
  | publishing (todo : List Uuid) (published : Nat)
  deriving DecidableEq

/-- The state of the whole system. -/
structure World where
  db : Db
  store : Store
  uploads : Nat → Option Upload
  deliveries : Nat → Option Delivery
  dispatchers : Nat → Dispatcher
  /-- Every random identifier drawn so far. -/
  drawn : List Uuid

/-- The system before the first request. -/
def World.init : World where
  db := .empty
  store := fun _ => none
  uploads := fun _ => none
  deliveries := fun _ => none
  dispatchers := fun _ => .idle
  drawn := []

/-- The two ways `run_job` calls `finish`. -/
inductive FinishCall
  | success (result : Option ExtractionResult)
  | failure (error : OCRFailure)

/-- The `result` argument. -/
def FinishCall.result : FinishCall → Option ExtractionResult
  | .success result => result
  | .failure _ => none

/-- The `failure` argument. -/
def FinishCall.failed : FinishCall → Option OCRFailure
  | .success _ => none
  | .failure error => some error

/-- When `run_job` reaches each call of `finish`: a success of a cleanup job after `delete`
returned, a success without a result of an OCR job after the document was found missing, a success
with a result only of an OCR job, a failure from any handler. -/
def Delivery.permits (d : Delivery) : FinishCall → Bool
  | .failure _ => true
  -- `finish(job)`, with neither a result nor a failure.
  | .success none =>
      match d.job.kind with
      | .deleteObject => d.deleted
      | .ocr => d.missing
  | .success (some _) => d.job.kind = .ocr

/-- The next statement of some process. -/
inductive Event
  | partialUpdate (request : Request) (body : Except ApiError Patch) (draw : Draw)
  | destroy (request : Request) (jobId : Uuid) (draw : Draw)
  | reprocess (request : Request) (jobId : Uuid) (draw : Draw)
  | enterUpload (call : Nat) (user : User) (data : UploadData) (key : Option Str)
      (requestId : Uuid)
  | upload (call : Nat) (move : UploadMove)
  | claim (delivery : Nat) (jobId token : Uuid) (draw : Draw)
  | readDocument (delivery : Nat)
  | deleteObject (delivery : Nat) (ack : Ack)
  | finish (delivery : Nat) (call : FinishCall) (jitter : Fin 2000001) (draw : Draw)
  | recoverExpired (dispatcher limit : Nat) (now : Timestamp) (candidates : List Uuid)
  | recoverNext (dispatcher : Nat) (locked : Bool) (token : Uuid) (jitter : Fin 2000001)
      (draw : Draw)
  | dispatchSelect (dispatcher : Nat) (now : Timestamp) (locked : List Uuid)
  | publish (dispatcher : Nat) (accepted : Bool)
  | stop (dispatcher : Nat)
  | retryCleanup (jobId : Uuid) (now : Timestamp)

/-- What the caller of a statement is answered. -/
inductive Reply
  | done
  | document (document : DocumentObject)
  | raised (error : ApiError)
  | skipped
  | claimed (job : Job)
  | finished (reply : FinishReply)

/-- The job a claim was answered with. -/
def Reply.granted : Reply → Option Job
  | .claimed job => some job
  | _ => none

/-- Only a claim is answered with a job. -/
theorem Reply.granted_eq_some_iff {r : Reply} {job : Job} :
    r.granted = some job ↔ r = .claimed job := by
  cases r <;> simp [granted]

/-- The random identifiers an upload statement draws. -/
def UploadMove.draws : UploadMove → List Uuid
  | .intend ids _ _ => [ids.documentId, ids.nonce, ids.intentId]
  | .save (.alternative name) _ => [name]
  | .commit draw jobId _ _ => [jobId, draw.eventId]
  | _ => []

/-- The store keeps an object under the name asked for or under an alternative of its own. -/
def UploadMove.honest (u : Upload) : UploadMove → Bool
  | .save (.requested user document nonce) _ =>
      u.ids.any fun ids => u.storageKey ids = .requested user document nonce
  | _ => true

/-- The candidates `recover_expired` may read: as many expired jobs as the limit allows, in any
order. -/
def Db.candidates (db : Db) (now : Timestamp) (limit : Nat) (ids : List Uuid) : Bool :=
  ids.Nodup && ids.all (fun id => (db.jobs.find id).any (expired now)) &&
    ids.length = min limit (db.jobs.rows.filter (expired now)).length

namespace World

/-- Draw identifiers, which must be fresh. -/
def draw (w : World) (ids : List Uuid) : Option World :=
  if ids.Nodup ∧ ∀ id ∈ ids, id ∉ w.drawn then some { w with drawn := ids ++ w.drawn } else none

/-- Commit what a request answered, or roll back. -/
def respond (w : World) : Except ApiError (Db × Reply) → World × Reply
  | .ok (db, reply) => ({ w with db := db }, reply)
  | .error e => (w, .raised e)

/-- Record where a dispatcher stands. -/
def setDispatcher (w : World) (d : Nat) (state : Dispatcher) : World :=
  { w with dispatchers := Function.update w.dispatchers d state }

/-- Record what a delivery holds. -/
def setDelivery (w : World) (d : Nat) (delivery : Delivery) : World :=
  { w with deliveries := Function.update w.deliveries d (some delivery) }

/-- Record where an upload stands. -/
def setUpload (w : World) (call : Nat) (u : Upload) : World :=
  { w with uploads := Function.update w.uploads call (some u) }

/-- Execute one event; `none` when no process can execute it. -/
def perform (env : Env) (w : World) : Event → Option (World × Reply)
  | .partialUpdate request body draw => do
      let w ← w.draw [draw.eventId]
      return w.respond ((MiniDms.partialUpdate env w.db draw request body).map
        fun r => (r.1, .document r.2))
  | .destroy request jobId draw => do
      let w ← w.draw [jobId, draw.eventId]
      return w.respond ((MiniDms.destroy w.db draw jobId request).map fun db => (db, .done))
  | .reprocess request jobId draw => do
      let w ← w.draw [jobId, draw.eventId]
      return w.respond ((MiniDms.reprocess env w.db draw jobId request).map
        fun r => (r.1, .document r.2))
  | .enterUpload call user data key requestId =>
      -- Every call has a number of its own: a repeated request is another call.
      if (w.uploads call).isSome then none
      else some (w.setUpload call (.enter env user data key requestId), .done)
  | .upload call move => do
      let u ← w.uploads call
      let w ← w.draw move.draws
      -- The draws count as drawn even when the statement then fails.
      if move.honest u then
        let (db, store, u) ← u.step env w.db w.store move
        return ({ w.setUpload call u with db := db, store := store }, .done)
      else none
  | .claim delivery jobId token draw => do
      let w ← w.draw [token, draw.eventId]
      if (w.deliveries delivery).isSome then none
      else
        match MiniDms.claim env w.db draw token jobId with
        | .error e => return (w, .raised (.database e))
        -- Nothing was granted, but the claim may have completed a job without a document.
        | .ok (db, none) => return ({ w with db := db }, .skipped)
        | .ok (db, some job) =>
            return ({ w.setDelivery delivery ⟨job, false, false⟩ with db := db }, .claimed job)
  | .readDocument delivery => do
      let d ← w.deliveries delivery
      if d.job.kind = .ocr then
        let missing := d.missing || (w.db.documents.find d.job.documentId).isNone
        return (w.setDelivery delivery { d with missing := missing }, .done)
      else none
  | .deleteObject delivery ack => do
      let d ← w.deliveries delivery
      match d.job.kind, d.job.storageKey with
      | .deleteObject, some key =>
          -- Deleting an object that is not there succeeds as well.
          let store := if ack.applied then Function.update w.store key none else w.store
          return ({ w.setDelivery delivery { d with deleted := d.deleted || ack = .ok } with
            store := store }, .done)
      | _, _ => none
  | .finish delivery call jitter draw => do
      let d ← w.deliveries delivery
      let w ← w.draw [draw.eventId]
      -- `finish` reads the job by its primary key; a missing row raises.
      if d.permits call then
        return w.respond (((MiniDms.finish env w.db draw jitter d.job call.result call.failed).map
          fun r => (r.1, .finished r.2)).mapError .database)
      else none
  | .recoverExpired dispatcher limit now candidates =>
      if w.dispatchers dispatcher = .idle ∧ w.db.candidates now limit candidates then
        some (w.setDispatcher dispatcher (.recovering limit candidates), .done)
      else none
  | .recoverNext dispatcher locked token jitter draw =>
      match w.dispatchers dispatcher with
      | .recovering limit (id :: todo) => do
          let w ← w.draw [token, draw.eventId]
          let w := w.setDispatcher dispatcher (.recovering limit todo)
          -- `skip_locked`: the candidate is left to whoever holds its row.
          if locked then return (w, .skipped)
          else
            match recoverOne env w.db draw token jitter id with
            | .ok (db, true) => return ({ w with db := db }, .done)
            | .ok (_, false) => return (w, .skipped)
            -- The exception leaves `dispatch_once`; nothing of this iteration is committed.
            | .error e => return (w.setDispatcher dispatcher .idle, .raised (.database e))
      | _ => none
  | .dispatchSelect dispatcher now locked =>
      match w.dispatchers dispatcher with
      -- The loop of `recover_expired` has run out of candidates.
      | .recovering limit [] =>
          let ids := (selectDue w.db now limit locked).map Job.id
          some ({ w.setDispatcher dispatcher (.publishing ids 0) with
            db := stampDispatched w.db now ids }, .done)
      | _ => none
  | .publish dispatcher accepted =>
      match w.dispatchers dispatcher with
      | .publishing (_ :: todo) published =>
          -- The first failing publication breaks the loop.
          let state := if accepted then .publishing todo (published + 1) else .idle
          some (w.setDispatcher dispatcher state, .done)
      | _ => none
  | .stop dispatcher => some (w.setDispatcher dispatcher .idle, .done)
  | .retryCleanup jobId now =>
      match MiniDms.retryCleanup w.db now jobId with
      | some db => some ({ w with db := db }, .done)
      | none => some (w, .raised .notFound)

end World

/-- One executed event. -/
abbrev Step := Transition World Event Reply

/-- A run of the system from its initial state, newest step first. -/
abbrev History (env : Env) (h : List Step) (w : World) : Prop :=
  Run (World.perform env) World.init h w

/-! ## A sample run

One user uploads a small PDF; a worker claims the OCR job and stores its text. -/

/-- The library functions on the texts of the sample run, which are plain ASCII. -/
def sampleEnv : Env where
  nfkc := id
  casefold text := text.map fun c => if 65 ≤ c.val ∧ c.val ≤ 90 then c + 32 else c
  toTsvector text :=
    if text = lit "invoice   [] \x7b\x7d " then [(lit "invoice", [1])]
    else if text = lit "invoice   [] \x7b\x7d invoice 42" then
      [(lit "42", [3]), (lit "invoice", [1, 2])]
    else [(lit "42", [4]), (lit "invoice", [1, 3]), (lit "paid", [2])]
  sha256 _ := lit "074e94200ce7271773f4337c429959ee576e172fbe173ca009b6587162655cf4"

/-- The uploading user. -/
def sampleUser : User := ⟨7, false⟩

/-- The uploaded file and its metadata. -/
def sampleData : UploadData where
  title := lit "Invoice"
  description := []
  documentType := []
  tags := .list []
  metadata := .dict []
  file :=
    { name := lit "a.pdf"
      size := 14
      sha256 := lit "d5db70fbccdd8ccc6a553604b79a09cd33083b401340d546efa08a52142c972e"
      detectedType := .pdf
      content := [37, 80, 68, 70, 45, 49, 46, 55, 10, 37, 37, 69, 79, 70] }

/-- The statements of the upload. -/
def sampleUpload : List Event :=
  [.enterUpload 0 sampleUser sampleData (some (lit "k")) 100,
    .upload 0 (.check false),
    .upload 0 (.intend ⟨1, 2, 3⟩ 0 .ok),
    .upload 0 (.save (.requested 7 1 2) .ok),
    .upload 0 (.commit ⟨1000, 4⟩ 5 none .ok)]

/-- The upload, the claim of its OCR job and the successful completion. -/
def sampleEvents : List Event :=
  sampleUpload ++
    [.claim 0 5 6 ⟨2000, 7⟩,
      .finish 0 (.success (some ⟨lit "Invoice 42", .dict [(lit "pages", .int 1)]⟩)) 0 ⟨3000, 8⟩]

/-- The recorded sample run, if every event of it is possible. -/
def sample : Option (List Step × World) :=
  Run.execute (World.perform sampleEnv) ([], .init) sampleEvents

/-- Every event of the sample run is possible. -/
theorem sample_isSome : sample.isSome = true := by decide +kernel

/-- The transitions of the sample run. -/
def sampleHistory : List Step := (sample.get sample_isSome).1

/-- The state the sample run ends in. -/
def sampleWorld : World := (sample.get sample_isSome).2

/-- The sample run is a run of the system. -/
theorem sample_history : History sampleEnv sampleHistory sampleWorld :=
  Run.of_isSome rfl sample_isSome

/-- The upload of the sample. -/
def sampleFresh : Option (List Step × World) :=
  Run.execute (World.perform sampleEnv) ([], .init) sampleUpload

/-- Every statement of the upload is possible. -/
theorem sampleFresh_isSome : sampleFresh.isSome = true := by decide +kernel

/-- The state after the upload, before a worker takes the job. -/
def sampleFreshWorld : World := (sampleFresh.get sampleFresh_isSome).2

/-- The state after the upload is reachable. -/
theorem sampleFresh_history :
    History sampleEnv (sampleFresh.get sampleFresh_isSome).1 sampleFreshWorld :=
  Run.of_isSome rfl sampleFresh_isSome

end MiniDms
