import MiniDms.Documents.Services

/-! # Jobs: claims, fenced completion, recovery and dispatch

Every function here is one transaction under the lock of the job row, then of the document row. The
clock is read once for a transaction and handed in with the other values drawn from outside. -/

namespace MiniDms

open Python Relational

/-- `JOB_LEASE_SECONDS`. -/
def jobLeaseSeconds : Nat := 240

/-- `JOB_REDISPATCH_SECONDS`. -/
def jobRedispatchSeconds : Nat := 30

/-- The jitter has a range. -/
instance jitterNeZero : NeZero 2000001 := ⟨by decide⟩

/-- The deterministic part of `backoff`, in seconds. -/
def backoffSeconds (attempt : Nat) : Nat := min 600 (5 * 2 ^ (attempt - 1))

/-- `backoff`; the jitter is `random.uniform(0, 2)` in microseconds. -/
def backoff (attempt : Nat) (jitter : Fin 2000001) : Int :=
  seconds (backoffSeconds attempt) + jitter.val

/-- The document status that mirrors a job state. `finish` maps the three states it can leave a job
in; a running job's document is processing since the claim. -/
def JobState.documentStatus : JobState → Status
  | .pending => .pending
  | .running => .processing
  | .succeeded => .succeeded
  | .failed => .failed

/-- `_transition`. -/
def transition (env : Env) (db : Db) (draw : Draw) (document : DocumentObject) (state : Status)
    (job : Job) (errorCode : Option ErrorCode) (result : Option ExtractionResult) :
    Except DbError Db := do
  -- The status the row had is what the audit event reports as the previous one.
  let previous := document.status
  let columns : DocumentColumns :=
    { document.toDocumentColumns with
      status := state
      attempts := job.attempts
      errorCode := errorCode
      errorMessage := messageFor errorCode }
  let document : DocumentObject :=
    match result with
    | none => { document with toDocumentColumns := columns }
    | some result =>
        { document with
          toDocumentColumns :=
            { columns with processingInfo := result.info, processedAt := some draw.now }
          extractedText := some result.text }
  let (db, document) ← document.save env db draw.now
  return audit db draw document.toDocumentColumns
    (.statusChanged previous state job.attempts errorCode job.id) job.requestId none

/-! ## Claim -/

/-- The row `claim` writes: running, one more attempt, a new token and a lease. -/
def take (draw : Draw) (token : Uuid) (job : Job) : Job :=
  { job with
    state := .running
    attempts := job.attempts + 1
    runToken := some token
    leaseUntil := some (draw.now + seconds jobLeaseSeconds)
    updatedAt := draw.now }

/-- The second write of a claim that finds the document gone. -/
def discard (job : Job) : Job := { job with state := .succeeded, leaseUntil := none }

/-- `claim`. The answer is the claimed job as the worker holds it, or `none`. -/
def claim (env : Env) (db : Db) (draw : Draw) (token : Uuid) (jobId : Uuid) :
    Except DbError (Db × Option Job) :=
  match db.jobs.find jobId with
  | none => .ok (db, none)
  | some job =>
      if job.state ≠ .pending ∨ draw.now < job.availableAt then .ok (db, none)
      else do
        -- The attempt is counted before the work starts, so that a lost worker has used it up.
        let job := take draw token job
        let db := db.putJob job
        match job.kind with
        | .deleteObject => return (db, some job)
        | .ocr =>
            match db.documents.find job.documentId with
            -- The document has been deleted: the job completes under the same lock.
            | none => return (db.putJob (discard job), none)
            | some row =>
                return (← transition env db draw row.load .processing job none none, some job)

/-! ## Finish -/

/-- What `finish` returns: `"stale"`, or the state it left the job in. -/
inductive FinishReply
  | stale
  | settled (state : JobState)
  deriving DecidableEq, Repr

/-- The row `finish` writes for a job whose token and state it has checked. -/
def settle (now : Timestamp) (jitter : Fin 2000001) (failure : Option OCRFailure) (current : Job) :
    Job :=
  let current := { current with leaseUntil := none, dispatchedAt := none, updatedAt := now }
  match failure with
  | some failure =>
      -- The attempts of the locked row count, not those of the job the caller holds.
      let retry := failure.retryable && current.attempts < current.maxAttempts
      { current with
        state := if retry then .pending else .failed
        errorCode := some failure.code
        availableAt := now + backoff current.attempts jitter }
  | none => { current with state := .succeeded, errorCode := none }

/-- `finish`. -/
def finish (env : Env) (db : Db) (draw : Draw) (jitter : Fin 2000001) (job : Job)
    (result : Option ExtractionResult) (failure : Option OCRFailure) :
    Except DbError (Db × FinishReply) :=
  match db.jobs.find job.id with
  | none => .error .doesNotExist
  | some current =>
      -- Another claim or a recovery has fenced the caller, or the job has settled already.
      if current.runToken ≠ job.runToken ∨ current.state ≠ .running then .ok (db, .stale)
      else do
        let current := settle draw.now jitter failure current
        let db := db.putJob current
        match current.kind, db.documents.find current.documentId with
        | .ocr, some row =>
            return (← transition env db draw row.load current.state.documentStatus current
              current.errorCode result, .settled current.state)
        -- A cleanup job, or an OCR job that outlived its document.
        | _, _ => return (db, .settled current.state)

/-! ## Recovery of expired leases -/

/-- A running job whose lease has run out. -/
def expired (now : Timestamp) (job : Job) : Bool :=
  job.state = .running && job.leaseUntil.any (· ≤ now)

/-- The failure recorded for a lost worker. -/
def workerLost : OCRFailure := ⟨.workerLost, true⟩

/-- The new token that fences an old worker even if it resumes. -/
def fence (draw : Draw) (token : Uuid) (job : Job) : Job :=
  { job with runToken := some token, updatedAt := draw.now }

/-- One iteration of the loop of `recover_expired`: the row is locked and checked again, fenced with
a new token, and finished as lost. The answer says whether the job was recovered. -/
def recoverOne (env : Env) (db : Db) (draw : Draw) (token : Uuid) (jitter : Fin 2000001)
    (jobId : Uuid) : Except DbError (Db × Bool) :=
  match db.jobs.find jobId with
  | none => .ok (db, false)
  | some job =>
      -- The candidate list was read without a lock, so the locked row is checked again.
      if expired draw.now job then do
        let db := db.updateJob jobId (fence draw token)
        let (db, _) ← finish env db draw jitter (fence draw token job) none (some workerLost)
        return (db, true)
      else .ok (db, false)

/-! ## Dispatch -/

/-- The condition of the dispatcher's query: pending, available, and not dispatched within the
redispatch interval. -/
def due (now : Timestamp) (job : Job) : Bool :=
  job.dispatchedAt.all (· ≤ now - seconds jobRedispatchSeconds) && job.state = .pending &&
    job.availableAt ≤ now

/-- `order_by("available_at", "id")`. -/
def dispatchOrder (a b : Job) : Bool :=
  a.availableAt < b.availableAt || (a.availableAt = b.availableAt && a.id ≤ b.id)

/-- The jobs one dispatcher transaction selects; `locked` are the rows other transactions hold,
which `skip_locked` passes over. -/
def selectDue (db : Db) (now : Timestamp) (limit : Nat) (locked : List Uuid) : List Job :=
  ((db.jobs.rows.filter fun j => due now j && j.id ∉ locked).insertionSort
    fun a b => dispatchOrder a b).take limit

/-- `Job.objects.filter(pk__in=ids).update(dispatched_at=now)`. -/
def stampDispatched (db : Db) (now : Timestamp) (ids : List Uuid) : Db :=
  db.updateJobs (fun j => j.id ∈ ids) fun j => { j with dispatchedAt := some now }

/-! ## Rearming a failed cleanup -/

/-- The row `retry_cleanup` writes. -/
def rearm (now : Timestamp) (job : Job) : Job :=
  { job with
    state := .pending
    attempts := 0
    errorCode := none
    dispatchedAt := none
    availableAt := now
    updatedAt := now }

/-- The command `retry_cleanup`; `none` is its `CommandError`. -/
def retryCleanup (db : Db) (now : Timestamp) (jobId : Uuid) : Option Db :=
  match db.jobs.find jobId with
  | none => none
  | some job =>
      if job.kind = .deleteObject ∧ job.state = .failed then
        some (db.putJob (rearm now job))
      else none

/-! ## What settling keeps -/

@[simp] theorem settle_id (now : Timestamp) (jitter : Fin 2000001) (failure : Option OCRFailure)
    (job : Job) : (settle now jitter failure job).id = job.id := by cases failure <;> rfl

@[simp] theorem settle_kind (now : Timestamp) (jitter : Fin 2000001) (failure : Option OCRFailure)
    (job : Job) : (settle now jitter failure job).kind = job.kind := by cases failure <;> rfl

@[simp] theorem settle_documentId (now : Timestamp) (jitter : Fin 2000001)
    (failure : Option OCRFailure) (job : Job) :
    (settle now jitter failure job).documentId = job.documentId := by cases failure <;> rfl

@[simp] theorem settle_storageKey (now : Timestamp) (jitter : Fin 2000001)
    (failure : Option OCRFailure) (job : Job) :
    (settle now jitter failure job).storageKey = job.storageKey := by cases failure <;> rfl

@[simp] theorem settle_attempts (now : Timestamp) (jitter : Fin 2000001)
    (failure : Option OCRFailure) (job : Job) :
    (settle now jitter failure job).attempts = job.attempts := by cases failure <;> rfl

@[simp] theorem settle_maxAttempts (now : Timestamp) (jitter : Fin 2000001)
    (failure : Option OCRFailure) (job : Job) :
    (settle now jitter failure job).maxAttempts = job.maxAttempts := by cases failure <;> rfl

@[simp] theorem settle_runToken (now : Timestamp) (jitter : Fin 2000001)
    (failure : Option OCRFailure) (job : Job) :
    (settle now jitter failure job).runToken = job.runToken := by cases failure <;> rfl

/-- A settled row waits for a dispatch of its own. -/
@[simp] theorem settle_dispatchedAt (now : Timestamp) (jitter : Fin 2000001)
    (failure : Option OCRFailure) (job : Job) :
    (settle now jitter failure job).dispatchedAt = none := by cases failure <;> rfl

/-- Settling takes a job out of the running state. -/
theorem settle_state_ne_running (now : Timestamp) (jitter : Fin 2000001)
    (failure : Option OCRFailure) (job : Job) :
    (settle now jitter failure job).state ≠ .running := by
  cases failure with
  | none => simp [settle]
  | some failure =>
      simp only [settle]
      split <;> simp

/-! ## What each transaction commits -/

/-- The columns `_transition` leaves. -/
def DocumentColumns.moved (document : DocumentColumns) (now : Timestamp) (state : Status) (job : Job)
    (errorCode : Option ErrorCode) (result : Option ExtractionResult) : DocumentColumns :=
  { document with
    status := state
    attempts := job.attempts
    errorCode := errorCode
    errorMessage := messageFor errorCode
    processingInfo := (result.map ExtractionResult.info).getD document.processingInfo
    processedAt := if result.isSome then some now else document.processedAt
    updatedAt := now }

/-- The row `_transition` leaves. -/
def Document.move (env : Env) (row : Document) (now : Timestamp) (state : Status) (job : Job)
    (errorCode : Option ErrorCode) (result : Option ExtractionResult) : Document :=
  .indexed env (row.moved now state job errorCode result)
    ((result.map ExtractionResult.text).getD row.extractedText)

/-- A moved row keeps its primary key. -/
@[simp] theorem Document.move_id (env : Env) (row : Document) (now : Timestamp) (state : Status)
    (job : Job) (errorCode : Option ErrorCode) (result : Option ExtractionResult) :
    (row.move env now state job errorCode result).id = row.id := rfl

/-- The database after `_transition`: the moved row and one audit event. -/
def moveDocument (env : Env) (db : Db) (draw : Draw) (row : Document) (state : Status) (job : Job)
    (errorCode : Option ErrorCode) (result : Option ExtractionResult) : Db :=
  audit (db.putDocument (row.move env draw.now state job errorCode result)) draw
    (row.moved draw.now state job errorCode result)
    (.statusChanged row.status state job.attempts errorCode job.id) job.requestId none

/-- Moving a document leaves the jobs alone. -/
@[simp] theorem moveDocument_jobs (env : Env) (db : Db) (draw : Draw) (row : Document)
    (state : Status) (job : Job) (errorCode : Option ErrorCode)
    (result : Option ExtractionResult) :
    (moveDocument env db draw row state job errorCode result).jobs = db.jobs := rfl

/-- Moving a document puts the moved row. -/
@[simp] theorem moveDocument_documents (env : Env) (db : Db) (draw : Draw) (row : Document)
    (state : Status) (job : Job) (errorCode : Option ErrorCode)
    (result : Option ExtractionResult) :
    (moveDocument env db draw row state job errorCode result).documents =
      db.documents.put (row.move env draw.now state job errorCode result) := rfl

/-- Moving a document records the change of status. -/
@[simp] theorem moveDocument_auditEvents (env : Env) (db : Db) (draw : Draw) (row : Document)
    (state : Status) (job : Job) (errorCode : Option ErrorCode)
    (result : Option ExtractionResult) :
    (moveDocument env db draw row state job errorCode result).auditEvents =
      db.auditEvents ++ [auditEvent draw (row.moved draw.now state job errorCode result)
        (.statusChanged row.status state job.attempts errorCode job.id) job.requestId none] := rfl

/-- `_transition` on the object loaded from a row moves that row. -/
theorem transition_load {env : Env} {db : Db} {draw : Draw} {row : Document} {state : Status}
    {job : Job} {errorCode : Option ErrorCode} {result : Option ExtractionResult}
    (h : db.documents.find row.id = some row) :
    transition env db draw row.load state job errorCode result =
      .ok (moveDocument env db draw row state job errorCode result) := by
  cases result with
  | none =>
      simp only [transition, Document.load]
      rw [DocumentObject.save_loaded]
      · rfl
      · exact h
  | some result =>
      simp only [transition, Document.load]
      rw [DocumentObject.save_loaded]
      · rfl
      · exact h

/-- A claim skips a job that is missing, not pending or not yet available. -/
def Claimable (now : Timestamp) (job : Job) : Prop := job.state = .pending ∧ job.availableAt ≤ now

/-- Whether a job can be claimed is decided by its columns. -/
instance (now : Timestamp) (job : Job) : Decidable (Claimable now job) :=
  inferInstanceAs (Decidable (_ ∧ _))

/-- A job cannot be claimed when it is not pending or not yet available. -/
theorem not_claimable_iff {now : Timestamp} {job : Job} :
    ¬ Claimable now job ↔ job.state ≠ .pending ∨ now < job.availableAt := by
  rw [Claimable, not_and_or, not_le]

/-- **What a claim commits.** Nothing for a job that cannot be claimed; otherwise the taken row. A
cleanup job is granted; an OCR job is granted and its document starts processing, unless the
document is gone, when the job is completed at once and nothing is granted. -/
theorem claim_cases {env : Env} {db db' : Db} {draw : Draw} {token jobId : Uuid}
    {granted : Option Job} (h : claim env db draw token jobId = .ok (db', granted)) :
    (db' = db ∧ granted = none ∧ ∀ job, db.jobs.find jobId = some job → ¬ Claimable draw.now job) ∨
    ∃ job, db.jobs.find jobId = some job ∧ Claimable draw.now job ∧
      ((job.kind = .deleteObject ∧ db' = db.putJob (take draw token job) ∧
          granted = some (take draw token job)) ∨
        (job.kind = .ocr ∧ db.documents.find job.documentId = none ∧ granted = none ∧
          db' = (db.putJob (take draw token job)).putJob (discard (take draw token job))) ∨
        ∃ row, job.kind = .ocr ∧ db.documents.find job.documentId = some row ∧
          granted = some (take draw token job) ∧
          db' = moveDocument env (db.putJob (take draw token job)) draw row .processing
            (take draw token job) none none) := by
  unfold claim at h
  cases hjob : db.jobs.find jobId with
  | none =>
      rw [hjob] at h
      cases h
      exact .inl ⟨rfl, rfl, fun job hj => by cases hj⟩
  | some job =>
      rw [hjob] at h
      dsimp only at h
      by_cases hskip : job.state ≠ .pending ∨ draw.now < job.availableAt
      · rw [if_pos hskip] at h
        cases h
        refine .inl ⟨rfl, rfl, fun job' hj => ?_⟩
        cases hj
        exact not_claimable_iff.mpr hskip
      -- From here on the row has been taken, and the branches are those of its kind.
      · rw [if_neg hskip] at h
        refine .inr ⟨job, rfl, not_not.mp (mt not_claimable_iff.mp hskip), ?_⟩
        have hkind : (take draw token job).kind = job.kind := rfl
        cases hk : job.kind with
        | deleteObject =>
            rw [hkind, hk] at h
            cases h
            exact .inl ⟨rfl, rfl, rfl⟩
        | ocr =>
            rw [hkind, hk] at h
            dsimp only at h
            have hdoc : (take draw token job).documentId = job.documentId := rfl
            rw [hdoc, Db.putJob_documents] at h
            cases hrow : db.documents.find job.documentId with
            | none =>
                rw [hrow] at h
                cases h
                exact .inr (.inl ⟨rfl, rfl, rfl, rfl⟩)
            | some row =>
                rw [hrow] at h
                -- The claim wrote the job table only: the document row is still the one it reads.
                obtain ⟨db₁, htr, h⟩ := bind_eq_ok.mp h
                rw [transition_load (by rw [Db.putJob_documents, Table.key_of_find hrow]; exact hrow)]
                  at htr
                cases htr
                cases h
                exact .inr (.inr ⟨row, rfl, rfl, rfl, rfl⟩)

/-- The database after a job has been settled: the settled row and, for an OCR job whose document
still exists, the moved document. -/
def settleJob (env : Env) (db : Db) (draw : Draw) (current : Job)
    (result : Option ExtractionResult) : Db :=
  match current.kind, db.documents.find current.documentId with
  | .ocr, some row =>
      moveDocument env (db.putJob current) draw row current.state.documentStatus current
        current.errorCode result
  | _, _ => db.putJob current

/-- Settling puts the settled row. -/
@[simp] theorem settleJob_jobs (env : Env) (db : Db) (draw : Draw) (current : Job)
    (result : Option ExtractionResult) :
    (settleJob env db draw current result).jobs = db.jobs.put current := by
  unfold settleJob
  split <;> rfl

/-- Settling a job writes over the row of its document, if there is one. -/
theorem settleJob_documents (env : Env) (db : Db) (draw : Draw) (current : Job)
    (result : Option ExtractionResult) :
    (settleJob env db draw current result).documents = db.documents ∨
      ∃ row, db.documents.find current.documentId = some row ∧
        (settleJob env db draw current result).documents =
          db.documents.put (row.move env draw.now current.state.documentStatus current
            current.errorCode result) := by
  unfold settleJob
  split
  · next row _ hrow => exact .inr ⟨row, hrow, rfl⟩
  · exact .inl rfl

/-- **What `finish` does.** It answers `"stale"` and writes nothing unless the row is running under
the token the caller holds; then it settles the job. It never fails on an existing row. -/
theorem finish_of_find {env : Env} {db : Db} {draw : Draw} {jitter : Fin 2000001} {job current : Job}
    {result : Option ExtractionResult} {failure : Option OCRFailure}
    (hjob : db.jobs.find job.id = some current) :
    finish env db draw jitter job result failure = .ok
      (if current.runToken = job.runToken ∧ current.state = .running then
        (settleJob env db draw (settle draw.now jitter failure current) result,
          .settled (settle draw.now jitter failure current).state)
      else (db, .stale)) := by
  unfold finish
  rw [hjob]
  dsimp only
  by_cases hlive : current.runToken = job.runToken ∧ current.state = .running
  · have hstale : ¬ (current.runToken ≠ job.runToken ∨ current.state ≠ .running) := by tauto
    rw [if_neg hstale, if_pos hlive]
    -- The document write does not depend on how the job was settled.
    generalize settle draw.now jitter failure current = settled
    rw [settleJob, Db.putJob_documents]
    cases hk : settled.kind with
    | deleteObject => rfl
    | ocr =>
        cases hrow : db.documents.find settled.documentId with
        | none => rfl
        | some row =>
            dsimp only
            rw [transition_load (by
              rw [Db.putJob_documents, Table.key_of_find hrow]
              exact hrow)]
            rfl
  · have hstale : current.runToken ≠ job.runToken ∨ current.state ≠ .running := by tauto
    rw [if_pos hstale, if_neg hlive]

/-- An expired job is running. -/
theorem running_of_expired {now : Timestamp} {job : Job} (h : expired now job = true) :
    job.state = .running := by
  simpa using (Bool.and_eq_true_iff.mp h).1

/-- **What one recovery does.** A job that is still expired is fenced and settled as lost. -/
theorem recoverOne_of_find {env : Env} {db : Db} {draw : Draw} {token jobId : Uuid}
    {jitter : Fin 2000001} {job : Job} (hjob : db.jobs.find jobId = some job) :
    recoverOne env db draw token jitter jobId = .ok
      (if expired draw.now job then
        (settleJob env (db.updateJob jobId (fence draw token)) draw
          (settle draw.now jitter (some workerLost) (fence draw token job)) none, true)
      else (db, false)) := by
  unfold recoverOne
  rw [hjob]
  dsimp only
  by_cases hexp : expired draw.now job = true
  · rw [if_pos hexp, if_pos hexp]
    have hid : job.id = jobId := Table.key_of_find hjob
    -- `finish` reads the row the fence has just written, so its token check passes.
    have hfind : (db.updateJob jobId (fence draw token)).jobs.find (fence draw token job).id =
        some (fence draw token job) := by
      rw [Db.find_updateJob]
      simp only [fence, hid, if_true, hjob, Option.map_some]
    have hrun : (fence draw token job).state = .running := running_of_expired hexp
    rw [finish_of_find hfind, if_pos ⟨rfl, hrun⟩]
    rfl
  · rw [if_neg hexp, if_neg hexp]

/-- **What `retry_cleanup` commits.** A failed cleanup job, and only that, is pending again with its
attempts and dispatch stamp cleared. -/
theorem retryCleanup_eq_some_iff {db db' : Db} {now : Timestamp} {jobId : Uuid} :
    retryCleanup db now jobId = some db' ↔
      ∃ job, db.jobs.find jobId = some job ∧ job.kind = .deleteObject ∧ job.state = .failed ∧
        db.putJob (rearm now job) = db' := by
  unfold retryCleanup
  cases db.jobs.find jobId with
  | none => simp
  | some job => simp [and_assoc]

end MiniDms
