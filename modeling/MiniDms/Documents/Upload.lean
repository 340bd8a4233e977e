import MiniDms.Documents.Services

/-! # `create_document` as a process

An upload is not one transaction. It checks for a replay, commits a cleanup intent, writes the
object, and only then commits the document, with calls to the database and to the store in between
that can each fail before or after they took effect. `Upload.step` advances one call by one such
statement; the environment chooses how the statement ends, and may kill the process at any point. -/

namespace MiniDms

open Python Relational

/-- The content of the object store. -/
abbrev Store := StorageKey → Option Bytes

/-- A validated file, with what `validate_file` attached to it. -/
structure UploadedFile where
  name : Str
  size : Nat
  sha256 : Str
  detectedType : MimeType
  content : Bytes

/-- The validated data of an upload. -/
structure UploadData where
  title : Str
  description : Str
  documentType : Str
  tags : Json
  metadata : Json
  file : UploadedFile

/-- The string whose hash is the request fingerprint; `none` is the `ValueError` of
`allow_nan=False`. -/
def fingerprintText (data : UploadData) : Option Str :=
  let payload := Json.dict
    [(lit "title", .str data.title), (lit "description", .str data.description),
      (lit "document_type", .str data.documentType), (lit "tags", data.tags),
      (lit "metadata", data.metadata), (lit "sha256", .str data.file.sha256),
      (lit "filename", .str data.file.name)]
  if payload.finite then some payload.sorted.dumps else none

/-- The request fingerprint; `none` when encoding the payload raises. -/
def fingerprint (env : Env) (data : UploadData) : Option Str :=
  (fingerprintText data).bind encode |>.map env.sha256

/-- The identifiers a call draws before it commits its intent. -/
structure UploadIds where
  documentId : Uuid
  nonce : Uuid
  intentId : Uuid
  deriving DecidableEq, Repr

/-- Where a call stands. -/
inductive UploadPc
  /-- Before the first replay check. -/
  | entered
  /-- No replay found; before the intent is created. -/
  | checked
  /-- The intent is committed; before the object is saved. -/
  | intended (ids : UploadIds)
  /-- The object is saved under another name than the intent carries. -/
  | saved (ids : UploadIds) (actual : StorageKey)
  /-- The intent names the object; before the document transaction. -/
  | named (ids : UploadIds) (actual : StorageKey)
  /-- In the handler `except Conflict`. -/
  | conflicting (ids : UploadIds)
  /-- In the handler `except Exception`. -/
  | failing (ids : UploadIds)
  /-- Returned a document and whether the call created it. -/
  | returned (document : DocumentObject) (created : Bool)
  /-- Raised an error. -/
  | raised (error : ApiError)
  /-- The process died. -/
  | dead

/-- The call is over: it returned, raised, or its process died. -/
def UploadPc.ended : UploadPc → Bool
  | .returned .. | .raised _ | .dead => true
  | _ => false

/-- The identifiers a call at this point works with. -/
def UploadPc.ids : UploadPc → Option UploadIds
  | .intended ids | .saved ids _ | .named ids _ | .conflicting ids | .failing ids => some ids
  | _ => none

/-- One call of `create_document`. -/
structure Upload where
  user : User
  data : UploadData
  key : Option Str
  requestId : Uuid
  fingerprint : Str
  pc : UploadPc
  /-- The identifiers, once drawn. -/
  ids : Option UploadIds
  /-- The rows this call's own committed statements wrote, as a database of their own. -/
  effect : Db

/-- How a call to the database or the store ended: normally, with an exception and without effect,
or with an exception although it took effect. -/
inductive Ack
  | ok
  | lost
  | unacknowledged
  deriving DecidableEq, Repr

/-- Whether the statement took effect. -/
def Ack.applied : Ack → Bool
  | .lost => false
  | _ => true

/-- The statements inside the document transaction. -/
inductive Statement
  | lockOwner
  | replay
  | expediteIntent
  | createDocument
  | auditCreated
  | createJob
  | completeIntent
  deriving DecidableEq, Repr

/-- The next statement of a call, and how the environment lets it end. -/
inductive UploadMove
  /-- The first `_replay`; `fails` is a raising query. -/
  | check (fails : Bool)
  /-- `Job.objects.create(kind=DELETE, ...)`. -/
  | intend (ids : UploadIds) (now : Timestamp) (ack : Ack)
  /-- `default_storage.save`, which stores under `actual`. -/
  | save (actual : StorageKey) (ack : Ack)
  /-- `intent.save(update_fields=["storage_key", "updated_at"])`. -/
  | rename (now : Timestamp) (ack : Ack)
  /-- The document transaction; `fault` is a statement that raises, `ack` how the commit ends. -/
  | commit (draw : Draw) (jobId : Uuid) (fault : Option Statement) (ack : Ack)
  /-- `Job.objects.filter(pk=intent.pk).update(available_at=...)` in a handler. -/
  | expedite (now : Timestamp) (ack : Ack)
  /-- The process dies. -/
  | die

namespace Upload

/-- The name the call asks the store for. -/
def storageKey (u : Upload) (ids : UploadIds) : StorageKey :=
  .requested u.user.pk ids.documentId ids.nonce

/-- The cleanup intent, due in an hour. -/
def intent (u : Upload) (ids : UploadIds) (now : Timestamp) : Job where
  id := ids.intentId
  documentId := ids.documentId
  kind := .deleteObject
  storageKey := some (u.storageKey ids)
  maxAttempts := 8
  availableAt := now + seconds 3600
  requestId := u.requestId
  createdAt := now
  updatedAt := now

/-- The document the call creates. -/
def document (u : Upload) (ids : UploadIds) (actual : StorageKey) (now : Timestamp) :
    DocumentColumns where
  id := ids.documentId
  owner := u.user.pk
  storageKey := actual
  filename := u.data.file.name
  mimeType := u.data.file.detectedType
  size := u.data.file.size
  sha256 := u.data.file.sha256
  title := u.data.title
  description := u.data.description
  documentType := u.data.documentType
  tags := u.data.tags
  metadata := u.data.metadata
  createdAt := now
  updatedAt := now
  revision := 1
  status := .pending
  processingInfo := .dict []
  errorCode := none
  errorMessage := ""
  attempts := 0
  processedAt := none
  idempotencyKey := u.key
  requestFingerprint := u.fingerprint

/-- Make the intent due. -/
def expediteIntent (ids : UploadIds) (now : Timestamp) (db : Db) : Db :=
  db.updateJob ids.intentId fun j => { j with availableAt := now }

/-- Point the intent at the name the object was stored under. -/
def renameIntent (ids : UploadIds) (actual : StorageKey) (now : Timestamp) (db : Db) : Db :=
  db.updateJob ids.intentId fun j => { j with storageKey := some actual, updatedAt := now }

/-- The replay exit under the owner lock: the call's own intent becomes due. -/
def writeReplay (ids : UploadIds) (now : Timestamp) (db : Db) : Db :=
  db.updateJob ids.intentId fun j => { j with availableAt := now, updatedAt := now }

/-- The document, its audit event, its OCR job and the completed intent. -/
def writeDocument (env : Env) (u : Upload) (ids : UploadIds) (actual : StorageKey) (draw : Draw)
    (jobId : Uuid) (db : Db) : Db :=
  let columns := u.document ids actual draw.now
  let db := db.putDocument (.indexed env columns [])
  let db := audit db draw columns .created u.requestId (some u.user)
  let db := db.putJob (ocrJob jobId ids.documentId u.requestId draw.now)
  db.updateJob ids.intentId fun j => { j with state := .succeeded, updatedAt := draw.now }

/-- A statement raises when the environment says so. -/
def raiseAt (fault : Option Statement) (statement : Statement) : Except ApiError Unit :=
  if fault = some statement then .error (.database .operationalError) else .ok ()

/-- What the document transaction is about to commit: its writes, the document the call will return
and whether it is new. -/
structure Outcome where
  writes : Db → Db
  document : DocumentObject
  created : Bool

/-- The body of `with transaction.atomic()`. Raising rolls back, so an error comes without writes. -/
def atomicBlock (env : Env) (db : Db) (u : Upload) (ids : UploadIds) (actual : StorageKey)
    (draw : Draw) (jobId : Uuid) (fault : Option Statement) : Except ApiError Outcome := do
  raiseAt fault .lockOwner
  raiseAt fault .replay
  -- The owner lock is held from here on, so this decision cannot race another call of the owner.
  match ← replay db u.user u.key u.fingerprint with
  | some existing =>
      raiseAt fault .expediteIntent
      return ⟨writeReplay ids draw.now, existing.load, false⟩
  | none =>
      raiseAt fault .createDocument
      let row := Document.indexed env (u.document ids actual draw.now) []
      if db.admits row then
        raiseAt fault .auditCreated
        raiseAt fault .createJob
        raiseAt fault .completeIntent
        return ⟨writeDocument env u ids actual draw jobId,
          { row.load with searchVector := some none }, true⟩
      else throw (.database .integrityError)

/-- Move on without writing. -/
def goto (u : Upload) (pc : UploadPc) : Upload := { u with pc := pc }

/-- Run a committed write on the database and on the call's own effect. -/
def write (db : Db) (u : Upload) (ack : Ack) (writes : Db → Db) (pc : UploadPc) : Db × Upload :=
  if ack.applied then (writes db, { u with effect := writes u.effect, pc := pc })
  else (db, u.goto pc)

/-- Advance a call by one statement; `none` when the move is not the next statement. -/
def step (env : Env) (db : Db) (store : Store) (u : Upload) (move : UploadMove) :
    Option (Db × Store × Upload) :=
  match u.pc, move with
  | .entered, .check fails =>
      if fails then some (db, store, u.goto (.raised (.database .operationalError)))
      else
        match replay db u.user u.key u.fingerprint with
        | .error e => some (db, store, u.goto (.raised e))
        | .ok (some existing) => some (db, store, u.goto (.returned existing.load false))
        | .ok none => some (db, store, u.goto .checked)
  | .checked, .intend ids now ack =>
      -- Outside the `try`: an exception here propagates as it is.
      let pc := if ack = .ok then .intended ids else .raised (.database .operationalError)
      let (db, u) := write db { u with ids := some ids } ack (·.putJob (u.intent ids now)) pc
      some (db, store, u)
  | .intended ids, .save actual ack =>
      -- A save that raises may still have stored the object.
      let store := if ack.applied then Function.update store actual (some u.data.file.content)
        else store
      let pc :=
        if ack ≠ .ok then .failing ids
        else if actual = u.storageKey ids then .named ids actual
        else .saved ids actual
      some (db, store, u.goto pc)
  -- Only reached when the store picked another name; the intent must name the real object.
  | .saved ids actual, .rename now ack =>
      let pc := if ack = .ok then .named ids actual else .failing ids
      let (db, u) := write db u ack (renameIntent ids actual now) pc
      some (db, store, u)
  | .named ids actual, .commit draw jobId fault ack =>
      match atomicBlock env db u ids actual draw jobId fault with
      -- The handler `except Conflict`; every other exception is caught by `except Exception`.
      | .error .conflict => some (db, store, u.goto (.conflicting ids))
      | .error _ => some (db, store, u.goto (.failing ids))
      | .ok outcome =>
          let pc := if ack = .ok then .returned outcome.document outcome.created else .failing ids
          let (db, u) := write db u ack outcome.writes pc
          some (db, store, u)
  | .conflicting ids, .expedite now ack =>
      -- `raise` runs only after the update: an exception in the update replaces the conflict.
      let pc := .raised (if ack = .ok then .conflict else .database .operationalError)
      let (db, u) := write db u ack (expediteIntent ids now) pc
      some (db, store, u)
  | .failing ids, .expedite now ack =>
      -- A failing update is logged and swallowed.
      let (db, u) := write db u ack (expediteIntent ids now) (.raised .serviceUnavailable)
      some (db, store, u)
  | pc, .die => if pc.ended then none else some (db, store, u.goto .dead)
  | _, _ => none

/-- Enter `create_document`; an exception while the fingerprint is built ends the call at once. -/
def enter (env : Env) (user : User) (data : UploadData) (key : Option Str)
    (requestId : Uuid) : Upload where
  user := user
  data := data
  key := key
  requestId := requestId
  fingerprint := (MiniDms.fingerprint env data).getD []
  pc := if (MiniDms.fingerprint env data).isSome then .entered
    else .raised .internal
  ids := none
  effect := .empty

/-! ## What each statement does -/

/-- A document transaction that reaches its end either replays or creates. -/
theorem atomicBlock_ok {env : Env} {db : Db} {u : Upload} {ids : UploadIds} {actual : StorageKey}
    {draw : Draw} {jobId : Uuid} {fault : Option Statement} {outcome : Outcome}
    (h : atomicBlock env db u ids actual draw jobId fault = .ok outcome) :
    (∃ existing, replay db u.user u.key u.fingerprint = .ok (some existing) ∧
      outcome = ⟨writeReplay ids draw.now, existing.load, false⟩) ∨
    (replay db u.user u.key u.fingerprint = .ok none ∧
      db.admits (.indexed env (u.document ids actual draw.now) []) = true ∧
      outcome = ⟨writeDocument env u ids actual draw jobId,
        { (Document.indexed env (u.document ids actual draw.now) []).load with
          searchVector := some none }, true⟩) := by
  obtain ⟨_, -, h⟩ := bind_eq_ok.mp h
  obtain ⟨_, -, h⟩ := bind_eq_ok.mp h
  obtain ⟨existing, hreplay, h⟩ := bind_eq_ok.mp h
  cases existing with
  | some d =>
      obtain ⟨_, -, h⟩ := bind_eq_ok.mp h
      cases h
      exact .inl ⟨d, hreplay, rfl⟩
  | none =>
      obtain ⟨_, -, h⟩ := bind_eq_ok.mp h
      by_cases hadm : db.admits (.indexed env (u.document ids actual draw.now) []) = true
      · simp only [hadm, if_true] at h
        obtain ⟨_, -, h⟩ := bind_eq_ok.mp h
        obtain ⟨_, -, h⟩ := bind_eq_ok.mp h
        obtain ⟨_, -, h⟩ := bind_eq_ok.mp h
        cases h
        exact .inr ⟨hreplay, hadm, rfl⟩
      · simp only [hadm, Bool.false_eq_true, if_false] at h
        cases h

/-- A document transaction raises `Conflict` only out of its replay check. -/
theorem atomicBlock_conflict {env : Env} {db : Db} {u : Upload} {ids : UploadIds}
    {actual : StorageKey} {draw : Draw} {jobId : Uuid} {fault : Option Statement}
    (h : atomicBlock env db u ids actual draw jobId fault = .error .conflict) :
    replay db u.user u.key u.fingerprint = .error .conflict := by
  -- A statement the environment lets raise fails with a database error, never with a conflict.
  have hraise : ∀ s, raiseAt fault s ≠ .error .conflict := by
    intro s
    unfold raiseAt
    split <;> simp
  obtain h | ⟨_, -, h⟩ := bind_eq_error.mp h
  · exact absurd h (hraise _)
  obtain h | ⟨_, -, h⟩ := bind_eq_error.mp h
  · exact absurd h (hraise _)
  obtain h | ⟨existing, -, h⟩ := bind_eq_error.mp h
  · exact h
  exfalso
  cases existing with
  | some d =>
      obtain h | ⟨_, -, h⟩ := bind_eq_error.mp h
      · exact hraise _ h
      · cases h
  | none =>
      obtain h | ⟨_, -, h⟩ := bind_eq_error.mp h
      · exact hraise _ h
      by_cases hadm : db.admits (.indexed env (u.document ids actual draw.now) []) = true
      · simp only [hadm, if_true] at h
        obtain h | ⟨_, -, h⟩ := bind_eq_error.mp h
        · exact hraise _ h
        obtain h | ⟨_, -, h⟩ := bind_eq_error.mp h
        · exact hraise _ h
        obtain h | ⟨_, -, h⟩ := bind_eq_error.mp h
        · exact hraise _ h
        cases h
      · simp only [hadm, Bool.false_eq_true, if_false] at h
        cases h

/-- The outcomes of one statement of a call, as a relation: the move, and the database, the store
and the call after it. -/
inductive Advance (env : Env) (db : Db) (store : Store) (u : Upload) :
    UploadMove → Db → Store → Upload → Prop
  | checkFailed (hpc : u.pc = .entered) :
      Advance env db store u (.check true) db store (u.goto (.raised (.database .operationalError)))
  | checkRefused {e : ApiError} (hpc : u.pc = .entered)
      (hr : replay db u.user u.key u.fingerprint = .error e) :
      Advance env db store u (.check false) db store (u.goto (.raised e))
  | checkReplayed {d : Document} (hpc : u.pc = .entered)
      (hr : replay db u.user u.key u.fingerprint = .ok (some d)) :
      Advance env db store u (.check false) db store (u.goto (.returned d.load false))
  | checkPassed (hpc : u.pc = .entered) (hr : replay db u.user u.key u.fingerprint = .ok none) :
      Advance env db store u (.check false) db store (u.goto .checked)
  | intended {ids : UploadIds} {now : Timestamp} {ack : Ack} (hpc : u.pc = .checked)
      (ha : ack.applied = true) :
      Advance env db store u (.intend ids now ack) (db.putJob (u.intent ids now)) store
        { u with
          ids := some ids
          effect := u.effect.putJob (u.intent ids now)
          pc := if ack = .ok then .intended ids else .raised (.database .operationalError) }
  | intendLost {ids : UploadIds} {now : Timestamp} (hpc : u.pc = .checked) :
      Advance env db store u (.intend ids now .lost) db store
        { u with ids := some ids, pc := .raised (.database .operationalError) }
  | saved {ids : UploadIds} {actual : StorageKey} {ack : Ack} (hpc : u.pc = .intended ids)
      (ha : ack.applied = true) :
      Advance env db store u (.save actual ack) db
        (Function.update store actual (some u.data.file.content))
        (u.goto (if ack ≠ .ok then .failing ids
          else if actual = u.storageKey ids then .named ids actual else .saved ids actual))
  | saveLost {ids : UploadIds} {actual : StorageKey} (hpc : u.pc = .intended ids) :
      Advance env db store u (.save actual .lost) db store (u.goto (.failing ids))
  | renamed {ids : UploadIds} {actual : StorageKey} {now : Timestamp} {ack : Ack}
      (hpc : u.pc = .saved ids actual) (ha : ack.applied = true) :
      Advance env db store u (.rename now ack) (renameIntent ids actual now db) store
        { u with
          effect := renameIntent ids actual now u.effect
          pc := if ack = .ok then .named ids actual else .failing ids }
  | renameLost {ids : UploadIds} {actual : StorageKey} {now : Timestamp}
      (hpc : u.pc = .saved ids actual) :
      Advance env db store u (.rename now .lost) db store (u.goto (.failing ids))
  | refused {ids : UploadIds} {actual : StorageKey} {draw : Draw} {jobId : Uuid}
      {fault : Option Statement} {ack : Ack} (hpc : u.pc = .named ids actual)
      (hr : replay db u.user u.key u.fingerprint = .error .conflict) :
      Advance env db store u (.commit draw jobId fault ack) db store (u.goto (.conflicting ids))
  | rolledBack {ids : UploadIds} {actual : StorageKey} {draw : Draw} {jobId : Uuid}
      {fault : Option Statement} {ack : Ack} (hpc : u.pc = .named ids actual) :
      Advance env db store u (.commit draw jobId fault ack) db store (u.goto (.failing ids))
  | replayed {ids : UploadIds} {actual : StorageKey} {draw : Draw} {jobId : Uuid}
      {fault : Option Statement} {ack : Ack} {d : Document} (hpc : u.pc = .named ids actual)
      (hr : replay db u.user u.key u.fingerprint = .ok (some d)) (ha : ack.applied = true) :
      Advance env db store u (.commit draw jobId fault ack) (writeReplay ids draw.now db) store
        { u with
          effect := writeReplay ids draw.now u.effect
          pc := if ack = .ok then .returned d.load false else .failing ids }
  | created {ids : UploadIds} {actual : StorageKey} {draw : Draw} {jobId : Uuid}
      {fault : Option Statement} {ack : Ack} (hpc : u.pc = .named ids actual)
      (hr : replay db u.user u.key u.fingerprint = .ok none)
      (hadm : db.admits (.indexed env (u.document ids actual draw.now) []) = true)
      (ha : ack.applied = true) :
      Advance env db store u (.commit draw jobId fault ack)
        (writeDocument env u ids actual draw jobId db) store
        { u with
          effect := writeDocument env u ids actual draw jobId u.effect
          pc := if ack = .ok then
              .returned { (Document.indexed env (u.document ids actual draw.now) []).load with
                searchVector := some none } true
            else .failing ids }
  | conflictExpedited {ids : UploadIds} {now : Timestamp} {ack : Ack}
      (hpc : u.pc = .conflicting ids) (ha : ack.applied = true) :
      Advance env db store u (.expedite now ack) (expediteIntent ids now db) store
        { u with
          effect := expediteIntent ids now u.effect
          pc := .raised (if ack = .ok then .conflict else .database .operationalError) }
  | conflictLost {ids : UploadIds} {now : Timestamp} (hpc : u.pc = .conflicting ids) :
      Advance env db store u (.expedite now .lost) db store
        (u.goto (.raised (.database .operationalError)))
  | failureExpedited {ids : UploadIds} {now : Timestamp} {ack : Ack} (hpc : u.pc = .failing ids)
      (ha : ack.applied = true) :
      Advance env db store u (.expedite now ack) (expediteIntent ids now db) store
        { u with
          effect := expediteIntent ids now u.effect
          pc := .raised .serviceUnavailable }
  | failureLost {ids : UploadIds} {now : Timestamp} (hpc : u.pc = .failing ids) :
      Advance env db store u (.expedite now .lost) db store (u.goto (.raised .serviceUnavailable))
  | died (hpc : u.pc.ended = false) : Advance env db store u .die db store (u.goto .dead)

/-- **Every statement of a call is one of these outcomes.** -/
theorem step_advance {env : Env} {db db' : Db} {store store' : Store} {u u' : Upload}
    {move : UploadMove} (h : u.step env db store move = some (db', store', u')) :
    Advance env db store u move db' store' u' := by
  unfold step at h
  split at h
  case h_1 fails hpc =>
    split at h
    · next hf =>
        cases h
        subst hf
        exact .checkFailed hpc
    · next hf =>
        rw [Bool.not_eq_true] at hf
        subst hf
        split at h
        · next hr => cases h; exact .checkRefused hpc hr
        · next hr => cases h; exact .checkReplayed hpc hr
        · next hr => cases h; exact .checkPassed hpc hr
  -- A statement that took effect is one outcome, acknowledged or not; a lost one is another.
  case h_2 ids now ack hpc =>
    cases ack
    case ok => cases h; exact .intended hpc rfl
    case lost => cases h; exact .intendLost hpc
    case unacknowledged => cases h; exact .intended hpc rfl
  case h_3 ids actual ack hpc =>
    cases ack
    case ok => cases h; exact .saved hpc rfl
    case lost => cases h; exact .saveLost hpc
    case unacknowledged => cases h; exact .saved hpc rfl
  case h_4 ids actual now ack hpc =>
    cases ack
    case ok => cases h; exact .renamed hpc rfl
    case lost => cases h; exact .renameLost hpc
    case unacknowledged => cases h; exact .renamed hpc rfl
  case h_5 ids actual draw jobId fault ack hpc =>
    split at h
    · next hb => cases h; exact .refused hpc (atomicBlock_conflict hb)
    · cases h; exact .rolledBack hpc
    · next outcome hb =>
        cases ack
        -- A commit that is lost leaves what a rollback leaves.
        case lost => cases h; exact .rolledBack hpc
        all_goals
          obtain ⟨d, hr, rfl⟩ | ⟨hr, hadm, rfl⟩ := atomicBlock_ok hb
          · cases h; exact .replayed hpc hr rfl
          · cases h; exact .created hpc hr hadm rfl
  case h_6 ids now ack hpc =>
    cases ack
    case ok => cases h; exact .conflictExpedited hpc rfl
    case lost => cases h; exact .conflictLost hpc
    case unacknowledged => cases h; exact .conflictExpedited hpc rfl
  case h_7 ids now ack hpc =>
    cases ack
    case ok => cases h; exact .failureExpedited hpc rfl
    case lost => cases h; exact .failureLost hpc
    case unacknowledged => cases h; exact .failureExpedited hpc rfl
  case h_8 =>
    split at h
    · cases h
    · next hend => cases h; exact .died (by simpa using hend)
  case h_9 => cases h

/-! ## The program counter -/

/-- The moves of the program counter of the call `u`, one for each way a statement can leave it. -/
inductive PcMove (u : Upload) : UploadPc → UploadMove → UploadPc → Prop
  | checkRaised {fails : Bool} {e : ApiError} : PcMove u .entered (.check fails) (.raised e)
  | checkReplayed {d : DocumentObject} : PcMove u .entered (.check false) (.returned d false)
  | checkPassed : PcMove u .entered (.check false) .checked
  | intended {ids : UploadIds} {now : Timestamp} :
      PcMove u .checked (.intend ids now .ok) (.intended ids)
  | intendRaised {ids : UploadIds} {now : Timestamp} {ack : Ack} {e : ApiError} :
      PcMove u .checked (.intend ids now ack) (.raised e)
  | saved {ids : UploadIds} {actual : StorageKey} (h : actual ≠ u.storageKey ids) :
      PcMove u (.intended ids) (.save actual .ok) (.saved ids actual)
  | named {ids : UploadIds} {actual : StorageKey} (h : actual = u.storageKey ids) :
      PcMove u (.intended ids) (.save actual .ok) (.named ids actual)
  | saveFailed {ids : UploadIds} {actual : StorageKey} {ack : Ack} :
      PcMove u (.intended ids) (.save actual ack) (.failing ids)
  | renamed {ids : UploadIds} {actual : StorageKey} {now : Timestamp} :
      PcMove u (.saved ids actual) (.rename now .ok) (.named ids actual)
  | renameFailed {ids : UploadIds} {actual : StorageKey} {now : Timestamp} {ack : Ack} :
      PcMove u (.saved ids actual) (.rename now ack) (.failing ids)
  | committed {ids : UploadIds} {actual : StorageKey} {draw : Draw} {jobId : Uuid}
      {fault : Option Statement} {d : DocumentObject} {created : Bool} :
      PcMove u (.named ids actual) (.commit draw jobId fault .ok) (.returned d created)
  | refused {ids : UploadIds} {actual : StorageKey} {draw : Draw} {jobId : Uuid}
      {fault : Option Statement} {ack : Ack} :
      PcMove u (.named ids actual) (.commit draw jobId fault ack) (.conflicting ids)
  | commitFailed {ids : UploadIds} {actual : StorageKey} {draw : Draw} {jobId : Uuid}
      {fault : Option Statement} {ack : Ack} :
      PcMove u (.named ids actual) (.commit draw jobId fault ack) (.failing ids)
  | conflictRaised {ids : UploadIds} {now : Timestamp} {ack : Ack} {e : ApiError}
      (h : e = .conflict ∨ e = .database .operationalError) :
      PcMove u (.conflicting ids) (.expedite now ack) (.raised e)
  | failureRaised {ids : UploadIds} {now : Timestamp} {ack : Ack} :
      PcMove u (.failing ids) (.expedite now ack) (.raised .serviceUnavailable)
  | died {pc : UploadPc} (h : pc.ended = false) : PcMove u pc .die .dead

/-- **Every statement of a call moves its program counter.** -/
theorem Advance.pcMove {env : Env} {db db' : Db} {store store' : Store} {u u' : Upload}
    {move : UploadMove} (ha : Advance env db store u move db' store' u') :
    PcMove u u.pc move u'.pc := by
  cases ha with
  | checkFailed hpc | checkRefused hpc =>
      rw [hpc]
      exact .checkRaised
  | checkReplayed hpc =>
      rw [hpc]
      exact .checkReplayed
  | checkPassed hpc =>
      rw [hpc]
      exact .checkPassed
  | intended hpc =>
      rw [hpc]
      dsimp only
      split
      · next hack =>
          rw [hack]
          exact .intended
      · exact .intendRaised
  | intendLost hpc =>
      rw [hpc]
      exact .intendRaised
  | saved hpc =>
      rw [hpc]
      dsimp only [goto]
      split
      · exact .saveFailed
      · next hack =>
          rw [not_not.mp hack]
          split
          · next hname => exact .named hname
          · next hname => exact .saved hname
  | saveLost hpc =>
      rw [hpc]
      exact .saveFailed
  | renamed hpc =>
      rw [hpc]
      dsimp only
      split
      · next hack =>
          rw [hack]
          exact .renamed
      · exact .renameFailed
  | renameLost hpc =>
      rw [hpc]
      exact .renameFailed
  | refused hpc =>
      rw [hpc]
      exact .refused
  | rolledBack hpc =>
      rw [hpc]
      exact .commitFailed
  | replayed hpc | created hpc =>
      rw [hpc]
      dsimp only
      split
      · next hack =>
          rw [hack]
          exact .committed
      · exact .commitFailed
  | conflictExpedited hpc =>
      rw [hpc]
      refine .conflictRaised ?_
      split
      · exact .inl rfl
      · exact .inr rfl
  | conflictLost hpc =>
      rw [hpc]
      exact .conflictRaised (.inr rfl)
  | failureExpedited hpc | failureLost hpc =>
      rw [hpc]
      exact .failureRaised
  | died hpc => exact .died hpc

/-- A statement keeps the identifiers a call works with, drops them, or draws them. -/
theorem PcMove.ids {u : Upload} {pc pc' : UploadPc} {move : UploadMove} (hm : PcMove u pc move pc')
    {ids : UploadIds} (hids : pc'.ids = some ids) :
    pc.ids = some ids ∨ ∃ now, move = .intend ids now .ok := by
  cases hm with
  | intended =>
      cases hids
      exact .inr ⟨_, rfl⟩
  | saved | named | saveFailed | renamed | renameFailed | refused | commitFailed =>
      exact .inl hids
  | _ => cases hids

/-- Only a call that has not ended executes statements. -/
theorem PcMove.not_ended {u : Upload} {pc pc' : UploadPc} {move : UploadMove}
    (hm : PcMove u pc move pc') : pc.ended = false := by
  cases hm with
  | died h => exact h
  | _ => rfl

/-- A call works with the identifiers it has drawn. -/
def Coherent (u : Upload) : Prop := ∀ ids, u.pc.ids = some ids → u.ids = some ids

/-- A call that has just been entered is coherent. -/
theorem coherent_enter (env : Env) (user : User) (data : UploadData) (key : Option Str)
    (requestId : Uuid) : (enter env user data key requestId).Coherent := by
  intro ids h
  unfold enter at h
  split at h <;> cases h

/-- Every statement of a coherent call leaves it coherent. -/
theorem Advance.coherent {env : Env} {db db' : Db} {store store' : Store} {u u' : Upload}
    {move : UploadMove} (ha : Advance env db store u move db' store' u') (hu : u.Coherent) :
    u'.Coherent := by
  intro ids hids
  obtain hold | ⟨now, rfl⟩ := ha.pcMove.ids hids
  -- Only the intent statement assigns identifiers, and it starts from a counter without any.
  · have hdrawn := hu ids hold
    cases ha with
    | intended hpc | intendLost hpc =>
        rw [hpc] at hold
        cases hold
    | _ => exact hdrawn
  · cases ha with
    | intended => rfl

end Upload

end MiniDms
