import MiniDms.Documents.Ocr
import MiniDms.Relations.Table
import MiniDms.Python.Exceptions

/-! # The relational schema

The rows of the three tables, the Python objects a query loads from them and `Document.save`. A
document object may have deferred columns: the API loads documents without `search_text`,
`search_vector` and `extracted_text`, and Django then reads a deferred column when it is used and
writes only the columns that are loaded. The search trigger runs on every insert and on every
update that names `search_text`. -/

namespace MiniDms

open Python Relational

/-- A `uuid.UUID`, as its integer value. -/
abbrev Uuid := Nat

/-- The primary key of a user. -/
abbrev UserId := Nat

/-- A clock reading, in microseconds. -/
abbrev Timestamp := Int

/-- `timedelta(seconds=n)`. -/
def seconds (n : Nat) : Int := n * 1000000

/-- The requesting user. -/
structure User where
  pk : UserId
  isStaff : Bool
  deriving DecidableEq, Repr

/-- The name of an object in the store. -/
inductive StorageKey
  /-- The name an upload asks for: `documents/{user}/{document}/{nonce}`. -/
  | requested (user : UserId) (document nonce : Uuid)
  /-- Any other name the storage back end picked, told apart by a random number. -/
  | alternative (name : Uuid)
  deriving DecidableEq, Repr

/-- The content types an upload is detected as. -/
inductive MimeType
  | pdf
  | png
  | jpeg
  deriving DecidableEq, Repr

/-- A PostgreSQL `tsvector`: lexemes with their positions. -/
abbrev TsVector := List (Str × List Nat)

/-- The library functions the program calls and does not define. -/
structure Env where
  /-- `unicodedata.normalize("NFKC", ·)`. -/
  nfkc : Str → Str
  /-- `str.casefold`. -/
  casefold : Str → Str
  /-- `to_tsvector('simple', ·)`. -/
  toTsvector : Str → TsVector
  /-- `hashlib.sha256(·).hexdigest()`. -/
  sha256 : Bytes → Str

/-- The table of `str.translate` in `normalize_text`. -/
def translate (c : CodePoint) : CodePoint :=
  if c.val = 0x064A then 0x06CC else if c.val = 0x0643 then 0x06A9
  else if c.val = 0x200C then 0x20 else c

/-- `normalize_text`. -/
def normalizeText (env : Env) (value : Str) : Str :=
  env.casefold ((env.nfkc value).map translate)

/-! ## Documents -/

/-- `Document.Status`. -/
inductive Status
  | pending
  | processing
  | succeeded
  | failed
  deriving DecidableEq, Repr

/-- The columns of a document that no query defers. -/
structure DocumentColumns where
  id : Uuid
  owner : UserId
  storageKey : StorageKey
  filename : Str
  mimeType : MimeType
  size : Nat
  sha256 : Str
  title : Str
  description : Str
  documentType : Str
  tags : Json
  metadata : Json
  createdAt : Timestamp
  updatedAt : Timestamp
  revision : Nat
  status : Status
  processingInfo : Json
  errorCode : Option ErrorCode
  errorMessage : String
  attempts : Nat
  processedAt : Option Timestamp
  idempotencyKey : Option Str
  requestFingerprint : Str

/-- A row of the document table. -/
structure Document extends DocumentColumns where
  extractedText : Str
  searchText : Str
  searchVector : Option TsVector

/-- A document object; `none` is a deferred column. -/
structure DocumentObject extends DocumentColumns where
  extractedText : Option Str
  searchText : Option Str
  searchVector : Option (Option TsVector)

/-- The object a plain query loads. -/
def Document.load (row : Document) : DocumentObject where
  toDocumentColumns := row.toDocumentColumns
  extractedText := some row.extractedText
  searchText := some row.searchText
  searchVector := some row.searchVector

/-- The object loaded with `.defer("search_text", "search_vector", "extracted_text")`. -/
def Document.defer (row : Document) : DocumentObject where
  toDocumentColumns := row.toDocumentColumns
  extractedText := none
  searchText := none
  searchVector := none

/-! ## Jobs -/

/-- `Job.Kind`. -/
inductive JobKind
  | ocr
  | deleteObject
  deriving DecidableEq, Repr

/-- `Job.State`. -/
inductive JobState
  | pending
  | running
  | succeeded
  | failed
  deriving DecidableEq, Repr

/-- A row of the job table. The program sets `document_id` on every job it creates; `storage_key` is
blank on OCR jobs. -/
structure Job where
  id : Uuid
  documentId : Uuid
  kind : JobKind
  storageKey : Option StorageKey := none
  state : JobState := .pending
  attempts : Nat := 0
  maxAttempts : Nat := 3
  availableAt : Timestamp
  dispatchedAt : Option Timestamp := none
  leaseUntil : Option Timestamp := none
  runToken : Option Uuid := none
  requestId : Uuid
  errorCode : Option ErrorCode := none
  createdAt : Timestamp
  updatedAt : Timestamp
  deriving DecidableEq

/-! ## Audit events -/

/-- The metadata fields a client may change, in alphabetical order of their names. -/
inductive Field
  | description
  | documentType
  | metadata
  | tags
  | title
  deriving DecidableEq, Repr

/-- An audit action with its details. -/
inductive AuditAction
  | created
  | metadataUpdated (fields : List Field) (revision : Nat)
  | deleted
  | reprocessRequested (status : Status)
  | statusChanged (previous status : Status) (attempt : Nat) (errorCode : Option ErrorCode)
      (jobId : Uuid)
  deriving DecidableEq

/-- `actor_kind`. -/
inductive ActorKind
  | user
  | system
  deriving DecidableEq, Repr

/-- A row of the audit table. -/
structure AuditEvent where
  id : Uuid
  documentId : Uuid
  owner : UserId
  actor : Option UserId
  actorKind : ActorKind
  action : AuditAction
  requestId : Uuid
  createdAt : Timestamp
  deriving DecidableEq

/-! ## The database -/

/-- The committed tables. Audit events stand in commit order. -/
structure Db where
  documents : Table Uuid Document fun d => d.id
  jobs : Table Uuid Job fun j => j.id
  auditEvents : List AuditEvent

/-- The database after the migrations. -/
def Db.empty : Db := ⟨.empty, .empty, []⟩

/-- Errors a database call raises. -/
inductive DbError
  | doesNotExist
  | integrityError
  /-- A save with `update_fields` that affected no row. -/
  | databaseError
  /-- The database failed or cannot be reached: `OperationalError` or `InterfaceError`. -/
  | operationalError
  deriving DecidableEq, Repr

namespace Db

/-- Write a whole document row. -/
def putDocument (db : Db) (row : Document) : Db := { db with documents := db.documents.put row }

/-- Delete a document row. -/
def removeDocument (db : Db) (id : Uuid) : Db := { db with documents := db.documents.erase id }

/-- `job.save()` and `Job.objects.create`: write a whole job row. -/
def putJob (db : Db) (job : Job) : Db := { db with jobs := db.jobs.put job }

/-- `Job.objects.filter(p).update(...)`: rewrite some columns, never the primary key. -/
def updateJobs (db : Db) (p : Job → Bool) (f : Job → Job) : Db :=
  { db with jobs := db.jobs.update p (fun j => { f j with id := j.id }) fun _ => rfl }

/-- Rewrite some columns of one job. -/
def updateJob (db : Db) (id : Uuid) (f : Job → Job) : Db := db.updateJobs (fun j => j.id = id) f

/-- Append an audit event. -/
def appendAudit (db : Db) (event : AuditEvent) : Db :=
  { db with auditEvents := db.auditEvents ++ [event] }

end Db

/-- The trigger `documents_refresh_search`. -/
def documentsRefreshSearch (env : Env) (row : Document) : Document :=
  { row with searchVector := some (env.toTsvector row.searchText) }

/-- The constraints an inserted document must satisfy: primary key, unique storage key,
`unique_owner_upload_key` and `document_size_positive`. -/
def Db.admits (db : Db) (row : Document) : Bool :=
  -- The unique index on the upload key is partial: it skips rows without a key.
  0 < row.size && db.documents.rows.all fun d =>
    d.id ≠ row.id && d.storageKey ≠ row.storageKey &&
      !(row.idempotencyKey.isSome && d.owner = row.owner && d.idempotencyKey = row.idempotencyKey)

/-- Insert a document row; the trigger fires on every insert. -/
def Db.insertDocument (env : Env) (db : Db) (row : Document) : Except DbError Db :=
  if db.admits row then .ok (db.putDocument (documentsRefreshSearch env row))
  else .error .integrityError

/-- The text `Document.save` indexes. -/
def DocumentColumns.searchable (env : Env) (columns : DocumentColumns) (extractedText : Str) : Str :=
  normalizeText env <| join (lit " ")
    [columns.title, columns.description, columns.documentType, columns.tags.dumps,
      columns.metadata.dumps, extractedText]

/-- The extracted text of an object; a deferred one is read from the row. -/
def DocumentObject.readExtractedText (db : Db) (document : DocumentObject) : Except DbError Str :=
  match document.extractedText with
  | some text => .ok text
  | none =>
      match db.documents.find document.id with
      | some row => .ok row.extractedText
      | none => .error .doesNotExist

/-- `Document.save()`. Building `search_text` loads the extracted text. An object whose
`search_vector` is still deferred updates its loaded columns and fails when the row is gone; a fully
loaded one is an upsert. Either way `search_text` is among the columns, so the trigger fires. -/
def DocumentObject.save (env : Env) (db : Db) (now : Timestamp) (document : DocumentObject) :
    Except DbError (Db × DocumentObject) := do
  let extracted ← document.readExtractedText db
  let columns := { document.toDocumentColumns with updatedAt := now }
  let text := columns.searchable env extracted
  let saved : DocumentObject :=
    { document with updatedAt := now, extractedText := some extracted, searchText := some text }
  match document.searchVector, db.documents.find document.id with
  -- The deferred column makes the save an update, and the update finds no row.
  | none, none => throw .databaseError
  -- The update leaves the deferred column to the trigger.
  | none, some row =>
      return (db.putDocument (documentsRefreshSearch env
        ⟨columns, extracted, text, row.searchVector⟩), saved)
  | some vector, some _ =>
      return (db.putDocument (documentsRefreshSearch env ⟨columns, extracted, text, vector⟩), saved)
  -- Every column is loaded: the update finds no row, so Django inserts one.
  | some vector, none =>
      return (← db.insertDocument env ⟨columns, extracted, text, vector⟩, saved)

/-! ## What each write leaves -/

namespace Db

@[simp] theorem putDocument_documents (db : Db) (row : Document) :
    (db.putDocument row).documents = db.documents.put row := rfl

@[simp] theorem putDocument_jobs (db : Db) (row : Document) :
    (db.putDocument row).jobs = db.jobs := rfl

@[simp] theorem putDocument_auditEvents (db : Db) (row : Document) :
    (db.putDocument row).auditEvents = db.auditEvents := rfl

@[simp] theorem removeDocument_documents (db : Db) (id : Uuid) :
    (db.removeDocument id).documents = db.documents.erase id := rfl

@[simp] theorem removeDocument_jobs (db : Db) (id : Uuid) :
    (db.removeDocument id).jobs = db.jobs := rfl

@[simp] theorem removeDocument_auditEvents (db : Db) (id : Uuid) :
    (db.removeDocument id).auditEvents = db.auditEvents := rfl

@[simp] theorem putJob_documents (db : Db) (job : Job) :
    (db.putJob job).documents = db.documents := rfl

@[simp] theorem putJob_jobs (db : Db) (job : Job) :
    (db.putJob job).jobs = db.jobs.put job := rfl

@[simp] theorem putJob_auditEvents (db : Db) (job : Job) :
    (db.putJob job).auditEvents = db.auditEvents := rfl

@[simp] theorem updateJobs_documents (db : Db) (p : Job → Bool) (f : Job → Job) :
    (db.updateJobs p f).documents = db.documents := rfl

@[simp] theorem updateJobs_auditEvents (db : Db) (p : Job → Bool) (f : Job → Job) :
    (db.updateJobs p f).auditEvents = db.auditEvents := rfl

/-- An update of jobs changes the rows it selects, under their primary keys. -/
@[simp] theorem find_updateJobs (db : Db) (p : Job → Bool) (f : Job → Job) (id : Uuid) :
    (db.updateJobs p f).jobs.find id =
      (db.jobs.find id).map fun j => if p j then { f j with id := j.id } else j := by
  rw [updateJobs, Table.find_update]

@[simp] theorem updateJob_documents (db : Db) (id : Uuid) (f : Job → Job) :
    (db.updateJob id f).documents = db.documents := rfl

@[simp] theorem updateJob_auditEvents (db : Db) (id : Uuid) (f : Job → Job) :
    (db.updateJob id f).auditEvents = db.auditEvents := rfl

/-- An update of one job leaves every other job. -/
theorem find_updateJob (db : Db) (id : Uuid) (f : Job → Job) (k : Uuid) :
    (db.updateJob id f).jobs.find k =
      if k = id then (db.jobs.find k).map fun j => { f j with id := j.id } else db.jobs.find k := by
  rw [updateJob, find_updateJobs]
  cases hk : db.jobs.find k with
  | none => simp
  | some j =>
      -- The update selects by primary key, which is the key the row was found under.
      have hid : j.id = k := Table.key_of_find hk
      by_cases h : k = id <;> simp [hid, h]

@[simp] theorem appendAudit_documents (db : Db) (event : AuditEvent) :
    (db.appendAudit event).documents = db.documents := rfl

@[simp] theorem appendAudit_jobs (db : Db) (event : AuditEvent) :
    (db.appendAudit event).jobs = db.jobs := rfl

/-- The log grows at its end. -/
@[simp] theorem appendAudit_auditEvents (db : Db) (event : AuditEvent) :
    (db.appendAudit event).auditEvents = db.auditEvents ++ [event] := rfl

end Db

/-- A document is found under its primary key. -/
theorem Db.document_id {db : Db} {id : Uuid} {row : Document}
    (h : db.documents.find id = some row) : row.id = id :=
  @Table.key_of_find _ _ _ (fun d : Document => d.id) _ _ _ h

/-- A job is found under its primary key. -/
theorem Db.job_id {db : Db} {id : Uuid} {job : Job} (h : db.jobs.find id = some job) :
    job.id = id :=
  Table.key_of_find h

/-- The trigger changes no column but the search vector. -/
@[simp] theorem documentsRefreshSearch_columns (env : Env) (row : Document) :
    (documentsRefreshSearch env row).toDocumentColumns = row.toDocumentColumns := rfl

/-- The trigger keeps the extracted text. -/
@[simp] theorem documentsRefreshSearch_extractedText (env : Env) (row : Document) :
    (documentsRefreshSearch env row).extractedText = row.extractedText := rfl

/-- The row a save leaves for given columns and extracted text: search text and search vector are
recomputed, so nothing of the object's own search columns survives. -/
def Document.indexed (env : Env) (columns : DocumentColumns) (extractedText : Str) : Document where
  toDocumentColumns := columns
  extractedText := extractedText
  searchText := columns.searchable env extractedText
  searchVector := some (env.toTsvector (columns.searchable env extractedText))

/-- Indexing keeps the columns. -/
@[simp] theorem Document.indexed_columns (env : Env) (columns : DocumentColumns) (text : Str) :
    (Document.indexed env columns text).toDocumentColumns = columns := rfl

/-- Indexing keeps the extracted text. -/
@[simp] theorem Document.indexed_extractedText (env : Env) (columns : DocumentColumns)
    (text : Str) : (Document.indexed env columns text).extractedText = text := rfl

/-- **Saving a deferred object** over its row keeps the extracted text of the row. -/
theorem DocumentObject.save_deferred {env : Env} {db : Db} {now : Timestamp}
    {columns : DocumentColumns} {row : Document} (h : db.documents.find columns.id = some row) :
    DocumentObject.save env db now ⟨columns, none, none, none⟩ =
      .ok (db.putDocument (.indexed env { columns with updatedAt := now } row.extractedText),
        ⟨{ columns with updatedAt := now }, some row.extractedText,
          some (DocumentColumns.searchable env { columns with updatedAt := now } row.extractedText),
          none⟩) := by
  simp only [DocumentObject.save, DocumentObject.readExtractedText, h]
  rfl

/-- **Saving a fully loaded object** over its row writes every column of the object. -/
theorem DocumentObject.save_loaded {env : Env} {db : Db} {now : Timestamp}
    {columns : DocumentColumns} {row : Document} {text : Str} {searchText : Option Str}
    {vector : Option TsVector} (h : db.documents.find columns.id = some row) :
    DocumentObject.save env db now ⟨columns, some text, searchText, some vector⟩ =
      .ok (db.putDocument (.indexed env { columns with updatedAt := now } text),
        ⟨{ columns with updatedAt := now }, some text,
          some (DocumentColumns.searchable env { columns with updatedAt := now } text),
          some vector⟩) := by
  simp only [DocumentObject.save, DocumentObject.readExtractedText, h]
  rfl

/-- **What any save leaves**: the columns of the object with the text it has or reads, indexed. -/
theorem DocumentObject.of_save {env : Env} {db db' : Db} {now : Timestamp}
    {document saved : DocumentObject} (h : document.save env db now = .ok (db', saved)) :
    ∃ text, document.readExtractedText db = .ok text ∧ db' = db.putDocument
      (.indexed env { document.toDocumentColumns with updatedAt := now } text) := by
  obtain ⟨text, hread, h⟩ := bind_eq_ok.mp h
  refine ⟨text, hread, ?_⟩
  dsimp only at h
  split at h
  · cases h
  · cases h; rfl
  · cases h; rfl
  · obtain ⟨inserted, hinsert, h⟩ := bind_eq_ok.mp h
    cases h
    rw [Db.insertDocument] at hinsert
    split at hinsert
    · cases hinsert; rfl
    · cases hinsert

end MiniDms
