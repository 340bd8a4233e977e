import MiniDms.Documents.Models
import MiniDms.Python.Exceptions

/-! # Document services

The request handlers that run in one transaction: metadata edits, deletion and manual reprocessing,
with the view code that loads and locks the document. A raised error leaves the transaction rolled
back, so it comes without a database. -/

namespace MiniDms

open Python Relational

/-- The errors a request ends with. `database` is an error the database layer raised and `internal`
any other exception; both reach `exception_handler` as they are. -/
inductive ApiError
  | notFound
  | validation
  | conflict
  | preconditionRequired
  | preconditionFailed
  | serviceUnavailable
  | database (error : DbError)
  | internal
  deriving DecidableEq, Repr

/-- `exception_handler`: an unavailable database is answered as an unavailable service, and any other
exception that is no API error as an internal error. -/
def exceptionHandler : ApiError → ApiError
  | .database .operationalError => .serviceUnavailable
  | .database _ => .internal
  | e => e

/-- What a transaction draws from outside: the clock and the primary key of its audit event. -/
structure Draw where
  now : Timestamp
  eventId : Uuid

/-- The row `audit` inserts. -/
def auditEvent (draw : Draw) (document : DocumentColumns) (action : AuditAction) (requestId : Uuid)
    (actor : Option User) : AuditEvent where
  id := draw.eventId
  documentId := document.id
  owner := document.owner
  actor := actor.map User.pk
  actorKind := if actor.isSome then .user else .system
  action := action
  requestId := requestId
  createdAt := draw.now

/-- `audit`. -/
def audit (db : Db) (draw : Draw) (document : DocumentColumns) (action : AuditAction)
    (requestId : Uuid) (actor : Option User) : Db :=
  db.appendAudit (auditEvent draw document action requestId actor)

@[simp] theorem audit_documents (db : Db) (draw : Draw) (document : DocumentColumns)
    (action : AuditAction) (requestId : Uuid) (actor : Option User) :
    (audit db draw document action requestId actor).documents = db.documents := rfl

@[simp] theorem audit_jobs (db : Db) (draw : Draw) (document : DocumentColumns)
    (action : AuditAction) (requestId : Uuid) (actor : Option User) :
    (audit db draw document action requestId actor).jobs = db.jobs := rfl

/-- An audit event is the last of the log. -/
@[simp] theorem audit_auditEvents (db : Db) (draw : Draw) (document : DocumentColumns)
    (action : AuditAction) (requestId : Uuid) (actor : Option User) :
    (audit db draw document action requestId actor).auditEvents =
      db.auditEvents ++ [auditEvent draw document action requestId actor] := rfl

/-- The quoted revision of the `ETag` and `If-Match` headers. -/
def etag (revision : Nat) : Str := codePoint '"' :: natRepr revision ++ [codePoint '"']

/-- A quoted revision identifies the revision. -/
theorem etag_injective : Function.Injective etag := by
  intro a b h
  rw [etag, etag] at h
  exact natRepr_injective (List.append_cancel_right (List.cons.inj h).2)

/-- `check_revision`. -/
def checkRevision (document : DocumentColumns) (header : Option Str) : Except ApiError Unit :=
  match header with
  | none => .error .preconditionRequired
  | some value =>
      if value ≠ etag document.revision then .error .preconditionFailed else .ok ()

/-- `scoped_documents`, as a filter: staff see every document. -/
def scopedDocuments (user : User) (row : Document) : Bool := user.isStaff || row.owner = user.pk

/-- The character class `[A-Za-z0-9._:-]`. -/
def isKeyCharacter (c : CodePoint) : Bool :=
  (codePoint 'A' ≤ c && c ≤ codePoint 'Z') || (codePoint 'a' ≤ c && c ≤ codePoint 'z') ||
    (codePoint '0' ≤ c && c ≤ codePoint '9') || c ∈ lit "._:-"

/-- `validate_idempotency_key`. -/
def validateIdempotencyKey (key : Option Str) : Except ApiError (Option Str) :=
  match key with
  | none => .ok none
  | some k =>
      if 1 ≤ k.length ∧ k.length ≤ 128 ∧ k.all isKeyCharacter then .ok (some k)
      else .error .validation

/-- The truth value of an `Idempotency-Key`: neither `None` nor empty. -/
def truthy (key : Option Str) : Bool := key.any fun k => !k.isEmpty

/-- The condition of the query in `_replay`. -/
def sameUpload (user : User) (key : Option Str) (d : Document) : Bool :=
  d.owner = user.pk ∧ d.idempotencyKey = key

/-- `_replay`. The unique constraint on owner and key leaves at most one match for `.first()`. -/
def replay (db : Db) (user : User) (key : Option Str) (fingerprint : Str) :
    Except ApiError (Option Document) :=
  let existing := if truthy key then db.documents.rows.find? (sameUpload user key) else none
  match existing with
  | none => .ok none
  | some d => if d.requestFingerprint ≠ fingerprint then .error .conflict else .ok (some d)

/-- **What `_replay` decides.** It passes when there is no key or no document of the owner holds it;
otherwise it answers such a document, or raises `Conflict` when the fingerprints differ. -/
theorem replay_cases (db : Db) (user : User) (key : Option Str) (fingerprint : Str) :
    (replay db user key fingerprint = .ok none ∧
      (truthy key = true → ∀ d ∈ db.documents.rows, sameUpload user key d = false)) ∨
    ∃ d ∈ db.documents.rows, truthy key = true ∧ sameUpload user key d = true ∧
      replay db user key fingerprint =
        if d.requestFingerprint ≠ fingerprint then .error .conflict else .ok (some d) := by
  unfold replay
  by_cases hkey : truthy key = true
  · simp only [hkey, if_true]
    cases hfind : db.documents.rows.find? (sameUpload user key) with
    | none =>
        refine .inl ⟨rfl, fun _ d hd => ?_⟩
        simpa using List.find?_eq_none.mp hfind d hd
    | some d =>
        exact .inr ⟨d, List.mem_of_find?_eq_some hfind, trivial, List.find?_some hfind, rfl⟩
  -- No query runs without a key, so nothing is known about the rows.
  · rw [if_neg hkey]
    exact .inl ⟨rfl, fun h => absurd h hkey⟩

/-! ## Metadata edits -/

/-- The type of a field's value. -/
abbrev Field.Value : Field → Type
  | .description | .documentType | .title => Str
  | .metadata | .tags => Json

/-- Python's `!=` on two values of a field. -/
def Field.differs : (f : Field) → f.Value → f.Value → Bool
  | .description, a, b | .documentType, a, b | .title, a, b => a ≠ b
  | .metadata, a, b | .tags, a, b => !Json.eq a b

/-- `getattr(document, field)`. -/
def DocumentColumns.getField (document : DocumentColumns) : (f : Field) → f.Value
  | .description => document.description
  | .documentType => document.documentType
  | .metadata => document.metadata
  | .tags => document.tags
  | .title => document.title

/-- `setattr(document, field, value)`. -/
def DocumentColumns.setField (document : DocumentColumns) : (f : Field) → f.Value → DocumentColumns
  | .description, value => { document with description := value }
  | .documentType, value => { document with documentType := value }
  | .metadata, value => { document with metadata := value }
  | .tags, value => { document with tags := value }
  | .title, value => { document with title := value }

/-- The validated data of a metadata edit: a value for some of the fields. -/
abbrev Patch := (f : Field) → Option f.Value

/-- Every field, sorted by name. -/
def Field.all : List Field := [.description, .documentType, .metadata, .tags, .title]

/-- The supplied fields whose value differs from the stored one, sorted by name. -/
def Patch.changed (data : Patch) (document : DocumentColumns) : List Field :=
  Field.all.filter fun f => (data f).any fun value => f.differs (document.getField f) value

/-- Assign the supplied values of the listed fields. -/
def Patch.assign (data : Patch) (fields : List Field) (document : DocumentColumns) :
    DocumentColumns :=
  fields.foldl (fun d f => (data f).elim d (d.setField f)) document

/-- `document.revision += 1`. -/
def DocumentColumns.bump (document : DocumentColumns) : DocumentColumns :=
  { document with revision := document.revision + 1 }

/-- `update_document`. -/
def updateDocument (env : Env) (db : Db) (draw : Draw) (document : DocumentObject) (data : Patch)
    (user : User) (requestId : Uuid) (revision : Option Str) :
    Except ApiError (Db × DocumentObject) := do
  checkRevision document.toDocumentColumns revision
  let changed := data.changed document.toDocumentColumns
  -- An edit that changes nothing is not saved: no audit event, no new revision.
  if changed.isEmpty then
    return (db, document)
  else
    let edited := data.assign changed document.toDocumentColumns
    let document := { document with toDocumentColumns := edited.bump }
    let (db, document) ← (document.save env db draw.now).mapError .database
    let db := audit db draw document.toDocumentColumns
      (.metadataUpdated changed document.revision) requestId (some user)
    return (db, document)

/-! ## Deletion and reprocessing -/

/-- The cleanup job of a deleted document. -/
def cleanupJob (jobId : Uuid) (document : DocumentColumns) (requestId : Uuid) (now : Timestamp) :
    Job where
  id := jobId
  documentId := document.id
  kind := .deleteObject
  storageKey := some document.storageKey
  maxAttempts := 8
  availableAt := now
  requestId := requestId
  createdAt := now
  updatedAt := now

/-- `delete_document`. -/
def deleteDocument (db : Db) (draw : Draw) (jobId : Uuid) (document : DocumentObject) (user : User)
    (requestId : Uuid) (revision : Option Str) : Except ApiError Db := do
  checkRevision document.toDocumentColumns revision
  -- The event and the cleanup job carry what would be lost with the row.
  let db := audit db draw document.toDocumentColumns .deleted requestId (some user)
  let db := db.putJob (cleanupJob jobId document.toDocumentColumns requestId draw.now)
  return db.removeDocument document.id

/-- `Job.objects.create(kind=Job.Kind.OCR, document_id=..., request_id=...)`. -/
def ocrJob (jobId documentId requestId : Uuid) (now : Timestamp) : Job where
  id := jobId
  documentId := documentId
  kind := .ocr
  availableAt := now
  requestId := requestId
  createdAt := now
  updatedAt := now

/-- The assignments of `reprocess_document`. -/
def DocumentColumns.reset (document : DocumentColumns) : DocumentColumns :=
  { document with
    status := .pending
    attempts := 0
    errorCode := none
    errorMessage := ""
    revision := document.revision + 1 }

/-- `reprocess_document`. -/
def reprocessDocument (env : Env) (db : Db) (draw : Draw) (jobId : Uuid) (document : DocumentObject)
    (user : User) (requestId : Uuid) (revision : Option Str) :
    Except ApiError (Db × DocumentObject) := do
  checkRevision document.toDocumentColumns revision
  -- A pending or processing document has an active job already; a succeeded one needs none.
  if document.status ≠ .failed then
    throw .conflict
  else
    let document := { document with toDocumentColumns := document.toDocumentColumns.reset }
    let (db, document) ← (document.save env db draw.now).mapError .database
    let db := audit db draw document.toDocumentColumns (.reprocessRequested .pending) requestId
      (some user)
    return (db.putJob (ocrJob jobId document.id requestId draw.now), document)

/-! ## The views

Each locks the row it loads, so it is one atomic transaction. -/

/-- A request for one document. -/
structure Request where
  user : User
  pk : Uuid
  ifMatch : Option Str
  requestId : Uuid

/-- `get_object_or_404(self.get_queryset().select_for_update(), pk=pk)`. -/
def getObject (db : Db) (user : User) (pk : Uuid) : Except ApiError DocumentObject :=
  match db.documents.find pk with
  | some row => if scopedDocuments user row then .ok row.defer else .error .notFound
  | none => .error .notFound

/-- `DocumentViewSet.partial_update`; `body` is what `MetadataSerializer` makes of the request. -/
def partialUpdate (env : Env) (db : Db) (draw : Draw) (request : Request)
    (body : Except ApiError Patch) : Except ApiError (Db × DocumentObject) := do
  let document ← getObject db request.user request.pk
  let data ← body
  updateDocument env db draw document data request.user request.requestId request.ifMatch

/-- `DocumentViewSet.destroy`. -/
def destroy (db : Db) (draw : Draw) (jobId : Uuid) (request : Request) : Except ApiError Db := do
  let document ← getObject db request.user request.pk
  deleteDocument db draw jobId document request.user request.requestId request.ifMatch

/-- `DocumentViewSet.reprocess`. -/
def reprocess (env : Env) (db : Db) (draw : Draw) (jobId : Uuid) (request : Request) :
    Except ApiError (Db × DocumentObject) := do
  let document ← getObject db request.user request.pk
  reprocessDocument env db draw jobId document request.user request.requestId request.ifMatch

/-! ## What each view commits -/

/-- Assigning fields touches the five metadata fields only. -/
theorem Patch.assign_frame (data : Patch) (fields : List Field) (document : DocumentColumns) :
    ∃ title description documentType tags metadata,
      data.assign fields document =
        { document with
          title := title
          description := description
          documentType := documentType
          tags := tags
          metadata := metadata } := by
  -- The fold assigns to the document it has so far, so the hypothesis is about every document.
  induction fields generalizing document with
  | nil => exact ⟨_, _, _, _, _, rfl⟩
  | cons f fields ih =>
      have hcons : data.assign (f :: fields) document =
          data.assign fields ((data f).elim document (document.setField f)) := rfl
      obtain ⟨t, d, dt, tg, m, h⟩ := ih ((data f).elim document (document.setField f))
      rw [hcons, h]
      cases hf : data f with
      | none => exact ⟨t, d, dt, tg, m, rfl⟩
      | some value => cases f <;> exact ⟨t, d, dt, tg, m, rfl⟩

/-- The columns an accepted edit leaves. -/
def Patch.edit (data : Patch) (now : Timestamp) (document : DocumentColumns) : DocumentColumns :=
  { (data.assign (data.changed document) document).bump with updatedAt := now }

/-- An edit changes the metadata, the revision and the time of the last update only. -/
theorem Patch.edit_frame (data : Patch) (now : Timestamp) (document : DocumentColumns) :
    ∃ title description documentType tags metadata,
      data.edit now document =
        { document with
          title := title
          description := description
          documentType := documentType
          tags := tags
          metadata := metadata
          revision := document.revision + 1
          updatedAt := now } := by
  obtain ⟨t, d, dt, tg, m, h⟩ := data.assign_frame (data.changed document) document
  exact ⟨t, d, dt, tg, m, by rw [edit, h]; rfl⟩

section Edit

variable (data : Patch) (now : Timestamp) (document : DocumentColumns)

/-- An edit keeps the primary key. -/
@[simp] theorem Patch.edit_id : (data.edit now document).id = document.id := by
  obtain ⟨t, d, dt, tg, m, h⟩ := data.edit_frame now document
  rw [h]

/-- An edit keeps the owner. -/
@[simp] theorem Patch.edit_owner : (data.edit now document).owner = document.owner := by
  obtain ⟨t, d, dt, tg, m, h⟩ := data.edit_frame now document
  rw [h]

/-- An edit keeps the name of the object. -/
@[simp] theorem Patch.edit_storageKey :
    (data.edit now document).storageKey = document.storageKey := by
  obtain ⟨t, d, dt, tg, m, h⟩ := data.edit_frame now document
  rw [h]

/-- An edit keeps the status. -/
@[simp] theorem Patch.edit_status : (data.edit now document).status = document.status := by
  obtain ⟨t, d, dt, tg, m, h⟩ := data.edit_frame now document
  rw [h]

/-- An edit counts the revision up. -/
@[simp] theorem Patch.edit_revision :
    (data.edit now document).revision = document.revision + 1 := by
  obtain ⟨t, d, dt, tg, m, h⟩ := data.edit_frame now document
  rw [h]

end Edit

/-- The save of an assigned row finds the row it was loaded from. -/
theorem Patch.find_bump (data : Patch) {db : Db} {pk : Uuid} {row : Document}
    (hrow : db.documents.find pk = some row) :
    db.documents.find
      (data.assign (data.changed row.toDocumentColumns) row.toDocumentColumns).bump.id =
        some row := by
  have hid : (data.assign (data.changed row.toDocumentColumns) row.toDocumentColumns).bump.id =
      row.id := data.edit_id 0 row.toDocumentColumns
  rw [hid, Db.document_id hrow]
  exact hrow

/-- A passed precondition names the quoted revision of the row. -/
theorem checkRevision_eq_ok_iff {document : DocumentColumns} {header : Option Str} :
    checkRevision document header = .ok () ↔ header = some (etag document.revision) := by
  cases header with
  | none => simp [checkRevision]
  | some value => by_cases h : value = etag document.revision <;> simp [checkRevision, h]

/-- The document a view loads is a visible row with deferred search columns. -/
theorem getObject_eq_ok_iff {db : Db} {user : User} {pk : Uuid} {document : DocumentObject} :
    getObject db user pk = .ok document ↔
      ∃ row, db.documents.find pk = some row ∧ scopedDocuments user row = true ∧
        row.defer = document := by
  unfold getObject
  cases db.documents.find pk with
  | none => simp
  | some row => by_cases h : scopedDocuments user row = true <;> simp [h]

/-- **What a successful PATCH commits.** It carried the revision of the row it locked; without a
differing field it leaves the database as it is, and otherwise it writes the edited row with one
audit event. -/
theorem partialUpdate_cases {env : Env} {db db' : Db} {draw : Draw} {request : Request}
    {body : Except ApiError Patch} {document : DocumentObject}
    (h : partialUpdate env db draw request body = .ok (db', document)) :
    ∃ row data, db.documents.find request.pk = some row ∧
      scopedDocuments request.user row = true ∧ body = .ok data ∧
      request.ifMatch = some (etag row.revision) ∧
      ((data.changed row.toDocumentColumns = [] ∧ db' = db ∧ document = row.defer) ∨
        (data.changed row.toDocumentColumns ≠ [] ∧
          db' = audit
            (db.putDocument (.indexed env (data.edit draw.now row.toDocumentColumns)
              row.extractedText))
            draw (data.edit draw.now row.toDocumentColumns)
            (.metadataUpdated (data.changed row.toDocumentColumns) (row.revision + 1))
            request.requestId (some request.user) ∧
          document.toDocumentColumns = data.edit draw.now row.toDocumentColumns)) := by
  obtain ⟨o, hget, h⟩ := bind_eq_ok.mp h
  obtain ⟨row, hrow, hsc, rfl⟩ := getObject_eq_ok_iff.mp hget
  obtain ⟨data, hbody, h⟩ := bind_eq_ok.mp h
  obtain ⟨_, hcheck, h⟩ := bind_eq_ok.mp h
  refine ⟨row, data, hrow, hsc, hbody, checkRevision_eq_ok_iff.mp hcheck, ?_⟩
  by_cases hch : data.changed row.toDocumentColumns = []
  · left
    simp only [Document.defer, hch, List.isEmpty_nil, if_true] at h
    cases h
    exact ⟨hch, rfl, rfl⟩
  · right
    have hne : (data.changed row.toDocumentColumns).isEmpty = false := by simpa using hch
    simp only [Document.defer, hne, Bool.false_eq_true, if_false] at h
    obtain ⟨⟨db₁, saved⟩, hsave, h⟩ := bind_eq_ok.mp h
    -- The view deferred the search columns, so the save keeps the extracted text of the row.
    rw [mapError_eq_ok, DocumentObject.save_deferred (data.find_bump hrow)] at hsave
    cases hsave
    cases h
    exact ⟨hch, by rw [← data.edit_revision draw.now]; rfl, rfl⟩

/-- **What a successful DELETE commits.** It carried the revision of the row it locked; it leaves an
audit event and a cleanup job, and no row. -/
theorem destroy_cases {db db' : Db} {draw : Draw} {jobId : Uuid} {request : Request}
    (h : destroy db draw jobId request = .ok db') :
    ∃ row, db.documents.find request.pk = some row ∧
      scopedDocuments request.user row = true ∧ request.ifMatch = some (etag row.revision) ∧
      db' = ((audit db draw row.toDocumentColumns .deleted request.requestId
        (some request.user)).putJob (cleanupJob jobId row.toDocumentColumns request.requestId
          draw.now)).removeDocument row.id := by
  obtain ⟨o, hget, h⟩ := bind_eq_ok.mp h
  obtain ⟨row, hrow, hsc, rfl⟩ := getObject_eq_ok_iff.mp hget
  obtain ⟨_, hcheck, h⟩ := bind_eq_ok.mp h
  cases h
  exact ⟨row, hrow, hsc, checkRevision_eq_ok_iff.mp hcheck, rfl⟩

/-- The columns an accepted reprocessing request leaves. -/
def DocumentColumns.reprocessed (document : DocumentColumns) (now : Timestamp) : DocumentColumns :=
  { document.reset with updatedAt := now }

/-- **What a successful reprocessing request commits.** It carried the revision of the failed row it
locked; it leaves the reset row, an audit event and a new OCR job. -/
theorem reprocess_cases {env : Env} {db db' : Db} {draw : Draw} {jobId : Uuid} {request : Request}
    {document : DocumentObject}
    (h : reprocess env db draw jobId request = .ok (db', document)) :
    ∃ row, db.documents.find request.pk = some row ∧
      scopedDocuments request.user row = true ∧ request.ifMatch = some (etag row.revision) ∧
      row.status = .failed ∧
      db' = (audit
        (db.putDocument (.indexed env (row.reprocessed draw.now) row.extractedText))
        draw (row.reprocessed draw.now) (.reprocessRequested .pending) request.requestId
        (some request.user)).putJob (ocrJob jobId row.id request.requestId draw.now) ∧
      document.toDocumentColumns = row.reprocessed draw.now := by
  obtain ⟨o, hget, h⟩ := bind_eq_ok.mp h
  obtain ⟨row, hrow, hsc, rfl⟩ := getObject_eq_ok_iff.mp hget
  obtain ⟨_, hcheck, h⟩ := bind_eq_ok.mp h
  refine ⟨row, hrow, hsc, checkRevision_eq_ok_iff.mp hcheck, ?_⟩
  by_cases hst : row.status = .failed
  · simp only [Document.defer, hst, ne_eq, not_true_eq_false, if_false] at h
    obtain ⟨⟨db₁, saved⟩, hsave, h⟩ := bind_eq_ok.mp h
    have hfind : db.documents.find row.reset.id = some row := by
      rw [DocumentColumns.reset, Table.key_of_find hrow]
      exact hrow
    rw [mapError_eq_ok, DocumentObject.save_deferred hfind] at hsave
    cases hsave
    cases h
    exact ⟨hst, rfl, rfl⟩
  · simp only [Document.defer, ne_eq, hst, not_false_eq_true, if_true] at h
    cases h

end MiniDms
