import MiniDms.Documents.Upload

/-! # What the views read

The listing, the views of one document, the download and the audit log, with what each serializer
exposes. They read the committed tables and the store and write nothing. -/

namespace MiniDms

open Python Relational

/-! ## Serializers -/

/-- `DocumentSerializer`. -/
structure DocumentData where
  id : Uuid
  ownerId : UserId
  filename : Str
  mimeType : MimeType
  size : Nat
  sha256 : Str
  title : Str
  description : Str
  documentType : Str
  tags : Json
  metadata : Json
  createdAt : Timestamp
  updatedAt : Timestamp
  revision : Nat
  status : Status
  attempts : Nat
  processedAt : Option Timestamp
  errorCode : Option ErrorCode
  errorMessage : String
  processingInfo : Json

/-- `DocumentSerializer(document).data`. -/
def DocumentColumns.data (document : DocumentColumns) : DocumentData where
  id := document.id
  ownerId := document.owner
  filename := document.filename
  mimeType := document.mimeType
  size := document.size
  sha256 := document.sha256
  title := document.title
  description := document.description
  documentType := document.documentType
  tags := document.tags
  metadata := document.metadata
  createdAt := document.createdAt
  updatedAt := document.updatedAt
  revision := document.revision
  status := document.status
  attempts := document.attempts
  processedAt := document.processedAt
  errorCode := document.errorCode
  errorMessage := document.errorMessage
  processingInfo := document.processingInfo

/-- `DocumentListSerializer`. -/
structure DocumentListData where
  id : Uuid
  title : Str
  filename : Str
  mimeType : MimeType
  size : Nat
  documentType : Str
  tags : Json
  status : Status
  revision : Nat
  createdAt : Timestamp
  updatedAt : Timestamp

/-- `DocumentListSerializer(document).data`. -/
def DocumentColumns.listData (document : DocumentColumns) : DocumentListData where
  id := document.id
  title := document.title
  filename := document.filename
  mimeType := document.mimeType
  size := document.size
  documentType := document.documentType
  tags := document.tags
  status := document.status
  revision := document.revision
  createdAt := document.createdAt
  updatedAt := document.updatedAt

/-- `ProcessingStatusSerializer`. -/
structure ProcessingStatusData where
  id : Uuid
  status : Status
  attempts : Nat
  errorCode : Option ErrorCode
  errorMessage : String
  processedAt : Option Timestamp
  processingInfo : Json

/-- `ProcessingStatusSerializer(document).data`. -/
def DocumentColumns.statusData (document : DocumentColumns) : ProcessingStatusData where
  id := document.id
  status := document.status
  attempts := document.attempts
  errorCode := document.errorCode
  errorMessage := document.errorMessage
  processedAt := document.processedAt
  processingInfo := document.processingInfo

/-! ## Errors and pages -/

/-- An error of a view: one that the services raise as well, or a validation error of a query
parameter with its message. -/
inductive ViewError
  | api (error : ApiError)
  | invalid (parameter message : String)
  deriving DecidableEq, Repr

/-- `document_response`, with what `create` adds to it. -/
structure DocumentResponse where
  status : Nat
  data : DocumentData
  etag : Str
  /-- The document named by the `Location` header. -/
  location : Option Uuid := none
  /-- The header `Idempotent-Replayed`. -/
  replayed : Bool := false

/-- `document_response(document, status)`. -/
def documentResponse (document : DocumentColumns) (status : Nat) : DocumentResponse where
  status := status
  data := document.data
  etag := etag document.revision

/-- The response of `create`. -/
def createResponse (document : DocumentColumns) (created : Bool) : DocumentResponse :=
  { documentResponse document (if created then 201 else 200) with
    location := some document.id
    replayed := !created }

/-- The part of a result that is shown, with the numbers of the pages around it. -/
structure PageWindow where
  start : Nat
  length : Nat
  next : Option Nat
  previous : Option Nat

/-- What the views take from the database server, the framework and the standard library. -/
structure ViewLibrary where
  /-- `search_vector @@ websearch_to_tsquery('simple', query)`. -/
  matchesQuery : Str → Document → Bool
  /-- `ts_rank(search_vector, websearch_to_tsquery('simple', query))`. -/
  rank : Str → Document → Rat
  /-- The window of a result of some length that the parameters `page` and `page_size` name; `none`
  is an invalid page. -/
  window : Option Str → Option Str → Nat → Option PageWindow
  /-- `uuid.UUID(text)`; `none` is a `ValueError`. -/
  parseUuid : Str → Option Uuid

/-- The parameters of the paginator. -/
structure PageParams where
  page : Option Str
  pageSize : Option Str

/-- A paginated response. -/
structure Page (α : Type) where
  count : Nat
  next : Option Nat
  previous : Option Nat
  results : List α

/-- `get_paginated_response` of the page of an ordered result. -/
def paginate {α β : Type} (library : ViewLibrary) (params : PageParams) (serialize : α → β)
    (rows : List α) : Except ViewError (Page β) :=
  match library.window params.page params.pageSize rows.length with
  | none => .error (.api .notFound)
  | some window => .ok
      { count := rows.length
        next := window.next
        previous := window.previous
        results := ((rows.drop window.start).take window.length).map serialize }

/-! ## The listing -/

/-- The query parameters of a listing, as the request has them. -/
structure ListParams extends PageParams where
  q : Option Str
  status : Option Str
  documentType : Option Str
  tag : Option Str

/-- A parameter that is neither missing nor empty. -/
def given (parameter : Option Str) : Option Str := parameter.filter fun value => value ≠ []

/-- `Document.Status(value)`. -/
def Status.ofValue (value : Str) : Option Status :=
  if value = lit "pending" then some .pending
  else if value = lit "processing" then some .processing
  else if value = lit "succeeded" then some .succeeded
  else if value = lit "failed" then some .failed
  else none

/-- `tags @> '[tag]'`. -/
def hasTag (tag : Str) : Json → Bool
  | .list items => items.any fun item =>
      match item with
      | .str value => value = tag
      | _ => false
  | _ => false

/-- `order_by("-rank", "-created_at", "-id")`; without a query every rank is the same. -/
def listedBefore (rank : Document → Rat) (a b : Document) : Prop :=
  rank b < rank a ∨ rank a = rank b ∧
    (b.createdAt < a.createdAt ∨ a.createdAt = b.createdAt ∧ b.id ≤ a.id)

/-- The order of the listing is decided by the columns of the two rows. -/
instance (rank : Document → Rat) : DecidableRel (listedBefore rank) :=
  fun _ _ => inferInstanceAs (Decidable (_ ∨ _ ∧ (_ ∨ _ ∧ _)))

/-- The filters of a listing, checked one after the other. -/
def listFilters (library : ViewLibrary) (env : Env) (params : ListParams) :
    Except ViewError ((Document → Rat) × (Document → Bool)) := do
  let query := strip (params.q.getD [])
  if 0 ∈ query then throw (.invalid "q" "NUL characters are not allowed.")
  if 200 < query.length then throw (.invalid "q" "Maximum length is 200 characters.")
  let search := normalizeText env query
  let matched := fun row => query = [] || library.matchesQuery search row
  let rank := fun row => if query = [] then 0 else library.rank search row
  let status ← match given params.status with
    | none => pure none
    | some value =>
        match Status.ofValue value with
        | none => throw (.invalid "status" "Unknown processing status.")
        | some status => pure (some status)
  let documentType := given params.documentType
  if documentType.any fun value => 64 < value.length || 0 ∈ value then
    throw (.invalid "document_type" "Use at most 64 characters without NUL.")
  let tag := given params.tag
  if tag.any fun value => 64 < value.length || 0 ∈ value then
    throw (.invalid "tag" "Use at most 64 characters without NUL.")
  return (rank, fun row => matched row && status.all (fun status => row.status = status) &&
    documentType.all (fun value => row.documentType = value) && tag.all (fun value => hasTag value row.tags))

/-- `DocumentViewSet.list`, on PostgreSQL. -/
def listDocuments (library : ViewLibrary) (env : Env) (db : Db) (user : User) (params : ListParams) :
    Except ViewError (Page DocumentListData) := do
  let (rank, selected) ← listFilters library env params
  let rows := db.documents.rows.filter fun row => scopedDocuments user row && selected row
  paginate library params.toPageParams (fun row => row.toDocumentColumns.listData)
    (rows.insertionSort (listedBefore rank))

/-! ## One document -/

/-- `DocumentViewSet.retrieve`. -/
def retrieve (db : Db) (user : User) (pk : Uuid) : Except ApiError DocumentObject :=
  getObject db user pk

/-- `DocumentViewSet.processing_status`. -/
def processingStatus (db : Db) (user : User) (pk : Uuid) : Except ApiError ProcessingStatusData := do
  let document ← getObject db user pk
  return document.statusData

/-- `DocumentViewSet.text`: the deferred text is read from the row. -/
def readText (db : Db) (user : User) (pk : Uuid) : Except ApiError (Uuid × Status × Str) := do
  let document ← getObject db user pk
  let text ← (document.readExtractedText db).mapError .database
  return (document.id, document.status, text)

/-- The attachment of a download. -/
structure Attachment where
  content : Bytes
  filename : Str
  contentType : MimeType
  contentLength : Nat

/-- `DocumentViewSet.download`. -/
def download (db : Db) (store : Store) (user : User) (pk : Uuid) : Except ApiError Attachment := do
  let document ← getObject db user pk
  match store document.storageKey with
  | none => throw .serviceUnavailable
  | some content => return ⟨content, document.filename, document.mimeType, document.size⟩

/-! ## The audit log -/

/-- `ordering = ["-created_at", "-id"]`. -/
def loggedBefore (a b : AuditEvent) : Prop :=
  b.createdAt < a.createdAt ∨ a.createdAt = b.createdAt ∧ b.id ≤ a.id

/-- The order of the log is decided by the columns of the two rows. -/
instance : DecidableRel loggedBefore := fun _ _ => inferInstanceAs (Decidable (_ ∨ _ ∧ _))

/-- `AuditListView`; its serializer exposes every column. -/
def auditLog (library : ViewLibrary) (db : Db) (user : User) (documentId : Option Str)
    (params : PageParams) : Except ViewError (Page AuditEvent) := do
  let identifier ← match given documentId with
    | none => pure none
    | some text =>
        match library.parseUuid text with
        | none => throw (.invalid "document_id" "Use a valid UUID.")
        | some id => pure (some id)
  let rows := db.auditEvents.filter fun event =>
    (user.isStaff || event.owner = user.pk) && identifier.all (fun id => event.documentId = id)
  paginate library params id (rows.insertionSort loggedBefore)

end MiniDms
