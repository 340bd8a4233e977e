import MiniDms.Documents.Views
import MiniDms.Workflow.World

/-! # Requests from end to end

What a client sees of the system: it sends a request of one of the endpoints and is answered.
`World.serve` runs a request alone, from its first statement to its response. The reading endpoints
answer from the committed tables and the store; the writing ones execute the events of `World`, so
that whatever a request leaves is again a state of the system. -/

namespace MiniDms

open Python Relational TransitionSystem

/-- The requests that name a document in their path. -/
inductive DocumentRequest
  | retrieve
  | processingStatus
  | text
  | download
  | partialUpdate (ifMatch : Option Str) (body : Except ApiError Patch)
  | destroy (ifMatch : Option Str)
  | reprocess (ifMatch : Option Str)

/-- The requests of the document endpoints and of the audit log. `body` is what the serializer makes
of the request's data. -/
inductive ApiRequest
  | list (params : ListParams)
  | create (body : Except ApiError UploadData) (idempotencyKey : Option Str)
  | document (pk : Uuid) (request : DocumentRequest)
  | auditEvents (documentId : Option Str) (params : PageParams)

/-- What is decided outside while a request is served: the clock, the random identifiers, and for an
upload the number of its call and how each of its statements ends. -/
structure Chance where
  requestId : Uuid
  draw : Draw
  jobId : Uuid
  call : Nat
  moves : List UploadMove

/-- Every random identifier a request draws. -/
def Chance.draws (chance : Chance) : List Uuid :=
  chance.jobId :: chance.draw.eventId :: chance.moves.flatMap UploadMove.draws

/-- The identifiers have not been used before, nor has the number of the call. -/
structure Chance.Fresh (chance : Chance) (w : World) : Prop where
  nodup : chance.draws.Nodup
  notDrawn : ∀ id ∈ chance.draws, id ∉ w.drawn
  call : w.uploads chance.call = none

/-- What a request is answered. -/
inductive Response
  | listing (page : Page DocumentListData)
  | document (response : DocumentResponse)
  | processing (data : ProcessingStatusData)
  | text (id : Uuid) (status : Status) (text : Str)
  | attachment (attachment : Attachment)
  | noContent
  | auditEvents (page : Page AuditEvent)
  | error (error : ViewError)
  /-- The process died, or still runs. -/
  | unanswered

/-- An exception of a view, as `exception_handler` answers it. -/
def Response.raised (error : ApiError) : Response := .error (.api (exceptionHandler error))

/-- The response to what a view returned or raised. -/
def Response.of {α : Type} (render : α → Response) : Except ApiError α → Response
  | .ok a => render a
  | .error e => .raised e

/-- The response to what a listing returned or raised. -/
def Response.ofPage {α : Type} (render : Page α → Response) : Except ViewError (Page α) → Response
  | .ok page => render page
  | .error (.api e) => .raised e
  | .error e => .error e

/-- The response of a view that ran as one transaction. -/
def Reply.response (status : Nat) : Reply → Response
  | .document d => .document (documentResponse d.toDocumentColumns status)
  | .done => .noContent
  | .raised e => .raised e
  | _ => .unanswered

/-- The response of `create`, from where its call of `create_document` stands. -/
def UploadPc.response : UploadPc → Response
  | .returned document created => .document (createResponse document.toDocumentColumns created)
  | .raised e => .raised e
  | _ => .unanswered

namespace World

/-- Execute the statements of a call one after the other. -/
def advance (env : Env) (call : Nat) : List UploadMove → World → Option World
  | [], w => some w
  | move :: moves, w => do
      let (w, _) ← w.perform env (.upload call move)
      w.advance env call moves

/-- Serve a request for one document. -/
def serveDocument (env : Env) (w : World) (user : User) (chance : Chance) (pk : Uuid) :
    DocumentRequest → Option (World × Response)
  | .retrieve =>
      some (w, .of (fun document => .document (documentResponse document.toDocumentColumns 200))
        (MiniDms.retrieve w.db user pk))
  | .processingStatus => some (w, .of .processing (MiniDms.processingStatus w.db user pk))
  | .text => some (w, .of (fun r => .text r.1 r.2.1 r.2.2) (readText w.db user pk))
  | .download => some (w, .of .attachment (MiniDms.download w.db w.store user pk))
  | .partialUpdate ifMatch body =>
      (w.perform env (.partialUpdate ⟨user, pk, ifMatch, chance.requestId⟩ body chance.draw)).map
        fun x => (x.1, x.2.response 200)
  | .destroy ifMatch =>
      (w.perform env (.destroy ⟨user, pk, ifMatch, chance.requestId⟩ chance.jobId chance.draw)).map
        fun x => (x.1, x.2.response 204)
  | .reprocess ifMatch =>
      (w.perform env
        (.reprocess ⟨user, pk, ifMatch, chance.requestId⟩ chance.jobId chance.draw)).map
          fun x => (x.1, x.2.response 202)

/-- Serve an upload whose data and key are valid. -/
def serveUpload (env : Env) (w : World) (user : User) (chance : Chance) (data : UploadData)
    (key : Option Str) : Option (World × Response) := do
  let (w, _) ← w.perform env (.enterUpload chance.call user data key chance.requestId)
  let w ← w.advance env chance.call chance.moves
  let u ← w.uploads chance.call
  return (w, u.pc.response)

/-- Serve a request; `none` when the statements of `chance` are not those of the request. -/
def serve (library : ViewLibrary) (env : Env) (w : World) (user : User) (chance : Chance) :
    ApiRequest → Option (World × Response)
  | .list params => some (w, .ofPage .listing (listDocuments library env w.db user params))
  | .create body key =>
      -- The serializer runs first, then the header is checked.
      match body, validateIdempotencyKey key with
      | .error e, _ => some (w, .raised e)
      | .ok _, .error e => some (w, .raised e)
      | .ok data, .ok key => w.serveUpload env user chance data key
  | .document pk request => w.serveDocument env user chance pk request
  | .auditEvents documentId params =>
      some (w, .ofPage .auditEvents (auditLog library w.db user documentId params))

end World

end MiniDms
