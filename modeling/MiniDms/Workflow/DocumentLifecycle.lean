import MiniDms.Workflow.Provenance

/-! # The life of one document

`DocumentView` is what the tables say about one document: its row, its audit trail and its OCR jobs,
without the dispatch stamps. `DocumentMove` is the state machine of that view: a document is
created, edited, reprocessed, started, finished, recovered and deleted, and nothing else happens to
it. Every event of the system is one of these moves of every document, so that a law about
documents needs nine cases and none of the processes. -/

namespace MiniDms

open Python Relational TransitionSystem

/-- The row without its dispatch stamp. -/
def Job.unstamped (job : Job) : Job := { job with dispatchedAt := none }

/-- What the tables say about one document. -/
@[ext]
structure DocumentView where
  row : Option Document
  /-- The audit events, in commit order. -/
  trail : List AuditEvent
  /-- The OCR jobs by their identifier, unstamped. -/
  ocr : Uuid → Option Job

/-- The OCR jobs of a document. -/
def isOcrOf (id : Uuid) (job : Job) : Bool := job.kind = .ocr && job.documentId = id

/-- The view of one document in the tables. -/
def Db.view (db : Db) (id : Uuid) : DocumentView where
  row := db.documents.find id
  trail := db.auditEvents.filter fun e => e.documentId = id
  ocr k := ((db.jobs.find k).filter (isOcrOf id)).map Job.unstamped

namespace DocumentView

/-- Append an audit event. -/
def record (v : DocumentView) (event : AuditEvent) : DocumentView :=
  { v with trail := v.trail ++ [event] }

/-- Write the row. -/
def write (v : DocumentView) (row : Document) : DocumentView := { v with row := some row }

/-- Write an OCR job. -/
def putOcr (v : DocumentView) (k : Uuid) (job : Job) : DocumentView :=
  { v with ocr := Function.update v.ocr k (some job) }

/-- `_transition`, on the view. -/
def move (env : Env) (v : DocumentView) (draw : Draw) (row : Document) (state : Status) (job : Job)
    (code : Option ErrorCode) (result : Option ExtractionResult) : DocumentView :=
  (v.write (row.move env draw.now state job code result)).record
    (auditEvent draw (row.moved draw.now state job code result)
      (.statusChanged row.status state job.attempts code job.id) job.requestId none)

/-- What a completed attempt writes: the settled job and the moved document. -/
def settle (env : Env) (v : DocumentView) (draw : Draw) (row : Document) (job : Job)
    (result : Option ExtractionResult) : DocumentView :=
  (v.putOcr job.id job).move env draw row job.state.documentStatus job job.errorCode result

end DocumentView

/-- The moves of the document `id` under one event: the view before it and the view after it. -/
inductive DocumentMove (env : Env) (w : World) (id : Uuid) :
    Event → DocumentView → DocumentView → Prop
  | same {e : Event} {v : DocumentView} : DocumentMove env w id e v v
  /-- An OCR job that outlives its document is discarded or completed. -/
  | orphaned {e : Event} {v : DocumentView} {k : Uuid} {job job' : Job} (hrow : v.row = none)
      (hjob : v.ocr k = some job) (hlive : job.state ≠ .failed) :
      DocumentMove env w id e v (v.putOcr k job')
  | created {call : Nat} {u : Upload} {ids : UploadIds} {actual : StorageKey} {draw : Draw}
      {jobId : Uuid} {fault : Option Statement} {ack : Ack} {v : DocumentView}
      (hu : w.uploads call = some u) (hpc : u.pc = .named ids actual) (hid : ids.documentId = id)
      (hjob : jobId ∉ w.drawn) (hrow : v.row = none) (htrail : v.trail = [])
      (hocr : ∀ k, v.ocr k = none) :
      DocumentMove env w id (.upload call (.commit draw jobId fault ack)) v
        (((v.write (.indexed env (u.document ids actual draw.now) [])).record
          (auditEvent draw (u.document ids actual draw.now) .created u.requestId
            (some u.user))).putOcr jobId (ocrJob jobId id u.requestId draw.now))
  | edited {request : Request} {data : Patch} {draw : Draw} {row : Document} {v : DocumentView}
      (hpk : request.pk = id) (hrow : v.row = some row)
      (hmatch : request.ifMatch = some (etag row.revision))
      (hchanged : data.changed row.toDocumentColumns ≠ []) :
      DocumentMove env w id (.partialUpdate request (.ok data) draw) v
        ((v.write (.indexed env (data.edit draw.now row.toDocumentColumns)
          row.extractedText)).record
          (auditEvent draw (data.edit draw.now row.toDocumentColumns)
            (.metadataUpdated (data.changed row.toDocumentColumns) (row.revision + 1))
            request.requestId (some request.user)))
  | reprocessed {request : Request} {jobId : Uuid} {draw : Draw} {row : Document}
      {v : DocumentView} (hpk : request.pk = id) (hjob : jobId ∉ w.drawn) (hrow : v.row = some row)
      (hmatch : request.ifMatch = some (etag row.revision)) (hfailed : row.status = .failed) :
      DocumentMove env w id (.reprocess request jobId draw) v
        (((v.write (.indexed env (row.reprocessed draw.now) row.extractedText)).record
          (auditEvent draw (row.reprocessed draw.now) (.reprocessRequested .pending)
            request.requestId (some request.user))).putOcr jobId
          (ocrJob jobId id request.requestId draw.now))
  | deleted {request : Request} {jobId : Uuid} {draw : Draw} {row : Document} {v : DocumentView}
      (hpk : request.pk = id) (hrow : v.row = some row)
      (hmatch : request.ifMatch = some (etag row.revision)) :
      DocumentMove env w id (.destroy request jobId draw) v
        { v.record (auditEvent draw row.toDocumentColumns .deleted request.requestId
            (some request.user)) with row := none }
  | started {delivery : Nat} {jobId token : Uuid} {draw : Draw} {job : Job} {row : Document}
      {v : DocumentView} (hrow : v.row = some row) (hjob : v.ocr jobId = some job)
      (hpending : job.state = .pending) :
      DocumentMove env w id (.claim delivery jobId token draw) v
        ((v.putOcr jobId (take draw token job)).move env draw row .processing
          (take draw token job) none none)
  | finished {delivery : Nat} {call : FinishCall} {jitter : Fin 2000001} {draw : Draw}
      {d : Delivery} {job : Job} {row : Document} {v : DocumentView}
      (hd : w.deliveries delivery = some d) (hrow : v.row = some row)
      (hjob : v.ocr d.job.id = some job) (htoken : job.runToken = d.job.runToken)
      (hrunning : job.state = .running) (hresult : call.failed = none → call.result.isSome = true) :
      DocumentMove env w id (.finish delivery call jitter draw) v
        (v.settle env draw row (settle draw.now jitter call.failed job) call.result)
  | recovered {dispatcher : Nat} {token jobId : Uuid} {jitter : Fin 2000001} {draw : Draw}
      {job : Job} {row : Document} {v : DocumentView} (hrow : v.row = some row)
      (hjob : v.ocr jobId = some job) (hrunning : job.state = .running) :
      DocumentMove env w id (.recoverNext dispatcher false token jitter draw) v
        (v.settle env draw row
          (settle draw.now jitter (some workerLost) (fence draw token job)) none)

/-! ## How writes change a view -/

section View

variable {db : Db} {id : Uuid}

/-- Putting the document changes the row of its view. -/
theorem Db.view_putDocument {row : Document} (h : row.id = id) :
    (db.putDocument row).view id = (db.view id).write row := by
  ext1
  · show (db.documents.put row).find id = some row
    rw [Table.find_put, if_pos h.symm]
  · rfl
  · rfl

/-- Putting another document leaves the view alone. -/
theorem Db.view_putDocument_ne {row : Document} (h : row.id ≠ id) :
    (db.putDocument row).view id = db.view id := by
  ext1
  · show (db.documents.put row).find id = db.documents.find id
    rw [Table.find_put, if_neg (Ne.symm h)]
  · rfl
  · rfl

/-- Removing the document takes the row out of its view. -/
theorem Db.view_removeDocument : (db.removeDocument id).view id = { db.view id with row := none } := by
  ext1
  · show (db.documents.erase id).find id = none
    rw [Table.find_erase, if_pos rfl]
  · rfl
  · rfl

/-- Removing another document leaves the view alone. -/
theorem Db.view_removeDocument_ne {k : Uuid} (h : k ≠ id) :
    (db.removeDocument k).view id = db.view id := by
  ext1
  · show (db.documents.erase k).find id = db.documents.find id
    rw [Table.find_erase, if_neg (Ne.symm h)]
  · rfl
  · rfl

/-- An event of the document lengthens the trail of its view. -/
theorem Db.view_audit {draw : Draw} {document : DocumentColumns} {action : AuditAction}
    {requestId : Uuid} {actor : Option User} (h : document.id = id) :
    (audit db draw document action requestId actor).view id =
      (db.view id).record (auditEvent draw document action requestId actor) := by
  have hevent : (auditEvent draw document action requestId actor).documentId = id := h
  ext1
  · rfl
  · show List.filter _ (db.auditEvents ++ [_]) = List.filter _ db.auditEvents ++ [_]
    rw [List.filter_append, List.filter_singleton, hevent]
    simp
  · rfl

/-- An event of another document leaves the view alone. -/
theorem Db.view_audit_ne {draw : Draw} {document : DocumentColumns} {action : AuditAction}
    {requestId : Uuid} {actor : Option User} (h : document.id ≠ id) :
    (audit db draw document action requestId actor).view id = db.view id := by
  have hevent : (auditEvent draw document action requestId actor).documentId ≠ id := h
  ext1
  · rfl
  · show List.filter _ (db.auditEvents ++ [_]) = List.filter _ db.auditEvents
    rw [List.filter_append, List.filter_singleton]
    simp [hevent]
  · rfl

/-- An OCR job of the document. -/
theorem Db.view_putJob {job : Job} (h : isOcrOf id job = true) :
    (db.putJob job).view id = (db.view id).putOcr job.id job.unstamped := by
  ext1
  · rfl
  · rfl
  · funext k
    show (((db.jobs.put job).find k).filter (isOcrOf id)).map Job.unstamped =
      Function.update (db.view id).ocr job.id (some job.unstamped) k
    rw [Table.find_put, Function.update_apply]
    split
    · rw [Option.filter_some, if_pos h, Option.map_some]
    · rfl

/-- A job that is no OCR job of the document, over a row that is none either. -/
theorem Db.view_putJob_ne {job : Job} (h : isOcrOf id job = false)
    (hold : (db.view id).ocr job.id = none) : (db.putJob job).view id = db.view id := by
  ext1
  · rfl
  · rfl
  · funext k
    show (((db.jobs.put job).find k).filter (isOcrOf id)).map Job.unstamped = _
    rw [Table.find_put]
    split
    · next hk => rw [Option.filter_some, h, if_neg (by simp), Option.map_none, hk, hold]
    · rfl

/-- A bulk update that keeps the OCR jobs of the document up to their stamps. -/
theorem Db.view_updateJobs {p : Job → Bool} {f : Job → Job}
    (hkind : ∀ j, (f j).kind = j.kind) (hdoc : ∀ j, (f j).documentId = j.documentId)
    (hsame : ∀ k j, db.jobs.find k = some j → isOcrOf id j = true → p j = true →
      ({ f j with id := j.id } : Job).unstamped = j.unstamped) :
    (db.updateJobs p f).view id = db.view id := by
  ext1
  · rfl
  · rfl
  · funext k
    show (((db.updateJobs p f).jobs.find k).filter (isOcrOf id)).map Job.unstamped =
      ((db.jobs.find k).filter (isOcrOf id)).map Job.unstamped
    rw [Db.find_updateJobs]
    cases hj : db.jobs.find k with
    | none => rfl
    | some j =>
        rw [Option.map_some]
        by_cases hp : p j = true
        · have hocr : isOcrOf id { f j with id := j.id } = isOcrOf id j := by
            simp only [isOcrOf, hkind, hdoc]
          rw [if_pos hp, Option.filter_some, Option.filter_some, hocr]
          split
          · next ho => rw [Option.map_some, Option.map_some, hsame k j hj ho hp]
          · rfl
        · rw [if_neg hp]

/-- An OCR job in the view is an unstamped row of the table. -/
theorem Db.view_ocr_eq_some_iff {k : Uuid} {job : Job} :
    (db.view id).ocr k = some job ↔
      ∃ j, db.jobs.find k = some j ∧ isOcrOf id j = true ∧ j.unstamped = job := by
  show ((db.jobs.find k).filter (isOcrOf id)).map Job.unstamped = some job ↔ _
  simp only [Option.map_eq_some_iff, Option.filter_eq_some_iff, and_assoc]

/-- An OCR job of the document is in its view. -/
theorem Db.view_ocr_of_find {k : Uuid} {j : Job} (hj : db.jobs.find k = some j)
    (hocr : isOcrOf id j = true) : (db.view id).ocr k = some j.unstamped :=
  Db.view_ocr_eq_some_iff.mpr ⟨j, hj, hocr, rfl⟩

/-- A row that is no OCR job of the document is not in its view. -/
theorem Db.view_ocr_of_ne {k : Uuid} {j : Job} (hj : db.jobs.find k = some j)
    (hocr : isOcrOf id j = false) : (db.view id).ocr k = none := by
  show ((db.jobs.find k).filter (isOcrOf id)).map Job.unstamped = none
  rw [hj, Option.filter_some, hocr]
  rfl

/-- A missing job is in no view. -/
theorem Db.view_ocr_of_none {k : Uuid} (hj : db.jobs.find k = none) :
    (db.view id).ocr k = none := by
  show ((db.jobs.find k).filter (isOcrOf id)).map Job.unstamped = none
  rw [hj]
  rfl

/-- Moving the document records the transition. -/
theorem Db.view_moveDocument {env : Env} {draw : Draw} {row : Document} {state : Status} {job : Job}
    {code : Option ErrorCode} {result : Option ExtractionResult} (h : row.id = id) :
    (moveDocument env db draw row state job code result).view id =
      (db.view id).move env draw row state job code result := by
  have hput : (row.move env draw.now state job code result).id = id := h
  have hmoved : (row.moved draw.now state job code result).id = id := h
  rw [moveDocument, Db.view_audit hmoved, Db.view_putDocument hput]
  rfl

/-- Moving another document leaves the view alone. -/
theorem Db.view_moveDocument_ne {env : Env} {draw : Draw} {row : Document} {state : Status}
    {job : Job} {code : Option ErrorCode} {result : Option ExtractionResult} (h : row.id ≠ id) :
    (moveDocument env db draw row state job code result).view id = db.view id := by
  have hput : (row.move env draw.now state job code result).id ≠ id := h
  have hmoved : (row.moved draw.now state job code result).id ≠ id := h
  rw [moveDocument, Db.view_audit_ne hmoved, Db.view_putDocument_ne hput]

/-- Settling an OCR job of a live document settles its view. -/
theorem Db.view_settleJob {env : Env} {draw : Draw} {job : Job} {row : Document}
    {result : Option ExtractionResult} (hocr : isOcrOf id job = true)
    (hrow : db.documents.find id = some row) :
    (settleJob env db draw job result).view id =
      (db.view id).settle env draw row job.unstamped result := by
  obtain ⟨hkind, hdoc⟩ : job.kind = .ocr ∧ job.documentId = id := by
    simpa [isOcrOf] using hocr
  rw [settleJob, hkind, hdoc, hrow]
  show (moveDocument env (db.putJob job) draw row _ _ _ _).view id = _
  rw [Db.view_moveDocument (Db.document_id hrow), Db.view_putJob hocr]
  rfl

/-- Settling an OCR job of a missing document moves nothing but the job. -/
theorem Db.view_settleJob_none {env : Env} {draw : Draw} {job : Job}
    {result : Option ExtractionResult} (hocr : isOcrOf id job = true)
    (hrow : db.documents.find id = none) :
    (settleJob env db draw job result).view id = (db.view id).putOcr job.id job.unstamped := by
  obtain ⟨hkind, hdoc⟩ : job.kind = .ocr ∧ job.documentId = id := by
    simpa [isOcrOf] using hocr
  rw [settleJob, hkind, hdoc, hrow]
  exact Db.view_putJob hocr

/-- Settling any other job leaves the view. -/
theorem Db.view_settleJob_ne {env : Env} {draw : Draw} {job : Job}
    {result : Option ExtractionResult} (hocr : isOcrOf id job = false)
    (hold : (db.view id).ocr job.id = none) :
    (settleJob env db draw job result).view id = db.view id := by
  rw [settleJob]
  split
  · next row hkind hrow =>
      have hne : row.id ≠ id := by
        rw [Db.document_id hrow]
        simpa [isOcrOf, hkind] using hocr
      rw [Db.view_moveDocument_ne hne, Db.view_putJob_ne hocr hold]
  · exact Db.view_putJob_ne hocr hold

/-- Settling overwrites what was written to the row of the job just before. -/
theorem Db.view_settleJob_updateJob {env : Env} {draw : Draw} {job : Job} {f : Job → Job}
    {result : Option ExtractionResult} :
    (settleJob env (db.updateJob job.id f) draw job result).view id =
      (settleJob env db draw job result).view id := by
  have hjobs : ∀ k, (settleJob env (db.updateJob job.id f) draw job result).jobs.find k =
      (settleJob env db draw job result).jobs.find k := by
    intro k
    rw [find_settleJob, find_settleJob]
    split
    · rfl
    · next hk => rw [Db.find_updateJob, if_neg hk]
  ext1
  · show Table.find (settleJob env _ draw job result).documents id =
      (settleJob env db draw job result).documents.find id
    unfold settleJob
    rw [Db.updateJob_documents]
    split <;> rfl
  · show List.filter _ (settleJob env _ draw job result).auditEvents =
      List.filter _ (settleJob env db draw job result).auditEvents
    unfold settleJob
    rw [Db.updateJob_documents]
    split <;> rfl
  · funext k
    show ((Table.find _ k).filter (isOcrOf id)).map Job.unstamped = _
    rw [hjobs k]
    rfl

end View

/-! ## Every event moves every document -/

/-- A job row over which another row is put, seen from a document it does not belong to. -/
theorem Db.view_putJob_other {db : Db} {id jobId : Uuid} {job job' : Job}
    (hjob : db.jobs.find jobId = some job) (hkey : job'.id = job.id) (hkind : job'.kind = job.kind)
    (hdoc : job'.documentId = job.documentId) (hocr : isOcrOf id job = false) :
    (db.putJob job').view id = db.view id := by
  have hocr' : isOcrOf id job' = false := by
    rw [← hocr]
    simp only [isOcrOf, hkind, hdoc]
  refine Db.view_putJob_ne hocr' ?_
  rw [hkey, Db.job_id hjob]
  exact Db.view_ocr_of_ne hjob hocr

/-- What a call writes into its intent is not seen from any document. -/
theorem IntentWrite.view {db : Db} {id jobId : Uuid} {f : Job → Job} (hf : IntentWrite f)
    (hdelete : ∀ j, db.jobs.find jobId = some j → j.kind = .deleteObject) :
    (db.updateJob jobId f).view id = db.view id := by
  have hkind : ∀ j, (f j).kind = j.kind := by cases hf <;> exact fun _ => rfl
  have hdoc : ∀ j, (f j).documentId = j.documentId := by cases hf <;> exact fun _ => rfl
  refine Db.view_updateJobs hkind hdoc fun k j hj hocr hp => ?_
  have hk : k = jobId := (Db.job_id hj).symm.trans (decide_eq_true_iff.mp hp)
  rw [isOcrOf, hdelete j (hk ▸ hj)] at hocr
  cases hocr

/-- Committing a document is its creation, and unseen from every other document. -/
theorem Upload.documentMove_created {env : Env} {w : World} {call : Nat} {u : Upload}
    {ids : UploadIds} {actual : StorageKey} {draw : Draw} {jobId : Uuid} {fault : Option Statement}
    {ack : Ack} (hw : Known w) (hp : Provenance w) (hjob : jobId ∉ w.drawn)
    (hu : w.uploads call = some u) (hpc : u.pc = .named ids actual) (id : Uuid) :
    DocumentMove env w id (.upload call (.commit draw jobId fault ack)) (w.db.view id)
      ((writeDocument env u ids actual draw jobId w.db).view id) := by
  have hids : u.pc.ids = some ids := by rw [hpc]; rfl
  have hunborn := hp.unborn call u ids hu (by rw [hpc]; rfl)
  have hknown : ids.intentId ∈ w.drawn := (hw.knows_upload hu hids).2.2
  obtain ⟨intent, hintent, hkind, -⟩ := hp.intents call u ids hu hids
  have hnone : (w.db.view id).ocr jobId = none :=
    Db.view_ocr_of_none (hw.db.job_of_fresh hjob)
  rw [writeDocument, (IntentWrite.complete draw.now).view]
  · by_cases hid : ids.documentId = id
    · subst hid
      have hocr : isOcrOf ids.documentId (ocrJob jobId ids.documentId u.requestId draw.now) = true :=
        by simp [isOcrOf, ocrJob]
      have hcolumns : (u.document ids actual draw.now).id = ids.documentId := rfl
      have hrow : (Document.indexed env (u.document ids actual draw.now) []).id = ids.documentId :=
        rfl
      rw [Db.view_putJob hocr, Db.view_audit hcolumns, Db.view_putDocument hrow]
      refine .created hu hpc rfl hjob hunborn.document ?_ fun k => ?_
      · exact List.filter_eq_nil_iff.mpr fun e he => by simpa using hunborn.audits e he
      · cases hk : w.db.jobs.find k with
        | none => exact Db.view_ocr_of_none hk
        | some j =>
            refine Db.view_ocr_of_ne hk ?_
            by_contra hj
            obtain ⟨hocr', hdoc'⟩ : j.kind = .ocr ∧ j.documentId = ids.documentId := by
              simpa [isOcrOf] using hj
            exact hunborn.ne_of_ocr hk hocr' hdoc'
    · have hocr : isOcrOf id (ocrJob jobId ids.documentId u.requestId draw.now) = false := by
        simp [isOcrOf, ocrJob, hid]
      have hcolumns : (u.document ids actual draw.now).id ≠ id := hid
      have hrow : (Document.indexed env (u.document ids actual draw.now) []).id ≠ id := hid
      rw [Db.view_putJob_ne hocr, Db.view_audit_ne hcolumns, Db.view_putDocument_ne hrow]
      · exact .same
      · rw [Db.view_audit_ne hcolumns, Db.view_putDocument_ne hrow]
        exact hnone
  · -- The intent is still a cleanup job after the OCR job has been inserted.
    intro j hj
    have hne : ids.intentId ≠ jobId := fun h => hjob (h ▸ hknown)
    rw [Db.putJob_jobs, Table.find_put, if_neg (by exact hne)] at hj
    have hj' : w.db.jobs.find ids.intentId = some j := hj
    rw [hintent] at hj'
    cases hj'
    exact hkind

/-- **Every statement of a call moves every document.** -/
theorem Upload.Advance.documentMove {env : Env} {w : World} {call : Nat} {move : UploadMove}
    {u u' : Upload} {db' : Db} {store' : Store} (hw : Known w) (hp : Provenance w)
    (hf : w.Fresh move.draws) (hu : w.uploads call = some u)
    (ha : Advance env w.db w.store u move db' store' u') (id : Uuid) :
    DocumentMove env w id (.upload call move) (w.db.view id) (db'.view id) := by
  -- The call's own intent is a cleanup job.
  have hintent : ∀ {ids : UploadIds} {f : Job → Job}, u.pc.ids = some ids → IntentWrite f →
      (w.db.updateJob ids.intentId f).view id = w.db.view id := by
    intro ids f hids hwrite
    refine hwrite.view fun j hj => ?_
    obtain ⟨j', hj', hdelete, -⟩ := hp.intents call u ids hu hids
    rw [hj] at hj'
    cases hj'
    exact hdelete
  cases ha with
  | @intended ids now ack hpc =>
      have hfresh : ids.intentId ∉ w.drawn := hf.2 _ (by simp [UploadMove.draws])
      have hocr : isOcrOf id (u.intent ids now) = false := rfl
      rw [Db.view_putJob_ne hocr (Db.view_ocr_of_none (hw.db.job_of_fresh hfresh))]
      exact .same
  | renamed hpc =>
      rw [renameIntent, hintent (congrArg UploadPc.ids hpc) (.rename _ _)]
      exact .same
  | replayed hpc =>
      rw [writeReplay, hintent (congrArg UploadPc.ids hpc) (.replay _)]
      exact .same
  | conflictExpedited hpc | failureExpedited hpc =>
      rw [expediteIntent, hintent (congrArg UploadPc.ids hpc) (.expedite _)]
      exact .same
  | @created ids actual draw jobId fault ack hpc =>
      have hjob : jobId ∉ w.drawn := hf.2 _ (by simp [UploadMove.draws])
      exact documentMove_created hw hp hjob hu hpc id
  | _ => exact .same

/-- A settled job carries no dispatch stamp. -/
theorem settle_unstamped (now : Timestamp) (jitter : Fin 2000001) (failure : Option OCRFailure)
    (job : Job) :
    (settle now jitter failure job).unstamped = settle now jitter failure job.unstamped := by
  cases failure <;> rfl

/-- A worker that completes an OCR job of a live document passes a result: the document cannot have
been found missing. -/
theorem Provenance.result_isSome {w : World} (hp : Provenance w) {delivery : Nat} {d : Delivery}
    {current : Job} {id : Uuid} {row : Document} {call : FinishCall}
    (hd : w.deliveries delivery = some d) (hjob : w.db.jobs.find d.job.id = some current)
    (hocr : isOcrOf id current = true) (hrow : w.db.documents.find id = some row)
    (hpermit : d.permits call = true) (hok : call.failed = none) : call.result.isSome = true := by
  obtain ⟨j, hj, hkind, hdoc⟩ := hp.held delivery d hd
  rw [hjob] at hj
  cases hj
  obtain ⟨hk, hid⟩ : current.kind = .ocr ∧ current.documentId = id := by simpa [isOcrOf] using hocr
  cases call with
  | failure e => cases hok
  | success result =>
      cases result with
      | some r => rfl
      | none =>
          have hmiss : d.missing = true := by
            simpa [Delivery.permits, ← hkind, hk] using hpermit
          obtain ⟨-, hnone⟩ := hp.missing delivery d hd hmiss
          rw [← hdoc, hid, hrow] at hnone
          cases hnone

/-- Completing an OCR job whose document is missing touches no other view. -/
theorem DocumentMove.of_discard {env : Env} {w : World} {id jobId token : Uuid} {e : Event}
    {draw : Draw} {job : Job} (hjob : w.db.jobs.find jobId = some job)
    (hc : Claimable draw.now job) (hkind : job.kind = .ocr)
    (hrow : w.db.documents.find job.documentId = none) :
    DocumentMove env w id e (w.db.view id)
      (((w.db.putJob (take draw token job)).putJob (discard (take draw token job))).view id) := by
  by_cases hid : job.documentId = id
  · have hocr : isOcrOf id job = true := by simp [isOcrOf, hkind, hid]
    have htake : isOcrOf id (take draw token job) = true := hocr
    have hdone : isOcrOf id (discard (take draw token job)) = true := hocr
    have hlive : job.unstamped.state ≠ .failed := by
      have hpending : job.unstamped.state = .pending := hc.1
      rw [hpending]
      decide
    rw [Db.view_putJob hdone, Db.view_putJob htake]
    have hover : ((w.db.view id).putOcr job.id (take draw token job).unstamped).putOcr job.id
        (discard (take draw token job)).unstamped =
          (w.db.view id).putOcr job.id (discard (take draw token job)).unstamped := by
      simp only [DocumentView.putOcr, Function.update_idem]
    have hfind : w.db.jobs.find job.id = some job := (Db.job_id hjob).symm ▸ hjob
    refine Eq.mpr (congrArg _ hover) ?_
    exact .orphaned (hid ▸ hrow) (Db.view_ocr_of_find hfind hocr) hlive
  · have hocr : isOcrOf id job = false := by simp [isOcrOf, hid]
    have hdone : isOcrOf id (discard (take draw token job)) = false := hocr
    have htake : (w.db.putJob (take draw token job)).view id = w.db.view id :=
      Db.view_putJob_other hjob rfl rfl rfl hocr
    rw [Db.view_putJob_ne hdone, htake]
    · exact .same
    · rw [htake]
      refine Db.view_ocr_of_ne ?_ hocr
      exact (Db.job_id hjob).symm ▸ hjob

/-- Settling a running job is a move of its document, if that is a move while the document is live. -/
theorem DocumentMove.of_settleJob {env : Env} {w : World} {id jobId : Uuid} {e : Event} {draw : Draw}
    {job settled : Job} {result : Option ExtractionResult} (hjob : w.db.jobs.find jobId = some job)
    (hrunning : job.state = .running) (hid : settled.id = jobId)
    (hsame : isOcrOf id settled = isOcrOf id job)
    (hmove : ∀ row, w.db.documents.find id = some row → isOcrOf id job = true →
      DocumentMove env w id e (w.db.view id)
        ((w.db.view id).settle env draw row settled.unstamped result)) :
    DocumentMove env w id e (w.db.view id) ((settleJob env w.db draw settled result).view id) := by
  cases hocr : isOcrOf id job with
  | false =>
      rw [Db.view_settleJob_ne (hsame.trans hocr)]
      · exact .same
      · rw [hid]
        exact Db.view_ocr_of_ne hjob hocr
  | true =>
      cases hrow : w.db.documents.find id with
      | none =>
          have hlive : job.unstamped.state ≠ .failed := by
            have hstate : job.unstamped.state = .running := hrunning
            rw [hstate]
            decide
          rw [Db.view_settleJob_none (hsame.trans hocr) hrow, hid]
          exact .orphaned hrow (Db.view_ocr_of_find hjob hocr) hlive
      | some row =>
          rw [Db.view_settleJob (hsame.trans hocr) hrow]
          exact hmove row hrow hocr

/-- **Every event moves every document.** The faithful system refines the state machine of one
document. -/
theorem Effect.documentMove {env : Env} {w w' : World} {e : Event} (hw : Known w)
    (hp : Provenance w) (he : Effect env w e w') (id : Uuid) :
    DocumentMove env w id e (w.db.view id) (w'.db.view id) := by
  cases he with
  | @edited request data draw row _ hrow _ hmatch hchanged =>
      have hedit := data.edit_id draw.now row.toDocumentColumns
      by_cases hid : row.id = id
      · have hpk : request.pk = id := (Db.document_id hrow).symm.trans hid
        have hcolumns := hedit.trans hid
        rw [Db.view_audit hcolumns, Db.view_putDocument hcolumns]
        exact .edited hpk (hpk ▸ hrow) hmatch hchanged
      · have hcolumns : (data.edit draw.now row.toDocumentColumns).id ≠ id := hedit ▸ hid
        rw [Db.view_audit_ne hcolumns, Db.view_putDocument_ne hcolumns]
        exact .same
  | @destroyed request jobId draw row hf hrow _ hmatch =>
      have hfresh : jobId ∉ w.drawn := hf.2 _ (by simp)
      have hocr : isOcrOf id (cleanupJob jobId row.toDocumentColumns request.requestId draw.now) =
          false := rfl
      have hcleanup : ((audit w.db draw row.toDocumentColumns .deleted request.requestId
          (some request.user)).putJob (cleanupJob jobId row.toDocumentColumns request.requestId
            draw.now)).view id = (audit w.db draw row.toDocumentColumns .deleted request.requestId
              (some request.user)).view id :=
        Db.view_putJob_ne hocr (Db.view_ocr_of_none (hw.db.job_of_fresh hfresh))
      by_cases hid : row.id = id
      · have hpk : request.pk = id := (Db.document_id hrow).symm.trans hid
        rw [hid, Db.view_removeDocument, hcleanup, Db.view_audit hid]
        exact .deleted hpk (hpk ▸ hrow) hmatch
      · rw [Db.view_removeDocument_ne hid, hcleanup, Db.view_audit_ne hid]
        exact .same
  | @reprocessed request jobId draw row hf hrow _ hmatch hfailed =>
      have hfresh : jobId ∉ w.drawn := hf.2 _ (by simp)
      by_cases hid : row.id = id
      · have hpk : request.pk = id := (Db.document_id hrow).symm.trans hid
        have hcolumns : (row.reprocessed draw.now).id = id := hid
        have hindexed : (Document.indexed env (row.reprocessed draw.now) row.extractedText).id =
            id := hid
        have hocr : isOcrOf id (ocrJob jobId row.id request.requestId draw.now) = true := by
          simp [isOcrOf, ocrJob, hid]
        rw [Db.view_putJob hocr, Db.view_audit hcolumns, Db.view_putDocument hindexed, hid]
        exact .reprocessed hpk hfresh (hpk ▸ hrow) hmatch hfailed
      · have hcolumns : (row.reprocessed draw.now).id ≠ id := hid
        have hindexed : (Document.indexed env (row.reprocessed draw.now) row.extractedText).id ≠
            id := hid
        have hocr : isOcrOf id (ocrJob jobId row.id request.requestId draw.now) = false := by
          simp [isOcrOf, ocrJob, hid]
        rw [Db.view_putJob_ne hocr, Db.view_audit_ne hcolumns, Db.view_putDocument_ne hindexed]
        · exact .same
        · exact Db.view_ocr_of_none (hw.db.job_of_fresh hfresh)
  | @advanced call move u u' db' store' hf hu _ ha => exact ha.documentMove hw hp hf hu id
  | @cleanupClaimed delivery jobId token draw job _ _ hjob _ hkind =>
      have hocr : isOcrOf id job = false := by simp [isOcrOf, hkind]
      have hsame : (w.db.putJob (take draw token job)).view id = w.db.view id :=
        Db.view_putJob_other hjob rfl rfl rfl hocr
      rw [hsame]
      exact .same
  | discarded _ hjob hc hkind hrow => exact .of_discard hjob hc hkind hrow
  | @ocrClaimed delivery jobId token draw job row _ _ hjob hc hkind hrow =>
      have hrowId : row.id = job.documentId := Db.document_id hrow
      by_cases hid : job.documentId = id
      · have hocr : isOcrOf id job = true := by simp [isOcrOf, hkind, hid]
        have htake : isOcrOf id (take draw token job) = true := hocr
        have hkey : job.id = jobId := Db.job_id hjob
        have htakeKey : (take draw token job).id = jobId := hkey
        rw [Db.view_moveDocument (hrowId.trans hid), Db.view_putJob htake, htakeKey]
        exact .started (hid ▸ hrow) (Db.view_ocr_of_find hjob hocr) hc.1
      · have hocr : isOcrOf id job = false := by simp [isOcrOf, hid]
        have htake : (w.db.putJob (take draw token job)).view id = w.db.view id :=
          Db.view_putJob_other hjob rfl rfl rfl hocr
        rw [Db.view_moveDocument_ne (hrowId ▸ hid), htake]
        exact .same
  | @settled delivery call jitter draw d current _ hd hpermit hjob htoken hrunning =>
      have hid : (settle draw.now jitter call.failed current).id = d.job.id :=
        (settle_id ..).trans (Db.job_id hjob)
      have hsame : isOcrOf id (settle draw.now jitter call.failed current) = isOcrOf id current := by
        simp [isOcrOf]
      refine .of_settleJob hjob hrunning hid hsame fun row hrow hocr => ?_
      rw [settle_unstamped]
      refine .finished hd hrow (Db.view_ocr_of_find hjob hocr) htoken hrunning fun hok => ?_
      exact hp.result_isSome hd hjob hocr hrow hpermit hok
  | @recovered dispatcher limit token jitter draw jobId todo job _ _ hjob hexp =>
      have hkey : job.id = jobId := Db.job_id hjob
      have hrunning := running_of_expired hexp
      have hid : (settle draw.now jitter (some workerLost) (fence draw token job)).id = jobId :=
        (settle_id ..).trans hkey
      -- The settled row overwrites the fenced one.
      have hover : (settleJob env (w.db.updateJob jobId (fence draw token)) draw
          (settle draw.now jitter (some workerLost) (fence draw token job)) none).view id =
            (settleJob env w.db draw
              (settle draw.now jitter (some workerLost) (fence draw token job)) none).view id := by
        rw [← hid]
        exact Db.view_settleJob_updateJob
      have hsame : isOcrOf id (settle draw.now jitter (some workerLost) (fence draw token job)) =
          isOcrOf id job := by
        simp [isOcrOf, fence]
      rw [hover]
      refine .of_settleJob hjob hrunning hid hsame fun row hrow hocr => ?_
      have hfence : (fence draw token job).unstamped = fence draw token job.unstamped := rfl
      rw [settle_unstamped, hfence]
      exact .recovered hrow (Db.view_ocr_of_find hjob hocr) hrunning
  | @stamped dispatcher limit now locked _ =>
      have hsame : (stampDispatched w.db now
          ((selectDue w.db now limit locked).map Job.id)).view id = w.db.view id :=
        Db.view_updateJobs (fun _ => rfl) (fun _ => rfl) fun _ _ _ _ _ => rfl
      rw [hsame]
      exact .same
  | @rearmed jobId now job hjob hkind =>
      have hocr : isOcrOf id job = false := by simp [isOcrOf, hkind]
      have hsame : (w.db.putJob (rearm now job)).view id = w.db.view id :=
        Db.view_putJob_other hjob rfl rfl rfl hocr
      rw [hsame]
      exact .same
  | _ => exact .same

end MiniDms
