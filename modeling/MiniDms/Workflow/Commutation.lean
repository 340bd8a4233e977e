import MiniDms.Workflow.DocumentLifecycle

/-! # Metadata edits and OCR progress commute

An edit and a transaction of the worker side both rewrite the whole document row and both recompute
its search columns. They read the row they write, so either order leaves the same row: the edit
touches the metadata and the revision, the worker everything else, and the search text is made of
both. -/

namespace MiniDms

open Python Relational TransitionSystem

/-! ## The worker side -/

/-- A transaction of the worker side on one job: a claim, a completion by a worker that holds the
job, or the recovery of an expired lease. -/
inductive WorkerTransaction
  | claim (jobId token : Uuid)
  | finish (held : Job) (call : FinishCall) (jitter : Fin 2000001)
  | recover (jobId token : Uuid) (jitter : Fin 2000001)

namespace WorkerTransaction

/-- The job the transaction locks. -/
def jobId : WorkerTransaction → Uuid
  | .claim jobId _ | .recover jobId _ _ => jobId
  | .finish held _ _ => held.id

/-- Run the transaction. -/
def run (env : Env) (db : Db) (draw : Draw) : WorkerTransaction → Except DbError Db
  | .claim jobId token => (MiniDms.claim env db draw token jobId).map Prod.fst
  | .finish held call jitter =>
      (MiniDms.finish env db draw jitter held call.result call.failed).map Prod.fst
  | .recover jobId token jitter => (recoverOne env db draw token jitter jobId).map Prod.fst

/-- The job row a transaction that is enabled writes, and the result it stores with it. -/
def written (draw : Draw) (job : Job) : WorkerTransaction → Option (Job × Option ExtractionResult)
  | .claim _ token => if Claimable draw.now job then some (take draw token job, none) else none
  | .finish held call jitter =>
      if job.runToken = held.runToken ∧ job.state = .running then
        some (settle draw.now jitter call.failed job, call.result)
      else none
  | .recover _ token jitter =>
      if expired draw.now job then
        some (settle draw.now jitter (some workerLost) (fence draw token job), none)
      else none

/-- What the transaction writes to the job table. -/
def writeJob (draw : Draw) (written : Job) (db : Db) : WorkerTransaction → Db
  | .recover jobId token _ => (db.updateJob jobId (fence draw token)).putJob written
  | _ => db.putJob written

/-- The error code the document shows: a claim clears it, a completion copies that of the job. -/
def shownCode (written : Job) : WorkerTransaction → Option ErrorCode
  | .claim .. => none
  | _ => written.errorCode

/-- The job row that a worker writes is not in the document table. -/
@[simp] theorem writeJob_documents (t : WorkerTransaction) (draw : Draw) (written : Job) (db : Db) :
    (t.writeJob draw written db).documents = db.documents := by
  cases t <;> rfl

/-- Nor is it in the log. -/
@[simp] theorem writeJob_auditEvents (t : WorkerTransaction) (draw : Draw) (written : Job)
    (db : Db) : (t.writeJob draw written db).auditEvents = db.auditEvents := by
  cases t <;> rfl

/-- What is written to the job table depends on the job table only. -/
theorem writeJob_jobs (t : WorkerTransaction) (draw : Draw) (written : Job) {db db' : Db}
    (h : db.jobs = db'.jobs) :
    (t.writeJob draw written db).jobs = (t.writeJob draw written db').jobs := by
  cases t with
  | claim | finish =>
      show db.jobs.put written = db'.jobs.put written
      rw [h]
  | recover jobId token =>
      have hfenced : (db.updateJob jobId (fence draw token)).jobs =
          (db'.updateJob jobId (fence draw token)).jobs := by
        rw [Db.updateJob, Db.updateJob, Db.updateJobs, Db.updateJobs, h]
      show (db.updateJob jobId (fence draw token)).jobs.put written = _
      rw [hfenced]
      rfl

/-- Settling an OCR job of a live document moves the document. -/
theorem settleJob_live {env : Env} {db : Db} {draw : Draw} {job : Job} {row : Document}
    {result : Option ExtractionResult} (hkind : job.kind = .ocr)
    (hrow : db.documents.find job.documentId = some row) :
    settleJob env db draw job result = moveDocument env (db.putJob job) draw row
      job.state.documentStatus job job.errorCode result := by
  rw [settleJob, hkind, hrow]

/-- **What a worker transaction does to the OCR job of a live document**: nothing when it is not
enabled, and otherwise it writes the job and moves the document. -/
theorem run_live (env : Env) {db : Db} (draw : Draw) {t : WorkerTransaction} {job : Job}
    {row : Document} (hjob : db.jobs.find t.jobId = some job) (hkind : job.kind = .ocr)
    (hrow : db.documents.find job.documentId = some row) :
    t.run env db draw = .ok (match t.written draw job with
      | none => db
      | some (job', result) => moveDocument env (t.writeJob draw job' db) draw row
          job'.state.documentStatus job' (t.shownCode job') result) := by
  cases t with
  | claim jobId token =>
      have hfind : db.jobs.find jobId = some job := hjob
      by_cases hc : Claimable draw.now job
      · have hskip : ¬ (job.state ≠ .pending ∨ draw.now < job.availableAt) :=
          mt not_claimable_iff.mpr (not_not.mpr hc)
        have hkind' : (take draw token job).kind = .ocr := hkind
        have hrow' : (db.putJob (take draw token job)).documents.find
            (take draw token job).documentId = some row := hrow
        have hload : (db.putJob (take draw token job)).documents.find row.id = some row :=
          (Db.document_id hrow).symm ▸ hrow
        simp only [run, written, MiniDms.claim, hfind, if_pos hc, if_neg hskip, hkind', hrow',
          transition_load hload]
        rfl
      · simp only [run, written, MiniDms.claim, hfind, if_neg hc, if_pos (not_claimable_iff.mp hc)]
        rfl
  | finish held call jitter =>
      have hfind : db.jobs.find held.id = some job := hjob
      rw [run, finish_of_find hfind]
      by_cases hlive : job.runToken = held.runToken ∧ job.state = .running
      · have hsettled : db.documents.find
            (settle draw.now jitter call.failed job).documentId = some row := by
          rw [settle_documentId]
          exact hrow
        have hocr : (settle draw.now jitter call.failed job).kind = .ocr := by
          rw [settle_kind, hkind]
        rw [written, if_pos hlive, if_pos hlive, settleJob_live hocr hsettled]
        rfl
      · rw [written, if_neg hlive, if_neg hlive]
        rfl
  | recover jobId token jitter =>
      have hfind : db.jobs.find jobId = some job := hjob
      rw [run, recoverOne_of_find hfind]
      by_cases hexp : expired draw.now job = true
      · have hsettled : (db.updateJob jobId (fence draw token)).documents.find
            (settle draw.now jitter (some workerLost) (fence draw token job)).documentId =
              some row := by
          rw [settle_documentId]
          exact hrow
        have hocr : (settle draw.now jitter (some workerLost) (fence draw token job)).kind =
            .ocr := by
          rw [settle_kind]
          exact hkind
        rw [written, if_pos hexp, if_pos hexp, settleJob_live hocr hsettled]
        rfl
      · rw [written, if_neg hexp, if_neg hexp]
        rfl

end WorkerTransaction

/-! ## The edit -/

/-- What an accepted edit commits on the row it locked. -/
def Db.edit (env : Env) (db : Db) (draw : Draw) (request : Request) (data : Patch)
    (row : Document) : Db :=
  if data.changed row.toDocumentColumns = [] then db
  else
    audit (db.putDocument (.indexed env (data.edit draw.now row.toDocumentColumns)
        row.extractedText))
      draw (data.edit draw.now row.toDocumentColumns)
      (.metadataUpdated (data.changed row.toDocumentColumns) (row.revision + 1))
      request.requestId (some request.user)

/-- **A PATCH is accepted** exactly on a visible row with the quoted revision, with valid data. -/
theorem partialUpdate_eq_ok_iff {env : Env} {db db' : Db} {draw : Draw} {request : Request}
    {body : Except ApiError Patch} :
    (∃ document, partialUpdate env db draw request body = .ok (db', document)) ↔
      ∃ row data, db.documents.find request.pk = some row ∧
        scopedDocuments request.user row = true ∧ body = .ok data ∧
        request.ifMatch = some (etag row.revision) ∧ db' = db.edit env draw request data row := by
  constructor
  · rintro ⟨document, h⟩
    obtain ⟨row, data, hrow, hsc, hbody, hmatch, ⟨hch, hdb, -⟩ | ⟨hch, hdb, -⟩⟩ :=
      partialUpdate_cases h
    · exact ⟨row, data, hrow, hsc, hbody, hmatch, by rw [Db.edit, if_pos hch, hdb]⟩
    · exact ⟨row, data, hrow, hsc, hbody, hmatch, by rw [Db.edit, if_neg hch, hdb]⟩
  · rintro ⟨row, data, hrow, hsc, rfl, hmatch, rfl⟩
    have hget : getObject db request.user request.pk = .ok row.defer :=
      getObject_eq_ok_iff.mpr ⟨row, hrow, hsc, rfl⟩
    have hcheck : checkRevision row.defer.toDocumentColumns request.ifMatch = .ok () :=
      checkRevision_eq_ok_iff.mpr hmatch
    have hunfold : partialUpdate env db draw request (.ok data) =
        updateDocument env db draw row.defer data request.user request.requestId
          request.ifMatch := by
      rw [partialUpdate, hget]
      rfl
    rw [hunfold, updateDocument]
    by_cases hch : data.changed row.toDocumentColumns = []
    · refine ⟨row.defer, bind_eq_ok.mpr ⟨(), hcheck, ?_⟩⟩
      simp only [Document.defer, hch, List.isEmpty_nil, if_true]
      rw [Db.edit, if_pos hch]
      rfl
    · have hne : (data.changed row.toDocumentColumns).isEmpty = false := by simpa using hch
      rw [Db.edit, if_neg hch, ← data.edit_revision draw.now]
      refine ⟨⟨data.edit draw.now row.toDocumentColumns, some row.extractedText,
        some ((data.edit draw.now row.toDocumentColumns).searchable env row.extractedText), none⟩,
        bind_eq_ok.mpr ⟨(), hcheck, ?_⟩⟩
      simp only [Document.defer, hne, Bool.false_eq_true, if_false]
      exact bind_eq_ok.mpr ⟨_, mapError_eq_ok.mpr (DocumentObject.save_deferred (data.find_bump hrow)),
        rfl⟩

/-! ## Both orders -/

/-- Assigning metadata and moving the processing columns do not see each other. -/
theorem Patch.assign_moved (data : Patch) (fields : List Field) (document : DocumentColumns)
    (now : Timestamp) (state : Status) (job : Job) (code : Option ErrorCode)
    (result : Option ExtractionResult) :
    data.assign fields (document.moved now state job code result) =
      (data.assign fields document).moved now state job code result := by
  induction fields generalizing document with
  | nil => rfl
  | cons f fields ih =>
      have hcons : ∀ d : DocumentColumns,
          data.assign (f :: fields) d = data.assign fields ((data f).elim d (d.setField f)) :=
        fun _ => rfl
      rw [hcons, hcons, ← ih]
      cases data f with
      | none => rfl
      | some value => cases f <;> rfl

/-- The processing columns do not decide which fields an edit changes. -/
theorem Patch.changed_moved (data : Patch) (document : DocumentColumns) (now : Timestamp)
    (state : Status) (job : Job) (code : Option ErrorCode) (result : Option ExtractionResult) :
    data.changed (document.moved now state job code result) = data.changed document := by
  refine List.filter_congr fun f _ => ?_
  cases f <;> rfl

/-- Two rows agree in every column but the time of the last update. -/
def Document.SameButUpdatedAt (a b : Document) : Prop :=
  { a with updatedAt := b.updatedAt } = b

/-- **Editing a moved row and moving an edited row** leave the same row up to the time stamp. -/
theorem Document.move_edit (env : Env) (row : Document) (data : Patch) (edited moved : Timestamp)
    (state : Status) (job : Job) (code : Option ErrorCode) (result : Option ExtractionResult) :
    Document.SameButUpdatedAt
      ((Document.indexed env (data.edit edited row.toDocumentColumns) row.extractedText).move env
        moved state job code result)
      (.indexed env (data.edit edited (row.move env moved state job code result).toDocumentColumns)
        (row.move env moved state job code result).extractedText) := by
  have hedit : data.edit edited (row.move env moved state job code result).toDocumentColumns =
      { (data.edit edited row.toDocumentColumns).moved moved state job code result with
        updatedAt := edited } := by
    show { (data.assign (data.changed (row.moved moved state job code result))
      (row.moved moved state job code result)).bump with updatedAt := edited } = _
    rw [data.changed_moved, data.assign_moved]
    rfl
  rw [Document.SameButUpdatedAt, hedit]
  rfl

/-- The row an accepted edit leaves. -/
def Document.edit (env : Env) (row : Document) (data : Patch) (now : Timestamp) : Document :=
  if data.changed row.toDocumentColumns = [] then row
  else .indexed env (data.edit now row.toDocumentColumns) row.extractedText

/-- The audit events an accepted edit appends. -/
def Document.editEvents (row : Document) (draw : Draw) (request : Request) (data : Patch) :
    List AuditEvent :=
  if data.changed row.toDocumentColumns = [] then []
  else
    [auditEvent draw (data.edit draw.now row.toDocumentColumns)
      (.metadataUpdated (data.changed row.toDocumentColumns) (row.revision + 1))
      request.requestId (some request.user)]

section Edit

variable {env : Env} {db : Db} {draw : Draw} {request : Request} {data : Patch} {row : Document}

/-- An edit leaves the jobs alone. -/
theorem Db.edit_jobs : (db.edit env draw request data row).jobs = db.jobs := by
  unfold Db.edit
  split <;> rfl

/-- An edit adds its events to the log. -/
theorem Db.edit_auditEvents : (db.edit env draw request data row).auditEvents =
    db.auditEvents ++ row.editEvents draw request data := by
  unfold Db.edit Document.editEvents
  split
  · exact (List.append_nil _).symm
  · rfl

/-- An edited row keeps its primary key. -/
theorem Document.edit_id : (row.edit env data draw.now).id = row.id := by
  unfold Document.edit
  split
  · rfl
  · exact data.edit_id draw.now row.toDocumentColumns

/-- An edit writes its row and no other. -/
theorem Db.find_edit (hrow : db.documents.find row.id = some row) (k : Uuid) :
    (db.edit env draw request data row).documents.find k =
      if k = row.id then some (row.edit env data draw.now) else db.documents.find k := by
  have hid : (row.edit env data draw.now).id = row.id := Document.edit_id
  unfold Db.edit Document.edit at *
  split
  · split
    · next hk => rw [hk, hrow]
    · rfl
  · next hch =>
      rw [if_neg hch] at hid
      rw [audit_documents, Db.putDocument_documents, Table.find_put, hid]

/-- A move writes its row and no other. -/
theorem Db.find_moveDocument {state : Status} {job : Job} {code : Option ErrorCode}
    {result : Option ExtractionResult} (k : Uuid) :
    (moveDocument env db draw row state job code result).documents.find k =
      if k = row.id then some (row.move env draw.now state job code result)
      else db.documents.find k := by
  rw [moveDocument_documents, Table.find_put, Document.move_id]

end Edit

/-- The two orders of an edit and a move on one row. -/
theorem Document.move_edit_comm (env : Env) (row : Document) (data : Patch)
    (edited moved : Timestamp) (state : Status) (job : Job) (code : Option ErrorCode)
    (result : Option ExtractionResult) :
    ((row.edit env data edited).move env moved state job code result).SameButUpdatedAt
      ((row.move env moved state job code result).edit env data edited) := by
  have hchanged : data.changed (row.move env moved state job code result).toDocumentColumns =
      data.changed row.toDocumentColumns := data.changed_moved ..
  unfold Document.edit
  rw [hchanged]
  split
  · rfl
  · exact Document.move_edit ..

/-- The event of an edit does not depend on the processing columns. -/
theorem Document.editEvents_move (env : Env) (row : Document) (data : Patch) (draw : Draw)
    (request : Request) (moved : Timestamp) (state : Status) (job : Job) (code : Option ErrorCode)
    (result : Option ExtractionResult) :
    (row.move env moved state job code result).editEvents draw request data =
      row.editEvents draw request data := by
  have hchanged : data.changed (row.move env moved state job code result).toDocumentColumns =
      data.changed row.toDocumentColumns := data.changed_moved ..
  unfold Document.editEvents
  rw [hchanged]
  split
  · rfl
  · obtain ⟨t, d, dt, tg, m, h⟩ := data.edit_frame draw.now row.toDocumentColumns
    obtain ⟨t', d', dt', tg', m', h'⟩ := data.edit_frame draw.now
      (row.move env moved state job code result).toDocumentColumns
    rw [h, h']
    rfl

/-- The event of a move does not depend on the metadata. -/
theorem Document.moveEvent_edit (env : Env) (row : Document) (data : Patch) (edited : Timestamp)
    (draw : Draw) (state : Status) (job : Job) (code : Option ErrorCode)
    (result : Option ExtractionResult) :
    auditEvent draw ((row.edit env data edited).moved draw.now state job code result)
        (.statusChanged (row.edit env data edited).status state job.attempts code job.id)
        job.requestId none =
      auditEvent draw (row.moved draw.now state job code result)
        (.statusChanged row.status state job.attempts code job.id) job.requestId none := by
  unfold Document.edit
  split
  · rfl
  · obtain ⟨t, d, dt, tg, m, h⟩ := data.edit_frame edited row.toDocumentColumns
    rw [Document.indexed_columns, h]
    rfl

/-- **Metadata edits and OCR progress commute.** In every database, for every PATCH that is accepted
on a document and every worker transaction on an OCR job of it, both orders run through; they leave
the same row of the document up to the time of its last update, the same other rows and the same
jobs, and append the same audit events, in the two orders. -/
theorem edits_commute_with_ocr {env : Env} {db edited : Db} {request : Request}
    {body : Except ApiError Patch} {editDraw workDraw : Draw} {document : DocumentObject}
    {t : WorkerTransaction} {job : Job}
    (hpatch : partialUpdate env db editDraw request body = .ok (edited, document))
    (hjob : db.jobs.find t.jobId = some job) (hocr : isOcrOf request.pk job = true) :
    ∃ worked editedWorked workedEdited document',
      t.run env db workDraw = .ok worked ∧
      t.run env edited workDraw = .ok editedWorked ∧
      partialUpdate env worked editDraw request body = .ok (workedEdited, document') ∧
      (∃ row row', editedWorked.documents.find request.pk = some row ∧
        workedEdited.documents.find request.pk = some row' ∧ row.SameButUpdatedAt row') ∧
      (∀ k, k ≠ request.pk →
        editedWorked.documents.find k = workedEdited.documents.find k) ∧
      editedWorked.jobs = workedEdited.jobs ∧
      ∃ edits moves, editedWorked.auditEvents = db.auditEvents ++ edits ++ moves ∧
        workedEdited.auditEvents = db.auditEvents ++ moves ++ edits := by
  obtain ⟨row, data, hrow, hsc, hbody, hmatch, hedited⟩ :=
    partialUpdate_eq_ok_iff.mp ⟨document, hpatch⟩
  obtain ⟨hkind, hdoc⟩ : job.kind = .ocr ∧ job.documentId = request.pk := by
    simpa [isOcrOf] using hocr
  have hpk : row.id = request.pk := Db.document_id hrow
  have hself : db.documents.find row.id = some row := hpk ▸ hrow
  -- The worker finds its job and the edited row after the edit.
  have hjobE : edited.jobs.find t.jobId = some job := by
    rw [hedited, Db.edit_jobs]
    exact hjob
  have hrowE : edited.documents.find job.documentId = some (row.edit env data editDraw.now) := by
    rw [hedited, Db.find_edit hself, if_pos (hdoc.trans hpk.symm)]
  have hrun := WorkerTransaction.run_live env workDraw hjob hkind (hdoc ▸ hrow)
  have hrunE := WorkerTransaction.run_live env workDraw hjobE hkind hrowE
  cases hwritten : t.written workDraw job with
  | none =>
      rw [hwritten] at hrun hrunE
      refine ⟨db, edited, edited, document, hrun, hrunE, hpatch, ?_, fun _ _ => rfl, rfl,
        row.editEvents editDraw request data, [], ?_⟩
      · have hfind : edited.documents.find request.pk = some (row.edit env data editDraw.now) :=
          hdoc ▸ hrowE
        exact ⟨_, _, hfind, hfind, rfl⟩
      · rw [hedited, Db.edit_auditEvents, List.append_nil, List.append_nil]
        exact ⟨rfl, rfl⟩
  | some written =>
      obtain ⟨job', result⟩ := written
      rw [hwritten] at hrun hrunE
      dsimp only at hrun hrunE
      -- The edit finds the moved row, with the revision and the owner it had.
      have hworked : (moveDocument env (t.writeJob workDraw job' db) workDraw row
          job'.state.documentStatus job' (t.shownCode job') result).documents.find request.pk =
            some (row.move env workDraw.now job'.state.documentStatus job' (t.shownCode job')
              result) := by
        rw [Db.find_moveDocument, if_pos hpk.symm]
      obtain ⟨document', hpatch'⟩ := partialUpdate_eq_ok_iff.mpr
        ⟨_, data, hworked, hsc, hbody, hmatch, rfl⟩
      refine ⟨_, _, _, document', hrun, hrunE, hpatch', ?_, ?_, ?_, ?_⟩
      · refine ⟨_, _, ?_, ?_, row.move_edit_comm env data editDraw.now workDraw.now
          job'.state.documentStatus job' (t.shownCode job') result⟩
        · rw [Db.find_moveDocument, Document.edit_id, if_pos hpk.symm]
        · rw [Db.find_edit, Document.move_id, if_pos hpk.symm]
          rw [Document.move_id, hpk]
          exact hworked
      · intro k hk
        have hne : k ≠ row.id := hpk ▸ hk
        rw [Db.find_moveDocument, Document.edit_id, if_neg hne, Db.find_edit, Document.move_id,
          if_neg hne, Db.find_moveDocument, if_neg hne, WorkerTransaction.writeJob_documents,
          WorkerTransaction.writeJob_documents, hedited, Db.find_edit hself, if_neg hne]
        rw [Document.move_id, hpk]
        exact hworked
      · rw [moveDocument_jobs, Db.edit_jobs, moveDocument_jobs]
        refine t.writeJob_jobs workDraw job' ?_
        rw [hedited, Db.edit_jobs]
      · refine ⟨row.editEvents editDraw request data, [auditEvent workDraw
          (row.moved workDraw.now job'.state.documentStatus job' (t.shownCode job') result)
          (.statusChanged row.status job'.state.documentStatus job'.attempts (t.shownCode job')
            job'.id) job'.requestId none], ?_, ?_⟩
        · rw [moveDocument_auditEvents, WorkerTransaction.writeJob_auditEvents, hedited,
            Db.edit_auditEvents, Document.moveEvent_edit]
        · rw [Db.edit_auditEvents, moveDocument_auditEvents,
            WorkerTransaction.writeJob_auditEvents, Document.editEvents_move]

/-- The upload and the claim of its OCR job. -/
def sampleClaim : Option (List Step × World) :=
  Run.execute (World.perform sampleEnv) ([], .init) (sampleUpload ++ [.claim 0 5 6 ⟨2000, 7⟩])

/-- The claim of the sample can be made. -/
theorem sampleClaim_isSome : sampleClaim.isSome = true := by decide +kernel

/-- The database while the sample document is being processed. -/
def sampleProcessing : Db := (sampleClaim.get sampleClaim_isSome).2.db

/-- The job as the worker holds it. -/
def sampleHeld : Job := take ⟨2000, 7⟩ 6 (ocrJob 5 1 100 1000)

/-- The worker stores its result. -/
def sampleWork : WorkerTransaction :=
  .finish sampleHeld (.success (some ⟨lit "Invoice 42", .dict []⟩)) 0

/-- Afterwards the job is as the worker holds it. -/
theorem sampleProcessing_job : sampleProcessing.jobs.find sampleWork.jobId = some sampleHeld := by
  decide +kernel

/-- The owner describes the document as paid while it is being processed. -/
def samplePatch : Except ApiError (Db × DocumentObject) :=
  partialUpdate sampleEnv sampleProcessing ⟨2500, 9⟩ ⟨sampleUser, 1, some (etag 1), 101⟩
    (.ok fun | .description => some (lit "paid") | _ => none)

/-- The PATCH of the sample succeeds. -/
theorem samplePatch_isSome : samplePatch.toOption.isSome = true := by decide +kernel

/-- The edit of the sample document and the completion of its OCR job, in both orders. -/
theorem edits_commute_with_ocr_sample :
    sampleWork.written ⟨3000, 8⟩ sampleHeld ≠ none ∧
    ∃ editedWorked workedEdited : Db,
      (∃ row row', editedWorked.documents.find 1 = some row ∧
        workedEdited.documents.find 1 = some row' ∧ row.SameButUpdatedAt row') ∧
      editedWorked.jobs = workedEdited.jobs := by
  refine ⟨nofun, ?_⟩
  obtain ⟨_, e, w, _, -, -, -, hrows, -, hjobs, -⟩ :=
    @edits_commute_with_ocr _ _ _ _ _ _ ⟨3000, 8⟩ _ sampleWork _
      (eq_ok_of_isSome samplePatch_isSome) sampleProcessing_job rfl
  exact ⟨e, w, hrows, hjobs⟩

end MiniDms
