import MiniDms.Workflow.Ownership

/-! # The slice of an owner

The slice of a user is what the system keeps for this user: the documents, the audit events and the
objects of the documents. An event that is no statement of a request of the user, and no step of a
worker for one of the user's documents, leaves the slice as it is: a transaction writes rows of the
owner whose document it found, and no object is referred to for two documents. -/

namespace MiniDms

open Python Relational TransitionSystem

/-- The document under an identifier, when the user owns it. -/
def Db.owned (db : Db) (u : UserId) (id : Uuid) : Option Document :=
  (db.documents.find id).filter fun d => d.owner = u

/-- The audit events whose owner is the user. -/
def Db.logged (db : Db) (u : UserId) : List AuditEvent :=
  db.auditEvents.filter fun e => e.owner = u

/-- What the system keeps for one user. -/
@[ext]
structure Slice where
  documents : Uuid → Option Document
  auditEvents : Multiset AuditEvent
  /-- The object of each document. -/
  objects : Uuid → Option Bytes

/-- The slice of a user. -/
def World.slice (w : World) (u : UserId) : Slice where
  documents := w.db.owned u
  auditEvents := w.db.logged u
  objects id := (w.db.owned u id).bind fun d => w.store d.storageKey

/-- A document of the slice is a row of the owner. -/
theorem Db.owned_eq_some_iff {db : Db} {u : UserId} {id : Uuid} {d : Document} :
    db.owned u id = some d ↔ db.documents.find id = some d ∧ d.owner = u := by
  rw [owned, Option.filter_eq_some_iff, decide_eq_true_iff]

/-- A document is not in the slice when no row of the owner has its key. -/
theorem Db.owned_eq_none_iff {db : Db} {u : UserId} {id : Uuid} :
    db.owned u id = none ↔ ∀ d, db.documents.find id = some d → d.owner ≠ u := by
  rw [owned, Option.filter_eq_none_iff]
  simp

/-! ## Writes for other owners -/

/-- The documents and the audit events of a user are as before. -/
structure Db.Keeps (u : UserId) (db db' : Db) : Prop where
  documents : ∀ id, db'.owned u id = db.owned u id
  auditEvents : db'.logged u = db.logged u

namespace Db.Keeps

variable {u : UserId} {db db' : Db}

/-- Nothing happening keeps the slice. -/
theorem refl (u : UserId) (db : Db) : Db.Keeps u db db := ⟨fun _ => rfl, rfl⟩

/-- A row of another owner is written where the user has no document. -/
theorem putDocument (h : Db.Keeps u db db') {row : Document} (howner : row.owner ≠ u)
    (hnone : db'.owned u row.id = none) : Db.Keeps u db (db'.putDocument row) where
  documents id := by
    rw [← h.documents id, Db.owned, Db.owned, Db.putDocument_documents, Table.find_put]
    split
    · next hid =>
        rw [hid, Option.filter_some, if_neg (by simpa using howner)]
        exact hnone.symm
    · rfl
  auditEvents := h.auditEvents

/-- A document that is not the user's is deleted. -/
theorem removeDocument (h : Db.Keeps u db db') {k : Uuid} (hnone : db'.owned u k = none) :
    Db.Keeps u db (db'.removeDocument k) where
  documents id := by
    rw [← h.documents id, Db.owned, Db.owned, Db.removeDocument_documents, Table.find_erase]
    split
    · next hid =>
        rw [hid]
        exact hnone.symm
    · rfl
  auditEvents := h.auditEvents

/-- An event of another owner is logged. -/
theorem audit (h : Db.Keeps u db db') {draw : Draw} {document : DocumentColumns}
    {action : AuditAction} {requestId : Uuid} {actor : Option User} (howner : document.owner ≠ u) :
    Db.Keeps u db (MiniDms.audit db' draw document action requestId actor) where
  documents := h.documents
  auditEvents := by
    rw [← h.auditEvents, Db.logged, audit_auditEvents, List.filter_append, List.filter_singleton,
      auditEvent]
    simp [howner, Db.logged]

/-- Jobs are outside the slice, and putting one keeps it. -/
theorem putJob (h : Db.Keeps u db db') (job : Job) : Db.Keeps u db (db'.putJob job) :=
  ⟨h.documents, h.auditEvents⟩

/-- Updating jobs keeps the slice. -/
theorem updateJobs (h : Db.Keeps u db db') (p : Job → Bool) (f : Job → Job) :
    Db.Keeps u db (db'.updateJobs p f) :=
  ⟨h.documents, h.auditEvents⟩

/-- A document of another owner is moved. -/
theorem moveDocument (h : Db.Keeps u db db') {env : Env} {draw : Draw} {row : Document}
    {state : Status} {job : Job} {code : Option ErrorCode} {result : Option ExtractionResult}
    (howner : row.owner ≠ u) (hnone : db'.owned u row.id = none) :
    Db.Keeps u db (MiniDms.moveDocument env db' draw row state job code result) := by
  have hmove : (row.move env draw.now state job code result).owner ≠ u := howner
  have hmoved : (row.moved draw.now state job code result).owner ≠ u := howner
  exact (h.putDocument hmove hnone).audit hmoved

/-- A job for a document that is not the user's is settled. -/
theorem settleJob (h : Db.Keeps u db db') {env : Env} {draw : Draw} {job : Job}
    {result : Option ExtractionResult} (hnone : db'.owned u job.documentId = none) :
    Db.Keeps u db (MiniDms.settleJob env db' draw job result) := by
  unfold MiniDms.settleJob
  split
  · next row _ hrow =>
      have hid : row.id = job.documentId := Db.document_id hrow
      exact (h.putJob job).moveDocument (Db.owned_eq_none_iff.mp hnone row hrow) (hid ▸ hnone)
  · exact h.putJob job

end Db.Keeps

/-- The slice is kept with the tables, if the objects of the user's documents are kept. -/
theorem World.slice_eq {w w' : World} {u : UserId} (hdb : Db.Keeps u w.db w'.db)
    (hstore : ∀ id d, w.db.owned u id = some d → w'.store d.storageKey = w.store d.storageKey) :
    w'.slice u = w.slice u := by
  ext1
  · exact funext hdb.documents
  · exact congrArg Multiset.ofList hdb.auditEvents
  · funext id
    show (w'.db.owned u id).bind _ = (w.db.owned u id).bind _
    rw [hdb.documents id]
    cases hd : w.db.owned u id with
    | none => rfl
    | some d => exact hstore id d hd

/-! ## Events elsewhere -/

/-- The user whose request an event is a statement of. -/
def World.requester (w : World) : Event → Option User
  | .partialUpdate request _ _ | .destroy request _ _ | .reprocess request _ _ => some request.user
  | .enterUpload _ user _ _ _ => some user
  | .upload call _ => (w.uploads call).map Upload.user
  | _ => none

/-- The document a step of a worker or of the recovery is for. -/
def World.workedDocument (w : World) : Event → Option Uuid
  | .claim _ jobId _ _ => (w.db.jobs.find jobId).map fun j => j.documentId
  | .readDocument n | .deleteObject n _ | .finish n _ _ _ =>
      (w.deliveries n).map fun d => d.job.documentId
  | .recoverNext dispatcher _ _ _ _ =>
      match w.dispatchers dispatcher with
      | .recovering _ (id :: _) => (w.db.jobs.find id).map fun j => j.documentId
      | _ => none
  | _ => none

/-- The event is a statement of a request of another user who is not staff, or a step of a worker for
a document that the user does not own, or a step of a dispatcher or of an operator, who work on jobs
only. -/
structure World.Elsewhere (w : World) (u : UserId) (e : Event) : Prop where
  request : ∀ user, w.requester e = some user → user.isStaff = false ∧ user.pk ≠ u
  work : ∀ id, w.workedDocument e = some id → w.db.owned u id = none

/-- A user who is not staff reaches own documents only. -/
theorem owner_of_scoped {user : User} {row : Document} (hstaff : user.isStaff = false)
    (h : scopedDocuments user row = true) : row.owner = user.pk := by
  simpa [scopedDocuments, hstaff] using h

section Effect

variable {env : Env} {w w' : World} {e : Event} {u : UserId}

/-- A document under a request of another user is not the user's. -/
theorem owner_ne_of_scoped {user : User} {row : Document} {pk : Uuid}
    (h : user.isStaff = false ∧ user.pk ≠ u) (hrow : w.db.documents.find pk = some row)
    (hscope : scopedDocuments user row = true) :
    row.owner ≠ u ∧ w.db.owned u row.id = none := by
  have howner : row.owner ≠ u := owner_of_scoped h.1 hscope ▸ h.2
  refine ⟨howner, Db.owned_eq_none_iff.mpr fun d hd => ?_⟩
  rw [Db.document_id hrow, hrow] at hd
  cases hd
  exact howner

/-- The statements of another user's call keep the tables of the user. -/
theorem Upload.Advance.keeps {store' : Store} {db' : Db} {up up' : Upload} {move : UploadMove}
    {c : Nat} (hp : Provenance w) (hup : w.uploads c = some up)
    (ha : Advance env w.db w.store up move db' store' up') (hu : up.user.pk ≠ u) :
    Db.Keeps u w.db db' := by
  have hrefl := Db.Keeps.refl u w.db
  cases ha with
  | intended => exact hrefl.putJob _
  | renamed | replayed | conflictExpedited | failureExpedited => exact hrefl.updateJobs _ _
  | @created ids actual draw jobId fault ack hpc =>
      have hnone : w.db.owned u ids.documentId = none := by
        rw [Db.owned, (hp.unborn c up ids hup (by rw [hpc]; rfl)).document]
        rfl
      exact (((hrefl.putDocument hu hnone).audit hu).putJob _).updateJobs _ _
  | _ => exact hrefl

/-- The statements of any call keep the objects of live documents. -/
theorem Upload.Advance.objects {store' : Store} {db' : Db} {up up' : Upload} {move : UploadMove}
    {c : Nat} (hw : Known w) (hp : Provenance w) (hm : MarksDrawn w) (hone : OneDocument w)
    (hf : w.Fresh move.draws) (hup : w.uploads c = some up) (hhonest : move.honest up = true)
    (ha : Advance env w.db w.store up move db' store' up') {id : Uuid} {d : Document}
    (hd : w.db.documents.find id = some d) : store' d.storageKey = w.store d.storageKey := by
  cases ha with
  | @saved ids actual ack hpc =>
      refine Function.update_of_ne (fun hkey => ?_) _ _
      have hids : up.ids = some ids := hw.coherent c up hup ids (by rw [hpc]; rfl)
      -- The call stores under its own mark, or under one that has just been drawn.
      obtain hmark | hnew := mark_of_save hids hhonest
      · refine hone.key_ne hp hup (by rw [hpc]; rfl) ?_ hd (congrArg StorageKey.mark hkey)
        rw [hpc, hmark]
        rfl
      · exact hf.2 _ hnew (hkey ▸ hm _ (.document id) ⟨d, hd, rfl⟩)
  | _ => rfl

/-- **An event elsewhere leaves the slice of a user.** -/
theorem Effect.slice_elsewhere (hw : Known w) (hp : Provenance w) (hm : MarksDrawn w)
    (hone : OneDocument w) (he : Effect env w e w') (h : w.Elsewhere u e) :
    w'.slice u = w.slice u := by
  have hrefl := Db.Keeps.refl u w.db
  -- Most events leave the store.
  have hkeep : ∀ {v : World}, v.store = w.store → Db.Keeps u w.db v.db → v.slice u = w.slice u :=
    fun hstore hdb => World.slice_eq hdb fun _ _ _ => congrFun hstore _
  cases he with
  | idle => exact hkeep rfl hrefl
  | @edited request data draw row _ hrow hscope =>
      obtain ⟨howner, hnone⟩ := owner_ne_of_scoped (h.request _ rfl) hrow hscope
      have hown : (data.edit draw.now row.toDocumentColumns).owner ≠ u := by
        rw [Patch.edit_owner]
        exact howner
      refine hkeep rfl ((hrefl.putDocument hown ?_).audit hown)
      rw [Document.indexed_columns, Patch.edit_id]
      exact hnone
  | destroyed _ hrow hscope =>
      obtain ⟨howner, hnone⟩ := owner_ne_of_scoped (h.request _ rfl) hrow hscope
      exact hkeep rfl (((hrefl.audit howner).putJob _).removeDocument hnone)
  | @reprocessed request jobId draw row _ hrow hscope =>
      obtain ⟨howner, hnone⟩ := owner_ne_of_scoped (h.request _ rfl) hrow hscope
      have hreset : (row.reprocessed draw.now).owner ≠ u := howner
      have hindexed : (Document.indexed env (row.reprocessed draw.now) row.extractedText).owner ≠ u :=
        howner
      exact hkeep rfl (((hrefl.putDocument hindexed hnone).audit hreset).putJob _)
  | entered => exact hkeep rfl hrefl
  | @advanced call move up up' db' store' hf hup hhonest ha =>
      have hu : up.user.pk ≠ u := (h.request up.user (by rw [World.requester, hup]; rfl)).2
      refine World.slice_eq (ha.keeps hp hup hu) fun id d hd => ?_
      exact ha.objects hw hp hm hone hf hup hhonest (Db.owned_eq_some_iff.mp hd).1
  | cleanupClaimed => exact hkeep rfl (hrefl.putJob _)
  | discarded => exact hkeep rfl ((hrefl.putJob _).putJob _)
  | @ocrClaimed delivery jobId token draw job row _ _ hjob _ _ hrow =>
      have hnone := h.work job.documentId (by rw [World.workedDocument, hjob]; rfl)
      have hid : row.id = job.documentId := Db.document_id hrow
      exact hkeep rfl ((hrefl.putJob _).moveDocument (Db.owned_eq_none_iff.mp hnone row hrow)
        (hid ▸ hnone))
  | documentRead => exact hkeep rfl hrefl
  | @objectDeleted delivery ack x key hx _ hkey =>
      have hnone := h.work x.job.documentId (by rw [World.workedDocument, hx]; rfl)
      refine World.slice_eq hrefl fun id d hd => ?_
      have hne : d.storageKey ≠ key := by
        rintro rfl
        -- The claimed job and the document refer to the object for one document.
        have hid : id = x.job.documentId :=
          hone d.storageKey.mark id _ (.document id) (.delivery delivery)
            ⟨rfl, d, (Db.owned_eq_some_iff.mp hd).1, rfl⟩ ⟨x, d.storageKey, hx, hkey, rfl, rfl⟩
        rw [hid, hnone] at hd
        cases hd
      dsimp only
      split
      · exact Function.update_of_ne hne _ _
      · rfl
  | @settled delivery call jitter draw x current _ hx _ hjob =>
      have hnone := h.work x.job.documentId (by rw [World.workedDocument, hx]; rfl)
      obtain ⟨j, hj, -, hdoc⟩ := hp.held delivery x hx
      rw [hjob] at hj
      cases hj
      refine hkeep rfl (hrefl.settleJob ?_)
      rw [settle_documentId, hdoc]
      exact hnone
  | recoveryStarted | recoveryPassed | published | stopped => exact hkeep rfl hrefl
  | @recovered dispatcher limit token jitter draw id todo job _ hd hjob =>
      have hnone := h.work job.documentId (by simp only [World.workedDocument, hd, hjob]; rfl)
      refine hkeep rfl ((hrefl.updateJobs _ _).settleJob ?_)
      rw [settle_documentId]
      exact hnone
  | stamped => exact hkeep rfl (hrefl.updateJobs _ _)
  | rearmed => exact hkeep rfl (hrefl.putJob _)

end Effect

end MiniDms
