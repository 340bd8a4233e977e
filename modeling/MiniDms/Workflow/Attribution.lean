import MiniDms.Workflow.Uploaded
import MiniDms.Workflow.AuditTrail

/-! # Who did what

The audit log names the user behind every request and nobody behind the work of the system. Each event
and each job carries the identifier of the request that caused it: work that a worker or a dispatcher
logs can be followed back to the upload or the reprocess request that asked for it. -/

namespace MiniDms

open Python Relational TransitionSystem

/-! ## Requests -/

/-- The user who sent a request, and the identifier of the request. -/
def Event.client : Event → Option (User × Uuid)
  | .partialUpdate request _ _ | .destroy request _ _ | .reprocess request _ _ =>
      some (request.user, request.requestId)
  | .enterUpload _ user _ _ requestId => some (user, requestId)
  | _ => none

/-- The request that an event is a statement of. -/
def World.client (w : World) : Event → Option (User × Uuid)
  | .upload call _ => (w.uploads call).map fun u => (u.user, u.requestId)
  | e => e.client

/-- The user sent a request with this identifier. -/
def Requested (h : List Step) (user : User) (requestId : Uuid) : Prop :=
  ∃ x ∈ h, x.event.client = some (user, requestId)

/-- What was requested stays requested. -/
theorem Requested.cons {h : List Step} {user : User} {requestId : Uuid}
    (hr : Requested h user requestId) (x : Step) : Requested (x :: h) user requestId := by
  obtain ⟨y, hy, hclient⟩ := hr
  exact ⟨y, List.mem_cons_of_mem _ hy, hclient⟩

/-- No statement changes the identifier of its request. -/
theorem Upload.Advance.requestId {env : Env} {db db' : Db} {store store' : Store} {u u' : Upload}
    {move : UploadMove} (ha : Advance env db store u move db' store' u') :
    u'.requestId = u.requestId := by
  cases ha <;> rfl

/-- Every call of `create_document` is a request. -/
theorem requested_of_call {env : Env} {h : List Step} {w : World} (hr : History env h w) {c : Nat}
    {u : Upload} (hu : w.uploads c = some u) : Requested h u.user u.requestId := by
  refine hr.induct (fun h w => ∀ u, w.uploads c = some u → Requested h u.user u.requestId)
    (fun _ hu => nomatch hu) (fun h x _ hv (_ : True) ih u' hu' => ?_) (fun _ _ => trivial) u hu
  obtain ⟨hold, -⟩ | ⟨-, user, data, key, requestId, hevent, rfl⟩ | ⟨move, u, -, -, hu, ha⟩ :=
    (World.perform_effect hv).upload_cases hu'
  · exact (ih u' hold).cons x
  · refine ⟨x, List.mem_cons_self, ?_⟩
    rw [hevent]
    rfl
  · rw [ha.requestId, ha.parameters.1]
    exact (ih u hu).cons x

/-- The request behind a statement is one of the history. -/
theorem requested_of_client {env : Env} {h : List Step} {x : Step} (hr : History env h x.pre)
    {user : User} {requestId : Uuid} (hclient : x.pre.client x.event = some (user, requestId)) :
    Requested (x :: h) user requestId := by
  generalize hevent : x.event = e at hclient
  cases e with
  | upload call move =>
      obtain ⟨u, hu, heq⟩ := Option.map_eq_some_iff.mp hclient
      cases heq
      exact (requested_of_call hr hu).cons x
  | partialUpdate | destroy | reprocess | enterUpload =>
      refine ⟨x, List.mem_cons_self, ?_⟩
      rw [hevent]
      exact hclient
  | _ => cases hclient

/-! ## What one event leaves -/

/-- The request that an action starts work for. -/
def AuditAction.starts : AuditAction → Bool
  | .created | .reprocessRequested _ => true
  | _ => false

/-- The actions of the system. -/
def AuditAction.ofSystem : AuditAction → Bool
  | .statusChanged .. => true
  | _ => false

/-- The event records a user's request, which the user was allowed to make. -/
structure AuditEvent.By (a : AuditEvent) (user : User) : Prop where
  kind : a.actorKind = .user
  actor : a.actor = some user.pk
  allowed : user.isStaff = true ∨ a.owner = user.pk
  action : a.action.ofSystem = false

/-- The event records the start of work on a document. -/
structure AuditEvent.Starts (a : AuditEvent) (documentId requestId : Uuid) : Prop where
  document : a.documentId = documentId
  kind : a.actorKind = .user
  action : a.action.starts = true
  request : a.requestId = requestId

/-- A user sees a document as staff or as its owner. -/
theorem allowed_of_scoped {user : User} {row : Document} (h : scopedDocuments user row = true) :
    user.isStaff = true ∨ row.owner = user.pk := by
  rw [scopedDocuments, Bool.or_eq_true] at h
  exact h.imp_right of_decide_eq_true

/-- Two rows of one job for the same request. -/
structure SameRequest (j j' : Job) : Prop where
  kind : j'.kind = j.kind
  documentId : j'.documentId = j.documentId
  requestId : j'.requestId = j.requestId

/-- A settled row is one for the same request. -/
theorem SameRequest.settle (now : Timestamp) (jitter : Fin 2000001) (failure : Option OCRFailure)
    (job : Job) : SameRequest job (MiniDms.settle now jitter failure job) := by
  cases failure <;> exact ⟨rfl, rfl, rfl⟩

/-- A move of a job keeps its request. -/
theorem JobMove.sameRequest {w : World} {id : Uuid} {e : Event} {job : Job} {row' : Option Job}
    (hm : JobMove w id e (some job) row') : ∃ job', row' = some job' ∧ SameRequest job job' := by
  cases hm with
  | settled => exact ⟨_, rfl, .settle _ _ _ job⟩
  | @recovered _ _ token jitter draw =>
      obtain ⟨hkind, hdoc, hrequest⟩ :=
        SameRequest.settle draw.now jitter (some workerLost) (fence draw token job)
      exact ⟨_, rfl, hkind, hdoc, hrequest⟩
  | rewritten _ _ _ hf => exact ⟨_, rfl, by cases hf <;> exact ⟨rfl, rfl, rfl⟩⟩
  | _ => exact ⟨_, rfl, rfl, rfl, rfl⟩

/-- A missing job is not an existing one. -/
theorem ne_of_missing {db : Db} {k id : Uuid} {job : Job} (hjob : db.jobs.find k = some job)
    (hnone : db.jobs.find id = none) : id ≠ job.id := by
  intro heq
  rw [heq, Table.key_of_find hjob, hjob] at hnone
  cases hnone

/-- Writing back an existing job creates none. -/
theorem find_put_none {db : Db} {k id : Uuid} {job : Job} (hjob : db.jobs.find k = some job)
    (hnone : db.jobs.find id = none) (job' : Job) (hid : job'.id = job.id) :
    (db.jobs.put job').find id = none := by
  rw [Table.find_put, if_neg (hid ▸ ne_of_missing hjob hnone), hnone]

/-- A cleanup job names an object. -/
def Job.Keyed (job : Job) : Prop := job.kind = .deleteObject → ∃ key, job.storageKey = some key

/-- **A job is created by a statement of its request**, an OCR job together with the audit event of
the request, a cleanup job for an object. -/
theorem Effect.job_created {env : Env} {w w' : World} {e : Event} (he : Effect env w e w') {id : Uuid}
    {j' : Job} (hnone : w.db.jobs.find id = none) (hj' : w'.db.jobs.find id = some j') :
    (∃ user, w.client e = some (user, j'.requestId)) ∧
      (j'.kind = .ocr → ∃ a, w'.db.auditEvents = w.db.auditEvents ++ [a] ∧
        a.Starts j'.documentId j'.requestId) ∧ j'.Keyed := by
  cases he with
  | idle | edited | entered | documentRead | objectDeleted | recoveryStarted | recoveryPassed
  | published | stopped => exact absurd (hnone.symm.trans hj') nofun
  | @destroyed request jobId draw row =>
      have hput : (w.db.jobs.put (cleanupJob jobId row.toDocumentColumns request.requestId
          draw.now)).find id = some j' := hj'
      rw [Table.find_put, hnone] at hput
      split at hput
      · cases hput
        exact ⟨⟨request.user, rfl⟩, nofun, fun _ => ⟨_, rfl⟩⟩
      · cases hput
  | @reprocessed request jobId draw row =>
      have hput : (w.db.jobs.put (ocrJob jobId row.id request.requestId draw.now)).find id =
          some j' := hj'
      rw [Table.find_put, hnone] at hput
      split at hput
      · cases hput
        exact ⟨⟨request.user, rfl⟩, fun _ => ⟨_, rfl, rfl, rfl, rfl, rfl⟩, nofun⟩
      · cases hput
  | @advanced call move u u' db' store' _ hu _ ha =>
      have hclient : w.client (.upload call move) = some (u.user, u.requestId) := by
        rw [World.client, hu]
        rfl
      have hupdated : ∀ (k : Uuid) (f : Job → Job), (w.db.updateJob k f).jobs.find id = none := by
        intro k f
        rw [Db.find_updateJob, hnone]
        split <;> rfl
      cases ha with
      | @intended ids now =>
          have hput : (w.db.jobs.put (u.intent ids now)).find id = some j' := hj'
          rw [Table.find_put, hnone] at hput
          split at hput
          · cases hput
            exact ⟨⟨u.user, hclient⟩, nofun, fun _ => ⟨_, rfl⟩⟩
          · cases hput
      | @created ids actual draw jobId =>
          have hput : (w.db.jobs.put (ocrJob jobId ids.documentId u.requestId draw.now)).find id =
              if id = jobId then some (ocrJob jobId ids.documentId u.requestId draw.now) else none := by
            rw [Table.find_put, hnone]
            rfl
          have hupdate := (Db.find_updateJob _ ids.intentId (fun j =>
            { j with state := .succeeded, updatedAt := draw.now }) id).symm.trans hj'
          rw [Db.putJob_jobs, audit_jobs, Db.putDocument_jobs, hput] at hupdate
          -- The new job, whether or not the completion of the intent goes over it.
          split at hupdate
          all_goals split at hupdate
          all_goals cases hupdate
          all_goals exact ⟨⟨u.user, hclient⟩, fun _ => ⟨_, rfl, rfl, rfl, rfl, rfl⟩, nofun⟩
      | renamed | replayed | conflictExpedited | failureExpedited =>
          exact absurd ((hupdated _ _).symm.trans hj') nofun
      | _ => exact absurd (hnone.symm.trans hj') nofun
  | @cleanupClaimed _ _ token draw job _ _ hjob =>
      exact absurd ((find_put_none hjob hnone (take draw token job) rfl).symm.trans hj') nofun
  | @discarded _ _ token draw job _ hjob =>
      have hput := (find_discard w.db draw token job id).symm.trans hj'
      rw [if_neg (ne_of_missing hjob hnone), hnone] at hput
      cases hput
  | @ocrClaimed _ _ token draw job row _ _ hjob =>
      exact absurd ((find_put_none hjob hnone (take draw token job) rfl).symm.trans hj') nofun
  | @settled _ call jitter draw _ current _ _ _ hjob =>
      have hput := find_put_none hjob hnone (settle draw.now jitter call.failed current) (settle_id ..)
      rw [settleJob_jobs] at hj'
      exact absurd (hput.symm.trans hj') nofun
  | @recovered _ _ token jitter draw _ _ job _ _ hjob =>
      have hmissing : id ≠ job.id := ne_of_missing hjob hnone
      have hne : id ≠ (settle draw.now jitter (some workerLost) (fence draw token job)).id := by
        rw [settle_id]
        exact hmissing
      rw [find_settleJob, if_neg hne, Db.find_updateJob, hnone] at hj'
      split at hj' <;> cases hj'
  | stamped =>
      rw [stampDispatched, Db.find_updateJobs, hnone] at hj'
      cases hj'
  | @rearmed _ now job hjob =>
      exact absurd ((find_put_none hjob hnone (rearm now job) rfl).symm.trans hj') nofun

/-- The event records work on the job. -/
structure AuditEvent.WorkOn (a : AuditEvent) (job : Job) : Prop where
  kind : a.actorKind = .system
  actor : a.actor = none
  action : a.action.ofSystem = true
  document : a.documentId = job.documentId
  request : a.requestId = job.requestId

/-- Settling records work on the job, if its document exists. -/
theorem settleJob_records {env : Env} {db : Db} {draw : Draw} {job current : Job}
    {result : Option ExtractionResult} (hsame : SameRequest job current) :
    (settleJob env db draw current result).auditEvents = db.auditEvents ∨
      current.kind = .ocr ∧ ∃ a, (settleJob env db draw current result).auditEvents =
        db.auditEvents ++ [a] ∧ a.WorkOn job := by
  unfold settleJob
  split
  · next row hkind hrow =>
    refine .inr ⟨hkind, _, rfl, rfl, rfl, rfl, ?_, hsame.requestId⟩
    exact (Db.document_id hrow).trans hsame.documentId
  · exact .inl rfl

/-- **An event records a request of a user who may make it, or work on an OCR job.** -/
theorem Effect.records {env : Env} {w w' : World} {e : Event} (he : Effect env w e w') :
    w'.db.auditEvents = w.db.auditEvents ∨
    ∃ a, w'.db.auditEvents = w.db.auditEvents ++ [a] ∧
      ((∃ user, w.client e = some (user, a.requestId) ∧ a.By user) ∨
        ∃ id job, w.db.jobs.find id = some job ∧ job.kind = .ocr ∧ a.WorkOn job) := by
  cases he with
  | @edited request data draw row _ _ hscope =>
      refine .inr ⟨_, rfl, .inl ⟨request.user, rfl, rfl, rfl, ?_, rfl⟩⟩
      have howner : (data.edit draw.now row.toDocumentColumns).owner = row.owner := data.edit_owner ..
      show _ ∨ (data.edit draw.now row.toDocumentColumns).owner = _
      rw [howner]
      exact allowed_of_scoped hscope
  | @destroyed request _ _ _ _ _ hscope | @reprocessed request _ _ _ _ _ hscope =>
      exact .inr ⟨_, rfl, .inl ⟨request.user, rfl, rfl, rfl, allowed_of_scoped hscope, rfl⟩⟩
  | @advanced call move u _ _ _ _ hu _ ha =>
      cases ha with
      | created =>
          refine .inr ⟨_, rfl, .inl ⟨u.user, ?_, rfl, rfl, .inr rfl, rfl⟩⟩
          rw [World.client, hu]
          rfl
      | _ => exact .inl rfl
  | @ocrClaimed _ jobId _ _ job row _ _ hjob _ hkind hrow =>
      exact .inr ⟨_, rfl, .inr ⟨jobId, job, hjob, hkind, rfl, rfl, rfl, Db.document_id hrow, rfl⟩⟩
  | @settled _ call jitter draw d current _ _ _ hjob =>
      have hsame := SameRequest.settle draw.now jitter call.failed current
      obtain hnone | ⟨hkind, a, ha, hwork⟩ :=
        @settleJob_records env w.db draw current _ call.result hsame
      · exact .inl hnone
      · exact .inr ⟨a, ha, .inr ⟨_, current, hjob, hsame.kind.symm.trans hkind, hwork⟩⟩
  | @recovered _ _ token jitter draw id _ job _ _ hjob =>
      have hsame : SameRequest job (settle draw.now jitter (some workerLost) (fence draw token job)) := by
        obtain ⟨hkind, hdoc, hrequest⟩ :=
          SameRequest.settle draw.now jitter (some workerLost) (fence draw token job)
        exact ⟨hkind, hdoc, hrequest⟩
      obtain hnone | ⟨hkind, a, ha, hwork⟩ :=
        @settleJob_records env (w.db.updateJob id (fence draw token)) draw job _ none hsame
      · exact .inl hnone
      · exact .inr ⟨a, ha, .inr ⟨_, job, hjob, hsame.kind.symm.trans hkind, hwork⟩⟩
  | _ => exact .inl rfl

/-! ## Every trace leads to a request -/

/-- Where the events and jobs of a state come from: in the log the start of the work stands before
what the system records of it. -/
structure Attributed (h : List Step) (w : World) : Prop where
  events : ∀ earlier a later, w.db.auditEvents = earlier ++ a :: later →
    (∃ user, Requested h user a.requestId ∧ a.By user) ∨
      a.actorKind = .system ∧ a.actor = none ∧ a.action.ofSystem = true ∧
        ∃ b ∈ earlier, b.Starts a.documentId a.requestId
  jobs : ∀ id j, w.db.jobs.find id = some j → ∃ user, Requested h user j.requestId
  work : ∀ id j, w.db.jobs.find id = some j → j.kind = .ocr →
    ∃ b ∈ w.db.auditEvents, b.Starts j.documentId j.requestId

/-- **One step attributes what it leaves.** -/
theorem Attributed.step {env : Env} {h : List Step} {x : Step} (hr : History env h x.pre)
    (hv : x.Valid (World.perform env)) (hI : Attributed h x.pre) : Attributed (x :: h) x.post := by
  have he := World.perform_effect hv
  have hw := known_of_history hr
  have hstays : ∀ b ∈ x.pre.db.auditEvents, b ∈ x.post.db.auditEvents := by
    intro b hb
    obtain hsame | ⟨a, ha⟩ := he.auditEvents
    · exact hsame ▸ hb
    · exact ha ▸ List.mem_append_left _ hb
  have hstarted : ∀ {documentId requestId : Uuid},
      (∃ b ∈ x.pre.db.auditEvents, b.Starts documentId requestId) →
        ∃ b ∈ x.post.db.auditEvents, b.Starts documentId requestId := by
    rintro _ _ ⟨b, hb, hstarts⟩
    exact ⟨b, hstays b hb, hstarts⟩
  refine ⟨fun earlier a later hlog => ?_, fun id j' hj' => ?_, fun id j' hj' hkind => ?_⟩
  · have hold : ∀ {later : List AuditEvent}, x.pre.db.auditEvents = earlier ++ a :: later →
        (∃ user, Requested (x :: h) user a.requestId ∧ a.By user) ∨
          a.actorKind = .system ∧ a.actor = none ∧ a.action.ofSystem = true ∧
            ∃ b ∈ earlier, b.Starts a.documentId a.requestId := by
      intro later hlog
      obtain ⟨user, hrequested, hby⟩ | hsystem := hI.events earlier a later hlog
      · exact .inl ⟨user, hrequested.cons x, hby⟩
      · exact .inr hsystem
    obtain hsame | ⟨new, hnew, hcase⟩ := he.records
    · exact hold (hsame.symm.trans hlog)
    -- The event is the one that has been logged, or one from before.
    rw [hnew] at hlog
    obtain rfl | ⟨before, last, rfl⟩ := List.eq_nil_or_concat' later
    · obtain ⟨rfl, hlast⟩ := List.append_inj' hlog rfl
      cases hlast
      obtain ⟨user, hclient, hby⟩ | ⟨id, job, hjob, hkind, hwork⟩ := hcase
      · exact .inl ⟨user, requested_of_client hr hclient, hby⟩
      · refine .inr ⟨hwork.kind, hwork.actor, hwork.action, ?_⟩
        rw [hwork.document, hwork.request]
        exact hI.work id job hjob hkind
    · rw [← List.cons_append, ← List.append_assoc] at hlog
      exact hold (List.append_inj' hlog rfl).1
  · cases hj : x.pre.db.jobs.find id with
    | none =>
        obtain ⟨⟨user, hclient⟩, -⟩ := he.job_created hj hj'
        exact ⟨user, requested_of_client hr hclient⟩
    | some j =>
        obtain ⟨job', hjob', hsame⟩ := (hj ▸ he.jobMove hw id).sameRequest
        rw [hj'] at hjob'
        cases hjob'
        obtain ⟨user, hrequested⟩ := hI.jobs id j hj
        exact ⟨user, hsame.requestId ▸ hrequested.cons x⟩
  · cases hj : x.pre.db.jobs.find id with
    | none =>
        obtain ⟨-, hstarts, -⟩ := he.job_created hj hj'
        obtain ⟨a, ha, hstarts⟩ := hstarts hkind
        exact ⟨a, ha ▸ List.mem_append_right _ (List.mem_singleton_self a), hstarts⟩
    | some j =>
        obtain ⟨job', hjob', hsame⟩ := (hj ▸ he.jobMove hw id).sameRequest
        rw [hj'] at hjob'
        cases hjob'
        rw [hsame.documentId, hsame.requestId]
        exact hstarted (hI.work id j hj (hsame.kind.symm.trans hkind))

/-- **Every trace of work leads to the request that caused it.** In every reachable state an audit
event either records a request that its actor has sent under the identifier it carries, as the owner
of the document or as staff; or it has no actor, records a change of status, and carries the
identifier of an upload or a reprocess request that a user made for this document and that the log
has recorded before. Every job, of either kind, carries the identifier of a request that was sent. -/
theorem work_is_attributed {env : Env} {h : List Step} {w : World} (hr : History env h w) :
    Attributed h w := by
  refine hr.induct Attributed ⟨fun earlier a later hlog => ?_, fun _ _ hj => ?_, fun _ _ hj => ?_⟩
    (fun _ _ hr hv (_ : True) hI => hI.step hr hv) fun _ _ => trivial
  · cases earlier <;> cases hlog
  · cases hj
  · cases hj

/-- In the sample two of the three events are the system's, and they lead to the upload. -/
theorem work_is_attributed_sample :
    (sampleWorld.db.auditEvents.filter fun a => a.actorKind = .system).length = 2 ∧
      Attributed sampleHistory sampleWorld :=
  ⟨by decide +kernel, work_is_attributed sample_history⟩

end MiniDms
