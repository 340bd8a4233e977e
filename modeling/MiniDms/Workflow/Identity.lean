import MiniDms.Workflow.Effects

/-! # Identifiers are fresh

Every identifier the system mentions was drawn before. An identifier that has just been drawn
therefore names nothing yet, which is what every later argument about new rows and new tokens
uses. -/

namespace MiniDms

open Python Relational TransitionSystem

/-! ## The database mentions drawn identifiers only -/

/-- The identifiers of a job row were drawn. -/
structure KnownJob (drawn : List Uuid) (job : Job) : Prop where
  id : job.id ∈ drawn
  document : job.documentId ∈ drawn
  token : ∀ t, job.runToken = some t → t ∈ drawn

/-- The identifiers in the three tables were drawn. -/
structure KnownDb (drawn : List Uuid) (db : Db) : Prop where
  jobs : ∀ id j, db.jobs.find id = some j → KnownJob drawn j
  documents : ∀ id d, db.documents.find id = some d → d.id ∈ drawn
  audits : ∀ e ∈ db.auditEvents, e.documentId ∈ drawn

/-- A job that is known stays known when more is drawn. -/
theorem KnownJob.mono {drawn drawn' : List Uuid} {job : Job} (h : KnownJob drawn job)
    (hsub : drawn ⊆ drawn') : KnownJob drawn' job :=
  ⟨hsub h.id, hsub h.document, fun t ht => hsub (h.token t ht)⟩

namespace KnownDb

variable {drawn drawn' : List Uuid} {db : Db}

/-- A database that is known stays known when more is drawn. -/
theorem mono (h : KnownDb drawn db) (hsub : drawn ⊆ drawn') : KnownDb drawn' db where
  jobs id j hj := (h.jobs id j hj).mono hsub
  documents id d hd := hsub (h.documents id d hd)
  audits e he := hsub (h.audits e he)

/-- Putting a known job keeps everything known. -/
theorem putJob (h : KnownDb drawn db) {job : Job} (hj : KnownJob drawn job) :
    KnownDb drawn (db.putJob job) where
  jobs id j hf := by
    rw [Db.putJob_jobs, Table.find_put] at hf
    split at hf
    · cases hf; exact hj
    · exact h.jobs id j hf
  documents := h.documents
  audits := h.audits

/-- An update that keeps each job known keeps everything known. -/
theorem updateJobs (h : KnownDb drawn db) {p : Job → Bool} {f : Job → Job}
    (hf : ∀ j, KnownJob drawn j → KnownJob drawn { f j with id := j.id }) :
    KnownDb drawn (db.updateJobs p f) where
  jobs id j hj := by
    rw [Db.find_updateJobs] at hj
    obtain ⟨j₀, hj₀, rfl⟩ := Option.map_eq_some_iff.mp hj
    split
    · exact hf j₀ (h.jobs id j₀ hj₀)
    · exact h.jobs id j₀ hj₀
  documents := h.documents
  audits := h.audits

/-- Putting a document under a drawn identifier keeps everything known. -/
theorem putDocument (h : KnownDb drawn db) {row : Document} (hr : row.id ∈ drawn) :
    KnownDb drawn (db.putDocument row) where
  jobs := h.jobs
  documents id d hf := by
    rw [Db.putDocument_documents, Table.find_put] at hf
    split at hf
    · cases hf; exact hr
    · exact h.documents id d hf
  audits := h.audits

/-- Removing a document keeps everything known. -/
theorem removeDocument (h : KnownDb drawn db) (id : Uuid) :
    KnownDb drawn (db.removeDocument id) where
  jobs := h.jobs
  documents k d hf := by
    rw [Db.removeDocument_documents, Table.find_erase] at hf
    split at hf
    · cases hf
    · exact h.documents k d hf
  audits := h.audits

/-- Recording an event of a known document keeps everything known. -/
theorem audit (h : KnownDb drawn db) {draw : Draw} {document : DocumentColumns}
    {action : AuditAction} {requestId : Uuid} {actor : Option User} (hd : document.id ∈ drawn) :
    KnownDb drawn (MiniDms.audit db draw document action requestId actor) where
  jobs := h.jobs
  documents := h.documents
  audits e he := by
    rw [audit_auditEvents, List.mem_append, List.mem_singleton] at he
    obtain he | rfl := he
    · exact h.audits e he
    · exact hd

/-- Moving a known document keeps everything known. -/
theorem moveDocument (h : KnownDb drawn db) {env : Env} {draw : Draw} {row : Document}
    {state : Status} {job : Job} {code : Option ErrorCode} {result : Option ExtractionResult}
    (hr : row.id ∈ drawn) :
    KnownDb drawn (MiniDms.moveDocument env db draw row state job code result) :=
  KnownDb.audit (h.putDocument (by rw [Document.move_id]; exact hr)) hr

/-- Settling a known job keeps everything known. -/
theorem settleJob (h : KnownDb drawn db) {env : Env} {draw : Draw} {current : Job}
    {result : Option ExtractionResult} (hj : KnownJob drawn current) :
    KnownDb drawn (MiniDms.settleJob env db draw current result) := by
  unfold MiniDms.settleJob
  split
  -- An OCR job with a document row also writes that row and its audit event.
  · next row _ hrow => exact (h.putJob hj).moveDocument (h.documents _ row hrow)
  · exact h.putJob hj

/-- A database known on the drawn identifiers has no job under a fresh one. -/
theorem job_of_fresh (h : KnownDb drawn db) {id : Uuid} (hid : id ∉ drawn) :
    db.jobs.find id = none := by
  cases hf : db.jobs.find id with
  | none => rfl
  | some j =>
      have hkey : j.id = id := Table.key_of_find hf
      exact absurd (hkey ▸ (h.jobs id j hf).id) hid

end KnownDb

/-- A claim with a drawn token keeps the job known. -/
theorem KnownJob.take {drawn : List Uuid} {job : Job} (h : KnownJob drawn job) {draw : Draw}
    {token : Uuid} (ht : token ∈ drawn) : KnownJob drawn (MiniDms.take draw token job) :=
  ⟨h.id, h.document, fun t hq => by cases hq; exact ht⟩

/-- A settled job is as known as before. -/
theorem KnownJob.settle {drawn : List Uuid} {job : Job} (h : KnownJob drawn job) {now : Timestamp}
    {jitter : Fin 2000001} {failure : Option OCRFailure} :
    KnownJob drawn (MiniDms.settle now jitter failure job) := by
  cases failure <;> exact ⟨h.id, h.document, h.token⟩

/-! ## The processes -/

/-- Everything the system mentions was drawn. -/
structure Known (w : World) : Prop where
  db : KnownDb w.drawn w.db
  uploads : ∀ c u ids, w.uploads c = some u → u.ids = some ids →
    ids.documentId ∈ w.drawn ∧ ids.nonce ∈ w.drawn ∧ ids.intentId ∈ w.drawn
  coherent : ∀ c u, w.uploads c = some u → u.Coherent
  deliveries : ∀ d x, w.deliveries d = some x → KnownJob w.drawn x.job

/-- Moving on with identifiers already drawn keeps the uploads known. -/
theorem Known.knows_upload {w : World} (h : Known w) {call : Nat} {u : Upload}
    (hu : w.uploads call = some u) {ids : UploadIds} (hids : u.pc.ids = some ids) :
    ids.documentId ∈ w.drawn ∧ ids.nonce ∈ w.drawn ∧ ids.intentId ∈ w.drawn :=
  h.uploads call u ids hu (h.coherent call u hu ids hids)

/-- The empty system mentions nothing. -/
theorem known_init : Known World.init where
  db := { jobs := by simp [World.init, Db.empty]
          documents := by simp [World.init, Db.empty]
          audits := by simp [World.init, Db.empty] }
  uploads := by simp [World.init]
  coherent := by simp [World.init]
  deliveries := by simp [World.init]

/-- An entry of a map is the one that has been set, or one from before. -/
theorem update_cases {α : Type} {f : Nat → Option α} {n k : Nat} {x y : α}
    (h : Function.update f n (some x) k = some y) : k = n ∧ x = y ∨ k ≠ n ∧ f k = some y := by
  rw [Function.update_apply] at h
  split at h
  · next hk => exact .inl ⟨hk, Option.some.inj h⟩
  · next hk => exact .inr ⟨hk, h⟩

/-- Drawing more identifiers keeps what is known. -/
theorem Known.drew {w : World} (h : Known w) (ids : List Uuid) : Known (w.drew ids) where
  db := h.db.mono (List.subset_append_right ids w.drawn)
  uploads c u i hu hi := by
    obtain ⟨h₁, h₂, h₃⟩ := h.uploads c u i hu hi
    exact ⟨List.mem_append_right _ h₁, List.mem_append_right _ h₂, List.mem_append_right _ h₃⟩
  coherent := h.coherent
  deliveries d x hx := (h.deliveries d x hx).mono (List.subset_append_right ids w.drawn)

/-- A new database that mentions drawn identifiers only keeps what is known. -/
theorem Known.withDb {w : World} (h : Known w) {db : Db} (hdb : KnownDb w.drawn db) :
    Known { w with db := db } where
  db := hdb
  uploads := h.uploads
  coherent := h.coherent
  deliveries := h.deliveries

/-- So does a delivery that holds a known job. -/
theorem Known.setDelivery {w : World} (h : Known w) {d : Nat} {x : Delivery}
    (hx : KnownJob w.drawn x.job) : Known (w.setDelivery d x) where
  db := h.db
  uploads := h.uploads
  coherent := h.coherent
  deliveries d' x' hf := by
    obtain ⟨-, rfl⟩ | ⟨-, hold⟩ := update_cases hf
    · exact hx
    · exact h.deliveries d' x' hold

/-- So does an upload that works with drawn identifiers. -/
theorem Known.setUpload {w : World} (h : Known w) {c : Nat} {u : Upload} (hu : u.Coherent)
    (hids : ∀ ids, u.ids = some ids →
      ids.documentId ∈ w.drawn ∧ ids.nonce ∈ w.drawn ∧ ids.intentId ∈ w.drawn) :
    Known (w.setUpload c u) where
  db := h.db
  uploads c' u' ids hf hi := by
    obtain ⟨-, rfl⟩ | ⟨-, hold⟩ := update_cases hf
    · exact hids ids hi
    · exact h.uploads c' u' ids hold hi
  coherent c' u' hf := by
    obtain ⟨-, rfl⟩ | ⟨-, hold⟩ := update_cases hf
    · exact hu
    · exact h.coherent c' u' hold
  deliveries := h.deliveries

/-- The statements of a call keep the identifiers it has drawn, or draw them. -/
theorem Upload.Advance.ids {env : Env} {db db' : Db} {store store' : Store} {u u' : Upload}
    {move : UploadMove} (ha : Advance env db store u move db' store' u') :
    u'.ids = u.ids ∨ ∃ ids, u'.ids = some ids ∧ ∀ id ∈ [ids.documentId, ids.nonce, ids.intentId],
      id ∈ move.draws := by
  cases ha with
  | intended | intendLost => exact .inr ⟨_, rfl, fun id h => h⟩
  | _ => exact .inl rfl

/-- What a statement of a call writes mentions drawn identifiers only. -/
theorem Upload.Advance.known {env : Env} {db db' : Db} {store store' : Store} {u u' : Upload}
    {move : UploadMove} {drawn : List Uuid} (ha : Advance env db store u move db' store' u')
    (hdb : KnownDb drawn db) (hmove : ∀ id ∈ move.draws, id ∈ drawn)
    (hids : ∀ ids, u.pc.ids = some ids → ids.documentId ∈ drawn) : KnownDb drawn db' := by
  cases ha with
  | @intended ids =>
      refine hdb.putJob ⟨hmove _ ?_, hmove _ ?_, ?_⟩
      · simp [UploadMove.draws, intent]
      · simp [UploadMove.draws, intent]
      · simp [intent]
  | renamed | replayed | conflictExpedited | failureExpedited =>
      exact hdb.updateJobs fun j hj => ⟨hj.id, hj.document, hj.token⟩
  -- Written from the outside in: the completed intent, the OCR job, the event, the document.
  | @created ids actual draw jobId fault ack hpc =>
      have hdoc : ids.documentId ∈ drawn := hids ids (by rw [hpc]; rfl)
      refine KnownDb.updateJobs ?_ fun j hj => ⟨hj.id, hj.document, hj.token⟩
      refine ((hdb.putDocument (by exact hdoc)).audit hdoc).putJob ⟨hmove _ ?_, hdoc, ?_⟩
      · simp [UploadMove.draws, ocrJob]
      · simp [ocrJob]
  | _ => exact hdb

/-- **One event keeps everything known.** -/
theorem Known.step {env : Env} {w w' : World} {e : Event} (h : Known w)
    (he : Effect env w e w') : Known w' := by
  cases he with
  | idle => exact h.drew _
  | @edited request data draw row hf hrow =>
      refine (h.drew _).withDb ?_
      have hdb := (h.drew [draw.eventId]).db
      have hid : (data.edit draw.now row.toDocumentColumns).id ∈ [draw.eventId] ++ w.drawn := by
        rw [Patch.edit_id]
        exact hdb.documents _ row hrow
      exact (hdb.putDocument hid).audit hid
  | @destroyed request jobId draw row hf hrow =>
      refine (h.drew _).withDb ?_
      have hdb := (h.drew [jobId, draw.eventId]).db
      have hid := hdb.documents _ row hrow
      have hjob : KnownJob ([jobId, draw.eventId] ++ w.drawn)
          (cleanupJob jobId row.toDocumentColumns request.requestId draw.now) :=
        ⟨by simp [cleanupJob], hid, by simp [cleanupJob]⟩
      exact ((hdb.audit hid).putJob hjob).removeDocument _
  | @reprocessed request jobId draw row hf hrow =>
      refine (h.drew _).withDb ?_
      have hdb := (h.drew [jobId, draw.eventId]).db
      have hid : (row.reprocessed draw.now).id ∈ [jobId, draw.eventId] ++ w.drawn :=
        hdb.documents _ row hrow
      have hput : KnownDb ([jobId, draw.eventId] ++ w.drawn)
          (w.db.putDocument (.indexed env (row.reprocessed draw.now) row.extractedText)) :=
        hdb.putDocument hid
      have hjob : KnownJob ([jobId, draw.eventId] ++ w.drawn)
          (ocrJob jobId row.id request.requestId draw.now) :=
        ⟨by simp [ocrJob], hid, by simp [ocrJob]⟩
      exact (hput.audit hid).putJob hjob
  | entered =>
      exact h.setUpload (Upload.coherent_enter _ _ _ _ _) fun ids hi => by cases hi
  | @advanced call move u u' db' store' hf hu hhonest ha =>
      have hdrew := h.drew move.draws
      -- The call first; what it wrote to the tables follows.
      have hnew : Known ((w.drew move.draws).setUpload call u') := by
        refine hdrew.setUpload (ha.coherent (h.coherent call u hu)) fun ids hi => ?_
        obtain hsame | ⟨ids', hids', hsub⟩ := ha.ids
        · exact hdrew.uploads call u ids hu (hsame ▸ hi)
        · rw [hids'] at hi
          cases hi
          simp only [List.mem_cons, List.not_mem_nil, or_false, forall_eq_or_imp, forall_eq] at hsub
          exact ⟨List.mem_append_left _ hsub.1, List.mem_append_left _ hsub.2.1,
            List.mem_append_left _ hsub.2.2⟩
      have hdb := ha.known hdrew.db (fun id hid => List.mem_append_left _ hid) fun ids hids =>
        (hdrew.knows_upload hu hids).1
      exact ⟨hdb, hnew.uploads, hnew.coherent, hnew.deliveries⟩
  | @cleanupClaimed delivery jobId token draw job hf hnew hjob =>
      have hdrew := h.drew [token, draw.eventId]
      have hjob' : KnownJob ([token, draw.eventId] ++ w.drawn) (take draw token job) :=
        (hdrew.db.jobs _ job hjob).take (List.mem_append_left _ List.mem_cons_self)
      have hnew : Known ((w.drew [token, draw.eventId]).setDelivery delivery
          ⟨take draw token job, false, false⟩) := hdrew.setDelivery hjob'
      exact hnew.withDb (hdrew.db.putJob hjob')
  | @discarded delivery jobId token draw job hf hjob =>
      have hdrew := h.drew [token, draw.eventId]
      have hjob' : KnownJob ([token, draw.eventId] ++ w.drawn) (take draw token job) :=
        (hdrew.db.jobs _ job hjob).take (List.mem_append_left _ List.mem_cons_self)
      have hdone : KnownJob ([token, draw.eventId] ++ w.drawn) (discard (take draw token job)) :=
        ⟨hjob'.id, hjob'.document, hjob'.token⟩
      exact hdrew.withDb ((hdrew.db.putJob hjob').putJob hdone)
  | @ocrClaimed delivery jobId token draw job row hf hnew hjob hc hkind hrow =>
      have hdrew := h.drew [token, draw.eventId]
      have hjob' : KnownJob ([token, draw.eventId] ++ w.drawn) (take draw token job) :=
        (hdrew.db.jobs _ job hjob).take (List.mem_append_left _ List.mem_cons_self)
      have hid := hdrew.db.documents _ row hrow
      have hnew : Known ((w.drew [token, draw.eventId]).setDelivery delivery
          ⟨take draw token job, false, false⟩) := hdrew.setDelivery hjob'
      exact hnew.withDb ((hdrew.db.putJob hjob').moveDocument hid)
  | @documentRead delivery d hd => exact h.setDelivery (h.deliveries _ d hd)
  | @objectDeleted delivery ack d key hd =>
      have hnew : Known (w.setDelivery delivery { d with deleted := d.deleted || ack = .ok }) :=
        h.setDelivery (h.deliveries _ d hd)
      exact ⟨hnew.db, hnew.uploads, hnew.coherent, hnew.deliveries⟩
  | @settled delivery call jitter draw d current hf hd hpermit hjob =>
      have hdrew := h.drew [draw.eventId]
      exact hdrew.withDb (hdrew.db.settleJob (hdrew.db.jobs _ current hjob).settle)
  | recoveryStarted | published | stopped =>
      exact ⟨h.db, h.uploads, h.coherent, h.deliveries⟩
  | @recoveryPassed dispatcher limit locked token jitter draw =>
      have hdrew := h.drew [token, draw.eventId]
      exact ⟨hdrew.db, hdrew.uploads, hdrew.coherent, hdrew.deliveries⟩
  | @recovered dispatcher limit token jitter draw id todo job hf hd hjob =>
      have hdrew := h.drew [token, draw.eventId]
      have ht : token ∈ [token, draw.eventId] ++ w.drawn :=
        List.mem_append_left _ List.mem_cons_self
      -- The token of the recovery has just been drawn.
      have hfence : ∀ j, KnownJob ([token, draw.eventId] ++ w.drawn) j →
          KnownJob ([token, draw.eventId] ++ w.drawn) (fence draw token j) := fun j hj =>
        ⟨hj.id, hj.document, fun t hq => by cases hq; exact ht⟩
      have hupdate : KnownDb ([token, draw.eventId] ++ w.drawn)
          (w.db.updateJob id (fence draw token)) :=
        hdrew.db.updateJobs fun j hj => ⟨hj.id, hj.document, fun t ht => (hfence j hj).token t ht⟩
      have hfenced := hfence job (hdrew.db.jobs _ job hjob)
      exact ⟨hupdate.settleJob hfenced.settle, hdrew.uploads, hdrew.coherent, hdrew.deliveries⟩
  | stamped =>
      exact ⟨h.db.updateJobs fun j hj => ⟨hj.id, hj.document, hj.token⟩, h.uploads, h.coherent,
        h.deliveries⟩
  | @rearmed jobId now job hjob =>
      have hj := h.db.jobs _ job hjob
      exact h.withDb (h.db.putJob ⟨hj.id, hj.document, hj.token⟩)

/-- **In every reachable state** everything the system mentions was drawn. -/
theorem known_of_history {env : Env} {h : List Step} {w : World} (hr : History env h w) :
    Known w :=
  hr.preserved Known known_init fun _ hv hk => hk.step (World.perform_effect hv)

/-- Nothing that was drawn is forgotten. -/
theorem Effect.drawn_subset {env : Env} {w w' : World} {e : Event} (he : Effect env w e w') :
    w.drawn ⊆ w'.drawn := by
  cases he with
  | entered | documentRead | objectDeleted | recoveryStarted | stamped | published | stopped
  | rearmed => exact fun _ h => h
  | _ => exact List.subset_append_right _ _

end MiniDms
