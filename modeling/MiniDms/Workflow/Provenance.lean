import MiniDms.Workflow.JobLifecycle

/-! # Where rows come from

A document is created once, by the call that drew its identifier. Until that call has reached the
end of its document transaction no row but its own cleanup intent mentions the identifier, and once
the document is deleted no call can bring it back. -/

namespace MiniDms

open Python Relational TransitionSystem

/-- The identifiers of a call that has an intent and is yet to commit its document. -/
def UploadPc.uncommitted : UploadPc → Option UploadIds
  | .intended ids | .saved ids _ | .named ids _ => some ids
  | _ => none

/-- A call that is not committed works with its identifiers. -/
theorem UploadPc.ids_of_uncommitted {pc : UploadPc} {ids : UploadIds}
    (h : pc.uncommitted = some ids) : pc.ids = some ids := by
  cases pc with
  | intended | saved | named => exact h
  | _ => cases h

/-- Nothing but cleanup jobs mentions a document. -/
structure Unborn (db : Db) (id : Uuid) : Prop where
  document : db.documents.find id = none
  jobs : ∀ k j, db.jobs.find k = some j → j.documentId = id → j.kind = .deleteObject
  audits : ∀ e ∈ db.auditEvents, e.documentId ≠ id

namespace Unborn

variable {db : Db} {id : Uuid}

/-- An identifier that was not drawn is unborn. -/
theorem of_fresh {drawn : List Uuid} (h : KnownDb drawn db) (hid : id ∉ drawn) : Unborn db id where
  document := by
    cases hf : db.documents.find id with
    | none => rfl
    | some d =>
        have hkey : d.id = id := Db.document_id hf
        exact absurd (hkey ▸ h.documents id d hf) hid
  jobs k j hj hd := absurd (hd ▸ (h.jobs k j hj).document) hid
  audits e he hd := hid (hd ▸ h.audits e he)

/-- A live document is another one. -/
theorem ne_of_find (h : Unborn db id) {k : Uuid} {row : Document}
    (hrow : db.documents.find k = some row) : row.id ≠ id := by
  intro heq
  have hkey : row.id = k := Db.document_id hrow
  rw [← hkey, heq, h.document] at hrow
  cases hrow

/-- The document of an OCR job is another one. -/
theorem ne_of_ocr (h : Unborn db id) {k : Uuid} {job : Job} (hjob : db.jobs.find k = some job)
    (hkind : job.kind = .ocr) : job.documentId ≠ id := by
  intro heq
  have := h.jobs k job hjob heq
  rw [hkind] at this
  cases this

/-- Putting a cleanup job, or a job of another document, gives birth to nothing. -/
theorem putJob (h : Unborn db id) {job : Job} (hj : job.documentId = id → job.kind = .deleteObject) :
    Unborn (db.putJob job) id where
  document := h.document
  jobs k j hf hd := by
    rw [Db.putJob_jobs, Table.find_put] at hf
    split at hf
    · cases hf; exact hj hd
    · exact h.jobs k j hf hd
  audits := h.audits

/-- Updating jobs without changing their kind or document gives birth to nothing. -/
theorem updateJobs (h : Unborn db id) {p : Job → Bool} {f : Job → Job}
    (hdoc : ∀ j, (f j).documentId = j.documentId) (hkind : ∀ j, (f j).kind = j.kind) :
    Unborn (db.updateJobs p f) id where
  document := h.document
  jobs k j hf hd := by
    rw [Db.find_updateJobs] at hf
    obtain ⟨j₀, hj₀, rfl⟩ := Option.map_eq_some_iff.mp hf
    by_cases hp : p j₀ = true
    · rw [if_pos hp] at hd ⊢
      exact (hkind j₀).trans (h.jobs k j₀ hj₀ ((hdoc j₀).symm.trans hd))
    · rw [if_neg hp] at hd ⊢
      exact h.jobs k j₀ hj₀ hd
  audits := h.audits

/-- Putting another document gives birth to nothing. -/
theorem putDocument (h : Unborn db id) {row : Document} (hr : row.id ≠ id) :
    Unborn (db.putDocument row) id where
  document := by
    rw [Db.putDocument_documents, Table.find_put, if_neg hr.symm]
    exact h.document
  jobs := h.jobs
  audits := h.audits

/-- Removing a document gives birth to nothing. -/
theorem removeDocument (h : Unborn db id) (k : Uuid) : Unborn (db.removeDocument k) id where
  document := by
    -- The document is gone already, whichever row is deleted.
    rw [Db.removeDocument_documents, Table.find_erase, h.document, ite_self]
  jobs := h.jobs
  audits := h.audits

/-- Recording an event of another document gives birth to nothing. -/
theorem audit (h : Unborn db id) {draw : Draw} {document : DocumentColumns} {action : AuditAction}
    {requestId : Uuid} {actor : Option User} (hd : document.id ≠ id) :
    Unborn (MiniDms.audit db draw document action requestId actor) id where
  document := h.document
  jobs := h.jobs
  audits e he := by
    rw [audit_auditEvents, List.mem_append, List.mem_singleton] at he
    obtain he | rfl := he
    · exact h.audits e he
    · exact hd

/-- Moving another document gives birth to nothing. -/
theorem moveDocument (h : Unborn db id) {env : Env} {draw : Draw} {row : Document} {state : Status}
    {job : Job} {code : Option ErrorCode} {result : Option ExtractionResult} (hr : row.id ≠ id) :
    Unborn (MiniDms.moveDocument env db draw row state job code result) id :=
  Unborn.audit (h.putDocument (by rw [Document.move_id]; exact hr)) hr

/-- Settling a job of another document gives birth to nothing. -/
theorem settleJob (h : Unborn db id) {env : Env} {draw : Draw} {current : Job}
    {result : Option ExtractionResult}
    (hj : current.documentId = id → current.kind = .deleteObject) :
    Unborn (MiniDms.settleJob env db draw current result) id := by
  unfold MiniDms.settleJob
  split
  -- The row that moves is live, so it is not the unborn document.
  · next row _ hrow => exact (h.putJob hj).moveDocument (h.ne_of_find hrow)
  · exact h.putJob hj

end Unborn

/-- The provenance of the rows and of what the processes hold. -/
structure Provenance (w : World) : Prop where
  /-- Two calls never draw the same identifier. -/
  apart : ∀ c c' u u' ids ids', w.uploads c = some u → w.uploads c' = some u' →
    u.ids = some ids → u'.ids = some ids' → c ≠ c' →
      ids.documentId ≠ ids'.documentId ∧ ids.nonce ≠ ids'.nonce ∧ ids.intentId ≠ ids'.intentId
  /-- A running call has its intent. -/
  intents : ∀ c u ids, w.uploads c = some u → u.pc.ids = some ids →
    ∃ j, w.db.jobs.find ids.intentId = some j ∧ j.kind = .deleteObject ∧
      j.documentId = ids.documentId
  /-- The document of an uncommitted call does not exist. -/
  unborn : ∀ c u ids, w.uploads c = some u → u.pc.uncommitted = some ids →
    Unborn w.db ids.documentId
  /-- A delivery holds a job of the table. -/
  held : ∀ d x, w.deliveries d = some x → ∃ j, w.db.jobs.find x.job.id = some j ∧
    j.kind = x.job.kind ∧ j.documentId = x.job.documentId
  /-- A document found missing stays missing. -/
  missing : ∀ d x, w.deliveries d = some x → x.missing = true →
    x.job.kind = .ocr ∧ w.db.documents.find x.job.documentId = none

/-- In the empty system there is nothing to account for. -/
theorem provenance_init : Provenance World.init where
  apart := by simp [World.init]
  intents := by simp [World.init]
  unborn := by simp [World.init]
  held := by simp [World.init]
  missing := by simp [World.init]

/-! ## Rows never lose their provenance -/

/-- A job row stays, with its identity. -/
theorem Effect.job_stays {env : Env} {w w' : World} {e : Event} (hw : Known w)
    (he : Effect env w e w') {id : Uuid} {j : Job} (hj : w.db.jobs.find id = some j) :
    ∃ j', w'.db.jobs.find id = some j' ∧ j'.kind = j.kind ∧ j'.documentId = j.documentId := by
  have hm := he.jobMove hw id
  rw [hj] at hm
  obtain ⟨j', hj', -, hkind, hdoc, -⟩ := hm.frame
  exact ⟨j', hj', hkind, hdoc⟩

/-- A document row is written over a live row of the same document, or by the call that creates it. -/
theorem Effect.document_none {env : Env} {w w' : World} {e : Event} (he : Effect env w e w')
    {id : Uuid} (hnone : w.db.documents.find id = none)
    (hcalls : ∀ c u ids, w.uploads c = some u → u.pc.uncommitted = some ids →
      ids.documentId ≠ id) : w'.db.documents.find id = none := by
  cases he.documentsWrite with
  | same h => rw [h, hnone]
  | @written row row' hrow h hid =>
      rw [h, Table.find_put, if_neg, hnone]
      -- A live row belongs to another document.
      rintro rfl
      rw [hid, hrow] at hnone
      cases hnone
  | deleted hrow hjob h => rw [h, Table.find_erase, hnone, ite_self]
  | created hu hpc hadm h =>
      rw [h, Table.find_put, if_neg, hnone]
      exact (hcalls _ _ _ hu (by rw [hpc]; rfl)).symm

/-- A statement of a call gives birth to its own document at most. -/
theorem Upload.Advance.unborn {env : Env} {db db' : Db} {store store' : Store} {u u' : Upload}
    {move : UploadMove} (ha : Advance env db store u move db' store' u') {id : Uuid}
    (h : Unborn db id)
    (hcall : ∀ ids, u.pc.uncommitted = some ids →
      ids.documentId ≠ id ∨ u'.pc.uncommitted = some ids) : Unborn db' id := by
  cases ha with
  | intended => exact h.putJob fun _ => rfl
  | renamed | replayed | conflictExpedited | failureExpedited =>
      exact h.updateJobs (fun _ => rfl) fun _ => rfl
  | @created ids actual draw jobId fault ack hpc =>
      have hne : ids.documentId ≠ id := by
        obtain hne | hpc' := hcall ids (by rw [hpc]; rfl)
        · exact hne
        -- A call that has committed its document is past its document transaction.
        · exfalso
          dsimp only at hpc'
          split at hpc' <;> cases hpc'
      refine Unborn.updateJobs ?_ (fun _ => rfl) fun _ => rfl
      exact ((h.putDocument (by exact hne)).audit hne).putJob fun heq => absurd heq hne
  | _ => exact h

/-- **An event gives birth only to the document of the call it advances.** -/
theorem Effect.unborn {env : Env} {w w' : World} {e : Event} (he : Effect env w e w') {id : Uuid}
    (h : Unborn w.db id)
    (hcalls : ∀ c u u' ids, w.uploads c = some u → w'.uploads c = some u' →
      u.pc.uncommitted = some ids → ids.documentId ≠ id ∨ u'.pc.uncommitted = some ids) :
    Unborn w'.db id := by
  cases he with
  | @edited request data draw row _ hrow =>
      have hid : (data.edit draw.now row.toDocumentColumns).id ≠ id := by
        rw [Patch.edit_id]
        exact h.ne_of_find hrow
      exact (h.putDocument hid).audit hid
  | @destroyed request jobId draw row _ hrow =>
      have hcleanup : Unborn ((audit w.db draw row.toDocumentColumns .deleted request.requestId
          (some request.user)).putJob (cleanupJob jobId row.toDocumentColumns request.requestId
            draw.now)) id :=
        (h.audit (h.ne_of_find hrow)).putJob fun _ => rfl
      exact hcleanup.removeDocument _
  | @reprocessed request jobId draw row _ hrow =>
      have hne : (row.reprocessed draw.now).id ≠ id := h.ne_of_find hrow
      have hput : Unborn (w.db.putDocument (.indexed env (row.reprocessed draw.now)
          row.extractedText)) id := h.putDocument hne
      exact (hput.audit hne).putJob fun heq => absurd heq hne
  | @advanced call move u u' db' store' _ hu _ ha =>
      refine ha.unborn h fun ids hids => hcalls call u u' ids hu ?_ hids
      simp [World.setUpload]
  | @cleanupClaimed _ _ _ _ job _ _ hjob =>
      have hown : job.documentId = id → job.kind = .deleteObject := h.jobs _ _ hjob
      exact h.putJob hown
  | @discarded _ jobId token draw job _ hjob =>
      have hown : job.documentId = id → job.kind = .deleteObject := h.jobs _ _ hjob
      have htake : Unborn (w.db.putJob (take draw token job)) id := h.putJob hown
      exact htake.putJob hown
  | @ocrClaimed _ jobId token draw job row _ _ hjob _ _ hrow =>
      have hown : job.documentId = id → job.kind = .deleteObject := h.jobs _ _ hjob
      have htake : Unborn (w.db.putJob (take draw token job)) id := h.putJob hown
      exact htake.moveDocument (h.ne_of_find hrow)
  | @settled _ call jitter draw d current _ _ _ hjob =>
      refine h.settleJob fun hd => ?_
      rw [settle_documentId] at hd
      rw [settle_kind]
      exact h.jobs _ _ hjob hd
  | @recovered _ _ token jitter draw jobId _ job _ _ hjob =>
      have hfence : Unborn (w.db.updateJob jobId (fence draw token)) id :=
        h.updateJobs (fun _ => rfl) fun _ => rfl
      have hown : job.documentId = id → job.kind = .deleteObject := h.jobs _ _ hjob
      refine hfence.settleJob fun hd => ?_
      rw [settle_documentId] at hd
      rw [settle_kind]
      exact hown hd
  | stamped => exact h.updateJobs (fun _ => rfl) fun _ => rfl
  | @rearmed _ _ job hjob =>
      have hown : job.documentId = id → job.kind = .deleteObject := h.jobs _ _ hjob
      exact h.putJob hown
  | _ => exact h

/-! ## Provenance is an invariant -/

/-- A call that has just been entered works with no identifiers. -/
theorem Upload.pc_ids_enter (env : Env) (user : User) (data : UploadData) (key : Option Str)
    (requestId : Uuid) : (enter env user data key requestId).pc.ids = none := by
  unfold enter
  split <;> rfl

/-- What becomes of a call in one event: it stays, it is entered, or it advances. -/
theorem Effect.upload_cases {env : Env} {w w' : World} {e : Event} (he : Effect env w e w')
    {c : Nat} {u' : Upload} (hu' : w'.uploads c = some u') :
    (w.uploads c = some u' ∧ ∀ move, e ≠ .upload c move) ∨
    (w.uploads c = none ∧ ∃ user data key requestId,
      e = .enterUpload c user data key requestId ∧ u' = .enter env user data key requestId) ∨
    ∃ move u, e = .upload c move ∧ w.Fresh move.draws ∧ w.uploads c = some u ∧
      Upload.Advance env w.db w.store u move w'.db w'.store u' := by
  cases he with
  | @entered call user data key requestId hnew =>
      obtain ⟨rfl, rfl⟩ | ⟨-, hold⟩ := update_cases hu'
      · exact .inr (.inl ⟨hnew, user, data, key, requestId, rfl, rfl⟩)
      · exact .inl ⟨hold, fun _ h => by cases h⟩
  | @advanced call move u v db' store' hf hu _ ha =>
      obtain ⟨rfl, rfl⟩ | ⟨hc, hold⟩ := update_cases hu'
      · exact .inr (.inr ⟨move, u, rfl, hf, hu, ha⟩)
      · refine .inl ⟨hold, fun move' he => hc ?_⟩
        cases he
        rfl
  | idle _ hupload => exact .inl ⟨hu', hupload c⟩
  | _ => exact .inl ⟨hu', fun _ h => by cases h⟩

/-- A statement keeps the identifiers a call works with, drops them, or draws them for a new intent. -/
theorem Upload.Advance.pc_ids {env : Env} {db db' : Db} {store store' : Store} {u u' : Upload}
    {move : UploadMove} (ha : Advance env db store u move db' store' u') {ids : UploadIds}
    (hids : u'.pc.ids = some ids) :
    u.pc.ids = some ids ∨ ∃ now ack, move = .intend ids now ack ∧ ack.applied = true ∧
      db' = db.putJob (u.intent ids now) := by
  obtain hold | ⟨now, rfl⟩ := ha.pcMove.ids hids
  · exact .inl hold
  · cases ha with
    | intended => exact .inr ⟨now, .ok, rfl, rfl, rfl⟩

/-- The document of a call stays uncommitted only through statements that do not commit it. -/
theorem Upload.PcMove.uncommitted {u : Upload} {pc pc' : UploadPc} {move : UploadMove}
    (hm : PcMove u pc move pc') {ids : UploadIds} (hids : pc'.uncommitted = some ids) :
    pc.uncommitted = some ids ∨ ∃ now, move = .intend ids now .ok := by
  cases hm with
  | intended =>
      cases hids
      exact .inr ⟨_, rfl⟩
  | saved | named | renamed => exact .inl hids
  | _ => cases hids

/-- What becomes of a delivery in one event: it is granted, or keeps its job. -/
theorem Effect.delivery_cases {env : Env} {w w' : World} {e : Event} (he : Effect env w e w')
    {d : Nat} {x' : Delivery} (hx' : w'.deliveries d = some x') :
    (∃ x, w.deliveries d = some x ∧ x'.job = x.job ∧
      (x'.missing = true → x.missing = true ∨
        x.job.kind = .ocr ∧ w.db.documents.find x.job.documentId = none) ∧
      (x'.deleted = true → x.deleted = true ∨ e = .deleteObject d .ok)) ∨
    ∃ jobId token draw, e = .claim d jobId token draw ∧ w.Fresh [token, draw.eventId] ∧
      w.deliveries d = none ∧ ∃ job, w.db.jobs.find jobId = some job ∧ Claimable draw.now job ∧
        x' = ⟨take draw token job, false, false⟩ ∧
        w'.db.jobs.find jobId = some (take draw token job) := by
  have hold : ∀ x, w.deliveries d = some x → x = x' →
      ∃ x, w.deliveries d = some x ∧ x'.job = x.job ∧
        (x'.missing = true → x.missing = true ∨
          x.job.kind = .ocr ∧ w.db.documents.find x.job.documentId = none) ∧
        (x'.deleted = true → x.deleted = true ∨ e = .deleteObject d .ok) := by
    -- The delivery is another one, or keeps what it has seen.
    rintro x hx rfl
    exact ⟨x, hx, rfl, .inl, .inl⟩
  cases he with
  | @cleanupClaimed delivery jobId token draw job hf hnew hjob hc =>
      obtain ⟨rfl, rfl⟩ | ⟨-, hx⟩ := update_cases hx'
      · refine .inr ⟨jobId, token, draw, rfl, hf, hnew, job, hjob, hc, rfl, ?_⟩
        have hkey : jobId = (take draw token job).id := (Db.job_id hjob).symm
        rw [Db.putJob_jobs, Table.find_put, if_pos hkey]
      · exact .inl (hold x' hx rfl)
  | @ocrClaimed delivery jobId token draw job row hf hnew hjob hc =>
      obtain ⟨rfl, rfl⟩ | ⟨-, hx⟩ := update_cases hx'
      · refine .inr ⟨jobId, token, draw, rfl, hf, hnew, job, hjob, hc, rfl, ?_⟩
        have hkey : jobId = (take draw token job).id := (Db.job_id hjob).symm
        rw [moveDocument_jobs, Db.putJob_jobs, Table.find_put, if_pos hkey]
      · exact .inl (hold x' hx rfl)
  | @documentRead delivery x hx hkind =>
      obtain ⟨rfl, rfl⟩ | ⟨-, hx'⟩ := update_cases hx'
      · refine .inl ⟨x, hx, rfl, fun hm => ?_, .inl⟩
        rw [Bool.or_eq_true, Option.isNone_iff_eq_none] at hm
        exact hm.imp_right fun hnone => ⟨hkind, hnone⟩
      · exact .inl (hold x' hx' rfl)
  | @objectDeleted delivery ack x key hx =>
      obtain ⟨rfl, rfl⟩ | ⟨-, hx'⟩ := update_cases hx'
      · refine .inl ⟨x, hx, rfl, .inl, fun hm => ?_⟩
        rw [Bool.or_eq_true, decide_eq_true_iff] at hm
        exact hm.imp_right fun hack => by rw [hack]
      · exact .inl (hold x' hx' rfl)
  | _ => exact .inl (hold x' hx' rfl)

/-- The identifiers a call has drawn were drawn before the event, or are new and drawn by it. -/
theorem Effect.upload_ids {env : Env} {w w' : World} {e : Event} (he : Effect env w e w')
    {c : Nat} {u' : Upload} {ids : UploadIds} (hu' : w'.uploads c = some u')
    (hids : u'.ids = some ids) :
    (∃ u, w.uploads c = some u ∧ u.ids = some ids) ∨
    (∃ move, e = .upload c move) ∧ ids.documentId ∉ w.drawn ∧ ids.nonce ∉ w.drawn ∧
      ids.intentId ∉ w.drawn := by
  obtain ⟨hold, -⟩ | ⟨-, _, _, _, _, -, rfl⟩ | ⟨move, u, rfl, hf, hu, ha⟩ := he.upload_cases hu'
  · exact .inl ⟨u', hold, hids⟩
  · cases hids
  · obtain hsame | ⟨ids', hids', hdraws⟩ := ha.ids
    · exact .inl ⟨u, hu, hsame ▸ hids⟩
    · rw [hids] at hids'
      cases hids'
      exact .inr ⟨⟨move, rfl⟩, hf.2 _ (hdraws _ (by simp)), hf.2 _ (hdraws _ (by simp)),
        hf.2 _ (hdraws _ (by simp))⟩

namespace Provenance

variable {env : Env} {w w' : World} {e : Event}

/-- Two calls with one document identifier are one call. -/
theorem apart_document (hw : Known w) (h : Provenance w) {c c' : Nat} {u u' : Upload}
    {ids ids' : UploadIds} (hu : w.uploads c = some u) (hu' : w.uploads c' = some u')
    (hids : u.pc.uncommitted = some ids) (hids' : u'.pc.uncommitted = some ids') (hne : c ≠ c') :
    ids.documentId ≠ ids'.documentId :=
  (h.apart c c' u u' ids ids' hu hu' (hw.coherent c u hu ids (u.pc.ids_of_uncommitted hids))
    (hw.coherent c' u' hu' ids' (u'.pc.ids_of_uncommitted hids')) hne).1

/-- After a step the identifiers of two calls are still different: new ones are fresh. -/
theorem step_apart (hw : Known w) (h : Provenance w) (he : Effect env w e w') {c c' : Nat}
    {u u' : Upload} {ids ids' : UploadIds} (hu : w'.uploads c = some u)
    (hu' : w'.uploads c' = some u') (hids : u.ids = some ids) (hids' : u'.ids = some ids')
    (hne : c ≠ c') :
    ids.documentId ≠ ids'.documentId ∧ ids.nonce ≠ ids'.nonce ∧ ids.intentId ≠ ids'.intentId := by
  -- Both were drawn before, one of them was, or both by the one event, which is then of one call.
  obtain ⟨v, hv, hvids⟩ | ⟨⟨move, hmove⟩, h₁, h₂, h₃⟩ := he.upload_ids hu hids
  · obtain ⟨v', hv', hvids'⟩ | ⟨-, h₁', h₂', h₃'⟩ := he.upload_ids hu' hids'
    · exact h.apart c c' v v' ids ids' hv hv' hvids hvids' hne
    · obtain ⟨k₁, k₂, k₃⟩ := hw.uploads c v ids hv hvids
      exact ⟨fun hq => h₁' (hq ▸ k₁), fun hq => h₂' (hq ▸ k₂), fun hq => h₃' (hq ▸ k₃)⟩
  · obtain ⟨v', hv', hvids'⟩ | ⟨⟨move', hmove'⟩, -⟩ := he.upload_ids hu' hids'
    · obtain ⟨k₁, k₂, k₃⟩ := hw.uploads c' v' ids' hv' hvids'
      exact ⟨fun hq => h₁ (hq ▸ k₁), fun hq => h₂ (hq ▸ k₂), fun hq => h₃ (hq ▸ k₃)⟩
    · rw [hmove] at hmove'
      cases hmove'
      exact absurd rfl hne

/-- After a step every running call has its intent, which no statement removes. -/
theorem step_intents (hw : Known w) (h : Provenance w) (he : Effect env w e w') {c : Nat}
    {u' : Upload} {ids : UploadIds} (hu' : w'.uploads c = some u') (hids : u'.pc.ids = some ids) :
    ∃ j, w'.db.jobs.find ids.intentId = some j ∧ j.kind = .deleteObject ∧
      j.documentId = ids.documentId := by
  -- A job row is never deleted, so the intent is still there.
  have hstay : ∀ u, w.uploads c = some u → u.pc.ids = some ids →
      ∃ j, w'.db.jobs.find ids.intentId = some j ∧ j.kind = .deleteObject ∧
        j.documentId = ids.documentId := by
    intro u hu hpc
    obtain ⟨j, hj, hkind, hdoc⟩ := h.intents c u ids hu hpc
    obtain ⟨j', hj', hkind', hdoc'⟩ := he.job_stays hw hj
    exact ⟨j', hj', hkind'.trans hkind, hdoc'.trans hdoc⟩
  obtain ⟨hold, -⟩ | ⟨-, _, _, _, _, -, rfl⟩ | ⟨move, u, -, -, hu, ha⟩ := he.upload_cases hu'
  · exact hstay u' hold hids
  · rw [Upload.pc_ids_enter] at hids
    cases hids
  · obtain hpc | ⟨now, ack, -, -, hdb⟩ := ha.pc_ids hids
    · exact hstay u hu hpc
    · refine ⟨u.intent ids now, ?_, rfl, rfl⟩
      rw [hdb, Db.putJob_jobs, Table.find_put]
      exact if_pos rfl

/-- After a step the document of an uncommitted call does not exist: only its own commit creates it.
-/
theorem step_unborn (hw : Known w) (h : Provenance w) (he : Effect env w e w') {c : Nat}
    {u' : Upload} {ids : UploadIds} (hu' : w'.uploads c = some u')
    (hids : u'.pc.uncommitted = some ids) : Unborn w'.db ids.documentId := by
  -- A call that keeps its uncommitted document lets no other call create it.
  have hkeep : ∀ u, w.uploads c = some u → u.pc.uncommitted = some ids →
      Unborn w'.db ids.documentId := by
    intro u hu hpc
    refine he.unborn (h.unborn c u ids hu hpc) fun c₁ u₁ u₁' ids₁ hu₁ hu₁' hpc₁ => ?_
    by_cases hc : c₁ = c
    · subst hc
      rw [hu₁] at hu
      cases hu
      rw [hu₁'] at hu'
      cases hu'
      rw [hpc₁] at hpc
      cases hpc
      exact .inr hids
    · exact .inl (h.apart_document hw hu₁ hu hpc₁ hpc hc)
  obtain ⟨hold, -⟩ | ⟨-, _, _, _, _, -, rfl⟩ | ⟨move, u, -, hf, hu, ha⟩ := he.upload_cases hu'
  · exact hkeep u' hold hids
  · have hnone := UploadPc.ids_of_uncommitted hids
    rw [Upload.pc_ids_enter] at hnone
    cases hnone
  · obtain hpc | ⟨now, rfl⟩ := ha.pcMove.uncommitted hids
    · exact hkeep u hu hpc
    · have hfresh : ids.documentId ∉ w.drawn := hf.2 _ (by simp [UploadMove.draws])
      refine he.unborn (.of_fresh hw.db hfresh) fun c₁ u₁ _ ids₁ hu₁ _ hpc₁ => ?_
      have hknown := (hw.knows_upload hu₁ (u₁.pc.ids_of_uncommitted hpc₁)).1
      exact .inl fun hq => hfresh (hq ▸ hknown)

/-- After a step every delivery holds a job of the table. -/
theorem step_held (hw : Known w) (h : Provenance w) (he : Effect env w e w') {d : Nat}
    {x' : Delivery} (hx' : w'.deliveries d = some x') :
    ∃ j, w'.db.jobs.find x'.job.id = some j ∧ j.kind = x'.job.kind ∧
      j.documentId = x'.job.documentId := by
  obtain ⟨x, hx, hjob, -⟩ | ⟨jobId, token, draw, -, -, -, job, hj, -, rfl, hj'⟩ :=
    he.delivery_cases hx'
  · obtain ⟨j, hj, hkind, hdoc⟩ := h.held d x hx
    obtain ⟨j', hj', hkind', hdoc'⟩ := he.job_stays hw hj
    rw [hjob]
    exact ⟨j', hj', hkind'.trans hkind, hdoc'.trans hdoc⟩
  · have hid : job.id = jobId := Db.job_id hj
    refine ⟨_, ?_, rfl, rfl⟩
    have hkey : (take draw token job).id = jobId := hid
    rw [hkey]
    exact hj'

/-- After a step a document that was found missing is still missing. -/
theorem step_missing (h : Provenance w) (he : Effect env w e w') {d : Nat} {x' : Delivery}
    (hx' : w'.deliveries d = some x') (hm : x'.missing = true) :
    x'.job.kind = .ocr ∧ w'.db.documents.find x'.job.documentId = none := by
  obtain ⟨x, hx, hjob, hmiss, -⟩ | ⟨_, _, _, -, -, -, _, -, -, rfl, -⟩ := he.delivery_cases hx'
  · obtain ⟨hkind, hnone⟩ : x.job.kind = .ocr ∧ w.db.documents.find x.job.documentId = none := by
      obtain hold | hnew := hmiss hm
      · exact h.missing d x hx hold
      · exact hnew
    obtain ⟨j, hj, hjkind, hjdoc⟩ := h.held d x hx
    rw [hjob]
    -- An uncommitted call has no OCR job yet, so none of them is about to create this document.
    refine ⟨hkind, he.document_none hnone fun c u ids hu hpc hq => ?_⟩
    exact (h.unborn c u ids hu hpc).ne_of_ocr hj (hjkind.trans hkind) (hjdoc.trans hq.symm)
  · cases hm

/-- **One event keeps the provenance.** -/
theorem step (hw : Known w) (h : Provenance w) (he : Effect env w e w') : Provenance w' where
  apart _ _ _ _ _ _ hu hu' hids hids' hne := h.step_apart hw he hu hu' hids hids' hne
  intents _ _ _ hu hids := h.step_intents hw he hu hids
  unborn _ _ _ hu hids := h.step_unborn hw he hu hids
  held _ _ hx := h.step_held hw he hx
  missing _ _ hx hm := h.step_missing he hx hm

end Provenance

/-- **In every reachable state** rows and processes have their provenance. -/
theorem provenance_of_history {env : Env} {h : List Step} {w : World} (hr : History env h w) :
    Known w ∧ Provenance w :=
  hr.preserved (fun w => Known w ∧ Provenance w) ⟨known_init, provenance_init⟩ fun _ hv hI =>
    ⟨hI.1.step (World.perform_effect hv), hI.2.step hI.1 (World.perform_effect hv)⟩

/-! ## A document is born once -/

/-- The identifier was drawn, and no call is about to create a document under it. -/
structure Born (w : World) (id : Uuid) : Prop where
  drawn : id ∈ w.drawn
  calls : ∀ c u ids, w.uploads c = some u → u.pc.uncommitted = some ids → ids.documentId ≠ id

/-- A live document is born. -/
theorem Provenance.born {w : World} (hw : Known w) (hp : Provenance w) {id : Uuid} {row : Document}
    (hrow : w.db.documents.find id = some row) : Born w id where
  drawn := Db.document_id hrow ▸ hw.db.documents id row hrow
  calls c u ids hu hids heq := by
    have hnone := (hp.unborn c u ids hu hids).document
    rw [heq, hrow] at hnone
    cases hnone

/-- No event takes a birth back. -/
theorem Born.step {env : Env} {w w' : World} {e : Event} {id : Uuid} (h : Born w id)
    (he : Effect env w e w') : Born w' id where
  drawn := he.drawn_subset h.drawn
  calls c u' ids hu' hids := by
    obtain ⟨hold, -⟩ | ⟨-, _, _, _, _, -, rfl⟩ | ⟨move, u, -, hf, hu, ha⟩ := he.upload_cases hu'
    · exact h.calls c u' ids hold hids
    · have hnone := UploadPc.ids_of_uncommitted hids
      rw [Upload.pc_ids_enter] at hnone
      cases hnone
    · obtain hpc | ⟨now, rfl⟩ := ha.pcMove.uncommitted hids
      · exact h.calls c u ids hu hpc
      -- The new identifier was not drawn before, unlike `id`.
      · have hfresh : ids.documentId ∉ w.drawn := hf.2 _ (by simp [UploadMove.draws])
        exact fun heq => hfresh (heq ▸ h.drawn)

/-- A born document that is gone stays gone. -/
theorem Born.document_none {env : Env} {w w' : World} {e : Event} {id : Uuid} (h : Born w id)
    (he : Effect env w e w') (hnone : w.db.documents.find id = none) :
    w'.db.documents.find id = none :=
  he.document_none hnone h.calls

end MiniDms
