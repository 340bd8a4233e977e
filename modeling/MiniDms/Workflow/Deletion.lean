import MiniDms.Workflow.Fencing

/-! # Deleted documents stay deleted

`Document.save` inserts a row that is missing, so every writer that has read a document before it was
deleted could bring it back. None does: the requests read and write under one row lock, and the
worker's transactions read the document again when they write. What is left of a deleted document
are its OCR jobs, and these find it missing. -/

namespace MiniDms

open Python Relational TransitionSystem

/-- The job a worker or a recovery works on with this event. -/
def Event.job (w : World) : Event → Option Uuid
  | .claim _ jobId _ _ => some jobId
  | .readDocument delivery | .deleteObject delivery _ | .finish delivery _ _ _ =>
      (w.deliveries delivery).map fun d => d.job.id
  | .recoverNext dispatcher _ _ _ _ =>
      match w.dispatchers dispatcher with
      | .recovering _ (id :: _) => some id
      | _ => none
  | _ => none

/-- A successful DELETE finds the row and leaves none. -/
theorem World.perform_destroy {env : Env} {w w' : World} {request : Request} {jobId : Uuid}
    {draw : Draw} (h : w.perform env (.destroy request jobId draw) = some (w', .done)) :
    (∃ row, w.db.documents.find request.pk = some row) ∧
      w'.db.documents.find request.pk = none := by
  obtain ⟨hf, h₁⟩ := World.draw_bind h
  simp only [World.drew_db] at h₁
  cases hres : MiniDms.destroy w.db draw jobId request with
  | error e =>
      rw [hres] at h₁
      cases h₁
  | ok db =>
      rw [hres] at h₁
      cases h₁
      obtain ⟨row, hrow, -, -, hdb⟩ := destroy_cases hres
      refine ⟨⟨row, hrow⟩, ?_⟩
      show db.documents.find request.pk = none
      rw [hdb, Db.removeDocument_documents, Table.find_erase, Db.document_id hrow, if_pos rfl]

/-! ## The jobs of a missing document -/

/-- Settling an OCR job whose document is missing writes the job table only. -/
theorem settleJob_missing (env : Env) {db : Db} (draw : Draw) {job : Job}
    (result : Option ExtractionResult) (hrow : db.documents.find job.documentId = none) :
    (settleJob env db draw job result).documents = db.documents ∧
      (settleJob env db draw job result).auditEvents = db.auditEvents := by
  unfold settleJob
  split
  · next row _ hfind =>
      rw [hrow] at hfind
      cases hfind
  · exact ⟨rfl, rfl⟩

/-- **A step on an OCR job whose document is missing** writes no document, no audit event and no
object. -/
theorem Effect.orphan {env : Env} {w w' : World} {e : Event} (hp : Provenance w)
    (he : Effect env w e w') {k : Uuid} {job : Job} (hk : e.job w = some k)
    (hjob : w.db.jobs.find k = some job) (hkind : job.kind = .ocr)
    (hrow : w.db.documents.find job.documentId = none) :
    w'.db.documents = w.db.documents ∧ w'.db.auditEvents = w.db.auditEvents ∧
      w'.store = w.store := by
  cases he with
  | idle | discarded | documentRead | recoveryPassed => exact ⟨rfl, rfl, rfl⟩
  | cleanupClaimed _ _ hjob' _ hkind' =>
      cases hk
      rw [hjob] at hjob'
      cases hjob'
      rw [hkind] at hkind'
      cases hkind'
  | ocrClaimed _ _ hjob' _ _ hrow' =>
      cases hk
      rw [hjob] at hjob'
      cases hjob'
      rw [hrow] at hrow'
      cases hrow'
  | @objectDeleted delivery ack d key hd hkind' =>
      -- The delivery would hold an OCR job, and deletes no object.
      have hk' : (w.deliveries delivery).map (fun d => d.job.id) = some k := hk
      rw [hd, Option.map_some] at hk'
      cases hk'
      obtain ⟨j, hj, hheld, -⟩ := hp.held delivery d hd
      rw [hjob] at hj
      cases hj
      rw [hkind, hkind'] at hheld
      cases hheld
  | @settled delivery call jitter draw d current _ hd _ hcurrent =>
      have hk' : (w.deliveries delivery).map (fun d => d.job.id) = some k := hk
      rw [hd, Option.map_some] at hk'
      cases hk'
      rw [hjob] at hcurrent
      cases hcurrent
      have hgone : w.db.documents.find (settle draw.now jitter call.failed job).documentId = none := by
        rw [settle_documentId]
        exact hrow
      obtain ⟨hdocs, haudit⟩ := settleJob_missing env draw call.result hgone
      exact ⟨hdocs, haudit, rfl⟩
  | @recovered dispatcher limit token jitter draw id todo current _ hd hcurrent =>
      have hk' : (match w.dispatchers dispatcher with
        | .recovering _ (id :: _) => some id
        | _ => none) = some k := hk
      rw [hd] at hk'
      cases hk'
      rw [hjob] at hcurrent
      cases hcurrent
      have hgone : (w.db.updateJob k (fence draw token)).documents.find
          (settle draw.now jitter (some workerLost) (fence draw token job)).documentId = none := by
        rw [settle_documentId]
        exact hrow
      obtain ⟨hdocs, haudit⟩ := settleJob_missing env draw none hgone
      exact ⟨hdocs, haudit, rfl⟩
  | edited | destroyed | reprocessed | entered | advanced | recoveryStarted | stamped | published
  | stopped | rearmed => cases hk

/-- A claim of an OCR job whose document is missing completes it, if it can be claimed. -/
theorem claim_missing {env : Env} {db : Db} {draw : Draw} {token jobId : Uuid} {job : Job}
    (hjob : db.jobs.find jobId = some job) (hkind : job.kind = .ocr)
    (hrow : db.documents.find job.documentId = none) :
    claim env db draw token jobId =
      .ok (if Claimable draw.now job then
        ((db.putJob (take draw token job)).putJob (discard (take draw token job)), none)
      else (db, none)) := by
  unfold claim
  rw [hjob]
  dsimp only
  by_cases hc : Claimable draw.now job
  · have hskip : ¬ (job.state ≠ .pending ∨ draw.now < job.availableAt) :=
      mt not_claimable_iff.mpr (not_not.mpr hc)
    have hkind' : (take draw token job).kind = .ocr := hkind
    have hrow' : (db.putJob (take draw token job)).documents.find
        (take draw token job).documentId = none := hrow
    rw [if_neg hskip, if_pos hc, hkind']
    dsimp only
    rw [hrow']
    rfl
  · rw [if_pos (not_claimable_iff.mp hc), if_neg hc]

/-- **A delivery of an OCR job whose document is missing** is granted nothing. It completes the job,
unless the job cannot be claimed yet, when it leaves the job as it is. -/
theorem World.perform_claim_missing {env : Env} {w w' : World} {r : Reply} {delivery : Nat}
    {jobId token : Uuid} {draw : Draw} {job : Job}
    (h : w.perform env (.claim delivery jobId token draw) = some (w', r))
    (hjob : w.db.jobs.find jobId = some job) (hkind : job.kind = .ocr)
    (hrow : w.db.documents.find job.documentId = none) :
    r = .skipped ∧ w'.deliveries = w.deliveries ∧
      w'.db.jobs.find jobId =
        some (if Claimable draw.now job then discard (take draw token job) else job) := by
  obtain ⟨-, h₁⟩ := World.draw_bind h
  simp only [World.drew_db, World.drew_deliveries] at h₁
  cases hnone : w.deliveries delivery with
  | some d =>
      simp only [hnone, Option.isSome_some, if_true] at h₁
      cases h₁
  | none =>
      simp only [hnone, Option.isSome_none, Bool.false_eq_true, if_false] at h₁
      rw [claim_missing hjob hkind hrow] at h₁
      by_cases hc : Claimable draw.now job
      · rw [if_pos hc] at h₁ ⊢
        cases h₁
        refine ⟨rfl, rfl, ?_⟩
        show ((w.db.putJob (take draw token job)).putJob
          (discard (take draw token job))).jobs.find jobId = _
        rw [find_discard, if_pos (Db.job_id hjob).symm]
      · rw [if_neg hc] at h₁ ⊢
        cases h₁
        exact ⟨rfl, rfl, hjob⟩

/-! ## The law -/

/-- What deletion leaves behind for ever: the identifier names no document and no call will create
one under it. -/
structure Gone (w : World) (id : Uuid) : Prop where
  known : Known w
  provenance : Provenance w
  born : Born w id
  document : w.db.documents.find id = none

/-- **One step keeps a deleted document deleted.** -/
theorem Gone.step {env : Env} {w w' : World} {e : Event} {id : Uuid} (h : Gone w id)
    (he : Effect env w e w') : Gone w' id where
  known := h.known.step he
  provenance := h.provenance.step h.known he
  born := h.born.step he
  document := h.born.document_none he h.document

/-- A successful DELETE leaves the document gone. -/
theorem Gone.of_destroy {env : Env} {h : List Step} {w w' : World} {request : Request}
    {jobId : Uuid} {draw : Draw} (hr : History env h w)
    (hdelete : w.perform env (.destroy request jobId draw) = some (w', .done)) :
    Gone w' request.pk := by
  obtain ⟨hw, hp⟩ := provenance_of_history hr
  obtain ⟨⟨row, hrow⟩, hnone⟩ := World.perform_destroy hdelete
  have he := World.perform_effect hdelete
  exact ⟨hw.step he, hp.step hw he, (hp.born hw hrow).step he, hnone⟩

/-- A deleted document stays gone along every run. -/
theorem Gone.run {env : Env} {w w' : World} {h : List Step} {id : Uuid} (hg : Gone w id)
    (hr : Run (World.perform env) w h w') : Gone w' id :=
  hr.preserved (fun w => Gone w id) hg fun _ hv hI => hI.step (World.perform_effect hv)

/-- **Deleted documents stay deleted.** After a DELETE of a document has committed, no later state
has a row with its identifier, whatever deliveries, workers, recoveries and requests are in flight;
every later step of its OCR jobs, at any point between claim and completion, writes no document, no
audit event and no object, so that no result is stored and no other row is changed;
and a later claim of one of its pending OCR jobs grants nothing and leaves the job succeeded, once
the job is available. -/
theorem deleted_document_stays_deleted {env : Env} {earlier later : List Step} {v v' w : World}
    {request : Request} {jobId : Uuid} {draw : Draw} (hr : History env earlier v)
    (hdelete : v.perform env (.destroy request jobId draw) = some (v', .done))
    (hlater : Run (World.perform env) v' later w) :
    w.db.documents.find request.pk = none ∧
    ∀ y ∈ later, y.pre.db.documents.find request.pk = none ∧
      y.post.db.documents.find request.pk = none ∧
      ∀ k job, y.pre.db.jobs.find k = some job → isOcrOf request.pk job = true →
        (y.event.job y.pre = some k → y.post.db.documents = y.pre.db.documents ∧
          y.post.db.auditEvents = y.pre.db.auditEvents ∧ y.post.store = y.pre.store) ∧
        ∀ delivery token draw, y.event = .claim delivery k token draw → job.state = .pending →
          y.reply = .skipped ∧ y.post.deliveries = y.pre.deliveries ∧
            ∃ job', y.post.db.jobs.find k = some job' ∧
              (job.availableAt ≤ draw.now → job'.state = .succeeded) ∧
              (draw.now < job.availableAt → job' = job) := by
  have hgone := Gone.of_destroy hr hdelete
  refine ⟨(hgone.run hlater).document, fun y hy => ?_⟩
  obtain ⟨_, _, -, hpre, hvy, hpost⟩ := hlater.cut hy
  have hg := hgone.run hpre
  have he := World.perform_effect hvy
  refine ⟨hg.document, (hg.step he).document, fun k job hjob hocr => ?_⟩
  obtain ⟨hkind, hdoc⟩ : job.kind = .ocr ∧ job.documentId = request.pk := by
    simpa [isOcrOf] using hocr
  have hrow : y.pre.db.documents.find job.documentId = none := hdoc ▸ hg.document
  refine ⟨fun hk => he.orphan hg.provenance hk hjob hkind hrow, ?_⟩
  intro delivery token draw hevent hpending
  have hclaim : y.pre.perform env y.event = some (y.post, y.reply) := hvy
  rw [hevent] at hclaim
  obtain ⟨hskipped, hsame, hfind⟩ := World.perform_claim_missing hclaim hjob hkind hrow
  refine ⟨hskipped, hsame, _, hfind, fun havail => ?_, fun hwait => ?_⟩
  · rw [if_pos (show Claimable draw.now job from ⟨hpending, havail⟩)]
    rfl
  · exact if_neg fun hc => absurd hc.2 (not_le.mpr hwait)

/-- The answer of a request that was carried out and returns nothing. -/
def Reply.isDone : Reply → Bool
  | .done => true
  | _ => false

/-- An event that is answered as done has happened. -/
theorem Reply.of_isDone {o : Option (World × Reply)} (h : o.isSome = true)
    (hr : (o.get h).2.isDone = true) : o = some ((o.get h).1, .done) := by
  cases o with
  | none => cases h
  | some x =>
      obtain ⟨w, r⟩ := x
      cases r with
      | done => rfl
      | _ => cases hr

/-- The owner deletes the uploaded document before its OCR job is claimed. -/
def sampleDeletion : Option (List Step × World) :=
  Run.execute (World.perform sampleEnv) ([], .init) sampleUpload

/-- The sample upload goes through. -/
theorem sampleDeletion_isSome : sampleDeletion.isSome = true := by decide +kernel

/-- The state before the deletion. -/
def sampleUploaded : World := (sampleDeletion.get sampleDeletion_isSome).2

/-- The state before the deletion is reachable. -/
theorem sampleUploaded_history :
    History sampleEnv (sampleDeletion.get sampleDeletion_isSome).1 sampleUploaded :=
  Run.of_isSome rfl sampleDeletion_isSome

/-- The request of the deletion. -/
def sampleDestroy : Event := .destroy ⟨sampleUser, 1, some (etag 1), 101⟩ 10 ⟨1500, 11⟩

/-- The deletion can happen. -/
theorem sampleDestroy_isSome :
    (World.perform sampleEnv sampleUploaded sampleDestroy).isSome = true := by decide +kernel

/-- The state after the deletion. -/
def sampleDestroyed : World :=
  ((World.perform sampleEnv sampleUploaded sampleDestroy).get sampleDestroy_isSome).1

/-- The deletion is accepted. -/
theorem sampleDestroyed_step :
    World.perform sampleEnv sampleUploaded sampleDestroy = some (sampleDestroyed, .done) :=
  Reply.of_isDone sampleDestroy_isSome (by decide +kernel)

/-- The claim of the OCR job afterwards. -/
def sampleOrphan : Option (List Step × World) :=
  Run.execute (World.perform sampleEnv) ([], sampleDestroyed) [.claim 0 5 6 ⟨2000, 7⟩]

/-- The claim can happen. -/
theorem sampleOrphan_isSome : sampleOrphan.isSome = true := by decide +kernel

/-- The state after the claim. -/
def sampleOrphanWorld : World := (sampleOrphan.get sampleOrphan_isSome).2

/-- The claim is a run from there. -/
theorem sampleOrphan_run : Run (World.perform sampleEnv) sampleDestroyed
    (sampleOrphan.get sampleOrphan_isSome).1 sampleOrphanWorld :=
  Run.of_isSome rfl sampleOrphan_isSome

/-- After the sample deletion the claim of the OCR job leaves it succeeded and no document. -/
theorem deleted_document_stays_deleted_sample :
    (sampleOrphanWorld.db.jobs.find 5).any (fun j => j.state = .succeeded) ∧
    sampleOrphanWorld.db.documents.find 1 = none :=
  ⟨by decide +kernel,
    (deleted_document_stays_deleted sampleUploaded_history sampleDestroyed_step
      sampleOrphan_run).1⟩

end MiniDms
