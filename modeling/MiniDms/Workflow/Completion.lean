import MiniDms.Workflow.Revision
import MiniDms.Workflow.AuditTrail

/-! # The outcome of a document

The columns that processing writes move along one graph: a claim starts a pending document, a
completion or a recovery ends the processing, and a reprocess request puts a failed document back.
Success has no edge out of it. -/

namespace MiniDms

open Python Relational TransitionSystem

/-! ## Outcomes -/

/-- Two rows with the same result of processing. -/
structure SameResult (a b : Document) : Prop where
  extractedText : b.extractedText = a.extractedText
  processingInfo : b.processingInfo = a.processingInfo
  processedAt : b.processedAt = a.processedAt

/-- Two rows with the same columns of processing. -/
structure SameProcessing (a b : Document) : Prop extends SameResult a b where
  status : b.status = a.status
  attempts : b.attempts = a.attempts
  errorCode : b.errorCode = a.errorCode
  errorMessage : b.errorMessage = a.errorMessage

/-- A row has its own processing. -/
theorem SameProcessing.refl (a : Document) : SameProcessing a a :=
  ⟨⟨rfl, rfl, rfl⟩, rfl, rfl, rfl, rfl⟩

/-- Sameness of processing is transitive. -/
theorem SameProcessing.trans {a b c : Document} (h : SameProcessing a b) (h' : SameProcessing b c) :
    SameProcessing a c :=
  ⟨⟨h'.extractedText.trans h.extractedText, h'.processingInfo.trans h.processingInfo,
      h'.processedAt.trans h.processedAt⟩,
    h'.status.trans h.status, h'.attempts.trans h.attempts, h'.errorCode.trans h.errorCode,
    h'.errorMessage.trans h.errorMessage⟩

/-- The edges of the graph, each with the event that takes it and what it writes. -/
inductive OutcomeMove : Event → Document → Document → Prop
  | kept {e : Event} {a b : Document} (hsame : SameProcessing a b) : OutcomeMove e a b
  | started {delivery : Nat} {jobId token : Uuid} {draw : Draw} {a b : Document}
      (hfrom : a.status = .pending) (hto : b.status = .processing)
      (hattempts : b.attempts = a.attempts + 1) (hcode : b.errorCode = none)
      (hmessage : b.errorMessage = "") (hresult : SameResult a b) :
      OutcomeMove (.claim delivery jobId token draw) a b
  | succeeded {delivery : Nat} {result : ExtractionResult} {jitter : Fin 2000001} {draw : Draw}
      {a b : Document} (hfrom : a.status = .processing) (hto : b.status = .succeeded)
      (hattempts : b.attempts = a.attempts) (hcode : b.errorCode = none)
      (hmessage : b.errorMessage = "") (htext : b.extractedText = result.text)
      (hinfo : b.processingInfo = result.info) (hnow : b.processedAt = some draw.now) :
      OutcomeMove (.finish delivery (.success (some result)) jitter draw) a b
  | failed {delivery : Nat} {error : OCRFailure} {jitter : Fin 2000001} {draw : Draw}
      {a b : Document} (hfrom : a.status = .processing)
      (hto : b.status = .pending ∨ b.status = .failed) (hattempts : b.attempts = a.attempts)
      (hcode : b.errorCode = some error.code) (hmessage : b.errorMessage = messages error.code)
      (hresult : SameResult a b) :
      OutcomeMove (.finish delivery (.failure error) jitter draw) a b
  | lost {dispatcher : Nat} {token : Uuid} {jitter : Fin 2000001} {draw : Draw} {a b : Document}
      (hfrom : a.status = .processing) (hto : b.status = .pending ∨ b.status = .failed)
      (hattempts : b.attempts = a.attempts) (hcode : b.errorCode = some .workerLost)
      (hmessage : b.errorMessage = messages .workerLost) (hresult : SameResult a b) :
      OutcomeMove (.recoverNext dispatcher false token jitter draw) a b
  | reprocessed {request : Request} {jobId : Uuid} {draw : Draw} {a b : Document}
      (hfrom : a.status = .failed) (hto : b.status = .pending) (hattempts : b.attempts = 0)
      (hcode : b.errorCode = none) (hmessage : b.errorMessage = "") (hresult : SameResult a b) :
      OutcomeMove (.reprocess request jobId draw) a b

/-- No edge leaves a success. -/
theorem OutcomeMove.of_succeeded {e : Event} {a b : Document} (h : OutcomeMove e a b)
    (hs : a.status = .succeeded) : SameProcessing a b := by
  cases h with
  | kept hsame => exact hsame
  | started hfrom => exact absurd (hs.symm.trans hfrom) nofun
  | succeeded hfrom => exact absurd (hs.symm.trans hfrom) nofun
  | failed hfrom => exact absurd (hs.symm.trans hfrom) nofun
  | lost hfrom => exact absurd (hs.symm.trans hfrom) nofun
  | reprocessed hfrom => exact absurd (hs.symm.trans hfrom) nofun

/-- The state of a failed completion. -/
theorem settle_failure_documentStatus (now : Timestamp) (jitter : Fin 2000001)
    (failure : OCRFailure) (job : Job) :
    (settle now jitter (some failure) job).state.documentStatus = .pending ∨
      (settle now jitter (some failure) job).state.documentStatus = .failed := by
  simp only [settle]
  split
  · exact .inl rfl
  · exact .inr rfl

/-! ## One move -/

/-- **One move takes one edge**, when the document mirrors its current job. -/
theorem DocumentMove.outcome {env : Env} {w : World} {id : Uuid} {e : Event}
    {v v' : DocumentView} {current : Option Uuid} (hm : DocumentMove env w id e v v')
    (hl : Lockstep v current) {d d' : Document} (hd : v.row = some d) (hd' : v'.row = some d') :
    OutcomeMove e d d' := by
  cases hm with
  | same =>
      rw [hd] at hd'
      cases hd'
      exact .kept (.refl d)
  | orphaned hrow => exact absurd (hrow.symm.trans hd) nofun
  | created _ _ _ _ hrow => exact absurd (hrow.symm.trans hd) nofun
  | @edited request data draw row _ _ hrow =>
      rw [hd] at hrow
      cases hrow
      cases hd'
      obtain ⟨t, s, dt, tg, m, hedit⟩ := data.edit_frame draw.now d.toDocumentColumns
      rw [hedit]
      exact .kept ⟨⟨rfl, rfl, rfl⟩, rfl, rfl, rfl, rfl⟩
  | deleted => cases hd'
  | @reprocessed request jobId draw row _ _ _ hrow _ hfailed =>
      rw [hd] at hrow
      cases hrow
      cases hd'
      exact .reprocessed hfailed rfl rfl rfl rfl ⟨rfl, rfl, rfl⟩
  | @started delivery jobId token draw job row _ hrow hjob hpending =>
      rw [hd] at hrow
      cases hrow
      cases hd'
      have hmir := hl.mirrors hjob (by rw [hpending]; nofun) hd
      refine .started ?_ rfl ?_ rfl rfl ⟨rfl, rfl, rfl⟩
      · rw [hmir.status, hpending]
        rfl
      · exact congrArg (· + 1) hmir.attempts.symm
  | @finished delivery call jitter draw x job row _ hx hrow hjob _ hrunning hresult =>
      rw [hd] at hrow
      cases hrow
      cases hd'
      have hmir := hl.mirrors hjob (by rw [hrunning]; nofun) hd
      have hfrom : d.status = .processing := by
        rw [hmir.status, hrunning]
        rfl
      cases call with
      | success result =>
          -- A completion of a live document always brings its result.
          cases result with
          | none => exact absurd (hresult rfl) Bool.false_ne_true
          | some result => exact .succeeded hfrom rfl hmir.attempts.symm rfl rfl rfl rfl rfl
      | failure error =>
          exact .failed hfrom (settle_failure_documentStatus draw.now jitter error job)
            hmir.attempts.symm rfl rfl ⟨rfl, rfl, rfl⟩
  | @recovered dispatcher token jobId jitter draw job row _ hrow hjob hrunning =>
      rw [hd] at hrow
      cases hrow
      cases hd'
      have hmir := hl.mirrors hjob (by rw [hrunning]; nofun) hd
      refine .lost ?_ (settle_failure_documentStatus draw.now jitter workerLost
        (fence draw token job)) hmir.attempts.symm rfl rfl ⟨rfl, rfl, rfl⟩
      rw [hmir.status, hrunning]
      rfl

/-- One step of a run takes one edge. -/
theorem outcome_step {env : Env} {h : List Step} {x : Step} (hr : History env h x.pre)
    (hv : x.Valid (World.perform env)) {id : Uuid} {d d' : Document}
    (hd : x.pre.db.documents.find id = some d) (hd' : x.post.db.documents.find id = some d') :
    OutcomeMove x.event d d' := by
  obtain ⟨hw, hp⟩ := provenance_of_history hr
  exact ((World.perform_effect hv).documentMove hw hp id).outcome (lockstep_view hr id) hd hd'

/-! ## Whole runs -/

/-- **Processing follows its graph.** In every run every step takes every live document along one
edge: only a claim starts a pending document and counts an attempt, only a completion with a result
makes a processing document succeed and only it writes text, information and time, only a failing
completion or the recovery of an expired lease ends the processing without one, and only a reprocess
request brings a failed document back; a document that a step brings into being is pending, without
attempts, error, text, information and time. -/
theorem processing_follows_graph {env : Env} {h : List Step} {w : World} (hr : History env h w) :
    ∀ x ∈ h, ∀ id d', x.post.db.documents.find id = some d' →
      (∀ d, x.pre.db.documents.find id = some d → OutcomeMove x.event d d') ∧
      (x.pre.db.documents.find id = none → d'.status = .pending ∧ d'.attempts = 0 ∧
        d'.errorCode = none ∧ d'.errorMessage = "" ∧ d'.extractedText = [] ∧
        d'.processingInfo = .dict [] ∧ d'.processedAt = none) := by
  intro x hx id d' hd'
  obtain ⟨later, earlier, -, hr', hv, -⟩ := hr.cut hx
  refine ⟨fun d hd => outcome_step hr' hv hd hd', fun hnone => ?_⟩
  obtain ⟨hw, hp⟩ := provenance_of_history hr'
  have hm := (World.perform_effect hv).documentMove hw hp id
  have hrow : (x.pre.db.view id).row = none := hnone
  have hrow' : (x.post.db.view id).row = some d' := hd'
  generalize x.event = e, x.pre.db.view id = v, x.post.db.view id = v' at hm hrow hrow'
  cases hm with
  | created =>
      cases hrow'
      exact ⟨rfl, rfl, rfl, rfl, rfl, rfl, rfl⟩
  | same => exact absurd (hrow.symm.trans hrow') nofun
  | orphaned => exact absurd (hrow.symm.trans hrow') nofun
  | edited _ h => exact absurd (hrow.symm.trans h) nofun
  | reprocessed _ _ h => exact absurd (hrow.symm.trans h) nofun
  | deleted _ h => exact absurd (hrow.symm.trans h) nofun
  | started h => exact absurd (hrow.symm.trans h) nofun
  | finished _ h => exact absurd (hrow.symm.trans h) nofun
  | recovered h => exact absurd (hrow.symm.trans h) nofun

/-- The sample run takes its document through a processing to a success. -/
theorem processing_follows_graph_sample :
    (∃ x ∈ sampleHistory, (x.pre.db.documents.find 1).any (fun d => d.status = .processing) ∧
      (x.post.db.documents.find 1).any (fun d => d.status = .succeeded)) ∧
    ∀ x ∈ sampleHistory, ∀ d d', x.pre.db.documents.find 1 = some d →
      x.post.db.documents.find 1 = some d' → OutcomeMove x.event d d' :=
  ⟨by decide +kernel, fun x hx d d' hd hd' =>
    (processing_follows_graph sample_history x hx 1 d' hd').1 d hd⟩

/-- The document has been deleted, or it still has the outcome it had. -/
structure Frozen (w : World) (id : Uuid) (d : Document) : Prop where
  born : Born w id
  row : ∀ d', w.db.documents.find id = some d' → SameProcessing d d'

/-- One step keeps the outcome of a success. -/
theorem Frozen.step {env : Env} {h : List Step} {x : Step} {id : Uuid} {d : Document}
    (hr : History env h x.pre) (hv : x.Valid (World.perform env)) (hs : d.status = .succeeded)
    (hf : Frozen x.pre id d) : Frozen x.post id d where
  born := hf.born.step (World.perform_effect hv)
  row d' hd' := by
    cases hpre : x.pre.db.documents.find id with
    | none =>
        -- An identifier that was given up names no document again.
        have hnone := hf.born.document_none (World.perform_effect hv) hpre
        rw [hd'] at hnone
        cases hnone
    | some d₀ =>
        have hsame := hf.row d₀ hpre
        exact hsame.trans ((outcome_step hr hv hpre hd').of_succeeded (hsame.status.trans hs))

/-- A success stays frozen along every run. -/
theorem frozen_run {env : Env} {earlier later : List Step} {w v : World}
    (hr : History env earlier w) (hl : Run (World.perform env) w later v) {id : Uuid}
    {d : Document} (hd : w.db.documents.find id = some d) (hs : d.status = .succeeded) :
    Frozen v id d := by
  obtain ⟨hw, hp⟩ := provenance_of_history hr
  have hstart : Frozen w id d := ⟨hp.born hw hd, fun d' hd' => by
    rw [hd] at hd'
    cases hd'
    exact .refl d⟩
  exact hl.induct (fun _ v => Frozen v id d) hstart
    (fun _ _ hpre hv (_ : True) hf => hf.step (hr.trans hpre) hv hs) fun _ _ => trivial

/-- The audit actions of a document whose processing is over. -/
def AuditAction.afterSuccess : AuditAction → Bool
  | .metadataUpdated .. | .deleted => true
  | _ => false

/-- What a step records for a document whose outcome it keeps. -/
theorem DocumentMove.trail_after {env : Env} {w : World} {id : Uuid} {e : Event}
    {v v' : DocumentView} {current : Option Uuid} (hm : DocumentMove env w id e v v')
    (hl : Lockstep v current) {d : Document} (hd : v.row = some d) (hs : d.status = .succeeded) :
    v'.trail = v.trail ∨
      ∃ event, v'.trail = v.trail ++ [event] ∧ event.action.afterSuccess = true := by
  have hstop : ∀ {k : Uuid} {job : Job}, v.ocr k = some job →
      (job.state = .pending ∨ job.state = .running) → False := by
    intro k job hjob hstate
    have hlive : job.state ≠ .failed := by
      obtain hp | hr := hstate
      · rw [hp]; nofun
      · rw [hr]; nofun
    have hstatus := (hl.mirrors hjob hlive hd).status
    rw [hs] at hstatus
    obtain hp | hr := hstate
    · rw [hp] at hstatus; cases hstatus
    · rw [hr] at hstatus; cases hstatus
  cases hm with
  | same | orphaned => exact .inl rfl
  | created _ _ _ _ hrow => exact absurd (hrow.symm.trans hd) nofun
  | edited => exact .inr ⟨_, rfl, rfl⟩
  | deleted => exact .inr ⟨_, rfl, rfl⟩
  | reprocessed _ _ hrow _ hfailed =>
      rw [hd] at hrow
      cases hrow
      exact absurd (hs.symm.trans hfailed) nofun
  | started _ hjob hpending => exact (hstop hjob (.inl hpending)).elim
  | finished _ _ hjob _ hrunning => exact (hstop hjob (.inr hrunning)).elim
  | recovered _ hjob hrunning => exact (hstop hjob (.inr hrunning)).elim

/-- Nothing is recorded for a document that is gone and stays so. -/
theorem DocumentMove.trail_gone {env : Env} {w : World} {id : Uuid} {e : Event}
    {v v' : DocumentView} (hm : DocumentMove env w id e v v') (hrow : v.row = none)
    (hrow' : v'.row = none) : v'.trail = v.trail := by
  cases hm with
  | same | orphaned => rfl
  | created => cases hrow'
  | edited _ h => exact absurd (hrow.symm.trans h) nofun
  | reprocessed _ _ h => exact absurd (hrow.symm.trans h) nofun
  | deleted _ h => exact absurd (hrow.symm.trans h) nofun
  | started h => exact absurd (hrow.symm.trans h) nofun
  | finished _ h => exact absurd (hrow.symm.trans h) nofun
  | recovered h => exact absurd (hrow.symm.trans h) nofun

/-- **Success is final.** Once a document has succeeded, then in every later state, whatever workers,
late completions, recoveries and requests do, the document has been deleted or it shows the same
text, processing information, time of processing, status, attempts and error columns; and no step
records anything for it but metadata edits and its deletion. -/
theorem success_is_final {env : Env} {earlier later : List Step} {w v : World}
    (hr : History env earlier w) (hl : Run (World.perform env) w later v) {id : Uuid}
    {d : Document} (hd : w.db.documents.find id = some d) (hs : d.status = .succeeded) :
    (∀ d', v.db.documents.find id = some d' → SameProcessing d d') ∧
    ∀ x ∈ later, (x.post.db.view id).trail = (x.pre.db.view id).trail ∨
      ∃ event, (x.post.db.view id).trail = (x.pre.db.view id).trail ++ [event] ∧
        event.action.afterSuccess = true := by
  refine ⟨(frozen_run hr hl hd hs).row, fun x hx => ?_⟩
  obtain ⟨_, _, -, hpre, hv, -⟩ := hl.cut hx
  have hr' := hr.trans hpre
  obtain ⟨hw, hp⟩ := provenance_of_history hr'
  have hfrozen := frozen_run hr hpre hd hs
  have heffect := World.perform_effect hv
  have hm := heffect.documentMove hw hp id
  cases hrow : x.pre.db.documents.find id with
  | none => exact .inl (hm.trail_gone hrow (hfrozen.born.document_none heffect hrow))
  | some d₀ =>
      exact hm.trail_after (lockstep_view hr' id) hrow ((hfrozen.row d₀ hrow).status.trans hs)

/-- The sample document keeps its outcome when its description is edited afterwards. -/
theorem success_is_final_sample :
    ∃ d d', sampleWorld.db.documents.find 1 = some d ∧ d.status = .succeeded ∧
      sampleEditWorld.db.documents.find 1 = some d' ∧ d'.revision = 2 ∧ SameProcessing d d' := by
  obtain ⟨d, hd, hs⟩ := (Option.any_eq_true ..).mp
    (show (sampleWorld.db.documents.find 1).any (fun d => d.status = .succeeded) = true by
      decide +kernel)
  obtain ⟨d', hd', hr⟩ := (Option.any_eq_true ..).mp
    (show (sampleEditWorld.db.documents.find 1).any (fun d => d.revision = 2) = true by
      decide +kernel)
  have hs := of_decide_eq_true hs
  exact ⟨d, d', hd, hs, hd', of_decide_eq_true hr,
    (success_is_final sample_history sampleEdit_run hd hs).1 d' hd'⟩

end MiniDms
