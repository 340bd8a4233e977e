import MiniDms.Workflow.DocumentLifecycle

/-! # Documents and their OCR jobs move in lockstep

Two tables are moved by eight operations. The current OCR job of a document is the one inserted
last; the document mirrors it, and every older OCR job has failed. The second half is what makes
the first inductive: a worker that starts or completes an OCR job can only have the current one. -/

namespace MiniDms

open Python Relational TransitionSystem

/-! ## The current OCR job -/

/-- The OCR job of a document that a step inserted. -/
def insertedOcrJob (id : Uuid) (x : Step) : Option Uuid :=
  (x.post.db.jobs.rows.find? fun j => isOcrOf id j && (x.pre.db.jobs.find j.id).isNone).map Job.id

/-- The current OCR job of a document: the one inserted last. -/
def currentOcrJob (id : Uuid) : List Step → Option Uuid
  | [] => none
  | x :: h => (insertedOcrJob id x).or (currentOcrJob id h)

/-- A step that shows no new OCR job inserted none. -/
theorem insertedOcrJob_eq_none {id : Uuid} {x : Step}
    (h : ∀ k, (x.pre.db.view id).ocr k = none → (x.post.db.view id).ocr k = none) :
    insertedOcrJob id x = none := by
  rw [insertedOcrJob, Option.map_eq_none_iff, List.find?_eq_none]
  intro j hj hp
  rw [Bool.and_eq_true, Option.isNone_iff_eq_none] at hp
  have hpost := Db.view_ocr_of_find (Table.find_of_mem hj) hp.1
  rw [h j.id (Db.view_ocr_of_none hp.2)] at hpost
  cases hpost

/-- A step that shows one new OCR job inserted that one. -/
theorem insertedOcrJob_eq_some {id k : Uuid} {job : Job} {x : Step}
    (hnew : x.pre.db.jobs.find k = none) (hjob : (x.post.db.view id).ocr k = some job)
    (hold : ∀ k', k' ≠ k → (x.post.db.view id).ocr k' = (x.pre.db.view id).ocr k') :
    insertedOcrJob id x = some k := by
  obtain ⟨j, hj, hocr, -⟩ := Db.view_ocr_eq_some_iff.mp hjob
  have hkey : j.id = k := Db.job_id hj
  rw [insertedOcrJob]
  cases hf : x.post.db.jobs.rows.find?
      (fun j => isOcrOf id j && (x.pre.db.jobs.find j.id).isNone) with
  | none =>
      have hp := List.find?_eq_none.mp hf j (Table.find_eq_some_iff.mp hj).1
      rw [hocr, hkey, hnew] at hp
      exact absurd rfl hp
  | some j' =>
      have hp := List.find?_some hf
      rw [Bool.and_eq_true, Option.isNone_iff_eq_none] at hp
      have hpost := Db.view_ocr_of_find (Table.find_of_mem (List.mem_of_find?_eq_some hf)) hp.1
      rw [Option.map_some]
      -- Any other new row would have been in the view before.
      by_contra hne
      rw [hold j'.id fun h => hne (congrArg some h), Db.view_ocr_of_none hp.2] at hpost
      cases hpost

/-! ## The mirror -/

/-- A document shows the state of its current OCR job, and carries results exactly when that job has
succeeded. -/
structure Mirrors (row : Document) (job : Job) : Prop where
  status : row.status = job.state.documentStatus
  attempts : row.attempts = job.attempts
  processedAt : row.processedAt ≠ none ↔ row.status = .succeeded
  extractedText : row.extractedText ≠ [] → row.status = .succeeded
  processingInfo : row.processingInfo ≠ .dict [] → row.status = .succeeded
  errorCode_none : row.status = .processing ∨ row.status = .succeeded → row.errorCode = none
  errorCode_some : row.status = .failed → row.errorCode ≠ none
  errorMessage : row.errorMessage = messageFor row.errorCode

namespace Mirrors

variable {row : Document} {job : Job}

/-- A document that has not succeeded carries no result. -/
theorem processedAt_none (h : Mirrors row job) (hs : row.status ≠ .succeeded) :
    row.processedAt = none :=
  not_not.mp fun hp => hs (h.processedAt.mp hp)

/-- A document that has not succeeded has no text. -/
theorem extractedText_nil (h : Mirrors row job) (hs : row.status ≠ .succeeded) :
    row.extractedText = [] :=
  not_not.mp fun ht => hs (h.extractedText ht)

/-- A document that has not succeeded has no processing information. -/
theorem processingInfo_empty (h : Mirrors row job) (hs : row.status ≠ .succeeded) :
    row.processingInfo = .dict [] :=
  not_not.mp fun hi => hs (h.processingInfo hi)

/-- A new document mirrors its first job. -/
theorem created (env : Env) (u : Upload) (ids : UploadIds) (actual : StorageKey) (now : Timestamp)
    (jobId requestId : Uuid) :
    Mirrors (.indexed env (u.document ids actual now) [])
      (ocrJob jobId ids.documentId requestId now) where
  status := rfl
  attempts := rfl
  processedAt := by simp [Document.indexed, Upload.document]
  extractedText := by simp
  processingInfo := by simp [Document.indexed, Upload.document]
  errorCode_none := by simp [Document.indexed, Upload.document]
  errorCode_some := by simp [Document.indexed, Upload.document]
  errorMessage := rfl

/-- A metadata edit keeps the mirror. -/
theorem edited (h : Mirrors row job) (env : Env) (data : Patch) (now : Timestamp) :
    Mirrors (.indexed env (data.edit now row.toDocumentColumns) row.extractedText) job := by
  obtain ⟨t, d, dt, tg, m, hedit⟩ := data.edit_frame now row.toDocumentColumns
  rw [hedit]
  exact ⟨h.status, h.attempts, h.processedAt, h.extractedText, h.processingInfo, h.errorCode_none,
    h.errorCode_some, h.errorMessage⟩

/-- A reprocessed document mirrors its new job. -/
theorem reprocessed (h : Mirrors row job) (hfailed : row.status = .failed) (env : Env)
    (now : Timestamp) (jobId documentId requestId : Uuid) :
    Mirrors (.indexed env (row.reprocessed now) row.extractedText)
      (ocrJob jobId documentId requestId now) := by
  have hs : row.status ≠ .succeeded := by rw [hfailed]; decide
  refine ⟨rfl, rfl, ?_, ?_, ?_, ?_, ?_, rfl⟩
  · show row.processedAt ≠ none ↔ Status.pending = .succeeded
    simp [h.processedAt_none hs]
  · exact fun ht => absurd (h.extractedText_nil hs) ht
  · exact fun hi => absurd (h.processingInfo_empty hs) hi
  · exact fun _ => rfl
  · show Status.pending = .failed → _
    simp

/-- A document whose job is taken starts processing. -/
theorem started (h : Mirrors row job) (hpending : job.state = .pending) (env : Env) (draw : Draw)
    (token : Uuid) :
    Mirrors (row.move env draw.now .processing (take draw token job) none none)
      (take draw token job) := by
  have hs : row.status ≠ .succeeded := by rw [h.status, hpending]; decide
  refine ⟨rfl, rfl, ?_, ?_, ?_, ?_, ?_, rfl⟩
  · show row.processedAt ≠ none ↔ Status.processing = .succeeded
    simp [h.processedAt_none hs]
  · exact fun ht => absurd (h.extractedText_nil hs) ht
  · exact fun hi => absurd (h.processingInfo_empty hs) hi
  · exact fun _ => rfl
  · show Status.processing = .failed → _
    simp

/-- A document whose job fails goes back to pending or fails. -/
theorem failed (h : Mirrors row job) (hrunning : job.state = .running) (env : Env) (draw : Draw)
    (jitter : Fin 2000001) (failure : OCRFailure) :
    Mirrors (row.move env draw.now
        (settle draw.now jitter (some failure) job).state.documentStatus
        (settle draw.now jitter (some failure) job)
        (settle draw.now jitter (some failure) job).errorCode none)
      (settle draw.now jitter (some failure) job) := by
  have hs : row.status ≠ .succeeded := by rw [h.status, hrunning]; decide
  have hstate : (settle draw.now jitter (some failure) job).state = .pending ∨
      (settle draw.now jitter (some failure) job).state = .failed := by
    simp only [settle]
    split
    · exact .inl rfl
    · exact .inr rfl
  have hne : (settle draw.now jitter (some failure) job).state.documentStatus ≠ .succeeded ∧
      (settle draw.now jitter (some failure) job).state.documentStatus ≠ .processing := by
    obtain hp | hf := hstate
    · rw [hp]; decide
    · rw [hf]; decide
  refine ⟨rfl, rfl, ?_, ?_, ?_, ?_, ?_, rfl⟩
  · exact iff_of_false (not_not.mpr (h.processedAt_none hs)) hne.1
  · exact fun ht => absurd (h.extractedText_nil hs) ht
  · exact fun hi => absurd (h.processingInfo_empty hs) hi
  · exact fun hc => (hc.elim hne.2 hne.1).elim
  · exact fun _ => Option.some_ne_none failure.code

/-- A document whose job succeeds carries the result. -/
theorem succeeded (env : Env) (draw : Draw) (jitter : Fin 2000001) (row : Document) (job : Job)
    (result : ExtractionResult) :
    Mirrors (row.move env draw.now (settle draw.now jitter none job).state.documentStatus
        (settle draw.now jitter none job) (settle draw.now jitter none job).errorCode (some result))
      (settle draw.now jitter none job) := by
  refine ⟨rfl, rfl, ?_, fun _ => rfl, fun _ => rfl, fun _ => rfl, ?_, rfl⟩
  · exact iff_of_true (Option.some_ne_none _) rfl
  · show Status.succeeded = .failed → _
    simp

end Mirrors

/-! ## The invariant -/

/-- The document mirrors its current OCR job, and every other OCR job has failed. -/
structure Lockstep (v : DocumentView) (current : Option Uuid) : Prop where
  others : ∀ k j, v.ocr k = some j → current ≠ some k → j.state = .failed
  mirror : ∀ row, v.row = some row → ∃ k job, current = some k ∧ v.ocr k = some job ∧
    Mirrors row job

namespace Lockstep

variable {v : DocumentView} {current : Option Uuid}

/-- An OCR job that has not failed is the current one. -/
theorem eq_current (h : Lockstep v current) {k : Uuid} {job : Job} (hjob : v.ocr k = some job)
    (hlive : job.state ≠ .failed) : current = some k :=
  not_not.mp fun hne => hlive (h.others k job hjob hne)

/-- The document of a live OCR job mirrors it. -/
theorem mirrors (h : Lockstep v current) {k : Uuid} {job : Job} {row : Document}
    (hjob : v.ocr k = some job) (hlive : job.state ≠ .failed) (hrow : v.row = some row) :
    Mirrors row job := by
  obtain ⟨k', job', hk', hjob', hm⟩ := h.mirror row hrow
  rw [h.eq_current hjob hlive] at hk'
  cases hk'
  rw [hjob] at hjob'
  cases hjob'
  exact hm

/-- A row rewritten in place keeps lockstep when it still mirrors the current job. -/
theorem write (h : Lockstep v current) {row row' : Document} {trail : List AuditEvent}
    (hrow : v.row = some row) (hm : ∀ job, Mirrors row job → Mirrors row' job) :
    Lockstep ⟨some row', trail, v.ocr⟩ current where
  others := h.others
  mirror r hr := by
    cases hr
    obtain ⟨k, job, hk, hjob, hmir⟩ := h.mirror row hrow
    exact ⟨k, job, hk, hjob, hm job hmir⟩

/-- The current job and its document rewritten together keep lockstep. -/
theorem advance (h : Lockstep v current) {k : Uuid} {job' : Job} {row' : Document}
    {trail : List AuditEvent} (hk : current = some k) (hm : Mirrors row' job') :
    Lockstep ⟨some row', trail, Function.update v.ocr k (some job')⟩ current where
  others k' j hj hne := by
    have hk' : k' ≠ k := fun hq => hne (hq ▸ hk)
    have hj' : v.ocr k' = some j := (Function.update_of_ne hk' _ _).symm.trans hj
    exact h.others k' j hj' hne
  mirror r hr := by
    cases hr
    exact ⟨k, job', hk, Function.update_self .., hm⟩

/-- A new job over failed ones is the current one. -/
theorem insert {k : Uuid} {job : Job} {row : Document} {trail : List AuditEvent}
    (hfailed : ∀ k' j, v.ocr k' = some j → j.state = .failed) (hm : Mirrors row job) :
    Lockstep ⟨some row, trail, Function.update v.ocr k (some job)⟩ (some k) where
  others k' j hj hne := by
    have hk' : k' ≠ k := fun hq => hne (congrArg some hq.symm)
    exact hfailed k' j ((Function.update_of_ne hk' _ _).symm.trans hj)
  mirror r hr := by
    cases hr
    exact ⟨k, job, rfl, Function.update_self .., hm⟩

end Lockstep

/-- A settled job of a live document keeps lockstep. -/
theorem Lockstep.settled {env : Env} {v : DocumentView} {current : Option Uuid}
    (h : Lockstep v current) {k : Uuid} {job : Job} {row : Document} {draw : Draw}
    {jitter : Fin 2000001} {failure : Option OCRFailure} {result : Option ExtractionResult}
    (hrow : v.row = some row) (hjob : v.ocr k = some job) (hrunning : job.state = .running)
    (hresult : failure = none → result.isSome = true) (hfailure : failure ≠ none → result = none)
    {started : Job} (hid : started.id = k) (hstate : started.state = job.state)
    (hattempts : started.attempts = job.attempts) :
    Lockstep (v.settle env draw row (settle draw.now jitter failure started) result) current := by
  have hlive : job.state ≠ .failed := by rw [hrunning]; decide
  have hm := h.mirrors hjob hlive hrow
  have hm' : Mirrors row started :=
    ⟨by rw [hstate]; exact hm.status, by rw [hattempts]; exact hm.attempts, hm.processedAt,
      hm.extractedText, hm.processingInfo, hm.errorCode_none, hm.errorCode_some, hm.errorMessage⟩
  have hk : current = some (settle draw.now jitter failure started).id := by
    rw [settle_id, hid]
    exact h.eq_current hjob hlive
  refine h.advance hk ?_
  cases failure with
  | none =>
      obtain ⟨r, rfl⟩ := Option.isSome_iff_exists.mp (hresult rfl)
      exact .succeeded env draw jitter row started r
  | some failure =>
      rw [hfailure (Option.some_ne_none failure)]
      exact hm'.failed (hstate.trans hrunning) env draw jitter failure

/-- **One move keeps lockstep**, with the same current job or with the one it inserts. -/
theorem DocumentMove.lockstep {env : Env} {w : World} {id : Uuid} {e : Event}
    {v v' : DocumentView} {current : Option Uuid} (hm : DocumentMove env w id e v v')
    (h : Lockstep v current) (hkey : ∀ k job, v.ocr k = some job → job.id = k) :
    ((∀ k, v.ocr k = none → v'.ocr k = none) ∧ Lockstep v' current) ∨
    ∃ k job, k ∉ w.drawn ∧ job.state = .pending ∧ v'.ocr = Function.update v.ocr k (some job) ∧
      Lockstep v' (some k) := by
  -- Writing over a job that is there shows no new job.
  have hover : ∀ {k : Uuid} {job job' : Job}, v.ocr k = some job →
      ∀ k', v.ocr k' = none → Function.update v.ocr k (some job') k' = none := by
    intro k job job' hjob k' hk'
    have hne : k' ≠ k := by
      rintro rfl
      rw [hjob] at hk'
      cases hk'
    rw [Function.update_of_ne hne, hk']
  cases hm with
  | same => exact .inl ⟨fun _ hk => hk, h⟩
  | @orphaned _ _ k job job' hrow hjob hlive =>
      refine .inl ⟨hover hjob, fun k' j hj hne => ?_, fun r hr => ?_⟩
      · have hk' : k' ≠ k := fun hq => hne (hq ▸ h.eq_current hjob hlive)
        exact h.others k' j ((Function.update_of_ne hk' _ _).symm.trans hj) hne
      · have hnone : v.row = some r := hr
        rw [hrow] at hnone
        cases hnone
  | @created call u ids actual draw jobId fault ack _ hu hpc hid hjob hrow htrail hocr =>
      refine .inr ⟨jobId, _, hjob, rfl, rfl, ?_⟩
      refine Lockstep.insert (fun k j hj => ?_) (hid ▸ .created env u ids actual draw.now jobId _)
      have hnone : v.ocr k = some j := hj
      rw [hocr k] at hnone
      cases hnone
  | @edited request data draw row _ hpk hrow =>
      exact .inl ⟨fun _ hk => hk, h.write hrow fun _ hmir => hmir.edited env data draw.now⟩
  | @reprocessed request jobId draw row _ hpk hjob hrow hmatch hfailed =>
      refine .inr ⟨jobId, _, hjob, rfl, rfl, ?_⟩
      obtain ⟨k, job, hk, hkjob, hmir⟩ := h.mirror row hrow
      have hjobFailed : job.state = .failed := by
        have hstatus := hmir.status
        rw [hfailed] at hstatus
        cases hs : job.state <;> rw [hs] at hstatus <;> first | rfl | cases hstatus
      refine Lockstep.insert (fun k' j hj => ?_)
        (hmir.reprocessed hfailed env draw.now jobId id request.requestId)
      have hold : v.ocr k' = some j := hj
      by_cases hq : k' = k
      · rw [hq, hkjob] at hold
        cases hold
        exact hjobFailed
      · exact h.others k' j hold fun hc => hq (Option.some.inj (hc.symm.trans hk))
  | deleted =>
      exact .inl ⟨fun _ hk => hk, h.others, fun r hr => by cases hr⟩
  | @started delivery jobId token draw job row _ hrow hjob hpending =>
      have hlive : job.state ≠ .failed := by rw [hpending]; decide
      refine .inl ⟨hover hjob, h.advance (h.eq_current hjob hlive) ?_⟩
      exact (h.mirrors hjob hlive hrow).started hpending env draw token
  | @finished delivery call jitter draw d job row _ hd hrow hjob htoken hrunning hresult =>
      have hid : job.id = d.job.id := hkey _ _ hjob
      refine .inl ⟨?_, h.settled hrow hjob hrunning hresult (fun hf => ?_) hid rfl rfl⟩
      · show ∀ k, v.ocr k = none →
          Function.update v.ocr (settle draw.now jitter call.failed job).id _ k = none
        rw [settle_id, hid]
        exact hover hjob
      · cases call with
        | success r => exact absurd rfl hf
        | failure f => rfl
  | @recovered dispatcher token jobId jitter draw job row _ hrow hjob hrunning =>
      have hid : job.id = jobId := hkey _ _ hjob
      have hfence : (fence draw token job).id = jobId := hid
      refine .inl ⟨?_, h.settled hrow hjob hrunning (fun hf => by cases hf) (fun _ => rfl) hfence
        rfl rfl⟩
      show ∀ k, v.ocr k = none → Function.update v.ocr
        (settle draw.now jitter (some workerLost) (fence draw token job)).id _ k = none
      rw [settle_id]
      exact hid ▸ hover hjob

/-- A job in a view is found under its identifier. -/
theorem Db.view_ocr_key {db : Db} {id k : Uuid} {job : Job} (h : (db.view id).ocr k = some job) :
    job.id = k := by
  obtain ⟨j, hj, -, rfl⟩ := Db.view_ocr_eq_some_iff.mp h
  show j.id = k
  exact Db.job_id hj

/-- Where there is no document there is nothing to mirror. -/
theorem lockstep_init (id : Uuid) : Lockstep (World.init.db.view id) none where
  others _ _ hj := nomatch hj
  mirror _ hrow := nomatch hrow

/-- **In every reachable state** every document is in lockstep with the OCR job inserted last. -/
theorem lockstep_view {env : Env} {h : List Step} {w : World} (hr : History env h w) (id : Uuid) :
    Lockstep (w.db.view id) (currentOcrJob id h) := by
  refine hr.induct (fun h w => (Known w ∧ Provenance w) ∧
    Lockstep (w.db.view id) (currentOcrJob id h))
    ⟨⟨known_init, provenance_init⟩, lockstep_init id⟩
    (fun h x _ hv (_ : True) ⟨⟨hw, hp⟩, hl⟩ => ?_) (fun _ _ => trivial) |>.2
  have he := World.perform_effect hv
  refine ⟨⟨hw.step he, hp.step hw he⟩, ?_⟩
  obtain ⟨hsame, hl'⟩ | ⟨k, job, hfresh, -, hocr, hl'⟩ :=
    (he.documentMove hw hp id).lockstep hl fun _ _ => Db.view_ocr_key
  · rw [currentOcrJob, insertedOcrJob_eq_none hsame, Option.none_or]
    exact hl'
  · have hins : insertedOcrJob id x = some k := by
      have hshown : (x.post.db.view id).ocr k = some job := by rw [hocr, Function.update_self]
      refine insertedOcrJob_eq_some (hw.db.job_of_fresh hfresh) hshown fun k' hk' => ?_
      rw [hocr, Function.update_of_ne hk']
    rw [currentOcrJob, hins, Option.some_or]
    exact hl'

/-- Two document statuses agree exactly when the job states do. -/
theorem JobState.documentStatus_inj {a b : JobState} :
    a.documentStatus = b.documentStatus ↔ a = b := by
  cases a <;> cases b <;> simp [documentStatus]

/-- What the current OCR job of a document is, and how the document shows it. -/
structure IsCurrent (h : List Step) (w : World) (d : Document) (job : Job) : Prop where
  row : job ∈ w.db.jobs.rows
  kind : job.kind = .ocr
  document : job.documentId = d.id
  /-- It was inserted last. -/
  last : currentOcrJob d.id h = some job.id
  pending : d.status = .pending ↔ job.state = .pending
  processing : d.status = .processing ↔ job.state = .running
  succeeded : d.status = .succeeded ↔ job.state = .succeeded
  failed : d.status = .failed ↔ job.state = .failed
  attempts : d.attempts = job.attempts
  /-- Every other OCR job of the document has failed. -/
  others : ∀ other ∈ w.db.jobs.rows, other.kind = .ocr → other.documentId = d.id →
    other.id ≠ job.id → other.state = .failed

/-- **Documents and OCR jobs move in lockstep.** In every reachable state every live document has
exactly one current OCR job, which it mirrors; its result columns and its error columns follow its
status; and of all OCR jobs of one document, live or deleted, at most one is pending or running. -/
theorem document_job_lockstep {env : Env} {h : List Step} {w : World} (hr : History env h w) :
    (∀ d ∈ w.db.documents.rows,
      (∃! job, IsCurrent h w d job) ∧
      (d.processedAt ≠ none ↔ d.status = .succeeded) ∧
      (d.extractedText ≠ [] → d.status = .succeeded) ∧
      (d.processingInfo ≠ .dict [] → d.status = .succeeded) ∧
      (d.status = .processing ∨ d.status = .succeeded → d.errorCode = none) ∧
      (d.status = .failed → d.errorCode ≠ none) ∧
      d.errorMessage = d.errorCode.elim "" messages) ∧
    ∀ a ∈ w.db.jobs.rows, ∀ b ∈ w.db.jobs.rows, a.kind = .ocr → b.kind = .ocr →
      a.documentId = b.documentId → (a.state = .pending ∨ a.state = .running) →
      (b.state = .pending ∨ b.state = .running) → a = b := by
  have hocr : ∀ {id : Uuid} {j : Job}, j.kind = .ocr → j.documentId = id → isOcrOf id j = true := by
    intro id j hkind hdoc
    simp [isOcrOf, hkind, hdoc]
  constructor
  · intro d hd
    have hl := lockstep_view hr d.id
    obtain ⟨k, job, hk, hjob, hm⟩ := hl.mirror d (Table.find_of_mem hd)
    obtain ⟨j, hj, hj', rfl⟩ := Db.view_ocr_eq_some_iff.mp hjob
    obtain ⟨hkind, hdoc⟩ : j.kind = .ocr ∧ j.documentId = d.id := by simpa [isOcrOf] using hj'
    have hid : j.id = k := Db.job_id hj
    have hstatus : ∀ s : JobState, d.status = s.documentStatus ↔ j.state = s := fun s => by
      rw [hm.status]
      exact JobState.documentStatus_inj
    refine ⟨⟨j, ?_, ?_⟩, hm.processedAt, hm.extractedText, hm.processingInfo, hm.errorCode_none,
      hm.errorCode_some, hm.errorMessage⟩
    · refine ⟨(Table.find_eq_some_iff.mp hj).1, hkind, hdoc, hid ▸ hk, hstatus .pending,
        hstatus .running, hstatus .succeeded, hstatus .failed, hm.attempts, ?_⟩
      intro other hother hokind hodoc hne
      refine hl.others other.id other.unstamped
        (Db.view_ocr_of_find (Table.find_of_mem hother) (hocr hokind hodoc)) fun hc => hne ?_
      rw [hk] at hc
      exact (Option.some.inj hc).symm.trans hid.symm
    · intro j₂ h₂
      have hq := h₂.last
      rw [hk] at hq
      exact Table.eq_of_key_eq h₂.row (Table.find_eq_some_iff.mp hj).1
        ((Option.some.inj hq).symm.trans hid.symm)
  · intro a ha b hb hakind hbkind hdoc hastate hbstate
    have hl := lockstep_view hr a.documentId
    -- A live OCR job is the current one, and there is only one current job.
    have hcurrent : ∀ j ∈ w.db.jobs.rows, j.kind = .ocr → j.documentId = a.documentId →
        (j.state = .pending ∨ j.state = .running) →
        currentOcrJob a.documentId h = some j.id := by
      intro j hj hkind hjdoc hstate
      refine hl.eq_current
        (Db.view_ocr_of_find (Table.find_of_mem hj) (hocr hkind hjdoc)) fun hf => ?_
      have hfailed : j.state = .failed := hf
      rw [hfailed] at hstate
      obtain hs | hs := hstate <;> cases hs
    have hqa := hcurrent a ha hakind rfl hastate
    rw [hcurrent b hb hbkind hdoc.symm hbstate] at hqa
    exact Table.eq_of_key_eq ha hb (Option.some.inj hqa).symm

/-- In the sample run the document has succeeded with the text of its only OCR job. -/
theorem document_job_lockstep_sample :
    (∃ d ∈ sampleWorld.db.documents.rows, d.status = .succeeded) ∧
    ∀ d ∈ sampleWorld.db.documents.rows, ∃! job, IsCurrent sampleHistory sampleWorld d job :=
  ⟨by decide +kernel, fun d hd => ((document_job_lockstep sample_history).1 d hd).1⟩

end MiniDms
