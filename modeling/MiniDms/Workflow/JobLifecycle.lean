import MiniDms.Workflow.Identity

/-! # The life of one job

`Effect` says what an event does to the whole system. Seen from one job row it is one of nine moves:
the row appears, is taken, discarded, settled, recovered, stamped, rearmed, rewritten by the upload
that owns it as its intent, or stays. The bounds on attempts, the fencing of workers and the
properties of the dispatcher follow from this list alone. -/

namespace MiniDms

open Python Relational TransitionSystem

/-- A job as the program creates it. -/
structure NewJob (job : Job) : Prop where
  state : job.state = .pending
  attempts : job.attempts = 0
  maxAttempts : 0 < job.maxAttempts
  dispatchedAt : job.dispatchedAt = none
  leaseUntil : job.leaseUntil = none
  runToken : job.runToken = none

/-- The cleanup job of a deletion is new. -/
theorem newJob_cleanupJob (jobId : Uuid) (document : DocumentColumns) (requestId : Uuid)
    (now : Timestamp) : NewJob (cleanupJob jobId document requestId now) :=
  ⟨rfl, rfl, by simp [cleanupJob], rfl, rfl, rfl⟩

/-- The OCR job of a document is new. -/
theorem newJob_ocrJob (jobId documentId requestId : Uuid) (now : Timestamp) :
    NewJob (ocrJob jobId documentId requestId now) :=
  ⟨rfl, rfl, by simp [ocrJob], rfl, rfl, rfl⟩

/-- The intent of an upload is new. -/
theorem Upload.newJob_intent (u : Upload) (ids : UploadIds) (now : Timestamp) :
    NewJob (u.intent ids now) :=
  ⟨rfl, rfl, by simp [intent], rfl, rfl, rfl⟩

/-- What a call of `create_document` writes into its own intent. -/
inductive IntentWrite : (Job → Job) → Prop
  | rename (actual : StorageKey) (now : Timestamp) :
      IntentWrite fun j => { j with storageKey := some actual, updatedAt := now }
  | replay (now : Timestamp) : IntentWrite fun j => { j with availableAt := now, updatedAt := now }
  | expedite (now : Timestamp) : IntentWrite fun j => { j with availableAt := now }
  | complete (now : Timestamp) :
      IntentWrite fun j => { j with state := .succeeded, updatedAt := now }

/-- The moves of the job row `id` under one event: the row before it and the row after it. -/
inductive JobMove (w : World) (id : Uuid) : Event → Option Job → Option Job → Prop
  | same {e : Event} {row : Option Job} : JobMove w id e row row
  | created {e : Event} {job : Job} (hfresh : id ∉ w.drawn) (hnew : NewJob job) :
      JobMove w id e none (some job)
  | taken {delivery : Nat} {token : Uuid} {draw : Draw} {job : Job}
      (hf : w.Fresh [token, draw.eventId]) (hfree : w.deliveries delivery = none)
      (hc : Claimable draw.now job) :
      JobMove w id (.claim delivery id token draw) (some job) (some (take draw token job))
  | discarded {delivery : Nat} {token : Uuid} {draw : Draw} {job : Job}
      (hf : w.Fresh [token, draw.eventId]) (hc : Claimable draw.now job) (hkind : job.kind = .ocr) :
      JobMove w id (.claim delivery id token draw) (some job)
        (some (discard (take draw token job)))
  | settled {delivery : Nat} {call : FinishCall} {jitter : Fin 2000001} {draw : Draw} {d : Delivery}
      {job : Job} (hd : w.deliveries delivery = some d) (hid : d.job.id = id)
      (htoken : job.runToken = d.job.runToken) (hrunning : job.state = .running)
      (hpermit : d.permits call = true) :
      JobMove w id (.finish delivery call jitter draw) (some job)
        (some (settle draw.now jitter call.failed job))
  | recovered {dispatcher limit : Nat} {token : Uuid} {jitter : Fin 2000001} {draw : Draw}
      {todo : List Uuid} {job : Job} (hf : w.Fresh [token, draw.eventId])
      (hd : w.dispatchers dispatcher = .recovering limit (id :: todo))
      (hexp : expired draw.now job = true) :
      JobMove w id (.recoverNext dispatcher false token jitter draw) (some job)
        (some (settle draw.now jitter (some workerLost) (fence draw token job)))
  | stamped {dispatcher : Nat} {now : Timestamp} {locked : List Uuid} {job : Job}
      (hdue : due now job = true) :
      JobMove w id (.dispatchSelect dispatcher now locked) (some job)
        (some { job with dispatchedAt := some now })
  | rearmed {now : Timestamp} {job : Job} (hkind : job.kind = .deleteObject)
      (hfailed : job.state = .failed) :
      JobMove w id (.retryCleanup id now) (some job) (some (rearm now job))
  | rewritten {call : Nat} {move : UploadMove} {u : Upload} {ids : UploadIds} {f : Job → Job}
      {job : Job} (hu : w.uploads call = some u) (hids : u.pc.ids = some ids)
      (hid : ids.intentId = id) (hf : IntentWrite f) :
      JobMove w id (.upload call move) (some job) (some (f job))

/-! ## Every effect moves every job -/

/-- Rewriting the intent of a running call is a move of its row. -/
theorem JobMove.of_updateJob {w : World} {call : Nat} {move : UploadMove} {u : Upload}
    {ids : UploadIds} {f : Job → Job} (hu : w.uploads call = some u) (hids : u.pc.ids = some ids)
    (hf : IntentWrite f) (id : Uuid) :
    JobMove w id (.upload call move) (w.db.jobs.find id)
      ((w.db.updateJob ids.intentId f).jobs.find id) := by
  rw [Db.find_updateJob]
  by_cases hid : id = ids.intentId
  · rw [if_pos hid]
    cases w.db.jobs.find id with
    | none => exact .same
    | some job =>
        -- None of the four writes touches the primary key, so restoring it changes nothing.
        have hkeep : { f job with id := job.id } = f job := by cases hf <;> rfl
        rw [Option.map_some, hkeep]
        exact .rewritten hu hids hid.symm hf
  · rw [if_neg hid]
    exact .same

/-- Putting a new row under a fresh identifier is a move. -/
theorem JobMove.of_putJob {w : World} {e : Event} {job : Job} (hw : Known w)
    (hfresh : job.id ∉ w.drawn) (hnew : NewJob job) (id : Uuid) :
    JobMove w id e (w.db.jobs.find id) ((w.db.putJob job).jobs.find id) := by
  rw [Db.putJob_jobs, Table.find_put]
  by_cases hid : id = job.id
  · rw [if_pos hid, hid, hw.db.job_of_fresh hfresh]
    exact .created hfresh hnew
  · rw [if_neg hid]
    exact .same

/-- Writing back a row moves that row and no other. -/
theorem JobMove.of_put {w : World} {e : Event} {jobId : Uuid} {job job' : Job}
    (hjob : w.db.jobs.find jobId = some job) (hm : JobMove w jobId e (some job) (some job'))
    (hid' : job'.id = job.id) (id : Uuid) :
    JobMove w id e (w.db.jobs.find id) (if id = job'.id then some job' else w.db.jobs.find id) := by
  have hkey : job'.id = jobId := hid'.trans (Table.key_of_find hjob)
  by_cases hid : id = jobId
  · rw [if_pos (hid.trans hkey.symm), hid, hjob]
    exact hm
  · rw [if_neg fun h => hid (h.trans hkey)]
    exact .same

/-- **Every statement of a call moves every job row.** -/
theorem Upload.Advance.jobMove {env : Env} {w : World} {call : Nat} {move : UploadMove}
    {u u' : Upload} {db' : Db} {store' : Store} (hw : Known w) (hf : w.Fresh move.draws)
    (hu : w.uploads call = some u) (ha : Advance env w.db w.store u move db' store' u')
    (id : Uuid) : JobMove w id (.upload call move) (w.db.jobs.find id) (db'.jobs.find id) := by
  cases ha with
  | @intended ids now ack hpc =>
      have hfresh : ids.intentId ∉ w.drawn := hf.2 _ (by simp [UploadMove.draws])
      exact .of_putJob hw hfresh (u.newJob_intent ids now) id
  | renamed hpc => exact .of_updateJob hu (by rw [hpc]; rfl) (.rename _ _) id
  | replayed hpc => exact .of_updateJob hu (by rw [hpc]; rfl) (.replay _) id
  | conflictExpedited hpc | failureExpedited hpc =>
      exact .of_updateJob hu (by rw [hpc]; rfl) (.expedite _) id
  | @created ids actual draw jobId fault ack hpc =>
      have hids : u.pc.ids = some ids := by rw [hpc]; rfl
      have hfresh : jobId ∉ w.drawn := hf.2 _ (by simp [UploadMove.draws])
      -- The new job and the intent are different rows, as the intent's identifier is not fresh.
      have hne : ids.intentId ≠ jobId := fun h =>
        hfresh (h ▸ (hw.knows_upload hu hids).2.2)
      have hput : (Db.putJob w.db (ocrJob jobId ids.documentId u.requestId draw.now)).jobs.find id =
          if id = jobId then some (ocrJob jobId ids.documentId u.requestId draw.now)
          else w.db.jobs.find id := by
        rw [Db.putJob_jobs, Table.find_put]
        rfl
      -- The row asked for is the new OCR job, or it moves as under the completion of the intent.
      by_cases hid : id = jobId
      · have hw' : (writeDocument env u ids actual draw jobId w.db).jobs.find id =
            some (ocrJob jobId ids.documentId u.requestId draw.now) := by
          rw [writeDocument, Db.find_updateJob, if_neg (by rw [hid]; exact hne.symm)]
          exact hput.trans (if_pos hid)
        rw [hw', hid, hw.db.job_of_fresh hfresh]
        exact .created hfresh (newJob_ocrJob ..)
      · have hw' : (writeDocument env u ids actual draw jobId w.db).jobs.find id =
            (w.db.updateJob ids.intentId fun j =>
              { j with state := .succeeded, updatedAt := draw.now }).jobs.find id := by
          rw [writeDocument, Db.find_updateJob, Db.find_updateJob]
          exact congrArg (fun o => if id = ids.intentId then Option.map _ o else o)
            (hput.trans (if_neg hid))
        rw [hw']
        exact .of_updateJob hu hids (.complete _) id
  | _ => exact .same

/-- The row of a settled job and every other row. -/
theorem find_settleJob {env : Env} {db : Db} {draw : Draw} {current : Job}
    {result : Option ExtractionResult} (id : Uuid) :
    (settleJob env db draw current result).jobs.find id =
      if id = current.id then some current else db.jobs.find id := by
  rw [settleJob_jobs, Table.find_put]

/-- The row of a job completed by its claim and every other row. -/
theorem find_discard (db : Db) (draw : Draw) (token : Uuid) (job : Job) (id : Uuid) :
    ((db.putJob (take draw token job)).putJob (discard (take draw token job))).jobs.find id =
      if id = job.id then some (discard (take draw token job)) else db.jobs.find id := by
  rw [Db.putJob_jobs, Table.find_put, Db.putJob_jobs, Table.find_put]
  by_cases hid : id = job.id
  · rw [if_pos hid]
    exact if_pos hid
  · rw [if_neg hid]
    exact (if_neg hid).trans (if_neg hid)

/-- A selected job is due. -/
theorem due_of_mem_selectDue {db : Db} {now : Timestamp} {limit : Nat} {locked : List Uuid}
    {job : Job} (h : job ∈ selectDue db now limit locked) :
    job ∈ db.jobs.rows ∧ due now job = true ∧ job.id ∉ locked := by
  have hmem := (List.mem_insertionSort _).mp (List.mem_of_mem_take h)
  obtain ⟨hrow, hp⟩ := List.mem_filter.mp hmem
  rw [Bool.and_eq_true, decide_eq_true_iff] at hp
  exact ⟨hrow, hp.1, hp.2⟩

/-- **Every effect moves every job row.** -/
theorem Effect.jobMove {env : Env} {w w' : World} {e : Event} (hw : Known w)
    (he : Effect env w e w') (id : Uuid) :
    JobMove w id e (w.db.jobs.find id) (w'.db.jobs.find id) := by
  cases he with
  | idle | edited | entered | documentRead | objectDeleted | recoveryStarted | recoveryPassed
  | published | stopped => exact .same
  | @destroyed request jobId draw row hf =>
      have hfresh : jobId ∉ w.drawn := hf.2 _ (by simp)
      exact .of_putJob hw hfresh (newJob_cleanupJob ..) id
  | @reprocessed request jobId draw row hf =>
      have hfresh : jobId ∉ w.drawn := hf.2 _ (by simp)
      exact .of_putJob hw hfresh (newJob_ocrJob ..) id
  | advanced hf hu _ ha => exact ha.jobMove hw hf hu id
  | @cleanupClaimed delivery jobId token draw job hf hnew hjob hc =>
      rw [Db.putJob_jobs, Table.find_put]
      exact .of_put hjob (.taken hf hnew hc) rfl id
  | @discarded delivery jobId token draw job hf hjob hc hkind =>
      rw [find_discard]
      exact .of_put hjob (.discarded hf hc hkind) rfl id
  | @ocrClaimed delivery jobId token draw job row hf hnew hjob hc =>
      rw [moveDocument_jobs, Db.putJob_jobs, Table.find_put]
      exact .of_put hjob (.taken hf hnew hc) rfl id
  | @settled delivery call jitter draw d current hf hd hpermit hjob htoken hrunning =>
      rw [find_settleJob]
      exact .of_put hjob (.settled hd rfl htoken hrunning hpermit) (settle_id ..) id
  | @recovered dispatcher limit token jitter draw jobId todo job hf hd hjob hexp =>
      have hkey : (settle draw.now jitter (some workerLost) (fence draw token job)).id = job.id :=
        settle_id ..
      -- The settled row overwrites the fenced one; no other row was touched.
      have hfind : (settleJob env (w.db.updateJob jobId (fence draw token)) draw
          (settle draw.now jitter (some workerLost) (fence draw token job)) none).jobs.find id =
            if id = (settle draw.now jitter (some workerLost) (fence draw token job)).id then
              some (settle draw.now jitter (some workerLost) (fence draw token job))
            else w.db.jobs.find id := by
        rw [find_settleJob, hkey, Table.key_of_find hjob]
        split
        · rfl
        · next hne => rw [Db.find_updateJob, if_neg hne]
      rw [hfind]
      exact .of_put hjob (.recovered hf hd hexp) hkey id
  | @stamped dispatcher limit now locked hd =>
      rw [stampDispatched, Db.find_updateJobs]
      cases hjob : w.db.jobs.find id with
      | none => exact .same
      | some job =>
          rw [Option.map_some]
          split
          · next hmem =>
              -- The stamp goes by primary key; the selected row with this key is the row itself.
              obtain ⟨job', hsel, hid⟩ := List.mem_map.mp (decide_eq_true_iff.mp hmem)
              obtain ⟨hrow, hdue, -⟩ := due_of_mem_selectDue hsel
              have heq : job' = job :=
                Table.eq_of_key_eq hrow (Table.find_eq_some_iff.mp hjob).1 hid
              exact .stamped (heq ▸ hdue)
          · exact .same
  | @rearmed jobId now job hjob hkind hfailed =>
      rw [Db.putJob_jobs, Table.find_put]
      exact .of_put hjob (.rearmed hkind hfailed) rfl id

/-! ## What every move keeps -/

/-- A job never changes its identity, its kind, its document or its limit of attempts. -/
theorem JobMove.frame {w : World} {id : Uuid} {e : Event} {job : Job} {row' : Option Job}
    (hm : JobMove w id e (some job) row') :
    ∃ job', row' = some job' ∧ job'.id = job.id ∧ job'.kind = job.kind ∧
      job'.documentId = job.documentId ∧ job'.maxAttempts = job.maxAttempts := by
  cases hm with
  | settled | recovered =>
      exact ⟨_, rfl, settle_id .., settle_kind .., settle_documentId .., settle_maxAttempts ..⟩
  | rewritten _ _ _ hf => exact ⟨_, rfl, by cases hf <;> exact ⟨rfl, rfl, rfl, rfl⟩⟩
  | _ => exact ⟨_, rfl, rfl, rfl, rfl, rfl⟩

end MiniDms
