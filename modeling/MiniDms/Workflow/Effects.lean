import MiniDms.Workflow.World

/-! # What one event does

`World.perform` runs the transactions of the program; `Effect` lists what can come of an event, with
the state it leaves written out. Every invariant of the system is proved by going through this list
once, so nothing downstream unfolds a transaction again. -/

namespace MiniDms

open Python Relational TransitionSystem

/-- The identifiers are new, and differ from each other. -/
def World.Fresh (w : World) (ids : List Uuid) : Prop := ids.Nodup ∧ ∀ id ∈ ids, id ∉ w.drawn

/-- The state after drawing identifiers. -/
def World.drew (w : World) (ids : List Uuid) : World := { w with drawn := ids ++ w.drawn }

/-- Drawing identifiers leaves the database alone. -/
@[simp] theorem World.drew_db (w : World) (ids : List Uuid) : (w.drew ids).db = w.db := rfl

/-- Drawing identifiers leaves the store alone. -/
@[simp] theorem World.drew_store (w : World) (ids : List Uuid) : (w.drew ids).store = w.store := rfl

/-- Drawing identifiers leaves the uploads alone. -/
@[simp] theorem World.drew_uploads (w : World) (ids : List Uuid) :
    (w.drew ids).uploads = w.uploads := rfl

/-- Drawing identifiers leaves the deliveries alone. -/
@[simp] theorem World.drew_deliveries (w : World) (ids : List Uuid) :
    (w.drew ids).deliveries = w.deliveries := rfl

/-- Drawing identifiers leaves the dispatchers alone. -/
@[simp] theorem World.drew_dispatchers (w : World) (ids : List Uuid) :
    (w.drew ids).dispatchers = w.dispatchers := rfl

/-- What is drawn is recorded. -/
@[simp] theorem World.drew_drawn (w : World) (ids : List Uuid) :
    (w.drew ids).drawn = ids ++ w.drawn := rfl

/-- New identifiers can be drawn. -/
theorem World.draw_of_fresh {w : World} {ids : List Uuid} (h : w.Fresh ids) :
    w.draw ids = some (w.drew ids) := if_pos h

/-- A statement that draws identifiers first runs on the state that has drawn them. -/
theorem World.draw_bind {w : World} {ids : List Uuid} {f : World → Option (World × Reply)}
    {x : World × Reply} (h : (w.draw ids >>= f) = some x) :
    w.Fresh ids ∧ f (w.drew ids) = some x := by
  obtain ⟨w₁, hdraw, h₁⟩ := Option.bind_eq_some_iff.mp h
  unfold World.draw at hdraw
  split at hdraw
  · next hf =>
      cases hdraw
      exact ⟨hf, h₁⟩
  · cases hdraw

/-- The outcomes of an event: what held before it and the state after it. -/
inductive Effect (env : Env) (w : World) : Event → World → Prop
  /-- A request that raised or found nothing to do, a skipped claim, a stale completion. -/
  | idle {e : Event} {ids : List Uuid} (hf : w.Fresh ids)
      (hupload : ∀ call move, e ≠ .upload call move) : Effect env w e (w.drew ids)
  | edited {request : Request} {data : Patch} {draw : Draw} {row : Document}
      (hf : w.Fresh [draw.eventId])
      (hrow : w.db.documents.find request.pk = some row)
      (hscope : scopedDocuments request.user row = true)
      (hmatch : request.ifMatch = some (etag row.revision))
      (hchanged : data.changed row.toDocumentColumns ≠ []) :
      Effect env w (.partialUpdate request (.ok data) draw)
        { w.drew [draw.eventId] with
          db := audit
            (w.db.putDocument (.indexed env (data.edit draw.now row.toDocumentColumns)
              row.extractedText))
            draw (data.edit draw.now row.toDocumentColumns)
            (.metadataUpdated (data.changed row.toDocumentColumns) (row.revision + 1))
            request.requestId (some request.user) }
  | destroyed {request : Request} {jobId : Uuid} {draw : Draw} {row : Document}
      (hf : w.Fresh [jobId, draw.eventId])
      (hrow : w.db.documents.find request.pk = some row)
      (hscope : scopedDocuments request.user row = true)
      (hmatch : request.ifMatch = some (etag row.revision)) :
      Effect env w (.destroy request jobId draw)
        { w.drew [jobId, draw.eventId] with
          db := ((audit w.db draw row.toDocumentColumns .deleted request.requestId
            (some request.user)).putJob (cleanupJob jobId row.toDocumentColumns request.requestId
              draw.now)).removeDocument row.id }
  | reprocessed {request : Request} {jobId : Uuid} {draw : Draw} {row : Document}
      (hf : w.Fresh [jobId, draw.eventId])
      (hrow : w.db.documents.find request.pk = some row)
      (hscope : scopedDocuments request.user row = true)
      (hmatch : request.ifMatch = some (etag row.revision))
      (hfailed : row.status = .failed) :
      Effect env w (.reprocess request jobId draw)
        { w.drew [jobId, draw.eventId] with
          db := (audit
            (w.db.putDocument (.indexed env (row.reprocessed draw.now) row.extractedText))
            draw (row.reprocessed draw.now) (.reprocessRequested .pending) request.requestId
            (some request.user)).putJob (ocrJob jobId row.id request.requestId draw.now) }
  | entered {call : Nat} {user : User} {data : UploadData} {key : Option Str} {requestId : Uuid}
      (hnew : w.uploads call = none) :
      Effect env w (.enterUpload call user data key requestId)
        (w.setUpload call (.enter env user data key requestId))
  | advanced {call : Nat} {move : UploadMove} {u u' : Upload} {db' : Db} {store' : Store}
      (hf : w.Fresh move.draws) (hu : w.uploads call = some u) (hhonest : move.honest u = true)
      (ha : Upload.Advance env w.db w.store u move db' store' u') :
      Effect env w (.upload call move)
        { (w.drew move.draws).setUpload call u' with db := db', store := store' }
  | cleanupClaimed {delivery : Nat} {jobId token : Uuid} {draw : Draw} {job : Job}
      (hf : w.Fresh [token, draw.eventId]) (hnew : w.deliveries delivery = none)
      (hjob : w.db.jobs.find jobId = some job) (hc : Claimable draw.now job)
      (hkind : job.kind = .deleteObject) :
      Effect env w (.claim delivery jobId token draw)
        { (w.drew [token, draw.eventId]).setDelivery delivery ⟨take draw token job, false, false⟩
          with db := w.db.putJob (take draw token job) }
  | discarded {delivery : Nat} {jobId token : Uuid} {draw : Draw} {job : Job}
      (hf : w.Fresh [token, draw.eventId]) (hjob : w.db.jobs.find jobId = some job)
      (hc : Claimable draw.now job) (hkind : job.kind = .ocr)
      (hrow : w.db.documents.find job.documentId = none) :
      Effect env w (.claim delivery jobId token draw)
        { w.drew [token, draw.eventId] with
          db := (w.db.putJob (take draw token job)).putJob (discard (take draw token job)) }
  | ocrClaimed {delivery : Nat} {jobId token : Uuid} {draw : Draw} {job : Job} {row : Document}
      (hf : w.Fresh [token, draw.eventId]) (hnew : w.deliveries delivery = none)
      (hjob : w.db.jobs.find jobId = some job) (hc : Claimable draw.now job)
      (hkind : job.kind = .ocr) (hrow : w.db.documents.find job.documentId = some row) :
      Effect env w (.claim delivery jobId token draw)
        { (w.drew [token, draw.eventId]).setDelivery delivery ⟨take draw token job, false, false⟩
          with
          db := moveDocument env (w.db.putJob (take draw token job)) draw row .processing
            (take draw token job) none none }
  | documentRead {delivery : Nat} {d : Delivery} (hd : w.deliveries delivery = some d)
      (hkind : d.job.kind = .ocr) :
      Effect env w (.readDocument delivery)
        (w.setDelivery delivery
          { d with
            missing := d.missing || (w.db.documents.find d.job.documentId).isNone })
  | objectDeleted {delivery : Nat} {ack : Ack} {d : Delivery} {key : StorageKey}
      (hd : w.deliveries delivery = some d) (hkind : d.job.kind = .deleteObject)
      (hkey : d.job.storageKey = some key) :
      Effect env w (.deleteObject delivery ack)
        { w.setDelivery delivery { d with deleted := d.deleted || ack = .ok } with
          store := if ack.applied then Function.update w.store key none else w.store }
  | settled {delivery : Nat} {call : FinishCall} {jitter : Fin 2000001} {draw : Draw} {d : Delivery}
      {current : Job} (hf : w.Fresh [draw.eventId]) (hd : w.deliveries delivery = some d)
      (hpermit : d.permits call = true) (hjob : w.db.jobs.find d.job.id = some current)
      (htoken : current.runToken = d.job.runToken) (hrunning : current.state = .running) :
      Effect env w (.finish delivery call jitter draw)
        { w.drew [draw.eventId] with
          db := settleJob env w.db draw (settle draw.now jitter call.failed current) call.result }
  | recoveryStarted {dispatcher limit : Nat} {now : Timestamp} {candidates : List Uuid}
      (hidle : w.dispatchers dispatcher = .idle)
      (hcand : w.db.candidates now limit candidates = true) :
      Effect env w (.recoverExpired dispatcher limit now candidates)
        (w.setDispatcher dispatcher (.recovering limit candidates))
  | recoveryPassed {dispatcher limit : Nat} {locked : Bool} {token : Uuid} {jitter : Fin 2000001}
      {draw : Draw} {id : Uuid} {todo : List Uuid} (hf : w.Fresh [token, draw.eventId])
      (hd : w.dispatchers dispatcher = .recovering limit (id :: todo))
      (hpass : locked = true ∨ (w.db.jobs.find id).any (expired draw.now) = false) :
      Effect env w (.recoverNext dispatcher locked token jitter draw)
        ((w.drew [token, draw.eventId]).setDispatcher dispatcher (.recovering limit todo))
  | recovered {dispatcher limit : Nat} {token : Uuid} {jitter : Fin 2000001} {draw : Draw}
      {id : Uuid} {todo : List Uuid} {job : Job} (hf : w.Fresh [token, draw.eventId])
      (hd : w.dispatchers dispatcher = .recovering limit (id :: todo))
      (hjob : w.db.jobs.find id = some job) (hexp : expired draw.now job = true) :
      Effect env w (.recoverNext dispatcher false token jitter draw)
        { (w.drew [token, draw.eventId]).setDispatcher dispatcher (.recovering limit todo) with
          db := settleJob env (w.db.updateJob id (fence draw token)) draw
            (settle draw.now jitter (some workerLost) (fence draw token job)) none }
  | stamped {dispatcher limit : Nat} {now : Timestamp} {locked : List Uuid}
      (hd : w.dispatchers dispatcher = .recovering limit []) :
      Effect env w (.dispatchSelect dispatcher now locked)
        { w.setDispatcher dispatcher
            (.publishing ((selectDue w.db now limit locked).map Job.id) 0) with
          db := stampDispatched w.db now ((selectDue w.db now limit locked).map Job.id) }
  | published {dispatcher published : Nat} {accepted : Bool} {id : Uuid} {todo : List Uuid}
      (hd : w.dispatchers dispatcher = .publishing (id :: todo) published) :
      Effect env w (.publish dispatcher accepted)
        (w.setDispatcher dispatcher
          (if accepted then .publishing todo (published + 1) else .idle))
  | stopped {dispatcher : Nat} : Effect env w (.stop dispatcher) (w.setDispatcher dispatcher .idle)
  | rearmed {jobId : Uuid} {now : Timestamp} {job : Job} (hjob : w.db.jobs.find jobId = some job)
      (hkind : job.kind = .deleteObject) (hfailed : job.state = .failed) :
      Effect env w (.retryCleanup jobId now) { w with db := w.db.putJob (rearm now job) }

/-- **Every event has one of these effects.** -/
theorem World.perform_effect {env : Env} {w w' : World} {e : Event} {r : Reply}
    (h : w.perform env e = some (w', r)) : Effect env w e w' := by
  cases e with
  | partialUpdate request body draw =>
      obtain ⟨hf, h₁⟩ := World.draw_bind h
      clear h
      simp only [World.drew_db] at h₁
      -- The identifiers stay drawn when the transaction rolls back.
      cases hres : MiniDms.partialUpdate env w.db draw request body with
      | error e =>
          rw [hres] at h₁
          cases h₁
          exact .idle hf fun _ _ h => by cases h
      | ok res =>
          rw [hres] at h₁
          obtain ⟨row, data, hrow, hscope, rfl, hmatch, ⟨-, hdb, -⟩ | ⟨hch, hdb, -⟩⟩ :=
            partialUpdate_cases hres
          -- An edit without a differing field commits nothing.
          · cases h₁
            rw [hdb]
            exact .idle hf fun _ _ h => by cases h
          · cases h₁
            rw [hdb]
            exact .edited hf hrow hscope hmatch hch
  | destroy request jobId draw =>
      obtain ⟨hf, h₁⟩ := World.draw_bind h
      simp only [World.drew_db] at h₁
      cases hres : MiniDms.destroy w.db draw jobId request with
      | error e =>
          rw [hres] at h₁
          cases h₁
          exact .idle hf fun _ _ h => by cases h
      | ok db =>
          rw [hres] at h₁
          obtain ⟨row, hrow, hscope, hmatch, rfl⟩ := destroy_cases hres
          cases h₁
          exact .destroyed hf hrow hscope hmatch
  | reprocess request jobId draw =>
      obtain ⟨hf, h₁⟩ := World.draw_bind h
      simp only [World.drew_db] at h₁
      cases hres : MiniDms.reprocess env w.db draw jobId request with
      | error e =>
          rw [hres] at h₁
          cases h₁
          exact .idle hf fun _ _ h => by cases h
      | ok res =>
          rw [hres] at h₁
          obtain ⟨row, hrow, hscope, hmatch, hfailed, hdb, -⟩ := reprocess_cases hres
          cases h₁
          rw [hdb]
          exact .reprocessed hf hrow hscope hmatch hfailed
  | enterUpload call user data key requestId =>
      simp only [World.perform] at h
      split at h
      · cases h
      · next hnew =>
          cases h
          exact .entered (by simpa using hnew)
  | upload call move =>
      obtain ⟨u, hu, h₁⟩ := Option.bind_eq_some_iff.mp h
      obtain ⟨hf, h₂⟩ := World.draw_bind h₁
      dsimp only at h₂
      split at h₂
      · next hhonest =>
          -- What the statement does is the inversion of `Upload.step`.
          obtain ⟨⟨db', store', u'⟩, hstep, h₃⟩ := Option.bind_eq_some_iff.mp h₂
          cases h₃
          exact .advanced hf hu hhonest (Upload.step_advance hstep)
      · cases h₂
  | claim delivery jobId token draw =>
      obtain ⟨hf, h₁⟩ := World.draw_bind h
      simp only [World.drew_db, World.drew_deliveries] at h₁
      cases hnone : w.deliveries delivery with
      | some d =>
          simp only [hnone, Option.isSome_some, if_true] at h₁
          cases h₁
      | none =>
          simp only [hnone, Option.isSome_none, Bool.false_eq_true, if_false] at h₁
          cases hres : MiniDms.claim env w.db draw token jobId with
          | error e =>
              rw [hres] at h₁
              cases h₁
              exact .idle hf fun _ _ h => by cases h
          | ok res =>
              obtain ⟨db, granted⟩ := res
              rw [hres] at h₁
              -- Not claimable; a cleanup job; an OCR job without its document; an OCR job with it.
              obtain ⟨rfl, rfl, -⟩ | ⟨job, hjob, hc, ⟨hk, rfl, rfl⟩ | ⟨hk, hrow, rfl, rfl⟩ |
                ⟨row, hk, hrow, rfl, rfl⟩⟩ := claim_cases hres
              · cases h₁
                exact .idle hf fun _ _ h => by cases h
              · cases h₁
                exact .cleanupClaimed hf hnone hjob hc hk
              · cases h₁
                exact .discarded hf hjob hc hk hrow
              · cases h₁
                exact .ocrClaimed hf hnone hjob hc hk hrow
  | readDocument delivery =>
      obtain ⟨d, hd, h₁⟩ := Option.bind_eq_some_iff.mp h
      dsimp only at h₁
      split at h₁
      · next hkind =>
          cases h₁
          exact .documentRead hd hkind
      · cases h₁
  | deleteObject delivery ack =>
      obtain ⟨d, hd, h₁⟩ := Option.bind_eq_some_iff.mp h
      dsimp only at h₁
      split at h₁
      · next key hkind hkey =>
          cases h₁
          exact .objectDeleted hd hkind hkey
      · cases h₁
  | finish delivery call jitter draw =>
      obtain ⟨d, hd, h₁⟩ := Option.bind_eq_some_iff.mp h
      obtain ⟨hf, h₂⟩ := World.draw_bind h₁
      simp only [World.drew_db] at h₂
      split at h₂
      · next hpermit =>
          cases hjob : w.db.jobs.find d.job.id with
          | none =>
              -- `get(pk=...)` raises, and the transaction rolls back.
              have hgone : MiniDms.finish env w.db draw jitter d.job call.result call.failed =
                  .error .doesNotExist := by
                rw [MiniDms.finish, hjob]
              rw [hgone] at h₂
              cases h₂
              exact .idle hf fun _ _ h => by cases h
          | some current =>
              rw [finish_of_find hjob] at h₂
              split at h₂
              -- The delivery still holds the token of the running row.
              · next hlive =>
                  cases h₂
                  exact .settled hf hd hpermit hjob hlive.1 hlive.2
              · cases h₂
                exact .idle hf fun _ _ h => by cases h
      · cases h₂
  | recoverExpired dispatcher limit now candidates =>
      simp only [World.perform] at h
      split at h
      · next hc =>
          cases h
          exact .recoveryStarted hc.1 hc.2
      · cases h
  | recoverNext dispatcher locked token jitter draw =>
      simp only [World.perform] at h
      split at h
      · next limit id todo hd =>
          obtain ⟨hf, h₁⟩ := World.draw_bind h
          simp only [World.setDispatcher, World.drew_db] at h₁
          cases hl : locked with
          | true =>
              rw [hl] at h₁
              cases h₁
              exact .recoveryPassed hf hd (.inl rfl)
          | false =>
              simp only [hl, Bool.false_eq_true, if_false] at h₁
              cases hjob : w.db.jobs.find id with
              | none =>
                  have hnone : recoverOne env w.db draw token jitter id = .ok (w.db, false) := by
                    rw [recoverOne, hjob]
                  rw [hnone] at h₁
                  cases h₁
                  exact .recoveryPassed hf hd (.inr (by rw [hjob]; rfl))
              | some job =>
                  rw [recoverOne_of_find hjob] at h₁
                  -- The row may have been finished, or taken again, since it was listed.
                  by_cases hexp : expired draw.now job = true
                  · rw [if_pos hexp] at h₁
                    cases h₁
                    exact .recovered hf hd hjob hexp
                  · rw [if_neg hexp] at h₁
                    cases h₁
                    refine .recoveryPassed hf hd (.inr ?_)
                    rw [hjob]
                    simpa using hexp
      · cases h
  | dispatchSelect dispatcher now locked =>
      simp only [World.perform] at h
      split at h
      · next limit hd =>
          cases h
          exact .stamped hd
      · cases h
  | publish dispatcher accepted =>
      simp only [World.perform] at h
      split at h
      · next id todo published hd =>
          cases h
          exact .published hd
      · cases h
  | stop dispatcher =>
      cases h
      exact .stopped
  | retryCleanup jobId now =>
      simp only [World.perform] at h
      split at h
      · next db hres =>
          obtain ⟨job, hjob, hkind, hfailed, rfl⟩ := retryCleanup_eq_some_iff.mp hres
          cases h
          exact .rearmed hjob hkind hfailed
      · cases h
        exact .idle ⟨List.nodup_nil, List.forall_mem_nil _⟩ fun _ _ h => by cases h

/-! ## The document table -/

/-- What an event does to the document table. -/
inductive DocumentsWrite (env : Env) (w w' : World) : Prop
  | same (h : w'.db.documents = w.db.documents)
  /-- A live row is written over. -/
  | written {row row' : Document} (hrow : w.db.documents.find row.id = some row)
      (h : w'.db.documents = w.db.documents.put row') (hid : row'.id = row.id)
      (hkey : row'.storageKey = row.storageKey)
  /-- A row is deleted, and a cleanup job takes over its object. -/
  | deleted {jobId requestId : Uuid} {now : Timestamp} {row : Document}
      (hrow : w.db.documents.find row.id = some row)
      (hjob : w'.db.jobs.find jobId =
        some (cleanupJob jobId row.toDocumentColumns requestId now))
      (h : w'.db.documents = w.db.documents.erase row.id)
  /-- A call creates its document. -/
  | created {c : Nat} {u : Upload} {ids : UploadIds} {actual : StorageKey} {now : Timestamp}
      (hu : w.uploads c = some u) (hpc : u.pc = .named ids actual)
      (hadm : w.db.admits (.indexed env (u.document ids actual now) []) = true)
      (h : w'.db.documents = w.db.documents.put (.indexed env (u.document ids actual now) []))

/-- **Every event writes one document at most.** -/
theorem Effect.documentsWrite {env : Env} {w w' : World} {e : Event} (he : Effect env w e w') :
    DocumentsWrite env w w' := by
  have hlive : ∀ {k row}, w.db.documents.find k = some row →
      w.db.documents.find row.id = some row := by
    intro k row hrow
    rw [Db.document_id hrow]
    exact hrow
  have hsettle : ∀ {db : Db} {draw : Draw} {job : Job} {result : Option ExtractionResult},
      w'.db = settleJob env db draw job result → db.documents = w.db.documents →
        DocumentsWrite env w w' := by
    intro db draw job result hdb' hdb
    obtain hsame | ⟨row, hrow, hput⟩ := settleJob_documents env db draw job result
    · exact .same (by rw [hdb', hsame, hdb])
    · rw [hdb] at hrow hput
      exact .written (hlive hrow) ((congrArg Db.documents hdb').trans hput) rfl rfl
  cases he with
  | @edited request data draw row _ hrow =>
      exact .written (hlive hrow) rfl (data.edit_id draw.now row.toDocumentColumns)
        (data.edit_storageKey draw.now row.toDocumentColumns)
  | @destroyed request jobId draw row _ hrow =>
      have hjob : (w.db.jobs.put (cleanupJob jobId row.toDocumentColumns request.requestId
          draw.now)).find jobId = some (cleanupJob jobId row.toDocumentColumns request.requestId
            draw.now) := (Table.find_put ..).trans (if_pos rfl)
      exact .deleted (hlive hrow) hjob rfl
  | reprocessed _ hrow => exact .written (hlive hrow) rfl rfl rfl
  | advanced _ hu _ ha =>
      cases ha with
      | created hpc _ hadm => exact .created hu hpc hadm rfl
      | _ => exact .same rfl
  | ocrClaimed _ _ _ _ _ hrow => exact .written (hlive hrow) rfl rfl rfl
  | settled => exact hsettle rfl rfl
  | recovered => exact hsettle rfl rfl
  | _ => exact .same rfl

end MiniDms
