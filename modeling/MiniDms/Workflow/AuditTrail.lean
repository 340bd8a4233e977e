import MiniDms.Workflow.Lockstep

/-! # The audit log replays to the state

The events of a document are an append-only log. Folding its status actions gives the status of the
document, counting its revising actions gives the revision, and every event records what it found
and what it left. -/

namespace MiniDms

open Python Relational TransitionSystem

/-! ## Replaying -/

/-- The status after one more action. -/
def AuditAction.replay (status : Option Status) : AuditAction → Option Status
  | .created => some .pending
  | .statusChanged _ next _ _ _ => some next
  | .reprocessRequested _ => some .pending
  | .metadataUpdated .. | .deleted => status

/-- The status the log folds to. -/
def replayStatus (trail : List AuditEvent) : Option Status :=
  trail.foldl (fun status e => e.action.replay status) none

/-- The actions that raise the revision. -/
def AuditAction.revises : AuditAction → Bool
  | .metadataUpdated .. | .reprocessRequested _ => true
  | _ => false

/-- The revision the log counts to. -/
def replayRevision (trail : List AuditEvent) : Nat := 1 + trail.countP fun e => e.action.revises

/-- The last event is replayed last. -/
@[simp] theorem replayStatus_append (trail : List AuditEvent) (e : AuditEvent) :
    replayStatus (trail ++ [e]) = e.action.replay (replayStatus trail) := by
  rw [replayStatus, List.foldl_append]
  rfl

/-- The last event counts a revision, if it revises. -/
@[simp] theorem replayRevision_append (trail : List AuditEvent) (e : AuditEvent) :
    replayRevision (trail ++ [e]) =
      replayRevision trail + if e.action.revises then 1 else 0 := by
  rw [replayRevision, replayRevision, List.countP_append, List.countP_singleton, Nat.add_assoc]

/-- What an event records of the log before it: a status change the status it found, a metadata
update the revision it produced. -/
structure Recorded (before : List AuditEvent) (e : AuditEvent) : Prop where
  previous : ∀ previous status attempt code job,
    e.action = .statusChanged previous status attempt code job →
      replayStatus before = some previous
  revision : ∀ fields revision, e.action = .metadataUpdated fields revision →
    replayRevision (before ++ [e]) = revision

/-- A log that starts with its only creation and records itself. -/
structure TrailLaw (trail : List AuditEvent) : Prop where
  created : ∃ e rest, trail = e :: rest ∧ e.action = .created ∧ ∀ e' ∈ rest, e'.action ≠ .created
  recorded : ∀ before e after, trail = before ++ e :: after → Recorded before e

/-- A log that consists of a creation. -/
theorem TrailLaw.start {e : AuditEvent} (he : e.action = .created) : TrailLaw [e] where
  created := ⟨e, [], rfl, he, fun _ h => by cases h⟩
  recorded before e' after h := by
    obtain ⟨rfl, h'⟩ | ⟨before', -, h'⟩ := List.append_eq_cons_iff.mp h.symm
    · cases h'
      constructor
      · intro p s a c j ha
        rw [he] at ha
        cases ha
      · intro f r ha
        rw [he] at ha
        cases ha
    · exact absurd h' (by simp)

/-- Appending an event that records the log keeps the law. -/
theorem TrailLaw.append {trail : List AuditEvent} (h : TrailLaw trail) {e : AuditEvent}
    (he : e.action ≠ .created) (hrec : Recorded trail e) : TrailLaw (trail ++ [e]) where
  created := by
    obtain ⟨e₀, rest, rfl, h₀, hrest⟩ := h.created
    refine ⟨e₀, rest ++ [e], rfl, h₀, fun e' he' => ?_⟩
    obtain he' | he' := List.mem_append.mp he'
    · exact hrest e' he'
    · exact List.mem_singleton.mp he' ▸ he
  recorded before e' after hsplit := by
    obtain rfl | ⟨after, last, rfl⟩ := List.eq_nil_or_concat' after
    · obtain ⟨rfl, hlast⟩ := List.append_inj' hsplit rfl
      cases hlast
      exact hrec
    · rw [← List.cons_append, ← List.append_assoc] at hsplit
      obtain ⟨htrail, -⟩ := List.append_inj' hsplit rfl
      exact h.recorded before e' after htrail

/-! ## The invariant -/

/-- The three phases of a document: not yet created, live, and deleted. -/
inductive Replays : DocumentView → Prop
  | unborn {v : DocumentView} (hrow : v.row = none) (htrail : v.trail = []) : Replays v
  | live {v : DocumentView} {row : Document} (hrow : v.row = some row) (hlaw : TrailLaw v.trail)
      (hstatus : replayStatus v.trail = some row.status)
      (hrevision : replayRevision v.trail = row.revision)
      (hdeleted : ∀ e ∈ v.trail, e.action ≠ .deleted) : Replays v
  | deleted {v : DocumentView} {front : List AuditEvent} {e : AuditEvent} (hrow : v.row = none)
      (hlaw : TrailLaw v.trail) (htrail : v.trail = front ++ [e]) (he : e.action = .deleted)
      (hfront : ∀ e ∈ front, e.action ≠ .deleted) : Replays v

/-- What is known of the log of a live document. -/
theorem Replays.of_row {v : DocumentView} (h : Replays v) {row : Document}
    (hrow : v.row = some row) :
    TrailLaw v.trail ∧ replayStatus v.trail = some row.status ∧
      replayRevision v.trail = row.revision ∧ ∀ e ∈ v.trail, e.action ≠ .deleted := by
  cases h with
  | unborn hnone | deleted hnone => exact absurd (hnone.symm.trans hrow) nofun
  | live hrow' hlaw hstatus hrevision hdeleted =>
      rw [hrow] at hrow'
      cases hrow'
      exact ⟨hlaw, hstatus, hrevision, hdeleted⟩

/-- A live document stays live when the new row is what the new event replays to. -/
theorem Replays.record {v : DocumentView} (h : Replays v) {row row' : Document}
    (hrow : v.row = some row) {e : AuditEvent} {ocr : Uuid → Option Job}
    (hcreated : e.action ≠ .created) (hdeleted : e.action ≠ .deleted)
    (hstatus : e.action.replay (some row.status) = some row'.status)
    (hrevision : row'.revision = row.revision + if e.action.revises then 1 else 0)
    (hprevious : ∀ previous status attempt code job,
      e.action = .statusChanged previous status attempt code job → previous = row.status)
    (hrecorded : ∀ fields revision, e.action = .metadataUpdated fields revision →
      revision = row'.revision) :
    Replays ⟨some row', v.trail ++ [e], ocr⟩ := by
  obtain ⟨hlaw, hs, hr, hd⟩ := h.of_row hrow
  have hrev : replayRevision (v.trail ++ [e]) = row'.revision := by
    rw [replayRevision_append, hr, hrevision]
  refine .live rfl (hlaw.append hcreated ⟨fun p s a c j ha => ?_, fun f r ha => ?_⟩) ?_ hrev ?_
  · rw [hs, hprevious p s a c j ha]
  · rw [hrev, hrecorded f r ha]
  · rw [replayStatus_append, hs, hstatus]
  · intro e' he'
    obtain he' | he' := List.mem_append.mp he'
    · exact hd e' he'
    · exact List.mem_singleton.mp he' ▸ hdeleted

/-- A transition of the document is recorded with the status it found. -/
theorem Replays.move {v : DocumentView} (h : Replays v) {row : Document} (hrow : v.row = some row)
    (env : Env) (draw : Draw) (state : Status) (job : Job) (code : Option ErrorCode)
    (result : Option ExtractionResult) (ocr : Uuid → Option Job) :
    Replays (DocumentView.move env { v with ocr := ocr } draw row state job code result) := by
  refine h.record hrow nofun nofun rfl rfl (fun p s a c j ha => ?_) fun f r ha => ?_
  · cases ha
    rfl
  · cases ha

/-- **One move keeps the log in step with the document.** -/
theorem DocumentMove.replays {env : Env} {w : World} {id : Uuid} {e : Event} {v v' : DocumentView}
    (hm : DocumentMove env w id e v v') (h : Replays v) : Replays v' := by
  cases hm with
  | same => exact h
  | orphaned hrow =>
      cases h with
      | unborn _ htrail => exact .unborn hrow htrail
      | live hrow' => exact absurd (hrow.symm.trans hrow') fun h => by cases h
      | deleted _ hlaw htrail he hfront => exact .deleted hrow hlaw htrail he hfront
  | @created call u ids actual draw jobId fault ack _ hu hpc hid hjob hrow htrail hocr =>
      have hnew : ((v.write (.indexed env (u.document ids actual draw.now) [])).record
          (auditEvent draw (u.document ids actual draw.now) .created u.requestId
            (some u.user))).trail =
              [auditEvent draw (u.document ids actual draw.now) .created u.requestId
                (some u.user)] := by
        rw [DocumentView.record, DocumentView.write, htrail]
        rfl
      refine .live rfl ?_ ?_ ?_ fun e he => ?_
      · exact hnew ▸ .start rfl
      · exact congrArg replayStatus hnew
      · exact congrArg replayRevision hnew
      · have he' := he
        rw [DocumentView.putOcr, hnew, List.mem_singleton] at he'
        rw [he']
        exact fun h => by cases h
  | @edited request data draw row _ hpk hrow =>
      refine h.record hrow (fun h => by cases h) (fun h => by cases h)
        (congrArg some (data.edit_status draw.now row.toDocumentColumns).symm)
        (data.edit_revision draw.now row.toDocumentColumns)
        (fun p s a c j ha => by cases ha) fun f r ha => ?_
      cases ha
      exact (data.edit_revision draw.now row.toDocumentColumns).symm
  | @reprocessed request jobId draw row _ hpk hjob hrow =>
      exact h.record hrow (fun h => by cases h) (fun h => by cases h) rfl rfl
        (fun p s a c j ha => by cases ha) fun f r ha => by cases ha
  | @deleted request jobId draw row _ hpk hrow =>
      obtain ⟨hlaw, -, -, hd⟩ := h.of_row hrow
      refine .deleted rfl (hlaw.append (fun h => by cases h) ⟨fun p s a c j ha => ?_, fun f r ha => ?_⟩)
        rfl rfl hd
      · cases ha
      · cases ha
  | @started delivery jobId token draw job row _ hrow => exact h.move hrow ..
  | @finished delivery call jitter draw d job row _ hd hrow => exact h.move hrow ..
  | @recovered dispatcher token jobId jitter draw job row _ hrow => exact h.move hrow ..

/-- **In every reachable state** the log of every document replays to it. -/
theorem replays_of_history {env : Env} {h : List Step} {w : World} (hr : History env h w)
    (id : Uuid) : Replays (w.db.view id) :=
  (hr.preserved (fun w => (Known w ∧ Provenance w) ∧ Replays (w.db.view id))
    ⟨⟨known_init, provenance_init⟩, .unborn rfl rfl⟩ fun _ hv ⟨⟨hw, hp⟩, hI⟩ =>
      have he := World.perform_effect hv
      ⟨⟨hw.step he, hp.step hw he⟩, (he.documentMove hw hp id).replays hI⟩).2

/-! ## What one step logs -/

/-- An event shows the row it left: a status change its status and its attempts, a metadata update
its revision. -/
structure Shows (e : AuditEvent) (row : Option Document) : Prop where
  status : ∀ previous status attempt code job,
    e.action = .statusChanged previous status attempt code job →
      ∃ d, row = some d ∧ d.status = status ∧ d.attempts = attempt
  revision : ∀ fields revision, e.action = .metadataUpdated fields revision →
    ∃ d, row = some d ∧ d.revision = revision

/-- One move logs nothing or one event, which shows the row it left. -/
theorem DocumentMove.appends {env : Env} {w : World} {id : Uuid} {e : Event}
    {v v' : DocumentView} (hm : DocumentMove env w id e v v') :
    v'.trail = v.trail ∨ ∃ event, v'.trail = v.trail ++ [event] ∧ Shows event v'.row := by
  have hmove : ∀ (v : DocumentView) (draw : Draw) (row : Document) (state : Status) (job : Job)
      (code : Option ErrorCode) (result : Option ExtractionResult),
      ∃ event, (v.move env draw row state job code result).trail = v.trail ++ [event] ∧
        Shows event (v.move env draw row state job code result).row := by
    intro v draw row state job code result
    refine ⟨_, rfl, fun p s a c j ha => ?_, fun f r ha => ?_⟩
    · cases ha
      exact ⟨_, rfl, rfl, rfl⟩
    · cases ha
  cases hm with
  | same | orphaned => exact .inl rfl
  | created | reprocessed | deleted =>
      refine .inr ⟨_, rfl, fun p s a c j ha => ?_, fun f r ha => ?_⟩
      · cases ha
      · cases ha
  | @edited request data draw row =>
      refine .inr ⟨_, rfl, fun p s a c j ha => (by cases ha), fun f r ha => ?_⟩
      cases ha
      exact ⟨_, rfl, data.edit_revision draw.now row.toDocumentColumns⟩
  | started | finished | recovered => exact .inr (hmove ..)

/-- A move that leaves the row of a document in lockstep as it is logs nothing. -/
theorem DocumentMove.silent {env : Env} {w : World} {id : Uuid} {e : Event} {v v' : DocumentView}
    {current : Option Uuid} (hm : DocumentMove env w id e v v') (hl : Lockstep v current)
    (hrow : v'.row = v.row) : v'.trail = v.trail := by
  -- Every logged move changes the status or the revision, or creates or deletes the row.
  have hstatus : ∀ {k : Uuid} {job : Job} {row row' : Document}, v.ocr k = some job →
      job.state ≠ .failed → v.row = some row → v'.row = some row' →
        row'.status = job.state.documentStatus := by
    intro k job row row' hjob hlive hr hr'
    rw [hrow, hr] at hr'
    cases hr'
    exact (hl.mirrors hjob hlive hr).status
  have hsettle : ∀ {k : Uuid} {job job' : Job} {row row' : Document}, v.ocr k = some job →
      job.state = .running → v.row = some row → v'.row = some row' →
        row'.status = job'.state.documentStatus → job'.state ≠ .running → False := by
    intro k job job' row row' hjob hrunning hr hr' hs hne
    have hq := hstatus hjob (by rw [hrunning]; decide) hr hr'
    rw [hs, hrunning] at hq
    exact hne (JobState.documentStatus_inj.mp hq)
  cases hm with
  | same | orphaned => rfl
  | created _ _ _ _ hnone => exact absurd (hrow.trans hnone) nofun
  | @edited request data draw row _ _ hsome =>
      have hrev := congrArg Document.toDocumentColumns (Option.some.inj (hrow.trans hsome))
      rw [Document.indexed_columns] at hrev
      have hsucc := congrArg DocumentColumns.revision hrev
      rw [Patch.edit_revision] at hsucc
      exact absurd hsucc (Nat.succ_ne_self _)
  | reprocessed _ _ hsome =>
      have hrev := congrArg Document.toDocumentColumns (Option.some.inj (hrow.trans hsome))
      exact absurd (congrArg DocumentColumns.revision hrev) (Nat.succ_ne_self _)
  | deleted _ hsome => exact absurd (hrow.trans hsome).symm nofun
  | started hsome hjob hpending =>
      have hq := hstatus hjob (by rw [hpending]; decide) hsome rfl
      rw [hpending] at hq
      cases hq
  | finished _ hsome hjob _ hrunning =>
      exact (hsettle hjob hrunning hsome rfl rfl (settle_state_ne_running _ _ _ _)).elim
  | recovered hsome hjob hrunning =>
      exact (hsettle hjob hrunning hsome rfl rfl (settle_state_ne_running _ _ _ _)).elim

/-- The answers of operations that did nothing: an error, a skipped job, a stale completion. -/
def Reply.silent : Reply → Bool
  | .raised _ | .skipped | .finished .stale => true
  | _ => false

/-- **An operation that raises, is skipped or is stale logs nothing.** -/
theorem World.perform_silent {env : Env} {w w' : World} {e : Event} {r : Reply}
    (h : w.perform env e = some (w', r)) (hr : r.silent = true) :
    w'.db.auditEvents = w.db.auditEvents := by
  have hrespond : ∀ {v : World} {res : Except ApiError (Db × Reply)}, v.db = w.db →
      (∀ x, res = .ok x → x.2.silent = true → x.1.auditEvents = w.db.auditEvents) →
      (pure (v.respond res) : Option _) = some (w', r) → w'.db.auditEvents = w.db.auditEvents := by
    intro v res hv hres h
    cases res with
    | error error =>
        cases h
        exact congrArg Db.auditEvents hv
    | ok x =>
        cases h
        exact hres x rfl hr
  cases e with
  | partialUpdate request body draw =>
      obtain ⟨-, h₁⟩ := World.draw_bind h
      refine hrespond (World.drew_db ..) (fun x hx hs => ?_) h₁
      obtain ⟨y, -, rfl⟩ := map_eq_ok.mp hx
      cases hs
  | destroy request jobId draw =>
      obtain ⟨-, h₁⟩ := World.draw_bind h
      refine hrespond (World.drew_db ..) (fun x hx hs => ?_) h₁
      obtain ⟨y, -, rfl⟩ := map_eq_ok.mp hx
      cases hs
  | reprocess request jobId draw =>
      obtain ⟨-, h₁⟩ := World.draw_bind h
      refine hrespond (World.drew_db ..) (fun x hx hs => ?_) h₁
      obtain ⟨y, -, rfl⟩ := map_eq_ok.mp hx
      cases hs
  | enterUpload call user data key requestId =>
      simp only [World.perform] at h
      split at h
      · cases h
      · cases h; rfl
  | upload call move =>
      obtain ⟨u, -, h₁⟩ := Option.bind_eq_some_iff.mp h
      obtain ⟨-, h₂⟩ := World.draw_bind h₁
      dsimp only at h₂
      split at h₂
      · obtain ⟨⟨db', store', u'⟩, -, h₃⟩ := Option.bind_eq_some_iff.mp h₂
        cases h₃
        cases hr
      · cases h₂
  | claim delivery jobId token draw =>
      obtain ⟨-, h₁⟩ := World.draw_bind h
      simp only [World.drew_db, World.drew_deliveries] at h₁
      cases hd : w.deliveries delivery with
      | some d =>
          simp only [hd, Option.isSome_some, if_true] at h₁
          cases h₁
      | none =>
          simp only [hd, Option.isSome_none, Bool.false_eq_true, if_false] at h₁
          cases hres : MiniDms.claim env w.db draw token jobId with
          | error error => rw [hres] at h₁; cases h₁; rfl
          | ok res =>
              obtain ⟨db, granted⟩ := res
              rw [hres] at h₁
              obtain ⟨rfl, rfl, -⟩ | ⟨job, -, -, ⟨-, rfl, rfl⟩ | ⟨-, -, rfl, rfl⟩ |
                ⟨row, -, -, rfl, rfl⟩⟩ := claim_cases hres
              · cases h₁; rfl
              · cases h₁; cases hr
              · cases h₁; rfl
              · cases h₁; cases hr
  | readDocument delivery =>
      obtain ⟨d, -, h₁⟩ := Option.bind_eq_some_iff.mp h
      dsimp only at h₁
      split at h₁
      · cases h₁; rfl
      · cases h₁
  | deleteObject delivery ack =>
      obtain ⟨d, -, h₁⟩ := Option.bind_eq_some_iff.mp h
      dsimp only at h₁
      split at h₁
      · cases h₁; rfl
      · cases h₁
  | finish delivery call jitter draw =>
      obtain ⟨d, -, h₁⟩ := Option.bind_eq_some_iff.mp h
      obtain ⟨-, h₂⟩ := World.draw_bind h₁
      split at h₂
      · refine hrespond (World.drew_db ..) (fun x hx hs => ?_) h₂
        rw [mapError_eq_ok] at hx
        obtain ⟨y, hy, rfl⟩ := map_eq_ok.mp hx
        cases hjob : w.db.jobs.find d.job.id with
        | none =>
            rw [World.drew_db, MiniDms.finish, hjob] at hy
            cases hy
        | some current =>
            rw [World.drew_db, finish_of_find hjob] at hy
            split at hy
            · cases hy; cases hs
            · cases hy; rfl
      · cases h₂
  | recoverExpired dispatcher limit now candidates =>
      simp only [World.perform] at h
      split at h
      · cases h; rfl
      · cases h
  | recoverNext dispatcher locked token jitter draw =>
      simp only [World.perform] at h
      split at h
      · next limit id todo hd =>
          obtain ⟨-, h₁⟩ := World.draw_bind h
          simp only [World.setDispatcher, World.drew_db] at h₁
          split at h₁
          · cases h₁; rfl
          · split at h₁
            · cases h₁; cases hr
            · cases h₁; rfl
            · cases h₁; rfl
      · cases h
  | dispatchSelect dispatcher now locked =>
      simp only [World.perform] at h
      split at h
      · cases h; rfl
      · cases h
  | publish dispatcher accepted =>
      simp only [World.perform] at h
      split at h
      · cases h; rfl
      · cases h
  | stop dispatcher => cases h; rfl
  | retryCleanup jobId now =>
      simp only [World.perform] at h
      split at h
      · cases h; cases hr
      · cases h; rfl

/-! ## The law -/

/-- One event appends at most one audit event, under an identifier that it draws. -/
theorem Effect.logs {env : Env} {w w' : World} {e : Event} (he : Effect env w e w') :
    w'.db.auditEvents = w.db.auditEvents ∨
      ∃ event, w'.db.auditEvents = w.db.auditEvents ++ [event] ∧ event.id ∉ w.drawn ∧
        event.id ∈ w'.drawn := by
  have hsettle : ∀ {db : Db} {draw : Draw} {job : Job} {result : Option ExtractionResult},
      (settleJob env db draw job result).auditEvents = db.auditEvents ∨
        ∃ event, (settleJob env db draw job result).auditEvents = db.auditEvents ++ [event] ∧
          event.id = draw.eventId := by
    intro db draw job result
    unfold settleJob
    split
    · exact .inr ⟨_, rfl, rfl⟩
    · exact .inl rfl
  cases he with
  | edited hf => exact .inr ⟨_, rfl, hf.2 _ List.mem_cons_self, List.mem_cons_self⟩
  | destroyed hf | reprocessed hf | ocrClaimed hf =>
      exact .inr ⟨_, rfl, hf.2 _ (List.mem_cons_of_mem _ List.mem_cons_self),
        List.mem_cons_of_mem _ List.mem_cons_self⟩
  | advanced hf _ _ ha =>
      cases ha with
      | created =>
          exact .inr ⟨_, rfl, hf.2 _ (List.mem_cons_of_mem _ List.mem_cons_self),
            List.mem_append_left _ (List.mem_cons_of_mem _ List.mem_cons_self)⟩
      | _ => exact .inl rfl
  | @settled _ call jitter draw _ current hf =>
      obtain hsame | ⟨event, hevent, hid⟩ := @hsettle w.db draw
        (settle draw.now jitter call.failed current) call.result
      · exact .inl hsame
      · exact .inr ⟨event, hevent, hid ▸ hf.2 _ List.mem_cons_self, hid ▸ List.mem_cons_self⟩
  | @recovered _ _ token jitter draw id _ job hf =>
      obtain hsame | ⟨event, hevent, hid⟩ := @hsettle (w.db.updateJob id (fence draw token)) draw
        (settle draw.now jitter (some workerLost) (fence draw token job)) none
      · exact .inl hsame
      · exact .inr ⟨event, hevent, hid ▸ hf.2 _ (List.mem_cons_of_mem _ List.mem_cons_self),
          hid ▸ List.mem_cons_of_mem _ List.mem_cons_self⟩
  | _ => exact .inl rfl

/-- One event appends at most one audit event. -/
theorem Effect.auditEvents {env : Env} {w w' : World} {e : Event} (he : Effect env w e w') :
    w'.db.auditEvents = w.db.auditEvents ∨
      ∃ event, w'.db.auditEvents = w.db.auditEvents ++ [event] := by
  obtain hsame | ⟨event, hevent, -⟩ := he.logs
  · exact .inl hsame
  · exact .inr ⟨event, hevent⟩

/-- A step that leaves every document row as it is logs nothing. -/
theorem auditEvents_of_documents {env : Env} {h : List Step} {x : Step}
    (hr : History env h x.pre) (hv : x.Valid (World.perform env))
    (hsame : ∀ id, x.post.db.documents.find id = x.pre.db.documents.find id) :
    x.post.db.auditEvents = x.pre.db.auditEvents := by
  obtain ⟨hw, hp⟩ := provenance_of_history hr
  have he := World.perform_effect hv
  obtain hnone | ⟨event, hevent⟩ := he.auditEvents
  · exact hnone
  · -- The logged event would show in the trail of its own document.
    have htrail := (he.documentMove hw hp event.documentId).silent
      (lockstep_view hr event.documentId) (hsame event.documentId)
    have hfilter : (x.post.db.view event.documentId).trail =
        (x.pre.db.view event.documentId).trail ++ [event] := by
      show List.filter _ x.post.db.auditEvents = List.filter _ x.pre.db.auditEvents ++ [event]
      rw [hevent, List.filter_append, List.filter_singleton]
      simp
    rw [hfilter] at htrail
    exact absurd htrail (by simp)

/-- The document was created in the history. -/
def CreatedIn (h : List Step) (id : Uuid) : Prop :=
  ∃ x ∈ h, x.pre.db.documents.find id = none ∧ ∃ d, x.post.db.documents.find id = some d

/-- The trail of a document that was created is not empty. -/
theorem CreatedIn.trail_ne_nil {env : Env} {h : List Step} {w : World} (hr : History env h w)
    {id : Uuid} (hc : CreatedIn h id) : (w.db.view id).trail ≠ [] := by
  obtain ⟨x, hx, -, d, hd⟩ := hc
  obtain ⟨later, earlier, -, hearlier, hv, hlater⟩ := hr.cut hx
  have hpost := hearlier.step hv
  obtain ⟨hw, hp⟩ := provenance_of_history hpost
  refine (hlater.preserved (fun w => (Known w ∧ Provenance w) ∧ (w.db.view id).trail ≠ [])
    ⟨⟨hw, hp⟩, ?_⟩ fun y hy ⟨⟨hw, hp⟩, hne⟩ => ?_).2
  · obtain ⟨hlaw, -⟩ := (replays_of_history hpost id).of_row hd
    obtain ⟨e, rest, htrail, -⟩ := hlaw.created
    rw [htrail]
    exact nofun
  · have he := World.perform_effect hy
    refine ⟨⟨hw.step he, hp.step hw he⟩, ?_⟩
    obtain heq | ⟨event, heq, -⟩ := (he.documentMove hw hp id).appends
    · rw [heq]
      exact hne
    · rw [heq]
      simp

/-- **The audit log replays to the state.** For every document created in a run: its log starts with
its only creation, and every event records what it found and produced;
while the document is live its status and revision are what the log folds to, and nothing is logged
as deleted;
once it is deleted, the deletion is the last event and the only one;
every step appends at most one event to the log, which shows the row it left;
and an operation that raises, is skipped, is stale or changes no document logs nothing. -/
theorem audit_log_replays {env : Env} {h : List Step} {w : World} (hr : History env h w) :
    (∀ id, CreatedIn h id →
      TrailLaw (w.db.view id).trail ∧
      (∀ d, w.db.documents.find id = some d →
        replayStatus (w.db.view id).trail = some d.status ∧
          d.revision = 1 + (w.db.view id).trail.countP (fun e => e.action.revises) ∧
          ∀ e ∈ (w.db.view id).trail, e.action ≠ .deleted) ∧
      (w.db.documents.find id = none → ∃ front e, (w.db.view id).trail = front ++ [e] ∧
        e.action = .deleted ∧ ∀ e ∈ front, e.action ≠ .deleted)) ∧
    ∀ x ∈ h,
      (∀ id, (x.post.db.view id).trail = (x.pre.db.view id).trail ∨
        ∃ event, (x.post.db.view id).trail = (x.pre.db.view id).trail ++ [event] ∧
          Shows event (x.post.db.documents.find id)) ∧
      (x.reply.silent = true → x.post.db.auditEvents = x.pre.db.auditEvents) ∧
      ((∀ id, x.post.db.documents.find id = x.pre.db.documents.find id) →
        x.post.db.auditEvents = x.pre.db.auditEvents) := by
  refine ⟨fun id hc => ?_, fun x hx => ?_⟩
  · have hne := hc.trail_ne_nil hr
    have hrep := replays_of_history hr id
    refine ⟨?_, fun d hd => ?_, fun hnone => ?_⟩
    · cases hrep with
      | unborn _ htrail => exact absurd htrail hne
      | live _ hlaw => exact hlaw
      | deleted _ hlaw => exact hlaw
    · obtain ⟨-, hstatus, hrevision, hdeleted⟩ := hrep.of_row hd
      exact ⟨hstatus, hrevision.symm, hdeleted⟩
    · cases hrep with
      | unborn _ htrail => exact absurd htrail hne
      | live hrow => exact absurd (hrow.symm.trans hnone) nofun
      | deleted _ _ htrail he hfront => exact ⟨_, _, htrail, he, hfront⟩
  · obtain ⟨later, earlier, -, hearlier, hv, -⟩ := hr.cut hx
    obtain ⟨hw, hp⟩ := provenance_of_history hearlier
    exact ⟨fun id => ((World.perform_effect hv).documentMove hw hp id).appends,
      World.perform_silent hv, auditEvents_of_documents hearlier hv⟩

/-- The log of the sample document: created, started, succeeded. -/
theorem audit_log_replays_sample :
    ((sampleWorld.db.view 1).trail.map fun e => e.action) =
      [.created, .statusChanged .pending .processing 1 none 5,
        .statusChanged .processing .succeeded 1 none 5] ∧
    ∀ id, CreatedIn sampleHistory id → TrailLaw (sampleWorld.db.view id).trail :=
  ⟨by decide +kernel, fun id hc => ((audit_log_replays sample_history).1 id hc).1⟩

end MiniDms
