import MiniDms.Workflow.Provenance

/-! # Uploads commit all or nothing

A call of `create_document` commits twice: its cleanup intent, and later the document with everything
that belongs to it. Between and around the two commits any statement may raise and the process may
die. Whatever happens, what the call has committed is nothing, the pending intent alone, or the whole
document with the intent completed. -/

namespace MiniDms

open Python Relational TransitionSystem

/-! ## What a call has committed -/

/-- The names a call used for its object: the one it asked for, or one the store answered. -/
def UsedKey (h : List Step) (c : Nat) (u : Upload) (ids : UploadIds) (key : StorageKey) : Prop :=
  key = u.storageKey ids ∨ ∃ x ∈ h, ∃ ack, x.event = .upload c (.save key ack)

/-- A name that was used stays used. -/
theorem UsedKey.mono {h : List Step} {c : Nat} {u u' : Upload} {ids : UploadIds} {key : StorageKey}
    (hk : UsedKey h c u ids key) (huser : u'.user = u.user) (x : Step) :
    UsedKey (x :: h) c u' ids key := by
  obtain rfl | ⟨y, hy, hsave⟩ := hk
  · exact .inl (by rw [Upload.storageKey, Upload.storageKey, huser])
  · exact .inr ⟨y, List.mem_cons_of_mem _ hy, hsave⟩

/-- What the intent names, by where the call stands. -/
def Names (h : List Step) (c : Nat) (u : Upload) (intent : Job) : UploadPc → Prop
  | .intended ids => intent.storageKey = some (u.storageKey ids)
  | .saved ids actual => intent.storageKey = some (u.storageKey ids) ∧ UsedKey h c u ids actual
  | .named _ actual => intent.storageKey = some actual
  | _ => True

/-- The call committed its pending intent and nothing else. -/
structure IntentOnly (h : List Step) (c : Nat) (u : Upload) (ids : UploadIds) (intent : Job) :
    Prop where
  drawn : u.ids = some ids
  documents : u.effect.documents.rows = []
  auditEvents : u.effect.auditEvents = []
  jobs : u.effect.jobs.rows = [intent]
  id : intent.id = ids.intentId
  documentId : intent.documentId = ids.documentId
  kind : intent.kind = .deleteObject
  state : intent.state = .pending
  attempts : intent.attempts = 0
  key : ∃ key, intent.storageKey = some key ∧ UsedKey h c u ids key

/-- The call committed its document, the `created` event, one pending OCR job and the completed
intent. -/
structure DocumentCommitted (u : Upload) (ids : UploadIds) (row : Document) (event : AuditEvent)
    (job intent : Job) : Prop where
  drawn : u.ids = some ids
  documents : u.effect.documents.rows = [row]
  auditEvents : u.effect.auditEvents = [event]
  jobs : u.effect.jobs.rows = [job, intent]
  row : ∃ actual now, row.toDocumentColumns = u.document ids actual now
  eventDocument : event.documentId = ids.documentId
  eventAction : event.action = .created
  jobKind : job.kind = .ocr
  jobDocument : job.documentId = ids.documentId
  jobState : job.state = .pending
  intentId : intent.id = ids.intentId
  intentKind : intent.kind = .deleteObject
  intentState : intent.state = .succeeded
  intentAttempts : intent.attempts = 0
  fresh : job.id ≠ intent.id

/-- How far a call has got with its commits. -/
inductive Extent
  | nothing
  | intent
  | document
  deriving DecidableEq, Repr

/-- The call has committed this much. -/
inductive Committed (h : List Step) (c : Nat) (u : Upload) : Extent → Prop
  | nothing (he : u.effect = .empty) : Committed h c u .nothing
  | intent {ids : UploadIds} {j : Job} (hi : IntentOnly h c u ids j) (hn : Names h c u j u.pc) :
      Committed h c u .intent
  | document {ids : UploadIds} {row : Document} {event : AuditEvent} {job j : Job}
      (hd : DocumentCommitted u ids row event job j) : Committed h c u .document

/-- How far a call can have got, by where it stands. -/
def UploadPc.extents : UploadPc → List Extent
  | .entered | .checked => [.nothing]
  | .intended _ | .saved .. | .named .. | .conflicting _ => [.intent]
  | .failing _ => [.intent, .document]
  | .returned _ true => [.document]
  | .returned _ false | .raised .conflict => [.nothing, .intent]
  | .raised _ | .dead => [.nothing, .intent, .document]

/-- The call has committed as much as fits where it stands. -/
def Atomic (h : List Step) (c : Nat) (u : Upload) : Prop := ∃ x ∈ u.pc.extents, Committed h c u x

/-- Before any commit a call may raise anything. -/
theorem nothing_mem_extents (e : ApiError) : Extent.nothing ∈ (UploadPc.raised e).extents := by
  cases e <;> simp [UploadPc.extents]

/-- With only its intent committed a call may raise anything. -/
theorem intent_mem_extents (e : ApiError) : Extent.intent ∈ (UploadPc.raised e).extents := by
  cases e <;> simp [UploadPc.extents]

/-! ## The rows of an effect -/

/-- The rows after rewriting one job. -/
theorem Db.rows_updateJob (db : Db) (id : Uuid) (f : Job → Job) :
    (db.updateJob id f).jobs.rows =
      db.jobs.rows.map fun j => if j.id = id then { f j with id := j.id } else j := by
  simp [updateJob, updateJobs, Table.update]

/-- A new job stands before the one row there is. -/
theorem Db.rows_putJob_singleton {db : Db} {job intent : Job} (h : db.jobs.rows = [intent])
    (hne : job.id ≠ intent.id) : (db.putJob job).jobs.rows = [job, intent] := by
  simp [putJob, Table.put, Table.erase, h, hne.symm]

/-- The first document of an effect is its only row. -/
theorem Db.rows_putDocument_nil {db : Db} {row : Document} (h : db.documents.rows = []) :
    (db.putDocument row).documents.rows = [row] := by
  simp [putDocument, Table.put, Table.erase, h]

/-! ## One statement -/

/-- Moving on without writing keeps the extent. -/
theorem IntentOnly.goto {h : List Step} {c : Nat} {u : Upload} {ids : UploadIds} {intent : Job}
    (hi : IntentOnly h c u ids intent) (pc : UploadPc) (x : Step) :
    IntentOnly (x :: h) c (u.goto pc) ids intent where
  drawn := hi.drawn
  documents := hi.documents
  auditEvents := hi.auditEvents
  jobs := hi.jobs
  id := hi.id
  documentId := hi.documentId
  kind := hi.kind
  state := hi.state
  attempts := hi.attempts
  key := by
    obtain ⟨key, hkey, hused⟩ := hi.key
    exact ⟨key, hkey, hused.mono rfl x⟩

/-- Rewriting the pending intent keeps the extent. -/
theorem IntentOnly.rewrite {h : List Step} {c : Nat} {u : Upload} {ids : UploadIds} {intent : Job}
    (hi : IntentOnly h c u ids intent) {f : Job → Job} (hid : (f intent).id = intent.id)
    (hdoc : (f intent).documentId = intent.documentId) (hkind : (f intent).kind = intent.kind)
    (hstate : (f intent).state = intent.state) (hattempts : (f intent).attempts = intent.attempts)
    {key : StorageKey} (hkey : (f intent).storageKey = some key) (hused : UsedKey h c u ids key)
    (pc : UploadPc) (x : Step) :
    IntentOnly (x :: h) c { u with effect := u.effect.updateJob ids.intentId f, pc := pc } ids
      (f intent) where
  drawn := hi.drawn
  documents := hi.documents
  auditEvents := hi.auditEvents
  jobs := by
    have hsame : { f intent with id := intent.id } = f intent := by rw [← hid]
    rw [Db.rows_updateJob, hi.jobs, List.map_singleton, if_pos hi.id, hsame]
  id := hid.trans hi.id
  documentId := hdoc.trans hi.documentId
  kind := hkind.trans hi.kind
  state := hstate.trans hi.state
  attempts := hattempts.trans hi.attempts
  key := ⟨key, hkey, hused.mono rfl x⟩

/-- Making the intent due keeps the extent. -/
theorem IntentOnly.expedite {h : List Step} {c : Nat} {u : Upload} {ids : UploadIds} {intent : Job}
    (hi : IntentOnly h c u ids intent) (now : Timestamp) (pc : UploadPc) (x : Step) :
    IntentOnly (x :: h) c
      { u with effect := Upload.expediteIntent ids now u.effect, pc := pc } ids
      { intent with availableAt := now } := by
  obtain ⟨key, hkey, hused⟩ := hi.key
  exact hi.rewrite rfl rfl rfl rfl rfl hkey hused pc x

/-- Moving on after the document is committed keeps the extent. -/
theorem DocumentCommitted.goto {u : Upload} {ids : UploadIds} {row : Document} {event : AuditEvent}
    {job intent : Job} (hd : DocumentCommitted u ids row event job intent) (pc : UploadPc) :
    DocumentCommitted (u.goto pc) ids row event job intent := by
  cases hd
  constructor <;> assumption

/-- Making the completed intent due keeps the extent. -/
theorem DocumentCommitted.expedite {u : Upload} {ids : UploadIds} {row : Document}
    {event : AuditEvent} {job intent : Job} (hd : DocumentCommitted u ids row event job intent)
    (now : Timestamp) (pc : UploadPc) :
    DocumentCommitted { u with effect := Upload.expediteIntent ids now u.effect, pc := pc } ids row
      event job { intent with availableAt := now } where
  drawn := hd.drawn
  documents := hd.documents
  auditEvents := hd.auditEvents
  jobs := by
    have hjob : job.id ≠ ids.intentId := fun hq => hd.fresh (hq.trans hd.intentId.symm)
    rw [Upload.expediteIntent, Db.rows_updateJob, hd.jobs, List.map_cons, List.map_singleton,
      if_neg hjob, if_pos hd.intentId]
  row := hd.row
  eventDocument := hd.eventDocument
  eventAction := hd.eventAction
  jobKind := hd.jobKind
  jobDocument := hd.jobDocument
  jobState := hd.jobState
  intentId := hd.intentId
  intentKind := hd.intentKind
  intentState := hd.intentState
  intentAttempts := hd.intentAttempts
  fresh := hd.fresh

/-- The document transaction completes the extent. -/
theorem IntentOnly.document {env : Env} {h : List Step} {c : Nat} {u : Upload} {ids : UploadIds}
    {intent : Job} (hi : IntentOnly h c u ids intent) (actual : StorageKey) (draw : Draw)
    {jobId : Uuid} (hfresh : jobId ≠ ids.intentId) (pc : UploadPc) :
    DocumentCommitted
      { u with effect := Upload.writeDocument env u ids actual draw jobId u.effect, pc := pc } ids
      (.indexed env (u.document ids actual draw.now) [])
      (auditEvent draw (u.document ids actual draw.now) .created u.requestId (some u.user))
      (ocrJob jobId ids.documentId u.requestId draw.now)
      { intent with state := .succeeded, updatedAt := draw.now } where
  drawn := hi.drawn
  documents := Db.rows_putDocument_nil hi.documents
  auditEvents := by
    show u.effect.auditEvents ++ _ = _
    rw [hi.auditEvents]
    rfl
  jobs := by
    have hocr : (ocrJob jobId ids.documentId u.requestId draw.now).id ≠ ids.intentId := hfresh
    have hrows : (Db.putJob u.effect (ocrJob jobId ids.documentId u.requestId draw.now)).jobs.rows =
        [ocrJob jobId ids.documentId u.requestId draw.now, intent] :=
      Db.rows_putJob_singleton hi.jobs fun hq => hocr (hq.trans hi.id)
    rw [Upload.writeDocument, Db.rows_updateJob]
    refine (congrArg _ hrows).trans ?_
    rw [List.map_cons, List.map_singleton, if_neg hocr, if_pos hi.id]
  row := ⟨actual, draw.now, rfl⟩
  eventDocument := rfl
  eventAction := rfl
  jobKind := rfl
  jobDocument := rfl
  jobState := rfl
  intentId := hi.id
  intentKind := hi.kind
  intentState := rfl
  intentAttempts := hi.attempts
  fresh := fun hq => hfresh (hq.trans hi.id)

/-- A call that has committed nothing has an empty effect. -/
theorem Atomic.effect_empty {h : List Step} {c : Nat} {u : Upload} (hat : Atomic h c u)
    (hx : u.pc.extents = [.nothing]) : u.effect = .empty := by
  obtain ⟨k, hk, hcom⟩ := hat
  rw [hx] at hk
  obtain rfl := List.mem_singleton.mp hk
  cases hcom with
  | nothing he => exact he

/-- A call between its two commits has its intent only. -/
theorem Atomic.intentOnly {h : List Step} {c : Nat} {u : Upload} (hat : Atomic h c u)
    (hco : u.Coherent) (hx : u.pc.extents = [.intent]) {ids : UploadIds}
    (hpc : u.pc.ids = some ids) : ∃ j, IntentOnly h c u ids j ∧ Names h c u j u.pc := by
  obtain ⟨k, hk, hcom⟩ := hat
  rw [hx] at hk
  obtain rfl := List.mem_singleton.mp hk
  cases hcom with
  | @intent ids' j hi hn =>
      have hids := hi.drawn
      rw [hco ids hpc] at hids
      cases hids
      exact ⟨j, hi, hn⟩

/-- A call in the handler of other exceptions has its intent only, or everything. -/
theorem Atomic.of_failing {h : List Step} {c : Nat} {u : Upload} (hat : Atomic h c u)
    (hco : u.Coherent) {ids : UploadIds} (hpc : u.pc = .failing ids) :
    (∃ j, IntentOnly h c u ids j) ∨ ∃ row event job j, DocumentCommitted u ids row event job j := by
  obtain ⟨k, hk, hcom⟩ := hat
  have hdrawn := hco ids (by rw [hpc]; rfl)
  cases hcom with
  | nothing =>
      rw [hpc] at hk
      simp [UploadPc.extents] at hk
  | @intent ids' j hi hn =>
      have hids := hi.drawn
      rw [hdrawn] at hids
      cases hids
      exact .inl ⟨j, hi⟩
  | @document ids' row event job j hd =>
      have hids := hd.drawn
      rw [hdrawn] at hids
      cases hids
      exact .inr ⟨row, event, job, j, hd⟩

/-- **One statement keeps the call all or nothing.** -/
theorem Upload.Advance.atomic {env : Env} {h : List Step} {c : Nat} {x : Step} {move : UploadMove}
    {db db' : Db} {store store' : Store} {u u' : Upload}
    (ha : Advance env db store u move db' store' u') (hevent : x.event = .upload c move)
    (hco : u.Coherent) (hfresh : ∀ ids, u.ids = some ids → ids.intentId ∉ move.draws)
    (hat : Atomic h c u) : Atomic (x :: h) c u' := by
  cases ha with
  | checkFailed hpc | checkRefused hpc | intendLost hpc =>
      have he := hat.effect_empty (by rw [hpc]; rfl)
      exact ⟨.nothing, nothing_mem_extents _, .nothing he⟩
  | checkReplayed hpc | checkPassed hpc =>
      have he := hat.effect_empty (by rw [hpc]; rfl)
      exact ⟨.nothing, List.mem_cons_self, .nothing he⟩
  | @intended ids now ack hpc =>
      have he := hat.effect_empty (by rw [hpc]; rfl)
      have hi : IntentOnly (x :: h) c { u with
          ids := some ids
          effect := u.effect.putJob (u.intent ids now)
          pc := if ack = .ok then .intended ids else .raised (.database .operationalError) } ids
          (u.intent ids now) :=
        { drawn := rfl
          documents := by rw [he]; rfl
          auditEvents := by rw [he]; rfl
          jobs := by rw [he]; rfl
          id := rfl
          documentId := rfl
          kind := rfl
          state := rfl
          attempts := rfl
          key := ⟨_, rfl, .inl rfl⟩ }
      refine ⟨.intent, ?_, .intent hi ?_⟩
      · dsimp only
        split
        · exact List.mem_cons_self
        · exact intent_mem_extents _
      · dsimp only
        split
        · rfl
        · trivial
  | @saved ids actual ack hpc =>
      obtain ⟨j, hi, hn⟩ := hat.intentOnly hco (by rw [hpc]; rfl) (by rw [hpc]; rfl)
      rw [hpc] at hn
      refine ⟨.intent, ?_, .intent (hi.goto _ x) ?_⟩
      · dsimp only [goto]
        split
        · exact List.mem_cons_self
        · split <;> exact List.mem_cons_self
      · dsimp only [goto]
        split
        · trivial
        · split
          · next hactual =>
              rw [hactual]
              exact hn
          · exact ⟨hn, .inr ⟨x, List.mem_cons_self, ack, hevent⟩⟩
  | saveLost hpc | renameLost hpc | refused hpc | rolledBack hpc =>
      obtain ⟨j, hi, -⟩ := hat.intentOnly hco (by rw [hpc]; rfl) (by rw [hpc]; rfl)
      exact ⟨.intent, List.mem_cons_self, .intent (hi.goto _ x) trivial⟩
  | @renamed ids actual now ack hpc =>
      obtain ⟨j, hi, hn⟩ := hat.intentOnly hco (by rw [hpc]; rfl) (by rw [hpc]; rfl)
      rw [hpc] at hn
      refine ⟨.intent, ?_, .intent (hi.rewrite rfl rfl rfl rfl rfl rfl hn.2 _ x) ?_⟩
      · dsimp only
        split <;> exact List.mem_cons_self
      · dsimp only
        split
        · rfl
        · trivial
  | @replayed ids actual draw jobId fault ack d hpc =>
      obtain ⟨j, hi, -⟩ := hat.intentOnly hco (by rw [hpc]; rfl) (by rw [hpc]; rfl)
      obtain ⟨key, hkey, hused⟩ := hi.key
      refine ⟨.intent, ?_, .intent (hi.rewrite rfl rfl rfl rfl rfl hkey hused _ x) ?_⟩
      · dsimp only
        split
        · exact List.mem_cons_of_mem _ List.mem_cons_self
        · exact List.mem_cons_self
      · dsimp only
        split <;> trivial
  | @created ids actual draw jobId fault ack hpc =>
      obtain ⟨j, hi, -⟩ := hat.intentOnly hco (by rw [hpc]; rfl) (by rw [hpc]; rfl)
      have hne : jobId ≠ ids.intentId := fun hq =>
        hfresh ids hi.drawn (by rw [← hq]; simp [UploadMove.draws])
      refine ⟨.document, ?_, .document (hi.document actual draw hne _)⟩
      dsimp only
      split
      · exact List.mem_cons_self
      · exact List.mem_cons_of_mem _ List.mem_cons_self
  | @conflictExpedited ids now ack hpc =>
      obtain ⟨j, hi, -⟩ := hat.intentOnly hco (by rw [hpc]; rfl) (by rw [hpc]; rfl)
      exact ⟨.intent, intent_mem_extents _, .intent (hi.expedite now _ x) trivial⟩
  | conflictLost hpc =>
      obtain ⟨j, hi, -⟩ := hat.intentOnly hco (by rw [hpc]; rfl) (by rw [hpc]; rfl)
      exact ⟨.intent, intent_mem_extents _, .intent (hi.goto _ x) trivial⟩
  | @failureExpedited ids now ack hpc =>
      obtain ⟨j, hi⟩ | ⟨row, event, job, j, hd⟩ := hat.of_failing hco hpc
      · exact ⟨.intent, intent_mem_extents _, .intent (hi.expedite now _ x) trivial⟩
      · exact ⟨.document, by simp [UploadPc.extents], .document (hd.expedite now _)⟩
  | failureLost hpc =>
      obtain ⟨j, hi⟩ | ⟨row, event, job, j, hd⟩ := hat.of_failing hco hpc
      · exact ⟨.intent, intent_mem_extents _, .intent (hi.goto _ x) trivial⟩
      · exact ⟨.document, by simp [goto, UploadPc.extents], .document (hd.goto _)⟩
  | died =>
      obtain ⟨k, -, hcom⟩ := hat
      refine ⟨k, by cases k <;> simp [goto, UploadPc.extents], ?_⟩
      cases hcom with
      | nothing he => exact .nothing he
      | intent hi => exact .intent (hi.goto _ x) trivial
      | document hd => exact .document (hd.goto _)

/-- A call that does not move keeps what it has committed. -/
theorem Atomic.mono {h : List Step} {c : Nat} {u : Upload} (hat : Atomic h c u) (x : Step) :
    Atomic (x :: h) c u := by
  obtain ⟨k, hk, hcom⟩ := hat
  refine ⟨k, hk, ?_⟩
  cases hcom with
  | nothing he => exact .nothing he
  | @intent ids j hi hn =>
      refine .intent (hi.goto u.pc x) ?_
      revert hn
      cases u.pc with
      | saved ids' actual => exact fun hn => ⟨hn.1, hn.2.mono rfl x⟩
      | _ => exact fun hn => hn
  | document hd => exact .document hd

/-- **In every reachable state** every call has committed all or nothing. -/
theorem atomic_of_history {env : Env} {h : List Step} {w : World} (hr : History env h w) {c : Nat}
    {u : Upload} (hu : w.uploads c = some u) : Atomic h c u := by
  refine hr.induct (fun h w => ∀ c u, w.uploads c = some u → Atomic h c u)
    (fun c u hu => nomatch hu) (fun h x hr hv (_ : True) ih c u' hu' => ?_) (fun _ _ => trivial) c u hu
  have hw := known_of_history hr
  obtain ⟨hold, -⟩ | ⟨-, user, data, key, requestId, -, rfl⟩ | ⟨move, u, hevent, hf, hu, ha⟩ :=
    (World.perform_effect hv).upload_cases hu'
  · exact (ih c u' hold).mono x
  · refine ⟨.nothing, ?_, .nothing rfl⟩
    unfold Upload.enter
    split <;> simp [UploadPc.extents]
  · refine ha.atomic hevent (hw.coherent c u hu) (fun ids hids hmem => ?_) (ih c u hu)
    exact hf.2 _ hmem (hw.uploads c u ids hu hids).2.2

/-! ## The effect is what the call wrote -/

/-- The writes a call commits, as functions on the database. -/
inductive OwnWrite (env : Env) (u : Upload) : (Db → Db) → Prop
  | none : OwnWrite env u fun db => db
  | intend (ids : UploadIds) (now : Timestamp) : OwnWrite env u fun db => db.putJob (u.intent ids now)
  | rename (ids : UploadIds) (actual : StorageKey) (now : Timestamp) :
      OwnWrite env u (Upload.renameIntent ids actual now)
  | replay (ids : UploadIds) (now : Timestamp) : OwnWrite env u (Upload.writeReplay ids now)
  | document (ids : UploadIds) (actual : StorageKey) (draw : Draw) (jobId : Uuid) :
      OwnWrite env u (Upload.writeDocument env u ids actual draw jobId)
  | expedite (ids : UploadIds) (now : Timestamp) : OwnWrite env u (Upload.expediteIntent ids now)

/-- Every statement writes the same to the database and to the call's own effect. -/
theorem Upload.Advance.ownWrite {env : Env} {db db' : Db} {store store' : Store} {u u' : Upload}
    {move : UploadMove} (ha : Advance env db store u move db' store' u') :
    ∃ f, OwnWrite env u f ∧ db' = f db ∧ u'.effect = f u.effect := by
  cases ha with
  | intended => exact ⟨_, .intend _ _, rfl, rfl⟩
  | renamed => exact ⟨_, .rename _ _ _, rfl, rfl⟩
  | replayed => exact ⟨_, .replay _ _, rfl, rfl⟩
  | created => exact ⟨_, .document _ _ _ _, rfl, rfl⟩
  | conflictExpedited | failureExpedited => exact ⟨_, .expedite _ _, rfl, rfl⟩
  | _ => exact ⟨_, .none, rfl, rfl⟩

/-! ## Calls that raise from the save on -/

/-- The call reaches the store. -/
def Saves (x : Step) (c : Nat) : Prop := ∃ actual ack, x.event = .upload c (.save actual ack)

/-- The call has reached the store. -/
def UploadPc.late : UploadPc → Bool
  | .entered | .checked | .intended _ => false
  | _ => true

/-- A statement of a call is executed by a call that exists. -/
theorem Effect.upload_exists {env : Env} {w w' : World} {c : Nat} {move : UploadMove}
    (he : Effect env w (.upload c move) w') : ∃ u, w.uploads c = some u := by
  cases he with
  | idle _ hupload => exact absurd rfl (hupload c move)
  | advanced _ hu => exact ⟨_, hu⟩

/-- What becomes of a call that exists: it stays, or it advances. -/
theorem Effect.upload_stays {env : Env} {w w' : World} {e : Event} (he : Effect env w e w') {c : Nat}
    {u : Upload} (hu : w.uploads c = some u) :
    (w'.uploads c = some u ∧ ∀ move, e ≠ .upload c move) ∨
    ∃ move u', e = .upload c move ∧ w'.uploads c = some u' ∧
      Upload.Advance env w.db w.store u move w'.db w'.store u' := by
  have hsome : ∃ u', w'.uploads c = some u' := by
    cases he with
    | entered | advanced =>
        simp only [World.setUpload, Function.update_apply]
        split
        · exact ⟨_, rfl⟩
        · exact ⟨u, hu⟩
    | _ => exact ⟨u, hu⟩
  obtain ⟨u', hu'⟩ := hsome
  obtain ⟨hold, hno⟩ | ⟨hnone, -⟩ | ⟨move, v, hevent, -, hv, ha⟩ := he.upload_cases hu'
  · rw [hu] at hold
    exact .inl ⟨hu'.trans (by rw [← hold]), hno⟩
  · rw [hu] at hnone
    cases hnone
  · rw [hu] at hv
    cases hv
    exact .inr ⟨move, u', hevent, hu', ha⟩

/-- A call that has reached the store has reached it for good. -/
theorem Upload.PcMove.late {u : Upload} {pc pc' : UploadPc} {move : UploadMove}
    (hm : PcMove u pc move pc')
    (hlate : pc.late = true ∨ ∃ actual ack, move = .save actual ack) : pc'.late = true := by
  cases hm with
  | checkPassed | intended =>
      -- Neither is late before the statement, nor is the statement a save.
      obtain hq | ⟨_, _, hq⟩ := hlate <;> cases hq
  | _ => rfl

/-- A call raises before it reaches the store, or in a handler. -/
theorem Upload.PcMove.raised {u : Upload} {pc : UploadPc} {move : UploadMove} {e : ApiError}
    (hm : PcMove u pc move (.raised e)) :
    (pc.late = false ∧ ∀ actual ack, move ≠ .save actual ack) ∨
      ∃ now ack, move = .expedite now ack := by
  cases hm with
  | checkRaised | intendRaised => exact .inl ⟨rfl, fun _ _ h => by cases h⟩
  | conflictRaised | failureRaised => exact .inr ⟨_, _, rfl⟩

/-- The history of a call as far as the store and its end are concerned. -/
structure SavedCall (h : List Step) (w : World) (c : Nat) : Prop where
  /-- A call that reached the store is past that point. -/
  late : ∀ y ∈ h, Saves y c → ∃ u, w.uploads c = some u ∧ u.pc.late = true
  /-- A call that reached the store and raised ended with the statement of its handler. -/
  expedited : ∀ u e, w.uploads c = some u → u.pc = .raised e → (∃ y ∈ h, Saves y c) →
    ∃ z ∈ h, ∃ now ack, z.event = .upload c (.expedite now ack) ∧ z.post.uploads c = some u

/-- One step keeps the history of every call. -/
theorem SavedCall.step {env : Env} {h : List Step} {x : Step} {c : Nat}
    (hv : x.Valid (World.perform env)) (hs : SavedCall h x.pre c) : SavedCall (x :: h) x.post c where
  late y hy hsave := by
    have he := World.perform_effect hv
    obtain rfl | hy := List.mem_cons.mp hy
    · obtain ⟨actual, ack, hevent⟩ := hsave
      rw [hevent] at he
      obtain ⟨u, hu⟩ := he.upload_exists
      obtain ⟨-, hno⟩ | ⟨move, u', hmove, hu', ha⟩ := he.upload_stays hu
      · exact absurd rfl (hno _)
      · cases hmove
        exact ⟨u', hu', ha.pcMove.late (.inr ⟨actual, ack, rfl⟩)⟩
    · obtain ⟨u, hu, hlate⟩ := hs.late y hy hsave
      obtain ⟨hu', -⟩ | ⟨move, u', -, hu', ha⟩ := he.upload_stays hu
      · exact ⟨u, hu', hlate⟩
      · exact ⟨u', hu', ha.pcMove.late (.inl hlate)⟩
  expedited u' e hu' hpc := by
    rintro ⟨y, hy, hsave⟩
    have he := World.perform_effect hv
    -- The save lies in the past unless this step is it, and then the call has not raised.
    have hold : (∀ actual ack, x.event ≠ .upload c (.save actual ack)) → y ∈ h := by
      intro hno
      obtain rfl | hy := List.mem_cons.mp hy
      · obtain ⟨actual, ack, hevent⟩ := hsave
        exact absurd hevent (hno actual ack)
      · exact hy
    obtain ⟨hu, hno⟩ | ⟨hnone, user, data, key, requestId, hevent, -⟩ |
      ⟨move, u, hevent, -, hu, ha⟩ := he.upload_cases hu'
    · obtain ⟨z, hz, hz'⟩ := hs.expedited u' e hu hpc ⟨y, hold fun _ _ => hno _, hsave⟩
      exact ⟨z, List.mem_cons_of_mem _ hz, hz'⟩
    · obtain ⟨u, hu, -⟩ := hs.late y (hold fun _ _ => by rw [hevent]; nofun) hsave
      rw [hnone] at hu
      cases hu
    · obtain ⟨hlate, hmove⟩ | ⟨now, ack, rfl⟩ := (hpc ▸ ha.pcMove).raised
      · obtain ⟨v, hv', hlate'⟩ := hs.late y (hold fun actual ack hq => by
          rw [hevent] at hq
          cases hq
          exact hmove actual ack rfl) hsave
        rw [hu] at hv'
        cases hv'
        rw [hlate] at hlate'
        cases hlate'
      · exact ⟨x, List.mem_cons_self, now, ack, hevent, hu'⟩

/-- **In every reachable state** every call has its history. -/
theorem savedCall_of_history {env : Env} {h : List Step} {w : World} (hr : History env h w)
    (c : Nat) : SavedCall h w c :=
  hr.induct (fun h w => SavedCall h w c)
    ⟨fun _ hy => (nomatch hy), fun _ _ hu => (nomatch hu)⟩
    (fun _ _ _ hv (_ : True) hs => hs.step hv) fun _ _ => trivial

/-- The intent is due from the time its update was given. -/
theorem available_of_expedite {ids : UploadIds} {now : Timestamp} {db : Db} {j : Job}
    (hj : j ∈ (Upload.expediteIntent ids now db).jobs.rows) (hid : j.id = ids.intentId) :
    j.availableAt = now := by
  rw [Upload.expediteIntent, Db.rows_updateJob] at hj
  obtain ⟨j₀, -, rfl⟩ := List.mem_map.mp hj
  by_cases h : j₀.id = ids.intentId
  · rw [if_pos h]
  · rw [if_neg h] at hid
    exact absurd hid h

/-- An accepted statement of a handler makes the intent due, in the database and in the effect. -/
theorem Upload.Advance.expedited {env : Env} {db db' : Db} {store store' : Store} {u u' : Upload}
    {now : Timestamp} {ack : Ack}
    (ha : Advance env db store u (.expedite now ack) db' store' u') (hco : u.Coherent)
    (hack : ack.applied = true) :
    ∃ ids, u'.ids = some ids ∧ db' = expediteIntent ids now db ∧
      u'.effect = expediteIntent ids now u.effect := by
  cases ha with
  | @conflictExpedited ids _ _ hpc => exact ⟨ids, hco ids (by rw [hpc]; rfl), rfl, rfl⟩
  | @failureExpedited ids _ _ hpc => exact ⟨ids, hco ids (by rw [hpc]; rfl), rfl, rfl⟩
  | conflictLost | failureLost => cases hack

/-! ## The law -/

/-- **An upload commits all or nothing.** In every run and for every call, wherever it stands:
it has committed nothing, its pending intent alone, or the document with its event, its OCR job and
the completed intent;
it returns a new document only with everything committed, and a replay or a `Conflict` only without;
a call that raised from the save on has made its intent due, if the database accepted that;
and what a call has committed is what its statements wrote to the database. -/
theorem upload_commits_all_or_nothing {env : Env} {h : List Step} {w : World}
    (hr : History env h w) {c : Nat} {u : Upload} (hu : w.uploads c = some u) :
    (u.effect = .empty ∨ (∃ ids intent, IntentOnly h c u ids intent) ∨
      ∃ ids row event job intent, DocumentCommitted u ids row event job intent) ∧
    (∀ d, u.pc = .returned d true →
      ∃ ids row event job intent, DocumentCommitted u ids row event job intent) ∧
    ((∃ d, u.pc = .returned d false) ∨ u.pc = .raised .conflict →
      u.effect = .empty ∨ ∃ ids intent, IntentOnly h c u ids intent) ∧
    (∀ e ids intent, u.pc = .raised e → (∃ y ∈ h, Saves y c) → IntentOnly h c u ids intent →
      ∃ z ∈ h, ∃ now ack, z.event = .upload c (.expedite now ack) ∧ z.post.uploads c = some u ∧
        (ack.applied = true → intent.availableAt = now ∧
          ∀ j, z.post.db.jobs.find ids.intentId = some j → j.availableAt = now)) ∧
    ∀ x ∈ h, ∀ move, x.event = .upload c move →
      ∃ u₁ u₂ f, x.pre.uploads c = some u₁ ∧ x.post.uploads c = some u₂ ∧ OwnWrite env u₁ f ∧
        x.post.db = f x.pre.db ∧ u₂.effect = f u₁.effect := by
  obtain ⟨k, hk, hcom⟩ := atomic_of_history hr hu
  refine ⟨?_, fun d hpc => ?_, fun hpc => ?_, fun e ids intent hpc hsave hi => ?_,
    fun x hx move hevent => ?_⟩
  · cases hcom with
    | nothing he => exact .inl he
    | intent hi => exact .inr (.inl ⟨_, _, hi⟩)
    | document hd => exact .inr (.inr ⟨_, _, _, _, _, hd⟩)
  · rw [hpc] at hk
    obtain rfl := List.mem_singleton.mp hk
    cases hcom with
    | document hd => exact ⟨_, _, _, _, _, hd⟩
  · have hno : k ≠ .document := by
      rintro rfl
      obtain ⟨d, hpc⟩ | hpc := hpc <;> rw [hpc] at hk <;> simp [UploadPc.extents] at hk
    cases hcom with
    | nothing he => exact .inl he
    | intent hi => exact .inr ⟨_, _, hi⟩
    | document => exact absurd rfl hno
  · obtain ⟨z, hz, now, ack, hevent, hzu⟩ :=
      (savedCall_of_history hr c).expedited u e hu hpc hsave
    refine ⟨z, hz, now, ack, hevent, hzu, fun hack => ?_⟩
    obtain ⟨later, earlier, -, hearlier, hv, -⟩ := hr.cut hz
    have hw := known_of_history hearlier
    have he := World.perform_effect hv
    rw [hevent] at he
    obtain ⟨-, hno⟩ | ⟨-, _, _, _, _, hmove, -⟩ | ⟨move, u₀, hmove, -, hu₀, ha⟩ :=
      he.upload_cases hzu
    · exact absurd rfl (hno _)
    · cases hmove
    · cases hmove
      obtain ⟨ids', hids, hdb, heff⟩ := ha.expedited (hw.coherent c u₀ hu₀) hack
      rw [hi.drawn] at hids
      cases hids
      have hmem : intent ∈ (Upload.expediteIntent ids now u₀.effect).jobs.rows := by
        rw [← heff, hi.jobs]
        exact List.mem_singleton_self intent
      refine ⟨available_of_expedite hmem hi.id, fun j hj => ?_⟩
      rw [hdb] at hj
      exact available_of_expedite (Table.find_eq_some_iff.mp hj).1 (Db.job_id hj)
  · obtain ⟨later, earlier, -, -, hv, -⟩ := hr.cut hx
    have he := World.perform_effect hv
    rw [hevent] at he
    obtain ⟨u₁, hu₁⟩ := he.upload_exists
    obtain ⟨-, hno⟩ | ⟨move', u₂, hmove, hu₂, ha⟩ := he.upload_stays hu₁
    · exact absurd rfl (hno _)
    · cases hmove
      obtain ⟨f, hf, hdb, heff⟩ := ha.ownWrite
      exact ⟨u₁, u₂, f, hu₁, hu₂, hf, hdb, heff⟩

/-- An upload whose store fails. -/
def sampleFailure : Option (List Step × World) :=
  Run.execute (World.perform sampleEnv) ([], .init)
    [.enterUpload 0 sampleUser sampleData (some (lit "k")) 100, .upload 0 (.check false),
      .upload 0 (.intend ⟨1, 2, 3⟩ 0 .ok), .upload 0 (.save (.requested 7 1 2) .lost),
      .upload 0 (.expedite 5000 .ok)]

/-- The failing upload of the sample can happen. -/
theorem sampleFailure_isSome : sampleFailure.isSome = true := by decide +kernel

/-- The history of the failure. -/
def sampleFailureHistory : List Step := (sampleFailure.get sampleFailure_isSome).1

/-- The state after the failure. -/
def sampleFailureWorld : World := (sampleFailure.get sampleFailure_isSome).2

/-- It is a run of the system. -/
theorem sampleFailure_history : History sampleEnv sampleFailureHistory sampleFailureWorld :=
  Run.of_isSome rfl sampleFailure_isSome

/-- The failed upload has ended and has committed its intent alone. -/
theorem upload_commits_all_or_nothing_sample :
    ((sampleFailureWorld.uploads 0).any fun u =>
      u.pc.ended && u.effect.documents.rows.isEmpty && u.effect.jobs.rows.length = 1) = true ∧
    ∀ u, sampleFailureWorld.uploads 0 = some u →
      u.effect = .empty ∨ (∃ ids intent, IntentOnly sampleFailureHistory 0 u ids intent) ∨
        ∃ ids row event job intent, DocumentCommitted u ids row event job intent :=
  ⟨by decide +kernel, fun _ hu => (upload_commits_all_or_nothing sampleFailure_history hu).1⟩

end MiniDms
