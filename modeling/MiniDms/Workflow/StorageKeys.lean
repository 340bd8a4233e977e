import MiniDms.Workflow.Grace

/-! # Who may name an object

Every name in the store carries a random mark: the nonce of the upload that asked for it, or the
random part of the alternative the store picked. While an upload is on its way to its commit nobody
else refers to an object under its mark. -/

namespace MiniDms

open Python Relational TransitionSystem

/-- The random part of a name. -/
def StorageKey.mark : StorageKey → Uuid
  | .requested _ _ nonce => nonce
  | .alternative name => name

/-- The mark of the name a call is about to use, or has used and not yet committed. -/
def UploadPc.mark : UploadPc → Option Uuid
  | .intended ids => some ids.nonce
  | .saved _ actual | .named _ actual => some actual.mark
  | _ => none

/-- A call that has reserved a mark works with identifiers. -/
theorem UploadPc.ids_of_mark {pc : UploadPc} {m : Uuid} (h : pc.mark = some m) :
    ∃ ids, pc.ids = some ids := by
  cases pc with
  | intended ids | saved ids | named ids => exact ⟨ids, rfl⟩
  | _ => cases h

/-! ## Where names come from -/

/-- The columns of a document that never change. -/
structure SameIdentity (a b : Document) : Prop where
  owner : a.owner = b.owner
  storageKey : a.storageKey = b.storageKey
  idempotencyKey : a.idempotencyKey = b.idempotencyKey
  requestFingerprint : a.requestFingerprint = b.requestFingerprint

/-- A row has its own identity. -/
theorem SameIdentity.refl (a : Document) : SameIdentity a a := ⟨rfl, rfl, rfl, rfl⟩

/-- A row after a move is the row of a document that just was created, or keeps its identity. -/
theorem DocumentMove.identity {env : Env} {w : World} {id : Uuid} {e : Event} {v v' : DocumentView}
    (hm : DocumentMove env w id e v v') {d' : Document} (hd' : v'.row = some d') :
    (∃ d, v.row = some d ∧ SameIdentity d d') ∨
    ∃ call u ids actual draw jobId fault ack, e = .upload call (.commit draw jobId fault ack) ∧
      w.uploads call = some u ∧ u.pc = .named ids actual ∧ ids.documentId = id ∧ v.row = none ∧
        d' = .indexed env (u.document ids actual draw.now) [] := by
  cases hm with
  | same | orphaned => exact .inl ⟨d', hd', .refl d'⟩
  | @created call u ids actual draw jobId fault ack _ hu hpc hid hjob hrow =>
      cases hd'
      exact .inr ⟨call, u, ids, actual, draw, jobId, fault, ack, rfl, hu, hpc, hid, hrow, rfl⟩
  | @edited request data draw row _ hpk hrow =>
      cases hd'
      obtain ⟨t, d, dt, tg, m, hedit⟩ := data.edit_frame draw.now row.toDocumentColumns
      refine .inl ⟨row, hrow, ?_⟩
      constructor <;> rw [Document.indexed_columns, hedit]
  | @reprocessed request jobId draw row _ hpk hjob hrow =>
      cases hd'
      exact .inl ⟨row, hrow, ⟨rfl, rfl, rfl, rfl⟩⟩
  | deleted => cases hd'
  | @started delivery jobId token draw job row _ hrow =>
      cases hd'
      exact .inl ⟨row, hrow, ⟨rfl, rfl, rfl, rfl⟩⟩
  | @finished delivery call jitter draw d job row _ hd hrow =>
      cases hd'
      exact .inl ⟨row, hrow, ⟨rfl, rfl, rfl, rfl⟩⟩
  | @recovered dispatcher token jobId jitter draw job row _ hrow =>
      cases hd'
      exact .inl ⟨row, hrow, ⟨rfl, rfl, rfl, rfl⟩⟩

/-! ## Holders of an object -/

/-- What can refer to an object: a live document, a job, a claimed job, a call on its way. -/
inductive Holder
  | document (id : Uuid)
  | job (id : Uuid)
  | delivery (n : Nat)
  | call (c : Nat)

/-- The holder refers to an object under the mark `m`. -/
def World.Refers (w : World) (m : Uuid) : Holder → Prop
  | .document id => ∃ d, w.db.documents.find id = some d ∧ d.storageKey.mark = m
  | .job id => ∃ j key, w.db.jobs.find id = some j ∧ j.storageKey = some key ∧ key.mark = m
  | .delivery n => ∃ x key, w.deliveries n = some x ∧ x.job.storageKey = some key ∧ key.mark = m
  | .call c => ∃ u, w.uploads c = some u ∧ u.pc.mark = some m

/-- How a holder came to refer to a mark in one event. -/
inductive Origin (w w' : World) (e : Event) (m : Uuid) : Holder → Prop
  | kept {x : Holder} (hx : w.Refers m x) : Origin w w' e m x
  /-- A call draws the mark, for itself and for its new intent. -/
  | drawn {c : Nat} {move : UploadMove} {x : Holder} (he : e = .upload c move)
      (hm : m ∈ move.draws)
      (hx : x = .call c ∨ ∃ u' ids, w'.uploads c = some u' ∧ u'.ids = some ids ∧
        x = .job ids.intentId) : Origin w w' e m x
  /-- A call commits its document, and is done with the object. -/
  | created {c : Nat} {move : UploadMove} {u : Upload} {ids : UploadIds} (he : e = .upload c move)
      (hu : w.uploads c = some u) (hids : u.pc.ids = some ids) (hc : w.Refers m (.call c))
      (hdone : ¬ w'.Refers m (.call c)) : Origin w w' e m (.document ids.documentId)
  /-- A call points its intent at the name the store has answered. -/
  | renamed {c : Nat} {move : UploadMove} {u : Upload} {ids : UploadIds} (he : e = .upload c move)
      (hu : w.uploads c = some u) (hids : u.pc.ids = some ids) (hc : w.Refers m (.call c)) :
      Origin w w' e m (.job ids.intentId)
  /-- A deleted document hands its object over to a cleanup job. -/
  | cleanup {id k : Uuid} (hd : w.Refers m (.document k))
      (hgone : w'.db.documents.find k = none) : Origin w w' e m (.job id)
  /-- A worker claims a job. -/
  | claimed {n : Nat} {id : Uuid} (he : e.claimed = some id) (hj : w.Refers m (.job id))
      (hpending : w.db.jobState id = some .pending)
      (hrunning : w'.db.jobState id = some .running) : Origin w w' e m (.delivery n)

/-- A statement of a call in a state where the call exists is honest about the name it stores under. -/
theorem Effect.honest {env : Env} {w w' : World} {c : Nat} {move : UploadMove} {u : Upload}
    (he : Effect env w (.upload c move) w') (hu : w.uploads c = some u) :
    move.honest u = true ∧ w.Fresh move.draws ∧ w'.drawn = move.draws ++ w.drawn := by
  cases he with
  | idle _ hupload => exact absurd rfl (hupload c move)
  | advanced hf hu' hhonest =>
      rw [hu] at hu'
      cases hu'
      exact ⟨hhonest, hf, rfl⟩

/-- An honest save uses the mark the call has reserved, or a new one. -/
theorem mark_of_save {u : Upload} {ids : UploadIds} {actual : StorageKey} {ack : Ack}
    (hids : u.ids = some ids) (hhonest : (UploadMove.save actual ack).honest u = true) :
    actual.mark = ids.nonce ∨ actual.mark ∈ (UploadMove.save actual ack).draws := by
  cases actual with
  | requested user document nonce =>
      left
      rw [UploadMove.honest, hids, Option.any_some, decide_eq_true_iff, Upload.storageKey] at hhonest
      injection hhonest with _ _ hnonce
      exact hnonce.symm
  | alternative name => exact .inr List.mem_cons_self

/-- The mark of a call after a statement was its mark before, or has just been drawn. -/
theorem Upload.PcMove.mark {u : Upload} {pc pc' : UploadPc} {move : UploadMove}
    (hm : PcMove u pc move pc') (hids : ∀ ids, pc.ids = some ids → u.ids = some ids)
    (hhonest : move.honest u = true) {m : Uuid} (hmark : pc'.mark = some m) :
    pc.mark = some m ∨ m ∈ move.draws := by
  have hsave : ∀ {ids actual ack}, pc = .intended ids → move = .save actual ack →
      m = actual.mark → pc.mark = some m ∨ m ∈ move.draws := by
    rintro ids actual ack rfl rfl rfl
    obtain hold | hnew := mark_of_save (hids ids rfl) hhonest
    · exact .inl (congrArg some hold.symm)
    · exact .inr hnew
  cases hm with
  | intended =>
      cases hmark
      exact .inr (List.mem_cons_of_mem _ List.mem_cons_self)
  | saved | named => exact hsave rfl rfl (Option.some.inj hmark).symm
  | renamed => exact .inl hmark
  | _ => cases hmark

/-- After the document transaction a call refers to no object any more. -/
theorem Upload.PcMove.mark_commit {u : Upload} {pc pc' : UploadPc} {draw : Draw} {jobId : Uuid}
    {fault : Option Statement} {ack : Ack} (hm : PcMove u pc (.commit draw jobId fault ack) pc') :
    pc'.mark = none := by
  cases hm <;> rfl

/-! ## Where a reference comes from -/

section Origin

variable {env : Env} {w w' : World} {e : Event} {m : Uuid}

/-- Rewriting one job in columns other than its name keeps what jobs refer to. -/
theorem key_of_updateJobs {db : Db} {p : Job → Bool} {f : Job → Job} {id : Uuid} {j' : Job}
    {key : StorageKey} (hj' : (db.updateJobs p f).jobs.find id = some j')
    (hkey : j'.storageKey = some key) (hf : ∀ j, (f j).storageKey = j.storageKey) :
    ∃ j, db.jobs.find id = some j ∧ j.storageKey = some key := by
  rw [Db.find_updateJobs] at hj'
  obtain ⟨j, hj, rfl⟩ := Option.map_eq_some_iff.mp hj'
  refine ⟨j, hj, ?_⟩
  split at hkey
  · rw [← hf j]
    exact hkey
  · exact hkey

/-- So does writing back a row. -/
theorem key_of_put {db : Db} {id id₀ : Uuid} {job job' j' : Job} {key : StorageKey}
    (hj' : (db.jobs.put job').find id = some j') (hkey : j'.storageKey = some key)
    (hjob : db.jobs.find id₀ = some job) (hid' : job'.id = job.id)
    (hkey' : job'.storageKey = job.storageKey) :
    ∃ j, db.jobs.find id = some j ∧ j.storageKey = some key := by
  rw [Table.find_put] at hj'
  split at hj'
  · next hid =>
      cases hj'
      have hfile : id = id₀ := hid.trans (hid'.trans (Db.job_id hjob))
      exact ⟨job, hfile ▸ hjob, hkey' ▸ hkey⟩
  · exact ⟨j', hj', hkey⟩

/-- How a job comes by the name it has after an event. -/
inductive Naming (w w' : World) (e : Event) (id : Uuid) (job : Job) : StorageKey → Prop
  | kept {key : StorageKey} (h : ∃ j, w.db.jobs.find id = some j ∧ j.storageKey = some key) :
      Naming w w' e id job key
  /-- It is the intent of a call, under the name the call asks for. -/
  | intended {c : Nat} {u u' : Upload} {ids : UploadIds} {now : Timestamp} {ack : Ack}
      (he : e = .upload c (.intend ids now ack)) (hu' : w'.uploads c = some u')
      (hids : u'.ids = some ids) (hid : id = ids.intentId) (hjob : job = u.intent ids now) :
      Naming w w' e id job (u.storageKey ids)
  /-- It is the intent of a call, under the name the store has answered. -/
  | renamed {c : Nat} {u : Upload} {ids : UploadIds} {actual : StorageKey} {now : Timestamp}
      {ack : Ack} (he : e = .upload c (.rename now ack)) (hu : w.uploads c = some u)
      (hpc : u.pc = .saved ids actual) (hid : id = ids.intentId) : Naming w w' e id job actual
  /-- It is the cleanup job of a document that has been deleted. -/
  | destroyed {request : Request} {jobId : Uuid} {draw : Draw} {row : Document}
      (hrow : w.db.documents.find row.id = some row)
      (hgone : w'.db.documents.find row.id = none)
      (hjob : job = cleanupJob jobId row.toDocumentColumns request.requestId draw.now) :
      Naming w w' e id job row.storageKey

/-- A statement of a call writes the name into its intent, twice at most. -/
theorem Upload.Advance.naming {c : Nat} {move : UploadMove} {u u' : Upload} {store' : Store}
    (ha : Advance env w.db w.store u move w'.db store' u') (hu : w.uploads c = some u)
    (hu' : w'.uploads c = some u') {id : Uuid} {j' : Job} {key : StorageKey}
    (hj' : w'.db.jobs.find id = some j') (hkey : j'.storageKey = some key) :
    Naming w w' (.upload c move) id j' key := by
  generalize hdb : w'.db = db' at ha hj'
  cases ha with
  | @intended ids now ack hpc =>
      rw [Db.putJob_jobs, Table.find_put] at hj'
      split at hj'
      · next hid =>
          cases hj'
          cases hkey
          exact .intended rfl hu' rfl hid rfl
      · exact .kept ⟨j', hj', hkey⟩
  | @renamed ids actual now ack hpc =>
      rw [renameIntent, Db.find_updateJob] at hj'
      split at hj'
      · next hid =>
          obtain ⟨j, hj, rfl⟩ := Option.map_eq_some_iff.mp hj'
          cases hkey
          exact .renamed rfl hu hpc hid
      · exact .kept ⟨j', hj', hkey⟩
  | replayed | conflictExpedited | failureExpedited =>
      exact .kept (key_of_updateJobs hj' hkey fun _ => rfl)
  | @created ids actual draw jobId fault ack hpc =>
      rw [writeDocument] at hj'
      obtain ⟨j, hj, hkey'⟩ := key_of_updateJobs hj' hkey fun _ => rfl
      rw [Db.putJob_jobs, Table.find_put] at hj
      split at hj
      · -- OCR jobs name no object.
        cases hj
        cases hkey'
      · exact .kept ⟨j, hj, hkey'⟩
  | _ => exact .kept ⟨j', hj', hkey⟩

/-- **How a job comes by its name** in any event. -/
theorem Effect.naming (he : Effect env w e w') {id : Uuid} {j' : Job} {key : StorageKey}
    (hj' : w'.db.jobs.find id = some j') (hkey : j'.storageKey = some key) :
    Naming w w' e id j' key := by
  cases he with
  | @destroyed request jobId draw row hf hrow =>
      rw [Db.removeDocument_jobs, Db.putJob_jobs, Table.find_put] at hj'
      split at hj'
      · cases hj'
        cases hkey
        refine .destroyed (Db.document_id hrow ▸ hrow) ?_ rfl
        rw [Db.removeDocument_documents, Table.find_erase, if_pos rfl]
      · exact .kept ⟨j', hj', hkey⟩
  | reprocessed =>
      rw [Db.putJob_jobs, Table.find_put] at hj'
      split at hj'
      · cases hj'
        cases hkey
      · exact .kept ⟨j', hj', hkey⟩
  | @advanced call move u u' db' store' hf hu hhonest ha =>
      exact ha.naming hu (Function.update_self ..) hj' hkey
  | cleanupClaimed hf hnew hjob => exact .kept (key_of_put hj' hkey hjob rfl rfl)
  | @discarded delivery jobId token draw job hf hjob =>
      rw [find_discard] at hj'
      split at hj'
      · next hid =>
          cases hj'
          exact .kept ⟨job, by rw [hid, Db.job_id hjob]; exact hjob, hkey⟩
      · exact .kept ⟨j', hj', hkey⟩
  | ocrClaimed hf hnew hjob =>
      rw [moveDocument_jobs] at hj'
      exact .kept (key_of_put hj' hkey hjob rfl rfl)
  | settled hf hd hpermit hjob =>
      rw [settleJob_jobs] at hj'
      exact .kept (key_of_put hj' hkey hjob (settle_id ..) (settle_storageKey ..))
  | @recovered dispatcher limit token jitter draw jobId todo job hf hd hjob hexp =>
      rw [settleJob_jobs] at hj'
      have hfind : (w.db.updateJob jobId (fence draw token)).jobs.find jobId =
          some { fence draw token job with id := job.id } := by
        rw [Db.find_updateJob, if_pos rfl, hjob]
        rfl
      obtain ⟨j, hj, hkey'⟩ := key_of_put hj' hkey hfind (settle_id ..)
        (settle_storageKey ..)
      exact .kept (key_of_updateJobs hj hkey' fun _ => rfl)
  | stamped => exact .kept (key_of_updateJobs hj' hkey fun _ => rfl)
  | rearmed hjob => exact .kept (key_of_put hj' hkey hjob rfl rfl)
  | _ => exact .kept ⟨j', hj', hkey⟩

/-- What an event makes a job refer to. -/
theorem Effect.job_origin (he : Effect env w e w') {id : Uuid} (hx : w'.Refers m (.job id)) :
    Origin w w' e m (.job id) := by
  obtain ⟨j', key, hj', hkey, rfl⟩ := hx
  cases he.naming hj' hkey with
  | kept h =>
      obtain ⟨j, hj, hkey⟩ := h
      exact .kept ⟨j, key, hj, hkey, rfl⟩
  | intended heq hu' hids hid =>
      refine .drawn heq (List.mem_cons_of_mem _ List.mem_cons_self) (.inr ⟨_, _, hu', hids, ?_⟩)
      exact congrArg _ hid
  | @renamed c u ids _ now ack heq hu hpc hid =>
      subst hid
      exact .renamed heq hu (by rw [hpc]; rfl) ⟨u, hu, by rw [hpc]; rfl⟩
  | destroyed hrow hgone => exact .cleanup ⟨_, hrow, rfl⟩ hgone

/-- What an event makes a live document refer to. -/
theorem Effect.document_origin (hw : Known w) (hp : Provenance w) (he : Effect env w e w') {id : Uuid}
    (hx : w'.Refers m (.document id)) : Origin w w' e m (.document id) := by
  obtain ⟨d', hd', rfl⟩ := hx
  obtain ⟨d, hd, hsame⟩ | ⟨c, u, ids, actual, draw, jobId, fault, ack, rfl, hu, hpc, rfl, -, rfl⟩ :=
    (he.documentMove hw hp id).identity hd'
  · exact .kept ⟨d, hd, congrArg _ hsame.storageKey⟩
  · refine .created rfl hu (by rw [hpc]; rfl) ⟨u, hu, by rw [hpc]; rfl⟩ ?_
    rintro ⟨u', hu', hmark⟩
    obtain ⟨-, hno⟩ | ⟨move, u'', hmove, hu'', ha⟩ := he.upload_stays hu
    · exact hno _ rfl
    · cases hmove
      rw [hu'] at hu''
      cases hu''
      rw [ha.pcMove.mark_commit] at hmark
      cases hmark

/-- What an event makes a delivery refer to. -/
theorem Effect.delivery_origin (he : Effect env w e w') {n : Nat}
    (hx : w'.Refers m (.delivery n)) : Origin w w' e m (.delivery n) := by
  obtain ⟨x', key, hx', hkey, rfl⟩ := hx
  obtain ⟨x, hx, hjob, -⟩ | ⟨jobId, token, draw, rfl, -, -, job, hjob, hc, rfl, hjob'⟩ :=
    he.delivery_cases hx'
  · exact .kept ⟨x, key, hx, hjob ▸ hkey, rfl⟩
  · have hpending : w.db.jobState jobId = some .pending := by
      rw [Db.jobState, hjob]
      exact congrArg some hc.1
    have hrunning : w'.db.jobState jobId = some .running := by
      rw [Db.jobState, hjob']
      rfl
    exact .claimed rfl ⟨job, key, hjob, hkey, rfl⟩ hpending hrunning

/-- What an event makes a call refer to. -/
theorem Effect.call_origin (hw : Known w) (he : Effect env w e w') {c : Nat}
    (hx : w'.Refers m (.call c)) : Origin w w' e m (.call c) := by
  obtain ⟨u', hu', hmark⟩ := hx
  obtain ⟨hu, -⟩ | ⟨-, _, _, _, _, -, rfl⟩ | ⟨move, u, rfl, -, hu, ha⟩ := he.upload_cases hu'
  · exact .kept ⟨u', hu, hmark⟩
  · obtain ⟨ids, hids⟩ := UploadPc.ids_of_mark hmark
    rw [Upload.pc_ids_enter] at hids
    cases hids
  · obtain hold | hnew := ha.pcMove.mark (hw.coherent c u hu) (he.honest hu).1 hmark
    · exact .kept ⟨u, hu, hold⟩
    · exact .drawn rfl hnew (.inl rfl)

/-- **Every reference has an origin.** -/
theorem Effect.origin (hw : Known w) (hp : Provenance w) (he : Effect env w e w') {x : Holder}
    (hx : w'.Refers m x) : Origin w w' e m x := by
  cases x with
  | document id => exact he.document_origin hw hp hx
  | job id => exact he.job_origin hx
  | delivery n => exact he.delivery_origin hx
  | call c => exact he.call_origin hw hx

end Origin

/-! ## Reserved marks -/

/-- Only drawn marks are referred to. -/
def MarksDrawn (w : World) : Prop := ∀ m x, w.Refers m x → m ∈ w.drawn

/-- Only a call and its intent refer to the object the call is working on. -/
def Reserved (w : World) : Prop :=
  ∀ c u ids m, w.uploads c = some u → u.pc.ids = some ids → u.pc.mark = some m →
    ∀ x, w.Refers m x → x = .call c ∨ x = .job ids.intentId

/-- A mark that a call draws was not drawn before and is from now on. -/
theorem Effect.draws {env : Env} {w w' : World} {c : Nat} {move : UploadMove}
    (he : Effect env w (.upload c move) w') {m : Uuid} (hm : m ∈ move.draws) :
    m ∉ w.drawn ∧ m ∈ w'.drawn := by
  cases he with
  | idle _ hupload => exact absurd rfl (hupload c move)
  | advanced hf => exact ⟨hf.2 m hm, List.mem_append_left _ hm⟩

/-- One event lets nothing refer to a mark that is not drawn. -/
theorem MarksDrawn.step {env : Env} {w w' : World} {e : Event} (hw : Known w) (hp : Provenance w)
    (h : MarksDrawn w) (he : Effect env w e w') : MarksDrawn w' := by
  intro m x hx
  cases he.origin hw hp hx with
  | kept hx => exact he.drawn_subset (h m x hx)
  | drawn hevent hm =>
      subst hevent
      exact (he.draws hm).2
  | created _ _ _ hc | renamed _ _ _ hc => exact he.drawn_subset (h m _ hc)
  | cleanup hd => exact he.drawn_subset (h m _ hd)
  | claimed _ hj => exact he.drawn_subset (h m _ hj)

/-- A call that had a mark before a statement works with the same identifiers after it. -/
theorem Effect.ids_of_mark {env : Env} {w w' : World} {e : Event} (he : Effect env w e w') {c : Nat}
    {u u' : Upload} {ids : UploadIds} {m : Uuid} (hu : w.uploads c = some u)
    (hmark : u.pc.mark = some m) (hu' : w'.uploads c = some u') (hids : u'.pc.ids = some ids) :
    u.pc.ids = some ids := by
  obtain ⟨hstay, -⟩ | ⟨move, u'', -, hu'', ha⟩ := he.upload_stays hu
  · rw [hu'] at hstay
    cases hstay
    exact hids
  · rw [hu'] at hu''
    cases hu''
    obtain hpc | ⟨now, ack, rfl, -, -⟩ := ha.pc_ids hids
    · exact hpc
    · generalize w'.db = db', w'.store = store' at ha
      cases ha with
      | intended hpc | intendLost hpc =>
          rw [hpc] at hmark
          cases hmark

/-- **One graceful step keeps marks reserved.** A mark that was just drawn is nobody else's yet; an
older one can only leave the call through its own commit, since no worker takes the intent. -/
theorem Reserved.step {env : Env} {x : Step} (hw : Known x.pre) (hp : Provenance x.pre)
    (hm : MarksDrawn x.pre) (hres : Reserved x.pre) (hv : x.Valid (World.perform env))
    (hg : Graceful x) : Reserved x.post := by
  intro c u' ids m hu' hids hmark y hy
  have he := World.perform_effect hv
  have hown : x.post.Refers m (.call c) := ⟨u', hu', hmark⟩
  cases he.origin hw hp hown with
  | @drawn c₁ move _ hevent hdraw hx =>
      rw [hevent] at he
      have hfresh := (he.draws hdraw).1
      -- Nobody referred to the mark before.
      have hnone : ∀ z, ¬ x.pre.Refers m z := fun z hz => hfresh (hm m z hz)
      have hc : c₁ = c := by
        obtain hx | ⟨_, _, _, _, hx⟩ := hx
        · injection hx with hx
          exact hx.symm
        · cases hx
      cases he.origin hw hp hy with
      | kept hz => exact absurd hz (hnone _)
      | @drawn c₂ move₂ _ hevent₂ _ hy =>
          injection hevent₂ with hc₂
          subst hc
          subst hc₂
          obtain hy | ⟨u₁, ids₁, hu₁, hids₁, hy⟩ := hy
          · exact .inl hy
          · rw [hu'] at hu₁
            cases hu₁
            have hco := (hw.step he).coherent c₁ u' hu' ids hids
            rw [hids₁] at hco
            cases hco
            exact .inr hy
      | created _ _ _ hz | renamed _ _ _ hz => exact absurd hz (hnone _)
      | cleanup hz => exact absurd hz (hnone _)
      | claimed _ hz => exact absurd hz (hnone _)
  | kept hold =>
      have hdrawn := hm m _ hold
      obtain ⟨u, hu, hmark₀⟩ := hold
      have hids₀ := he.ids_of_mark hu hmark₀ hu' hids
      have hpre := hres c u ids m hu hids₀ hmark₀
      cases he.origin hw hp hy with
      | kept hz => exact hpre _ hz
      | drawn hevent hdraw =>
          rw [hevent] at he
          exact absurd hdrawn (he.draws hdraw).1
      | created _ _ _ hz hdone =>
          obtain hq | hq := hpre _ hz
          · injection hq with hq
            subst hq
            exact absurd hown hdone
          · cases hq
      | @renamed c₁ _ u₁ ids₁ _ hu₁ hids₁ hz =>
          obtain hq | hq := hpre _ hz
          · injection hq with hq
            subst hq
            rw [hu] at hu₁
            cases hu₁
            rw [hids₀] at hids₁
            cases hids₁
            exact .inr rfl
          · cases hq
      | cleanup hz => obtain hq | hq := hpre _ hz <;> cases hq
      | @claimed n id hclaimed hz hpending hrunning =>
          obtain hq | hq := hpre _ hz
          · cases hq
          · injection hq with hq
            subst hq
            refine absurd ⟨hclaimed, hpending, ?_⟩ (hg c u ids hu hids₀)
            rw [hrunning]
            decide

/-- **In every graceful run** marks are drawn and reserved. -/
theorem reserved_of_history {env : Env} {h : List Step} {w : World} (hr : History env h w)
    (hg : ∀ x ∈ h, Graceful x) : MarksDrawn w ∧ Reserved w := by
  refine hr.induct (fun _ w => MarksDrawn w ∧ Reserved w) ⟨?_, ?_⟩ (fun h x hr hv hx hI => ?_) hg
  · rintro m (id | id | n | c) hx
    · obtain ⟨d, hd, -⟩ := hx
      cases hd
    · obtain ⟨j, key, hj, -⟩ := hx
      cases hj
    · obtain ⟨x, key, hx, -⟩ := hx
      cases hx
    · obtain ⟨u, hu, -⟩ := hx
      cases hu
  · intro c u ids m hu
    cases hu
  · obtain ⟨hw, hp⟩ := provenance_of_history hr
    exact ⟨hI.1.step hw hp (World.perform_effect hv), hI.2.step hw hp hI.1 hv hx⟩

end MiniDms
