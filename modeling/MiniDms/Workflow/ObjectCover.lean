import MiniDms.Workflow.ObjectSafety

/-! # No object is left behind

Every object in the store is covered: by the live document that names it, or by a cleanup job that
has not succeeded. The cover is handed over in three places, and each hands it over inside one
transaction: from the intent to the document at the commit, from the document to a cleanup job at the
deletion, and from a cleanup job to nobody once the object is gone. -/

namespace MiniDms

open Python Relational TransitionSystem

/-- The store keeps the object under the name it is asked for. -/
def KeepsName (x : Step) : Prop :=
  ∀ c actual ack u ids, x.event = .upload c (.save actual ack) → x.pre.uploads c = some u →
    u.ids = some ids → actual = u.storageKey ids

/-- A live document or an unfinished cleanup job carries the name. -/
def Covered (db : Db) (key : StorageKey) : Prop :=
  (∃ id d, db.documents.find id = some d ∧ d.storageKey = key) ∨
    ∃ id j, db.jobs.find id = some j ∧ j.kind = .deleteObject ∧ j.storageKey = some key ∧
      j.state ≠ .succeeded

/-! ## The intent of a running call -/

/-- The intent of a call between its two commits is a pending cleanup job under the name of the
object, whatever the dispatcher did to it. -/
theorem pending_intent {env : Env} {h : List Step} {w : World} (hr : History env h w)
    (hg : ∀ x ∈ h, Graceful x) {c : Nat} {u : Upload} {ids : UploadIds} {key : StorageKey}
    (hu : w.uploads c = some u)
    (hpc : (u.pc = .intended ids ∧ key = u.storageKey ids) ∨ u.pc = .named ids key) :
    ∃ j, w.db.jobs.find ids.intentId = some j ∧ j.kind = .deleteObject ∧
      j.storageKey = some key ∧ j.state = .pending := by
  have hids : u.pc.ids = some ids := by
    obtain ⟨hpc, -⟩ | hpc := hpc <;> rw [hpc] <;> rfl
  obtain ⟨j, hj, heff⟩ := mirrored_of_history hr hg c u ids hu hids
  obtain ⟨-, ⟨hstate, hi, hn⟩ | ⟨-, hfailing⟩⟩ :=
    (atomic_of_history hr hu).intent_row ((known_of_history hr).coherent c u hu) hids heff
  · refine ⟨j, hj, hi.kind, ?_, hstate⟩
    obtain ⟨hpc, rfl⟩ | hpc := hpc <;> rw [hpc] at hn <;> exact hn
  · rw [hfailing] at hpc
    obtain ⟨hpc, -⟩ | hpc := hpc <;> cases hpc

/-! ## What one event does to a cover -/

/-- A statement of a call that renames no intent leaves the jobs there are, except that the document
transaction completes the intent. -/
theorem Upload.Advance.cover {env : Env} {db db' : Db} {store store' : Store} {u u' : Upload}
    {move : UploadMove} (ha : Advance env db store u move db' store' u')
    (hpc : ∀ ids actual, u.pc ≠ .saved ids actual) {id : Uuid} {j : Job}
    (hj : db.jobs.find id = some j) (hfresh : id ∉ move.draws) :
    ∃ j', db'.jobs.find id = some j' ∧ j'.kind = j.kind ∧ j'.storageKey = j.storageKey ∧
      (j'.state = j.state ∨ ∃ ids actual d, u.pc = .named ids actual ∧ ids.intentId = id ∧
        db'.documents.find ids.documentId = some d ∧ d.storageKey = actual) := by
  have hupdate : ∀ (ids : UploadIds) (f : Job → Job), (∀ j, (f j).kind = j.kind) →
      (∀ j, (f j).storageKey = j.storageKey) → (∀ j, (f j).state = j.state) →
      ∃ j', (db.updateJob ids.intentId f).jobs.find id = some j' ∧ j'.kind = j.kind ∧
        j'.storageKey = j.storageKey ∧ j'.state = j.state := by
    intro ids f hkind hkey hstate
    rw [Db.find_updateJob]
    split
    · exact ⟨{ f j with id := j.id }, by rw [hj]; rfl, hkind j, hkey j, hstate j⟩
    · exact ⟨j, hj, rfl, rfl, rfl⟩
  cases ha with
  | @intended ids now ack _ =>
      have hne : id ≠ (u.intent ids now).id := by
        rintro rfl
        exact hfresh (by simp [intent, UploadMove.draws])
      exact ⟨j, by rw [Db.putJob_jobs, Table.find_put, if_neg hne]; exact hj, rfl, rfl, .inl rfl⟩
  | renamed hsaved => exact absurd hsaved (hpc _ _)
  | @replayed ids actual draw =>
      obtain ⟨j', hj', hkind, hkey, hstate⟩ := hupdate ids
        (fun j => { j with availableAt := draw.now, updatedAt := draw.now }) (fun _ => rfl)
        (fun _ => rfl) fun _ => rfl
      exact ⟨j', hj', hkind, hkey, .inl hstate⟩
  | @conflictExpedited ids now | @failureExpedited ids now =>
      obtain ⟨j', hj', hkind, hkey, hstate⟩ := hupdate ids
        (fun j => { j with availableAt := now }) (fun _ => rfl) (fun _ => rfl) fun _ => rfl
      exact ⟨j', hj', hkind, hkey, .inl hstate⟩
  | @created ids actual draw jobId fault ack hnamed =>
      have hne : id ≠ (ocrJob jobId ids.documentId u.requestId draw.now).id := by
        rintro rfl
        exact hfresh List.mem_cons_self
      rw [writeDocument, Db.find_updateJob, Db.putJob_jobs, Table.find_put, if_neg hne]
      split
      · next hid =>
          refine ⟨{ j with state := .succeeded, updatedAt := draw.now }, ?_, rfl, rfl, .inr
            ⟨ids, actual, .indexed env (u.document ids actual draw.now) [], hnamed, hid.symm, ?_, rfl⟩⟩
          · show Option.map _ (db.jobs.find id) = _
            rw [hj]
            rfl
          · exact (Table.find_put ..).trans (if_pos rfl)
      · exact ⟨j, hj, rfl, rfl, .inl rfl⟩
  | _ => exact ⟨j, hj, rfl, rfl, .inl rfl⟩

/-- A worker completes a cleanup job only after the object is gone. -/
theorem Delivery.deleted_of_permits {d : Delivery} {call : FinishCall}
    (hkind : d.job.kind = .deleteObject) (hpermit : d.permits call = true)
    (hok : call.failed = none) : d.deleted = true := by
  cases call with
  | failure e => cases hok
  | success result =>
      cases result with
      | none => simpa [Delivery.permits, hkind] using hpermit
      | some r => simp [Delivery.permits, hkind] at hpermit

/-- A failed attempt leaves its job unfinished. -/
theorem settle_failure_state (now : Timestamp) (jitter : Fin 2000001) (failure : OCRFailure)
    (job : Job) : (settle now jitter (some failure) job).state ≠ .succeeded := by
  simp only [settle]
  split <;> simp

/-- What becomes of a cleanup job in an event that is no statement of a call: it keeps its name, and
succeeds only when a worker that has seen the object deleted completes it. -/
theorem JobMove.cover {w : World} {id : Uuid} {e : Event} {j : Job} {row' : Option Job}
    (hm : JobMove w id e (some j) row') (hevent : ∀ c move, e ≠ .upload c move) :
    ∃ j', row' = some j' ∧ j'.kind = j.kind ∧ j'.storageKey = j.storageKey ∧
      (j.kind = .deleteObject → j.state ≠ .succeeded → j'.state = .succeeded →
        ∃ n d call jitter draw, e = .finish n call jitter draw ∧ w.deliveries n = some d ∧
          d.job.id = id ∧ d.permits call = true ∧ call.failed = none) := by
  cases hm with
  | same => exact ⟨j, rfl, rfl, rfl, fun _ hlive hdone => absurd hdone hlive⟩
  | taken => exact ⟨_, rfl, rfl, rfl, fun _ _ hdone => (nomatch hdone)⟩
  | discarded _ _ hkind =>
      refine ⟨_, rfl, rfl, rfl, fun hcleanup => ?_⟩
      rw [hkind] at hcleanup
      cases hcleanup
  | @settled delivery call jitter draw d _ hd hid _ _ hpermit =>
      refine ⟨_, rfl, settle_kind .., settle_storageKey .., fun _ _ hdone => ?_⟩
      refine ⟨delivery, d, call, jitter, draw, rfl, hd, hid, hpermit, ?_⟩
      cases hfailed : call.failed with
      | none => rfl
      | some failure =>
          rw [hfailed] at hdone
          exact absurd hdone (settle_failure_state _ _ _ _)
  | recovered =>
      exact ⟨_, rfl, settle_kind .., settle_storageKey .., fun _ _ hdone =>
        absurd hdone (settle_failure_state _ _ _ _)⟩
  | stamped => exact ⟨_, rfl, rfl, rfl, fun _ hlive hdone => absurd hdone hlive⟩
  | rearmed => exact ⟨_, rfl, rfl, rfl, fun _ _ hdone => (nomatch hdone)⟩
  | rewritten => exact absurd rfl (hevent _ _)

/-- A live document stays, or its deletion files a cleanup job under its name. -/
theorem Effect.document_leaves {env : Env} {w w' : World} {e : Event} (he : Effect env w e w')
    {id : Uuid} {d : Document} (hd : w.db.documents.find id = some d) :
    Covered w'.db d.storageKey := by
  have hlive : w.db.documents.find d.id = some d := (Db.document_id hd).symm ▸ hd
  cases he.documentsWrite with
  | same h => exact .inl ⟨id, d, h ▸ hd, rfl⟩
  | @written row row' hrow h hid hkey =>
      by_cases hsame : d.id = row'.id
      · obtain rfl : row = d := by
          rw [hid] at hsame
          rw [hsame, hrow] at hlive
          exact Option.some.inj hlive
        exact .inl ⟨row.id, row', by rw [h, Table.find_put]; exact if_pos hsame, hkey⟩
      · exact .inl ⟨d.id, d, by rw [h, Table.find_put]; exact (if_neg hsame).trans hlive, rfl⟩
  | @deleted jobId requestId now row hrow hjob h =>
      by_cases hsame : d.id = row.id
      · obtain rfl : row = d := by
          rw [hsame, hrow] at hlive
          exact Option.some.inj hlive
        exact .inr ⟨jobId, _, hjob, rfl, rfl, nofun⟩
      · exact .inl ⟨d.id, d, by rw [h, Table.find_erase, if_neg hsame, hlive], rfl⟩
  | @created c u ids actual now hu hpc hadm h =>
      refine .inl ⟨d.id, d, ?_, rfl⟩
      rw [h, Table.find_put]
      refine (if_neg fun hid => ?_).trans hlive
      -- The primary key admits no second row.
      have hmem := (Table.find_eq_some_iff.mp hd).1
      have hall := (Bool.and_eq_true_iff.mp hadm).2
      have hne := List.all_eq_true.mp hall d hmem
      simp only [Bool.and_eq_true, decide_eq_true_eq] at hne
      exact absurd hid hne.1.1

/-- A cleanup job keeps its name, and its success hands the object over: a worker has seen it deleted,
or the call that owns the job as its intent commits the document. -/
theorem Effect.job_cover {env : Env} {w w' : World} {e : Event} (hw : Known w)
    (he : Effect env w e w') (hnamed : ∀ c u ids actual, w.uploads c = some u → u.pc ≠ .saved ids actual)
    {id : Uuid} {j : Job} (hj : w.db.jobs.find id = some j) :
    ∃ j', w'.db.jobs.find id = some j' ∧ j'.kind = j.kind ∧ j'.storageKey = j.storageKey ∧
      (j.kind = .deleteObject → j.state ≠ .succeeded → j'.state = .succeeded →
        (∃ n d call jitter draw, e = .finish n call jitter draw ∧ w.deliveries n = some d ∧
          d.job.id = id ∧ d.permits call = true ∧ call.failed = none) ∨
        ∃ c u ids actual d, w.uploads c = some u ∧ u.pc = .named ids actual ∧ ids.intentId = id ∧
          w'.db.documents.find ids.documentId = some d ∧ d.storageKey = actual) := by
  by_cases hevent : ∃ c move, e = .upload c move
  · obtain ⟨c, move, rfl⟩ := hevent
    have hdrawn : id ∈ w.drawn := Db.job_id hj ▸ (hw.db.jobs id j hj).id
    cases he with
    | idle _ hupload => exact absurd rfl (hupload c move)
    | @advanced _ _ u u' db' store' hf hu hhonest ha =>
        obtain ⟨j', hj', hkind, hkey, hstate⟩ :=
          ha.cover (fun ids actual => hnamed c u ids actual hu) hj fun hmem => hf.2 _ hmem hdrawn
        refine ⟨j', hj', hkind, hkey, fun _ hlive hdone => .inr ?_⟩
        obtain hsame | ⟨ids, actual, d, hpc, hid, hd, hactual⟩ := hstate
        · exact absurd (hsame.symm.trans hdone) hlive
        · exact ⟨c, u, ids, actual, d, hu, hpc, hid, hd, hactual⟩
  · have hmove := he.jobMove hw id
    rw [hj] at hmove
    obtain ⟨j', hj', hkind, hkey, hdone⟩ :=
      hmove.cover fun c move hq => hevent ⟨c, move, hq⟩
    exact ⟨j', hj', hkind, hkey, fun h₁ h₂ h₃ => .inl (hdone h₁ h₂ h₃)⟩

/-! ## The invariant -/

/-- Every object is covered, and what workers know about names and objects is true. -/
structure Tracked (w : World) : Prop where
  cover : ∀ key content, w.store key = some content → Covered w.db key
  named : ∀ c u ids actual, w.uploads c = some u → u.pc ≠ .saved ids actual
  held : ∀ n x, w.deliveries n = some x →
    ∃ j, w.db.jobs.find x.job.id = some j ∧ j.storageKey = x.job.storageKey
  gone : ∀ n x key, w.deliveries n = some x → x.deleted = true → x.job.storageKey = some key →
    w.store key = none

/-- The empty store holds nothing. -/
theorem tracked_init : Tracked World.init where
  cover _ _ hstore := nomatch hstore
  named _ _ _ _ hu := nomatch hu
  held _ _ hx := nomatch hx
  gone _ _ _ hx := nomatch hx

namespace Tracked

variable {env : Env} {h : List Step} {x : Step}

/-- An object that survives the step stays covered by rows. -/
theorem step_db (hr : History env h x.pre) (hv : x.Valid (World.perform env))
    (hg : ∀ y ∈ h, Graceful y) (ht : Tracked x.pre) {key : StorageKey}
    (hstore : x.post.store key ≠ none) (hcover : Covered x.pre.db key) : Covered x.post.db key := by
  have he := World.perform_effect hv
  obtain ⟨hw, hp⟩ := provenance_of_history hr
  obtain ⟨id, d, hd, rfl⟩ | ⟨id, j, hj, hkind, hkey, hlive⟩ := hcover
  · exact he.document_leaves hd
  · obtain ⟨j', hj', hkind', hkey', hdone⟩ := he.job_cover hw ht.named hj
    by_cases hstate : j'.state = .succeeded
    · obtain ⟨n, d, call, jitter, draw, hevent, hd, hid, hpermit, hok⟩ |
        ⟨c, u, ids, actual, d, hu, hpc, hid, hd, hactual⟩ := hdone hkind hlive hstate
      · -- A worker completes the job: it has seen the object deleted, and nobody wrote it again.
        exfalso
        obtain ⟨row, hrow, hrkind, -⟩ := hp.held n d hd
        obtain ⟨row', hrow', hrkey⟩ := ht.held n d hd
        rw [hid, hj] at hrow hrow'
        cases hrow
        cases hrow'
        have hdeleted := Delivery.deleted_of_permits (hrkind.symm.trans hkind) hpermit hok
        have hnone := ht.gone n d key hd hdeleted (hrkey.symm.trans hkey)
        rw [hevent] at he
        generalize x.post = w' at he hstore
        cases he with
        | idle | settled => exact hstore hnone
      · -- The call commits the document under the name of its intent.
        obtain ⟨row, hrow, -, hrkey, -⟩ := pending_intent hr hg hu (.inr hpc)
        rw [hid, hj] at hrow
        cases hrow
        rw [hkey] at hrkey
        cases hrkey
        exact .inl ⟨_, d, hd, hactual⟩
    · exact .inr ⟨id, j', hj', hkind'.trans hkind, hkey'.trans hkey, hstate⟩

/-- **One step keeps every object covered.** -/
theorem step_cover (hr : History env h x.pre) (hv : x.Valid (World.perform env))
    (hg : ∀ y ∈ h, Graceful y) (hk : KeepsName x) (ht : Tracked x.pre) {key : StorageKey}
    {content : Bytes} (hstore : x.post.store key = some content) : Covered x.post.db key := by
  have he := World.perform_effect hv
  have hw := known_of_history hr
  have hold : x.pre.store key = some content → Covered x.post.db key := fun hpre =>
    ht.step_db hr hv hg (by rw [hstore]; nofun) (ht.cover key content hpre)
  have hmove := he.storeMove
  generalize hevent : x.event = e, hstore' : x.post.store = store', x.post.db = db' at hmove hold
  cases hmove with
  | same => exact hold (hstore' ▸ hstore)
  | @saved c actual ack u ids hu hpc =>
      rw [hstore'] at hstore
      by_cases hq : key = actual
      · have hids : u.ids = some ids := hw.coherent c u hu ids (by rw [hpc]; rfl)
        have hname := hk c actual ack u ids hevent hu hids
        obtain ⟨j, hj, hkind, hkey, hstate⟩ := pending_intent hr hg hu (.inl ⟨hpc, hname⟩)
        exact .inr ⟨_, j, hj, hkind, hq ▸ hkey, by rw [hstate]; nofun⟩
      · rw [Function.update_of_ne hq] at hstore
        exact hold hstore
  | @deleted n ack d key' hd hkey =>
      rw [hstore'] at hstore
      by_cases hq : key = key'
      · rw [hq, Function.update_self] at hstore
        cases hstore
      · rw [Function.update_of_ne hq] at hstore
        exact hold hstore

/-- A store that keeps the names it is asked for leaves nothing to rename. -/
theorem step_named (hr : History env h x.pre) (hv : x.Valid (World.perform env)) (hk : KeepsName x)
    (ht : Tracked x.pre) {c : Nat} {u' : Upload} {ids : UploadIds} {actual : StorageKey}
    (hu' : x.post.uploads c = some u') : u'.pc ≠ .saved ids actual := by
  intro hpc'
  have hw := known_of_history hr
  obtain ⟨hu, -⟩ | ⟨-, _, _, _, _, -, rfl⟩ | ⟨move, u, hevent, -, hu, ha⟩ :=
    (World.perform_effect hv).upload_cases hu'
  · exact ht.named c u' ids actual hu hpc'
  · have hids : UploadPc.ids (.saved ids actual) = none := by
      rw [← hpc']
      exact Upload.pc_ids_enter ..
    cases hids
  · have hmove := ha.pcMove
    have hids : ∀ ids, u.pc.ids = some ids → u.ids = some ids := hw.coherent c u hu
    rw [hpc'] at hmove
    generalize u.pc = pc at hmove hids
    cases hmove with
    | saved hname => exact hname (hk c actual .ok u ids hevent hu (hids ids rfl))

/-- What a delivery holds names the same object as the row. -/
theorem step_held (hr : History env h x.pre) (hv : x.Valid (World.perform env))
    (ht : Tracked x.pre) {n : Nat} {d' : Delivery} (hd' : x.post.deliveries n = some d') :
    ∃ j, x.post.db.jobs.find d'.job.id = some j ∧ j.storageKey = d'.job.storageKey := by
  have he := World.perform_effect hv
  have hw := known_of_history hr
  obtain ⟨d, hd, hjob, -⟩ | ⟨jobId, token, draw, -, -, -, job, hjob, -, rfl, hjob'⟩ :=
    he.delivery_cases hd'
  · obtain ⟨j, hj, hkey⟩ := ht.held n d hd
    obtain ⟨j', hj', -, hkey', -⟩ := he.job_cover hw ht.named hj
    rw [hjob]
    exact ⟨j', hj', hkey'.trans hkey⟩
  · have hid : job.id = jobId := Db.job_id hjob
    have hid' : (take draw token job).id = jobId := hid
    refine ⟨take draw token job, ?_, rfl⟩
    rw [hid']
    exact hjob'

/-- What a worker has seen deleted stays deleted: only the call that owns the name could write it,
and a worker never holds the intent of a running call. -/
theorem step_gone (hr : History env h x.pre) (hv : x.Valid (World.perform env))
    (hg : ∀ y ∈ h, Graceful y) (ht : Tracked x.pre) {n : Nat} {d' : Delivery} {key : StorageKey}
    (hd' : x.post.deliveries n = some d') (hdeleted : d'.deleted = true)
    (hkey : d'.job.storageKey = some key) : x.post.store key = none := by
  have he := World.perform_effect hv
  have hw := known_of_history hr
  obtain ⟨hm, hres⟩ := reserved_of_history hr hg
  obtain ⟨d, hd, hjob, -, hdel⟩ | ⟨_, _, _, -, -, -, _, -, -, rfl, -⟩ := he.delivery_cases hd'
  · rw [hjob] at hkey
    have hholds : x.pre.Refers key.mark (.delivery n) := ⟨d, key, hd, hkey, rfl⟩
    have hnext := he.object_next hw (hm _ _ hholds) (nonce_ne (hres.no_call hholds nofun nofun))
    obtain hold | hevent := hdel hdeleted
    · obtain hsame | ⟨hnone, -⟩ := hnext
      · exact hsame.trans (ht.gone n d key hd hold hkey)
      · exact hnone
    · -- The deletion has just been acknowledged.
      rw [hevent] at he
      generalize x.post = w' at he hd'
      cases he with
      | idle =>
          rw [World.drew_deliveries, hd] at hd'
          cases hd'
          exact ht.gone n _ key hd hdeleted hkey
      | objectDeleted hd₁ _ hkey₁ =>
          rw [hd] at hd₁
          cases hd₁
          rw [hkey] at hkey₁
          cases hkey₁
          exact Function.update_self ..
  · cases hdeleted

/-- **One step keeps track of every object.** -/
theorem step (hr : History env h x.pre) (hv : x.Valid (World.perform env))
    (hg : ∀ y ∈ h, Graceful y) (hk : KeepsName x) (ht : Tracked x.pre) : Tracked x.post where
  cover _ _ hstore := ht.step_cover hr hv hg hk hstore
  named _ _ _ _ hu := ht.step_named hr hv hk hu
  held _ _ hd := ht.step_held hr hv hd
  gone _ _ _ hd hdeleted hkey := ht.step_gone hr hv hg hd hdeleted hkey

end Tracked

/-! ## The law -/

/-- **No untracked object.** In every run in which the store keeps the names it is asked for and no
worker claims the intent of a call that is still running, every object in the store carries the name
of a live document or of a cleanup job that has not succeeded. -/
theorem no_untracked_object {env : Env} {h : List Step} {w : World} (hr : History env h w)
    (hg : ∀ x ∈ h, Graceful x) (hk : ∀ x ∈ h, KeepsName x) {key : StorageKey} {content : Bytes}
    (hstore : w.store key = some content) :
    (∃ id d, w.db.documents.find id = some d ∧ d.storageKey = key) ∨
      ∃ id j, w.db.jobs.find id = some j ∧ j.kind = .deleteObject ∧ j.storageKey = some key ∧
        j.state ≠ .succeeded := by
  have ht : Tracked w := by
    refine hr.induct_past (fun _ w => Tracked w) tracked_init
      (fun h x hr hpast hv (hx : Graceful x ∧ KeepsName x) ht => ?_) fun x hx => ⟨hg x hx, hk x hx⟩
    exact ht.step hr hv (fun y hy => (hpast y hy).1) hx.2
  exact ht.cover key content hstore

/-- A run keeps names when every save in it does. -/
theorem keepsName_of_all {h : List Step}
    (hall : ∀ x ∈ h, (match x.event with
      | .upload c (.save actual _) =>
          (x.pre.uploads c).all fun u => u.ids.all fun ids => actual = u.storageKey ids
      | _ => true) = true) : ∀ x ∈ h, KeepsName x := by
  intro x hx c actual ack u ids hevent hu hids
  have hkeep := hall x hx
  rw [hevent] at hkeep
  simpa [hu, hids] using hkeep

/-- An upload whose object lands in the store although the store raises. -/
def sampleLanded : Option (List Step × World) :=
  Run.execute (World.perform sampleEnv) ([], .init)
    [.enterUpload 0 sampleUser sampleData (some (lit "k")) 100, .upload 0 (.check false),
      .upload 0 (.intend ⟨1, 2, 3⟩ 0 .ok), .upload 0 (.save (.requested 7 1 2) .unacknowledged),
      .upload 0 (.expedite 5000 .ok)]

/-- The failed upload of the sample can happen. -/
theorem sampleLanded_isSome : sampleLanded.isSome = true := by decide +kernel

/-- The history of that upload. -/
def sampleLandedHistory : List Step := (sampleLanded.get sampleLanded_isSome).1

/-- The state after that upload. -/
def sampleLandedWorld : World := (sampleLanded.get sampleLanded_isSome).2

/-- It is a run of the system. -/
theorem sampleLanded_history : History sampleEnv sampleLandedHistory sampleLandedWorld :=
  Run.of_isSome rfl sampleLanded_isSome

/-- The object that landed has no document, and is tracked by the intent. -/
theorem no_untracked_object_sample :
    sampleLandedWorld.store (.requested 7 1 2) = some sampleData.file.content ∧
    ((∃ id d, sampleLandedWorld.db.documents.find id = some d ∧
        d.storageKey = .requested 7 1 2) ∨
      ∃ id j, sampleLandedWorld.db.jobs.find id = some j ∧ j.kind = .deleteObject ∧
        j.storageKey = some (.requested 7 1 2) ∧ j.state ≠ .succeeded) := by
  have hstore : sampleLandedWorld.store (.requested 7 1 2) = some sampleData.file.content := by
    decide +kernel
  refine ⟨hstore, no_untracked_object sampleLanded_history ?_ ?_ hstore⟩
  · exact graceful_of_ocr sampleLanded_history (by decide +kernel)
  · exact keepsName_of_all (by decide +kernel)

end MiniDms
