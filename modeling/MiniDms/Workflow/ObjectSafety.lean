import MiniDms.Workflow.StorageKeys

/-! # A live document never loses its object

The object of a document is written by the upload that creates the document, under a mark that
nobody else refers to. When the document is committed, the only job that names the object is the
intent of that upload, and the same transaction completes it. Nothing revives a completed job, so no
worker ever holds the name until the document itself is deleted. -/

namespace MiniDms

open Python Relational TransitionSystem

/-! ## The store in one event -/

/-- The moves of the store under one event: what is written or deleted, and by whom. -/
inductive StoreMove (w : World) : Event → Db → Store → Prop
  | same {e : Event} {db' : Db} : StoreMove w e db' w.store
  | saved {c : Nat} {actual : StorageKey} {ack : Ack} {u : Upload} {ids : UploadIds}
      (hu : w.uploads c = some u) (hpc : u.pc = .intended ids) :
      StoreMove w (.upload c (.save actual ack)) w.db
        (Function.update w.store actual (some u.data.file.content))
  | deleted {n : Nat} {ack : Ack} {x : Delivery} {key : StorageKey} (hx : w.deliveries n = some x)
      (hkey : x.job.storageKey = some key) :
      StoreMove w (.deleteObject n ack) w.db (Function.update w.store key none)

/-- **Every event moves the store.** -/
theorem Effect.storeMove {env : Env} {w w' : World} {e : Event} (he : Effect env w e w') :
    StoreMove w e w'.db w'.store := by
  cases he with
  | advanced hf hu hhonest ha =>
      cases ha with
      | saved hpc => exact .saved hu hpc
      | _ => exact .same
  | objectDeleted hx hkind hkey =>
      dsimp only
      split
      · exact .deleted hx hkey
      · exact .same
  | _ => exact .same

/-- An object under a drawn mark that no call is about to save under stays as it is, or is deleted by
a delivery that holds it. -/
theorem Effect.object_next {env : Env} {w w' : World} {e : Event} (hw : Known w)
    (he : Effect env w e w') {key : StorageKey} (hdrawn : key.mark ∈ w.drawn)
    (hcalls : ∀ c u ids, w.uploads c = some u → u.pc = .intended ids → ids.nonce ≠ key.mark) :
    w'.store key = w.store key ∨
      (w'.store key = none ∧ ∃ n, w.Refers key.mark (.delivery n)) := by
  have hmove := he.storeMove
  generalize w'.store = store', w'.db = db' at hmove
  cases hmove with
  | same => exact .inl rfl
  | @saved c actual ack u ids hu hpc =>
      left
      have hne : key ≠ actual := by
        rintro rfl
        have hids : u.ids = some ids := hw.coherent c u hu ids (by rw [hpc]; rfl)
        obtain ⟨hhonest, hf, -⟩ := he.honest hu
        obtain hmark | hnew := mark_of_save hids hhonest
        · exact hcalls c u ids hu hpc hmark.symm
        · exact hf.2 _ hnew hdrawn
      exact Function.update_of_ne hne _ _
  | @deleted n ack x key' hx hkey =>
      by_cases hq : key = key'
      · subst hq
        exact .inr ⟨Function.update_self .., n, x, key, hx, hkey, rfl⟩
      · exact .inl (Function.update_of_ne hq _ _)

/-- A holder that is no call and no job keeps every call away from its mark. -/
theorem Reserved.no_call {w : World} (hres : Reserved w) {m : Uuid} {y : Holder} (hy : w.Refers m y)
    (hcall : ∀ c, y ≠ .call c) (hjob : ∀ id, y ≠ .job id) (c : Nat) : ¬ w.Refers m (.call c) := by
  rintro ⟨u, hu, hmark⟩
  obtain ⟨ids, hids⟩ := UploadPc.ids_of_mark hmark
  obtain hq | hq := hres c u ids m hu hids hmark y hy
  · exact hcall c hq
  · exact hjob ids.intentId hq

/-- A mark that no call refers to is not the nonce of a call about to save. -/
theorem nonce_ne {w : World} {m : Uuid} (h : ∀ c, ¬ w.Refers m (.call c)) (c : Nat) (u : Upload)
    (ids : UploadIds) (hu : w.uploads c = some u) (hpc : u.pc = .intended ids) : ids.nonce ≠ m := by
  intro hnonce
  refine h c ⟨u, hu, ?_⟩
  rw [hpc, ← hnonce]
  rfl

/-! ## Objects of running calls -/

/-- The object a call has stored and not yet committed. -/
def UploadPc.object : UploadPc → Option StorageKey
  | .saved _ actual | .named _ actual => some actual
  | _ => none

/-- A call that has an object has the mark of its name. -/
theorem UploadPc.mark_of_object {pc : UploadPc} {key : StorageKey} (h : pc.object = some key) :
    pc.mark = some key.mark := by
  cases pc with
  | saved | named => exact congrArg (Option.map StorageKey.mark) h
  | _ => cases h

/-- A call on its way to its commit finds the object it has stored. -/
def Saved (w : World) : Prop :=
  ∀ c u key, w.uploads c = some u → u.pc.object = some key →
    w.store key = some u.data.file.content

/-- The object of a call after a statement was its object before, or has just been saved. -/
theorem Upload.PcMove.object {u : Upload} {pc pc' : UploadPc} {move : UploadMove}
    (hm : PcMove u pc move pc') {key : StorageKey} (hkey : pc'.object = some key) :
    pc.object = some key ∨ move = .save key .ok := by
  cases hm with
  | saved | named =>
      cases hkey
      exact .inr rfl
  | renamed => exact .inl hkey
  | _ => cases hkey

/-- A statement of a call leaves the object it has stored. -/
theorem Upload.Advance.object {env : Env} {db db' : Db} {store store' : Store} {u u' : Upload}
    {move : UploadMove} (ha : Advance env db store u move db' store' u') {key : StorageKey}
    (hkey : u'.pc.object = some key) :
    u'.data = u.data ∧
      (store' key = some u.data.file.content ∨ (u.pc.object = some key ∧ store' = store)) := by
  obtain hold | rfl := ha.pcMove.object hkey
  · cases ha with
    | saved hpc =>
        rw [hpc] at hold
        cases hold
    | _ => exact ⟨rfl, .inr ⟨hold, rfl⟩⟩
  · cases ha with
    | saved => exact ⟨rfl, .inl (Function.update_self ..)⟩

/-- One event leaves the objects of running calls. -/
theorem Saved.step {env : Env} {w w' : World} {e : Event} (hw : Known w) (hm : MarksDrawn w)
    (hres : Reserved w) (h : Saved w) (he : Effect env w e w') : Saved w' := by
  intro c u' key hu' hkey
  -- Nobody but the call refers to the object it has stored.
  have hold : ∀ u, w.uploads c = some u → u.pc.object = some key →
      w'.store key = w.store key := by
    intro u hu hpc
    have hmark := UploadPc.mark_of_object hpc
    obtain ⟨ids, hids⟩ := UploadPc.ids_of_mark hmark
    have hown := hres c u ids key.mark hu hids hmark
    have hcall : w.Refers key.mark (.call c) := ⟨u, hu, hmark⟩
    have hcalls : ∀ c₁ u₁ ids₁, w.uploads c₁ = some u₁ → u₁.pc = .intended ids₁ →
        ids₁.nonce ≠ key.mark := by
      intro c₁ u₁ ids₁ hu₁ hpc₁ hnonce
      have hmark₁ : u₁.pc.mark = some key.mark := by
        rw [hpc₁, ← hnonce]
        rfl
      obtain hq | hq := hown (.call c₁) ⟨u₁, hu₁, hmark₁⟩
      · injection hq with hq
        subst hq
        rw [hu] at hu₁
        cases hu₁
        rw [hpc₁] at hpc
        cases hpc
      · cases hq
    obtain hsame | ⟨-, n, hn⟩ := he.object_next hw (hm _ _ hcall) hcalls
    · exact hsame
    · obtain hq | hq := hown _ hn <;> cases hq
  obtain ⟨hu, -⟩ | ⟨-, _, _, _, _, -, rfl⟩ | ⟨move, u, rfl, -, hu, ha⟩ := he.upload_cases hu'
  · rw [hold u' hu hkey]
    exact h c u' key hu hkey
  · obtain ⟨ids, hids⟩ := UploadPc.ids_of_mark (UploadPc.mark_of_object hkey)
    rw [Upload.pc_ids_enter] at hids
    cases hids
  · obtain ⟨hdata, hnew | ⟨hpc, hstore⟩⟩ := ha.object hkey
    · rw [hdata]
      exact hnew
    · rw [hdata, hstore]
      exact h c u key hu hpc

/-- Before the intent a call has drawn no identifiers. -/
def Undrawn (w : World) : Prop :=
  ∀ c u, w.uploads c = some u → u.pc = .entered ∨ u.pc = .checked → u.ids = none

/-- Only the passed check leads to a call without identifiers. -/
theorem Upload.PcMove.entered {u : Upload} {pc pc' : UploadPc} {move : UploadMove}
    (hm : PcMove u pc move pc') (hpc' : pc' = .entered ∨ pc' = .checked) :
    pc = .entered ∧ move = .check false := by
  cases hm with
  | checkPassed => exact ⟨rfl, rfl⟩
  | _ => obtain hq | hq := hpc' <;> cases hq

/-- One step leaves the calls before their intent without identifiers. -/
theorem Undrawn.step {env : Env} {w w' : World} {e : Event} (h : Undrawn w)
    (he : Effect env w e w') : Undrawn w' := by
  intro c u' hu' hpc'
  obtain ⟨hu, -⟩ | ⟨-, _, _, _, _, -, rfl⟩ | ⟨move, u, -, -, hu, ha⟩ := he.upload_cases hu'
  · exact h c u' hu hpc'
  · rfl
  · obtain ⟨hpc, rfl⟩ := ha.pcMove.entered hpc'
    have hids := h c u hu (.inl hpc)
    generalize w'.db = db', w'.store = store' at ha
    cases ha <;> exact hids

/-- A call keeps its data, and the identifiers it has drawn. -/
theorem Effect.call_stays {env : Env} {w w' : World} {e : Event} (h : Undrawn w)
    (he : Effect env w e w') {c : Nat} {u : Upload} {ids : UploadIds} (hu : w.uploads c = some u)
    (hids : u.ids = some ids) :
    ∃ u', w'.uploads c = some u' ∧ u'.ids = some ids ∧ u'.data = u.data := by
  obtain ⟨hstay, -⟩ | ⟨move, u', -, hu', ha⟩ := he.upload_stays hu
  · exact ⟨u, hstay, hids, rfl⟩
  · refine ⟨u', hu', ?_⟩
    generalize w'.db = db', w'.store = store' at ha
    cases ha with
    | intended hpc | intendLost hpc =>
        rw [h c u hu (.inr hpc)] at hids
        cases hids
    | _ => exact ⟨hids, rfl⟩

/-! ## Objects of live documents -/

/-- The document has its object, and nobody is going to delete it. -/
structure Stored (w : World) (d : Document) : Prop where
  object : ∃ c u ids, w.uploads c = some u ∧ u.ids = some ids ∧ ids.documentId = d.id ∧
    w.store d.storageKey = some u.data.file.content
  jobs : ∀ k, w.Refers d.storageKey.mark (.job k) → w.db.jobState k = some .succeeded
  deliveries : ∀ n, ¬ w.Refers d.storageKey.mark (.delivery n)
  documents : ∀ k, w.Refers d.storageKey.mark (.document k) → k = d.id

/-- A completed job stays completed. -/
theorem Effect.succeeded_stays {env : Env} {w w' : World} {e : Event} (hw : Known w)
    (he : Effect env w e w') {k : Uuid} (h : w.db.jobState k = some .succeeded) :
    w'.db.jobState k = some .succeeded := by
  obtain ⟨j, hj, hstate⟩ := Option.map_eq_some_iff.mp h
  have hmove := he.jobMove hw k
  rw [hj] at hmove
  rw [Db.jobState]
  generalize w'.db.jobs.find k = row' at hmove
  cases hmove with
  | same | stamped => exact congrArg some hstate
  | taken _ _ hc | discarded _ hc =>
      rw [hc.1] at hstate
      cases hstate
  | settled _ _ _ hrunning =>
      rw [hrunning] at hstate
      cases hstate
  | recovered _ _ hexp =>
      rw [running_of_expired hexp] at hstate
      cases hstate
  | rearmed _ hfailed =>
      rw [hfailed] at hstate
      cases hstate
  | rewritten _ _ _ hf =>
      cases hf with
      | complete => rfl
      | _ => exact congrArg some hstate

/-- The call that commits a document completes its intent, leaves the store and inserts a row that the
constraints admit. -/
theorem Effect.commits {env : Env} {w w' : World} {c : Nat} {draw : Draw} {jobId : Uuid}
    {fault : Option Statement} {ack : Ack} (hw : Known w) (hp : Provenance w)
    (he : Effect env w (.upload c (.commit draw jobId fault ack)) w') {u : Upload}
    {ids : UploadIds} {actual : StorageKey} (hu : w.uploads c = some u)
    (hpc : u.pc = .named ids actual) (hnone : w.db.documents.find ids.documentId = none)
    {d : Document} (hd : w'.db.documents.find ids.documentId = some d) :
    w'.db.jobState ids.intentId = some .succeeded ∧ w'.store = w.store ∧
      w.db.admits (.indexed env (u.document ids actual draw.now) []) = true := by
  have hids : u.pc.ids = some ids := by rw [hpc]; rfl
  obtain ⟨j, hj, -⟩ := hp.intents c u ids hu hids
  obtain ⟨-, hno⟩ | ⟨move, u', hmove, hu', ha⟩ := he.upload_stays hu
  · exact absurd rfl (hno _)
  · cases hmove
    obtain ⟨j', hj', -⟩ := he.job_stays hw hj
    generalize hdb : w'.db = db', w'.store = store' at ha
    rw [hdb] at hd hj'
    cases ha with
    | refused | rolledBack | replayed =>
        cases hnone.symm.trans hd
    | @created ids' actual' _ _ _ _ hpc' _ hadm =>
        rw [hpc] at hpc'
        cases hpc'
        refine ⟨?_, rfl, hadm⟩
        rw [Db.jobState, hj']
        rw [Upload.writeDocument, Db.find_updateJob, if_pos rfl] at hj'
        obtain ⟨j₁, -, rfl⟩ := Option.map_eq_some_iff.mp hj'
        rfl

/-- A document that stays keeps its object: the reference of the document itself keeps every call and
every worker away from it. -/
theorem Stored.kept {env : Env} {w w' : World} {e : Event} (hw : Known w) (hp : Provenance w)
    (hm : MarksDrawn w) (hres : Reserved w) (hun : Undrawn w) (he : Effect env w e w')
    {d d' : Document} (hd : w.db.documents.find d.id = some d) (hsame : SameIdentity d d')
    (hid : d'.id = d.id) (hd' : w'.db.documents.find d.id = some d') (h : Stored w d) :
    Stored w' d' := by
  have hself : w.Refers d.storageKey.mark (.document d.id) := ⟨d, hd, rfl⟩
  have hdrawn := hm _ _ hself
  -- A call that refers to the mark would have it reserved.
  have hcalls := hres.no_call hself nofun nofun
  have hdraws : ∀ {c move}, e = .upload c move → d.storageKey.mark ∉ move.draws := by
    rintro c move rfl hdraw
    exact (he.draws hdraw).1 hdrawn
  have hkey : d'.storageKey = d.storageKey := hsame.storageKey.symm
  refine ⟨?_, fun k hk => ?_, fun n hn => ?_, fun k hk => ?_⟩
  · obtain ⟨c, u, ids, hu, hids, hdoc, hstore⟩ := h.object
    obtain ⟨u', hu', hids', hdata⟩ := he.call_stays hun hu hids
    refine ⟨c, u', ids, hu', hids', hdoc.trans hid.symm, ?_⟩
    rw [hkey, hdata]
    obtain hsame | ⟨-, n, hn⟩ := he.object_next hw hdrawn (nonce_ne hcalls)
    · exact hsame.trans hstore
    · exact absurd hn (h.deliveries n)
  · rw [hkey] at hk
    cases he.origin hw hp hk with
    | kept hk => exact he.succeeded_stays hw (h.jobs k hk)
    | drawn hevent hdraw => exact absurd hdraw (hdraws hevent)
    | renamed _ _ _ hc => exact absurd hc (hcalls _)
    | cleanup hother hgone =>
        rw [h.documents _ hother, hd'] at hgone
        cases hgone
  · rw [hkey] at hn
    cases he.origin hw hp hn with
    | kept hn => exact h.deliveries n hn
    | drawn hevent hdraw => exact hdraws hevent hdraw
    | claimed _ hj hpending =>
        rw [h.jobs _ hj] at hpending
        cases hpending
  · rw [hkey] at hk
    cases he.origin hw hp hk with
    | kept hk => exact (h.documents k hk).trans hid.symm
    | drawn hevent hdraw => exact absurd hdraw (hdraws hevent)
    | created _ _ _ hc => exact absurd hc (hcalls _)

/-- A document is committed with its object, which only the completed intent refers to. -/
theorem Stored.created {env : Env} {w w' : World} {c : Nat} {draw : Draw} {jobId : Uuid}
    {fault : Option Statement} {ack : Ack} (hw : Known w) (hp : Provenance w) (hm : MarksDrawn w)
    (hres : Reserved w) (hun : Undrawn w) (hsaved : Saved w)
    (he : Effect env w (.upload c (.commit draw jobId fault ack)) w') {u : Upload}
    {ids : UploadIds} {actual : StorageKey} (hu : w.uploads c = some u)
    (hpc : u.pc = .named ids actual) (hnone : w.db.documents.find ids.documentId = none)
    {d : Document} (hd : w'.db.documents.find ids.documentId = some d)
    (hkey : d.storageKey = actual) : Stored w' d := by
  have hids : u.pc.ids = some ids := by rw [hpc]; rfl
  have hmark : u.pc.mark = some actual.mark := by rw [hpc]; rfl
  have hown := hres c u ids actual.mark hu hids hmark
  have hdrawn : actual.mark ∈ w.drawn := hm _ _ (show w.Refers _ (.call c) from ⟨u, hu, hmark⟩)
  obtain ⟨hcompleted, hstore, -⟩ := he.commits hw hp hu hpc hnone hd
  have hid : d.id = ids.documentId := Db.document_id hd
  refine ⟨?_, fun k hk => ?_, fun n hn => ?_, fun k hk => ?_⟩
  · obtain ⟨u', hu', hids', hdata⟩ := he.call_stays hun hu (hw.coherent c u hu ids hids)
    refine ⟨c, u', ids, hu', hids', hid.symm, ?_⟩
    rw [hstore, hkey, hdata]
    exact hsaved c u actual hu (by rw [hpc]; rfl)
  · rw [hkey] at hk
    cases he.origin hw hp hk with
    | kept hk =>
        obtain hq | hq := hown _ hk
        · cases hq
        · injection hq with hq
          rw [hq]
          exact hcompleted
    | drawn hevent hdraw =>
        injection hevent with _ hmove
        subst hmove
        exact absurd hdrawn (he.draws hdraw).1
    | renamed hevent hu₁ hids₁ =>
        injection hevent with hc
        subst hc
        rw [hu] at hu₁
        cases hu₁
        rw [hids] at hids₁
        cases hids₁
        exact hcompleted
    | cleanup hother => obtain hq | hq := hown _ hother <;> cases hq
  · rw [hkey] at hn
    cases he.origin hw hp hn with
    | kept hn => obtain hq | hq := hown _ hn <;> cases hq
    | drawn hevent hdraw =>
        injection hevent with _ hmove
        subst hmove
        exact (he.draws hdraw).1 hdrawn
    | claimed hclaimed => cases hclaimed
  · rw [hkey] at hk
    cases he.origin hw hp hk with
    | kept hk => obtain hq | hq := hown _ hk <;> cases hq
    | drawn hevent hdraw =>
        injection hevent with _ hmove
        subst hmove
        exact absurd hdrawn (he.draws hdraw).1
    | created hevent hu₁ hids₁ =>
        injection hevent with hc
        subst hc
        rw [hu] at hu₁
        cases hu₁
        rw [hids] at hids₁
        cases hids₁
        exact hid.symm

/-- Every live document has its object, and so does every call on its way to a commit. -/
structure Safe (w : World) : Prop where
  undrawn : Undrawn w
  saved : Saved w
  stored : ∀ id d, w.db.documents.find id = some d → Stored w d

/-- **One event keeps every live document its object.** -/
theorem Safe.step {env : Env} {w w' : World} {e : Event} (hw : Known w) (hp : Provenance w)
    (hm : MarksDrawn w) (hres : Reserved w) (h : Safe w) (he : Effect env w e w') : Safe w' where
  undrawn := h.undrawn.step he
  saved := h.saved.step hw hm hres he
  stored id d' hd' := by
    have hid : d'.id = id := Db.document_id hd'
    obtain ⟨d, hd, hsame⟩ | ⟨c, u, ids, actual, draw, jobId, fault, ack, rfl, hu, hpc, rfl, hnone,
      hrow⟩ := (he.documentMove hw hp id).identity hd'
    · have hdid : d.id = id := Db.document_id hd
      rw [← hdid] at hd hd' hid
      exact (h.stored _ d hd).kept hw hp hm hres h.undrawn he hd hsame hid hd'
    · exact .created hw hp hm hres h.undrawn h.saved he hu hpc hnone hd' (by rw [hrow]; rfl)

/-- **In every graceful run** every live document has its object. -/
theorem safe_of_history {env : Env} {h : List Step} {w : World} (hr : History env h w)
    (hg : ∀ x ∈ h, Graceful x) : Safe w := by
  have hinit : Safe World.init := ⟨fun _ _ hu => (nomatch hu), fun _ _ _ hu => (nomatch hu),
    fun _ _ hd => (nomatch hd)⟩
  refine hr.induct_past (fun _ w => Safe w) hinit (fun h x hr hpast hv hx hsafe => ?_) hg
  obtain ⟨hw, hp⟩ := provenance_of_history hr
  obtain ⟨hm, hres⟩ := reserved_of_history hr hpast
  exact hsafe.step hw hp hm hres (World.perform_effect hv)

/-! ## The law -/

/-- **A live document never loses its object.** In every run in which no worker claims the intent of
a call that is still running, for every live document: the store holds under its name the bytes the
call that created the document was given; every cleanup job that carries the name has succeeded; and
no worker that has claimed a cleanup job holds the name. -/
theorem live_document_keeps_object {env : Env} {h : List Step} {w : World}
    (hr : History env h w) (hg : ∀ x ∈ h, Graceful x) {id : Uuid} {d : Document}
    (hd : w.db.documents.find id = some d) :
    (∃ c u ids, w.uploads c = some u ∧ u.ids = some ids ∧ ids.documentId = id ∧
      w.store d.storageKey = some u.data.file.content) ∧
    (∀ k j, w.db.jobs.find k = some j → j.kind = .deleteObject →
      j.storageKey = some d.storageKey → j.state = .succeeded) ∧
    ∀ n x, w.deliveries n = some x → x.job.kind = .deleteObject →
      x.job.storageKey ≠ some d.storageKey := by
  have hs := (safe_of_history hr hg).stored id d hd
  refine ⟨?_, fun k j hj _ hkey => ?_, fun n x hx _ hkey => ?_⟩
  · rw [← Db.document_id hd]
    exact hs.object
  · have hstate := hs.jobs k ⟨j, d.storageKey, hj, hkey, rfl⟩
    rw [Db.jobState, hj] at hstate
    exact Option.some.inj hstate
  · exact hs.deliveries n ⟨x, d.storageKey, hx, hkey, rfl⟩

/-- The document of the sample run has its object. -/
theorem live_document_keeps_object_sample :
    (sampleWorld.db.documents.find 1).isSome = true ∧
    ∀ d, sampleWorld.db.documents.find 1 = some d →
      ∃ c u ids, sampleWorld.uploads c = some u ∧ u.ids = some ids ∧ ids.documentId = 1 ∧
        sampleWorld.store d.storageKey = some u.data.file.content :=
  ⟨by decide +kernel, fun _ hd => (live_document_keeps_object sample_history sample_graceful hd).1⟩

end MiniDms
