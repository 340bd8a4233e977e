import MiniDms.Workflow.ObjectCover

/-! # Uploads are idempotent

A call with an `Idempotency-Key` looks for a document of its owner under that key twice: once without
a lock, and once under the owner's row lock. Between the two lie the intent and the object, so two
calls with one key may both pass the first check. The second check and the unique constraint let only
one of them commit, and every other one answers the winner's document or a `Conflict`. -/

namespace MiniDms

open Python Relational TransitionSystem

/-! ## One document for one key -/

/-- An owner uses a key for at most one live document. -/
def KeysUnique (db : Db) : Prop :=
  ∀ id id' d d' k, db.documents.find id = some d → db.documents.find id' = some d' →
    d.owner = d'.owner → d.idempotencyKey = some k → d'.idempotencyKey = some k → id = id'

/-- An admitted row has a key that no other document of its owner has. -/
theorem Db.key_of_admits {db : Db} {row d : Document} {id : Uuid} {k : Str}
    (hadm : db.admits row = true) (hd : db.documents.find id = some d) (howner : d.owner = row.owner)
    (hkey : row.idempotencyKey = some k) : d.idempotencyKey ≠ some k := by
  intro hdkey
  have hall := (Bool.and_eq_true_iff.mp hadm).2
  have hrow := List.all_eq_true.mp hall d (Table.find_eq_some_iff.mp hd).1
  simp [howner, hkey, hdkey] at hrow

/-- **One event keeps the keys of live documents unique.** -/
theorem KeysUnique.step {env : Env} {w w' : World} {e : Event} (hw : Known w) (hp : Provenance w)
    (hk : KeysUnique w.db) (he : Effect env w e w') : KeysUnique w'.db := by
  -- A document that is just being committed has its key for itself.
  have hnew : ∀ {id id' d d' k c u ids actual draw jobId fault ack},
      e = .upload c (.commit draw jobId fault ack) → w.uploads c = some u →
      u.pc = .named ids actual → ids.documentId = id → (w.db.view id).row = none →
      d = .indexed env (u.document ids actual draw.now) [] → w'.db.documents.find id = some d →
      w.db.documents.find id' = some d' → d'.owner = d.owner → d.idempotencyKey = some k →
      d'.idempotencyKey ≠ some k := by
    rintro id id' d d' k c u ids actual draw jobId fault ack rfl hu hpc rfl hnone rfl hd hd' howner hkey
    obtain ⟨-, -, hadm⟩ := he.commits hw hp hu hpc hnone hd
    exact Db.key_of_admits hadm hd' howner hkey
  intro id id' d d' k hd hd' howner hkey hkey'
  obtain ⟨d₀, hd₀, hsame⟩ | ⟨c, u, ids, actual, draw, jobId, fault, ack, hevent, hu, hpc, hid, hnone,
    hrow⟩ := (he.documentMove hw hp id).identity hd
  · obtain ⟨d₀', hd₀', hsame'⟩ | ⟨c, u, ids, actual, draw, jobId, fault, ack, hevent, hu, hpc, hid,
      hnone, hrow⟩ := (he.documentMove hw hp id').identity hd'
    · refine hk id id' d₀ d₀' k hd₀ hd₀' ?_ ?_ ?_
      · rw [hsame.owner, hsame'.owner, howner]
      · rw [hsame.idempotencyKey, hkey]
      · rw [hsame'.idempotencyKey, hkey']
    · refine absurd (hsame.idempotencyKey.trans hkey)
        (hnew hevent hu hpc hid hnone hrow hd' hd₀ (hsame.owner.trans howner) hkey')
  · obtain ⟨d₀', hd₀', hsame'⟩ | ⟨c', u', ids', actual', draw', jobId', fault', ack', hevent', hu',
      hpc', hid', -⟩ := (he.documentMove hw hp id').identity hd'
    · refine absurd (hsame'.idempotencyKey.trans hkey')
        (hnew hevent hu hpc hid hnone hrow hd hd₀' (hsame'.owner.trans howner.symm) hkey)
    · rw [hevent] at hevent'
      injection hevent' with hc
      subst hc
      rw [hu] at hu'
      cases hu'
      rw [hpc] at hpc'
      cases hpc'
      exact hid.symm.trans hid'

/-- **In every reachable state** the keys of live documents are unique. -/
theorem keysUnique_of_history {env : Env} {h : List Step} {w : World} (hr : History env h w) :
    KeysUnique w.db :=
  hr.induct (fun _ w => KeysUnique w.db) (fun _ _ _ _ _ hd => nomatch hd)
    (fun _ _ hr hv (_ : True) hk => by
      obtain ⟨hw, hp⟩ := provenance_of_history hr
      exact hk.step hw hp (World.perform_effect hv)) fun _ _ => trivial

/-! ## Deciding -/

/-- The call runs the replay check under the owner lock. -/
def ChecksLocked (x : Step) (c : Nat) : Prop :=
  ∃ draw jobId fault ack, x.event = .upload c (.commit draw jobId fault ack)

/-- The call runs one of its two replay checks. -/
def Decides (x : Step) (c : Nat) : Prop :=
  (∃ fails, x.event = .upload c (.check fails)) ∨ ChecksLocked x c

/-- The call has a valid key that the live document holds for the same owner. -/
structure Contends (w : World) (c : Nat) (u : Upload) (d : Document) : Prop where
  call : w.uploads c = some u
  live : w.db.documents.find d.id = some d
  owner : d.owner = u.user.pk
  key : ∃ k, validateIdempotencyKey (some k) = .ok (some k) ∧ u.key = some k ∧
    d.idempotencyKey = some k

/-- A valid key is not empty. -/
theorem truthy_of_valid {k : Str} (h : validateIdempotencyKey (some k) = .ok (some k)) :
    truthy (some k) = true := by
  cases k with
  | nil => cases h
  | cons => rfl

/-- A check against the live document that holds the key decides by the fingerprint. -/
theorem Contends.replay {w : World} {c : Nat} {u : Upload} {d : Document} (hk : KeysUnique w.db)
    (hc : Contends w c u d) :
    MiniDms.replay w.db u.user u.key u.fingerprint =
      if d.requestFingerprint ≠ u.fingerprint then .error .conflict else .ok (some d) := by
  obtain ⟨k, hvalid, hukey, hdkey⟩ := hc.key
  have htruthy : truthy u.key = true := hukey ▸ truthy_of_valid hvalid
  have hmem := (Table.find_eq_some_iff.mp hc.live).1
  have hsame : sameUpload u.user u.key d = true := by
    simp [sameUpload, hc.owner, hukey, hdkey]
  obtain ⟨-, hnone⟩ | ⟨d', hmem', -, hsame', hreplay⟩ := replay_cases w.db u.user u.key u.fingerprint
  · rw [hnone htruthy d hmem] at hsame
    cases hsame
  · obtain ⟨howner', hkey'⟩ : d'.owner = u.user.pk ∧ d'.idempotencyKey = u.key := by
      simpa [sameUpload] using hsame'
    have hd' : w.db.documents.find d'.id = some d' := Table.find_of_mem hmem'
    have hid := hk d.id d'.id d d' k hc.live hd' (hc.owner.trans howner'.symm) hdkey
      (hkey'.trans hukey)
    rw [← hid, hc.live] at hd'
    cases hd'
    exact hreplay

/-- Where a call can stand once it has met the document under its key. -/
def Answers (d : Document) (fingerprint : Str) : UploadPc → Prop
  | .conflicting _ => fingerprint ≠ d.requestFingerprint
  | .returned document created =>
      document = d.load ∧ created = false ∧ fingerprint = d.requestFingerprint
  | .raised e => exceptionHandler e = .serviceUnavailable ∨
      (e = .conflict ∧ fingerprint ≠ d.requestFingerprint)
  | .failing _ | .dead => True
  | _ => False

/-- A check that meets the document decides for it. -/
theorem Upload.Advance.decides {env : Env} {db db' : Db} {store store' : Store} {u u' : Upload}
    {move : UploadMove} {d : Document} (ha : Advance env db store u move db' store' u')
    (hmove : (∃ fails, move = .check fails) ∨
      ∃ draw jobId fault ack, move = .commit draw jobId fault ack)
    (hreplay : replay db u.user u.key u.fingerprint =
      if d.requestFingerprint ≠ u.fingerprint then .error .conflict else .ok (some d)) :
    Answers d u.fingerprint u'.pc := by
  cases ha with
  | checkFailed => exact .inl rfl
  | checkRefused _ hr =>
      rw [hreplay] at hr
      split at hr
      · next hne =>
          cases hr
          exact .inr ⟨rfl, hne.symm⟩
      · cases hr
  | checkReplayed _ hr =>
      rw [hreplay] at hr
      split at hr
      · cases hr
      · next heq =>
          cases hr
          exact ⟨rfl, rfl, (not_not.mp heq).symm⟩
  | checkPassed _ hr =>
      rw [hreplay] at hr
      split at hr <;> cases hr
  | refused _ hr =>
      rw [hreplay] at hr
      split at hr
      · next hne => exact hne.symm
      · cases hr
  | rolledBack => trivial
  | replayed _ hr =>
      rw [hreplay] at hr
      split at hr
      · cases hr
      · next heq =>
          cases hr
          dsimp only
          split
          · exact ⟨rfl, rfl, (not_not.mp heq).symm⟩
          · trivial
  | created _ hr =>
      rw [hreplay] at hr
      split at hr <;> cases hr
  | _ => obtain ⟨_, hq⟩ | ⟨_, _, _, _, hq⟩ := hmove <;> cases hq

/-- A call that has decided keeps to its answer. -/
theorem Upload.PcMove.answers {u : Upload} {pc pc' : UploadPc} {move : UploadMove} {d : Document}
    {fingerprint : Str} (hm : PcMove u pc move pc') (h : Answers d fingerprint pc) :
    Answers d fingerprint pc' := by
  cases hm with
  | conflictRaised he =>
      obtain rfl | rfl := he
      · exact .inr ⟨rfl, h⟩
      · exact .inl rfl
  | failureRaised => exact .inl rfl
  | died => trivial
  | _ => exact h.elim

/-- A call that has ended on its own, and not with `ServiceUnavailable`, replayed or was refused. -/
theorem Answers.of_ended {d : Document} {fingerprint : Str} {pc : UploadPc}
    (h : Answers d fingerprint pc) (hended : pc.ended = true) (hdead : pc ≠ .dead)
    (hup : ∀ e, pc = .raised e → exceptionHandler e ≠ .serviceUnavailable) :
    (pc = .returned d.load false ∧ fingerprint = d.requestFingerprint) ∨
      (pc = .raised .conflict ∧ fingerprint ≠ d.requestFingerprint) := by
  cases pc with
  | returned document created =>
      obtain ⟨rfl, rfl, heq⟩ := h
      exact .inl ⟨rfl, heq⟩
  | raised e =>
      obtain hunavailable | ⟨rfl, hne⟩ := h
      · exact absurd hunavailable (hup e rfl)
      · exact .inr ⟨rfl, hne⟩
  | dead => exact absurd rfl hdead
  | _ => cases hended

/-- What a call that met the document under its key stands at, ever after. -/
theorem answers_of_history {env : Env} {h : List Step} {w : World} (hr : History env h w) {x : Step}
    (hx : x ∈ h) {c : Nat} {u : Upload} {d : Document} (hdecides : Decides x c)
    (hc : Contends x.pre c u d) {u' : Upload} (hu' : w.uploads c = some u') :
    Answers d u.fingerprint u'.pc := by
  obtain ⟨later, earlier, -, hearlier, hv, hlater⟩ := hr.cut hx
  have he := World.perform_effect hv
  have hdecided : ∃ u', x.post.uploads c = some u' ∧ Answers d u.fingerprint u'.pc := by
    obtain ⟨-, hno⟩ | ⟨move, u₁, hmove, hu₁, ha⟩ := he.upload_stays hc.call
    · obtain ⟨_, hevent⟩ | ⟨_, _, _, _, hevent⟩ := hdecides <;> exact absurd hevent (hno _)
    · refine ⟨u₁, hu₁, ha.decides ?_ (hc.replay (keysUnique_of_history hearlier))⟩
      obtain ⟨_, hevent⟩ | ⟨_, _, _, _, hevent⟩ := hdecides
      · rw [hmove] at hevent
        cases hevent
        exact .inl ⟨_, rfl⟩
      · rw [hmove] at hevent
        cases hevent
        exact .inr ⟨_, _, _, _, rfl⟩
  obtain ⟨u₂, hu₂, hans⟩ := hlater.preserved
    (fun w => ∃ u', w.uploads c = some u' ∧ Answers d u.fingerprint u'.pc) hdecided
    fun y hy ⟨u₁, hu₁, hans⟩ => by
      obtain ⟨hstay, -⟩ | ⟨move, u₂, -, hu₂, ha⟩ := (World.perform_effect hy).upload_stays hu₁
      · exact ⟨u₁, hstay, hans⟩
      · exact ⟨u₂, hu₂, ha.pcMove.answers hans⟩
  rw [hu'] at hu₂
  cases hu₂
  exact hans

/-! ## Calls that create nothing -/

/-- The step adds no document, no audit event and no OCR job. -/
structure Silent (x : Step) : Prop where
  documents : x.post.db.documents = x.pre.db.documents
  auditEvents : x.post.db.auditEvents = x.pre.db.auditEvents
  jobs : ∀ k j, x.post.db.jobs.find k = some j → j.kind = .ocr → x.pre.db.jobs.find k = some j

/-- A statement that leaves the effect of its call without a document adds nothing but cleanup jobs. -/
theorem Upload.Advance.silent {env : Env} {w : World} {c : Nat} {move : UploadMove} {u u' : Upload}
    {db' : Db} {store' : Store} (hp : Provenance w) (hu : w.uploads c = some u)
    (ha : Advance env w.db w.store u move db' store' u') (heff : u'.effect.documents.rows = []) :
    db'.documents = w.db.documents ∧ db'.auditEvents = w.db.auditEvents ∧
      ∀ k j, db'.jobs.find k = some j → j.kind = .ocr → w.db.jobs.find k = some j := by
  -- The only row such a statement rewrites is the intent, which is no OCR job.
  have hupdate : ∀ (ids : UploadIds) (f : Job → Job), u.pc.ids = some ids →
      (∀ j, (f j).kind = j.kind) → ∀ k j, (w.db.updateJob ids.intentId f).jobs.find k = some j →
      j.kind = .ocr → w.db.jobs.find k = some j := by
    intro ids f hids hf k j hj hkind
    rw [Db.find_updateJob] at hj
    split at hj
    · next hk =>
        obtain ⟨j₀, hj₀, rfl⟩ := Option.map_eq_some_iff.mp hj
        obtain ⟨j₁, hj₁, hkind₁, -⟩ := hp.intents c u ids hu hids
        rw [hk, hj₁] at hj₀
        cases hj₀
        have hocr : j₀.kind = .ocr := (hf j₀).symm.trans hkind
        rw [hkind₁] at hocr
        cases hocr
    · exact hj
  cases ha with
  | intended =>
      refine ⟨rfl, rfl, fun k j hj hkind => ?_⟩
      rw [Db.putJob_jobs, Table.find_put] at hj
      split at hj
      · cases hj
        cases hkind
      · exact hj
  | renamed hpc | replayed hpc | conflictExpedited hpc | failureExpedited hpc =>
      refine ⟨rfl, rfl, hupdate _ _ ?_ fun _ => rfl⟩
      rw [hpc]
      rfl
  | created => cases heff
  | _ => exact ⟨rfl, rfl, fun _ _ hj _ => hj⟩

/-- An effect never loses its document. -/
theorem Upload.Advance.effect_documents {env : Env} {db db' : Db} {store store' : Store}
    {u u' : Upload} {move : UploadMove} (ha : Advance env db store u move db' store' u')
    (h : u.effect.documents.rows ≠ []) : u'.effect.documents.rows ≠ [] := by
  obtain ⟨f, hf, -, heff⟩ := ha.ownWrite
  rw [heff]
  cases hf with
  | document => exact nofun
  | _ => exact h

/-- A call whose effect has no document has added nothing but cleanup jobs in all its statements. -/
theorem silent_of_history {env : Env} {h : List Step} {w : World} (hr : History env h w) {c : Nat}
    {u : Upload} (hu : w.uploads c = some u) (heff : u.effect.documents.rows = []) :
    ∀ y ∈ h, ∀ move, y.event = .upload c move → Silent y := by
  intro y hy move hevent
  obtain ⟨later, earlier, -, hearlier, hv, hlater⟩ := hr.cut hy
  obtain ⟨-, hp⟩ := provenance_of_history hearlier
  have he := World.perform_effect hv
  rw [hevent] at he
  obtain ⟨u₁, hu₁⟩ := he.upload_exists
  obtain ⟨-, hno⟩ | ⟨move', u₂, hmove, hu₂, ha⟩ := he.upload_stays hu₁
  · exact absurd rfl (hno move)
  · have hempty : u₂.effect.documents.rows = [] := by
      by_contra hne
      obtain ⟨u₃, hu₃, hne₃⟩ := hlater.preserved
        (fun w => ∃ u, w.uploads c = some u ∧ u.effect.documents.rows ≠ []) ⟨u₂, hu₂, hne⟩
        fun z hz ⟨v, hv, hne⟩ => by
          obtain ⟨hstay, -⟩ | ⟨_, v', -, hv', ha⟩ := (World.perform_effect hz).upload_stays hv
          · exact ⟨v, hstay, hne⟩
          · exact ⟨v', hv', ha.effect_documents hne⟩
      rw [hu] at hu₃
      cases hu₃
      exact hne₃ heff
    obtain ⟨hdocuments, haudit, hjobs⟩ := ha.silent hp hu₁ hempty
    exact ⟨hdocuments, haudit, hjobs⟩

/-! ## Committed documents -/

/-- The step that creates a document. -/
def Creates (x : Step) (id : Uuid) : Prop :=
  x.pre.db.documents.find id = none ∧ (x.post.db.documents.find id).isSome = true

/-- What a step that creates a document leaves: one OCR job and one audit event. -/
structure FirstRows (db : Db) (id : Uuid) : Prop where
  job : ∃ k job, db.jobs.find k = some job ∧ isOcrOf id job = true ∧ job.state = .pending ∧
    job.attempts = 0 ∧ ∀ k' job', db.jobs.find k' = some job' → isOcrOf id job' = true → k' = k
  event : ∃ event, db.auditEvents.filter (fun e => e.documentId = id) = [event] ∧
    event.action = .created

/-- A document is created with its first rows. -/
theorem Creates.firstRows {env : Env} {h : List Step} {x : Step} {id : Uuid}
    (hr : History env h x.pre) (hv : x.Valid (World.perform env)) (hc : Creates x id) :
    FirstRows x.post.db id := by
  obtain ⟨hw, hp⟩ := provenance_of_history hr
  have hm := (World.perform_effect hv).documentMove hw hp id
  obtain ⟨hnone, hsome⟩ := hc
  have hrow : (x.pre.db.view id).row = none := hnone
  have hrow' : (x.post.db.view id).row ≠ none := Option.isSome_iff_ne_none.mp hsome
  have hview : ∀ k job, (x.post.db.view id).ocr k = some job → ∃ j, x.post.db.jobs.find k = some j ∧
      isOcrOf id j = true ∧ j.unstamped = job := fun k job hjob => Db.view_ocr_eq_some_iff.mp hjob
  have hocr' : ∀ k j, x.post.db.jobs.find k = some j → isOcrOf id j = true →
      (x.post.db.view id).ocr k = some j.unstamped := fun k j hj ho => Db.view_ocr_of_find hj ho
  have htrail' : (x.post.db.view id).trail =
      x.post.db.auditEvents.filter fun e => e.documentId = id := rfl
  generalize x.post.db.view id = v', x.pre.db.view id = v, x.event = e at *
  cases hm with
  | same | orphaned => exact absurd hrow hrow'
  | @created call u ids actual draw jobId fault ack _ hu hpc hid hjob _ htrail hocr =>
      constructor
      · have hown : Function.update v.ocr jobId
            (some (ocrJob jobId id u.requestId draw.now)) jobId = some _ := Function.update_self ..
        obtain ⟨j, hj, hocrj, hstamp⟩ := hview jobId _ hown
        have hpending : j.unstamped.state = .pending := by rw [hstamp]; rfl
        have hattempts : j.unstamped.attempts = 0 := by rw [hstamp]; rfl
        refine ⟨jobId, j, hj, hocrj, hpending, hattempts, fun k' job' hjob' ho => ?_⟩
        by_contra hne
        have hother : Function.update v.ocr jobId
            (some (ocrJob jobId id u.requestId draw.now)) k' = some _ := hocr' k' job' hjob' ho
        rw [Function.update_of_ne hne, hocr k'] at hother
        cases hother
      · refine ⟨auditEvent draw (u.document ids actual draw.now) .created u.requestId (some u.user),
          htrail'.symm.trans ?_, rfl⟩
        show v.trail ++ [_] = [_]
        rw [htrail]
        rfl
  | edited _ h | reprocessed _ _ h | deleted _ h | started h | finished _ h | recovered h =>
      exact absurd (hrow.symm.trans h) nofun

/-- A live document was created in the history. -/
theorem exists_creates {env : Env} {h : List Step} {w : World} (hr : History env h w) {id : Uuid}
    {d : Document} (hd : w.db.documents.find id = some d) : ∃ x ∈ h, Creates x id := by
  refine hr.induct (fun h w => ∀ d, w.db.documents.find id = some d → ∃ x ∈ h, Creates x id)
    (fun _ hd => nomatch hd) (fun h x hr hv (_ : True) ih d hd => ?_) (fun _ _ => trivial) d hd
  cases hpre : x.pre.db.documents.find id with
  | none => exact ⟨x, List.mem_cons_self, hpre, by rw [hd]; rfl⟩
  | some d₀ =>
      obtain ⟨y, hy, hc⟩ := ih d₀ hpre
      exact ⟨y, List.mem_cons_of_mem _ hy, hc⟩

/-! ## Losing the race -/

/-- The clock reading of a statement. -/
def UploadMove.clock : UploadMove → Option Timestamp
  | .intend _ now _ | .rename now _ | .expedite now _ => some now
  | .commit draw _ _ _ => some draw.now
  | _ => none

/-- The statement ends the call. -/
def EndsCall (x : Step) (c : Nat) : Prop :=
  (∃ move, x.event = .upload c move) ∧ ∃ u, x.post.uploads c = some u ∧ u.pc.ended = true

/-- The step leaves the intent pending and due. -/
def LeavesDue (x : Step) (c : Nat) (ids : UploadIds) : Prop :=
  ∃ j move now, x.post.db.jobs.find ids.intentId = some j ∧ j.kind = .deleteObject ∧
    j.state = .pending ∧ x.event = .upload c move ∧ move.clock = some now ∧ j.availableAt = now

/-- The process died with the step, or the update in its handler was lost. -/
def Breaks (x : Step) (c : Nat) : Prop :=
  x.event = .upload c .die ∨ ∃ now, x.event = .upload c (.expedite now .lost)

/-- A call that has not ended has executed no statement that ends it. -/
theorem not_ends {env : Env} {h : List Step} {w : World} (hr : History env h w) {c : Nat}
    {u : Upload} (hu : w.uploads c = some u) (hpc : u.pc.ended = false) : ∀ y ∈ h, ¬ EndsCall y c := by
  rintro y hy ⟨-, hended⟩
  obtain ⟨later, earlier, -, -, -, hlater⟩ := hr.cut hy
  obtain ⟨u', hu', hended'⟩ := hlater.preserved
    (fun w => ∃ u, w.uploads c = some u ∧ u.pc.ended = true) hended
    fun z hz ⟨v, hv, hend⟩ => by
      obtain ⟨hstay, -⟩ | ⟨_, _, -, -, ha⟩ := (World.perform_effect hz).upload_stays hv
      · exact ⟨v, hstay, hend⟩
      · rw [ha.pcMove.not_ended] at hend
        cases hend
  rw [hu] at hu'
  cases hu'
  rw [hpc] at hended'
  cases hended'

/-- The intent of a running call that has committed no document is a pending cleanup job. -/
theorem pending_of_empty {env : Env} {h : List Step} {w : World} (hr : History env h w)
    (hg : ∀ x ∈ h, Graceful x) {c : Nat} {u : Upload} {ids : UploadIds} (hu : w.uploads c = some u)
    (hids : u.pc.ids = some ids) (heff : u.effect.documents.rows = []) :
    ∃ j, w.db.jobs.find ids.intentId = some j ∧ j.kind = .deleteObject ∧ j.state = .pending := by
  obtain ⟨j, hj, hjeff⟩ := mirrored_of_history hr hg c u ids hu hids
  have hat := atomic_of_history hr hu
  obtain ⟨-, ⟨hstate, hi, -⟩ | ⟨-, hfailing⟩⟩ :=
    hat.intent_row ((known_of_history hr).coherent c u hu) hids hjeff
  · exact ⟨j, hj, hi.kind, hstate⟩
  · obtain ⟨j', hi⟩ | ⟨row, event, job, j', hd⟩ :=
      hat.of_failing ((known_of_history hr).coherent c u hu) hfailing
    · -- The only job of the effect is the pending intent.
      have hmem := (Table.find_eq_some_iff.mp hjeff).1
      rw [hi.jobs, List.mem_singleton] at hmem
      refine ⟨j, hj, ?_, ?_⟩
      · exact (congrArg Job.kind hmem).trans hi.kind
      · exact (congrArg Job.state hmem).trans hi.state
    · rw [hd.documents] at heff
      cases heff

/-- A call that lost at the locked check: it is in a handler, or has ended and left its intent due. -/
structure Lost (h : List Step) (w : World) (c : Nat) (ids : UploadIds) : Prop where
  call : ∃ u, w.uploads c = some u ∧ u.effect.documents.rows = [] ∧
    (u.pc = .conflicting ids ∨ u.pc = .failing ids ∨ u.pc.ended = true)
  ended : ∀ y ∈ h, EndsCall y c → Breaks y c ∨ LeavesDue y c ids

/-- Making a pending intent due leaves it pending and due. -/
theorem leavesDue_of_update {x : Step} {c : Nat} {ids : UploadIds} {move : UploadMove}
    {now : Timestamp} {f : Job → Job} {j : Job} (hevent : x.event = .upload c move)
    (hclock : move.clock = some now) (hj : x.pre.db.jobs.find ids.intentId = some j)
    (hkind : j.kind = .deleteObject) (hstate : j.state = .pending)
    (hdb : x.post.db = x.pre.db.updateJob ids.intentId f) (hfkind : (f j).kind = j.kind)
    (hfstate : (f j).state = j.state) (hdue : (f j).availableAt = now) : LeavesDue x c ids := by
  refine ⟨{ f j with id := j.id }, move, now, ?_, hfkind.trans hkind, hfstate.trans hstate, hevent,
    hclock, hdue⟩
  rw [hdb, Db.find_updateJob, if_pos rfl, hj]
  rfl

/-- The locked check that meets a document under the key loses. -/
theorem Lost.start {env : Env} {h : List Step} {x : Step} (hr : History env h x.pre)
    (hg : ∀ y ∈ h, Graceful y) (hv : x.Valid (World.perform env)) {c : Nat} {u : Upload}
    {d : Document} {ids : UploadIds} (hlocked : ChecksLocked x c) (hc : Contends x.pre c u d)
    (hids : u.pc.ids = some ids) : Lost (x :: h) x.post c ids := by
  obtain ⟨draw, jobId, fault, ack, hevent⟩ := hlocked
  have hreplay := hc.replay (keysUnique_of_history hr)
  have hco := (known_of_history hr).coherent c u hc.call
  obtain ⟨-, hno⟩ | ⟨move, u', hmove, hu', ha⟩ := (World.perform_effect hv).upload_stays hc.call
  · exact absurd hevent (hno _)
  rw [hevent] at hmove
  cases hmove
  -- The call is named, and so has committed its intent alone.
  have hnamed : ∃ actual, u.pc = .named ids actual := by
    generalize x.post.db = db', x.post.store = store' at ha
    cases ha with
    | refused hpc | rolledBack hpc | replayed hpc | created hpc =>
        rw [hpc] at hids ⊢
        cases hids
        exact ⟨_, rfl⟩
  obtain ⟨actual, hpc⟩ := hnamed
  obtain ⟨i, hi, -⟩ := (atomic_of_history hr hc.call).intentOnly hco (by rw [hpc]; rfl) hids
  have hpast : ∀ y ∈ h, ¬ EndsCall y c := not_ends hr hc.call (by rw [hpc]; rfl)
  obtain ⟨j, hj, hkind, hstate⟩ := pending_of_empty hr hg hc.call hids hi.documents
  have hstart : ∀ pc, u'.pc = pc → u'.effect.documents.rows = [] →
      (pc = .conflicting ids ∨ pc = .failing ids ∨ pc.ended = true) →
      (pc.ended = true → LeavesDue x c ids) → Lost (x :: h) x.post c ids := by
    rintro pc rfl heff hwhere hdue
    refine ⟨⟨u', hu', heff, hwhere⟩, fun y hy hends => ?_⟩
    obtain rfl | hy := List.mem_cons.mp hy
    · obtain ⟨-, u₁, hu₁, hended⟩ := hends
      rw [hu'] at hu₁
      cases hu₁
      exact .inr (hdue hended)
    · exact absurd hends (hpast y hy)
  generalize hdb : x.post.db = db', x.post.store = store' at ha
  cases ha with
  | refused hpc' =>
      rw [hpc] at hpc'
      cases hpc'
      exact hstart _ rfl hi.documents (.inl rfl) nofun
  | rolledBack hpc' =>
      rw [hpc] at hpc'
      cases hpc'
      exact hstart _ rfl hi.documents (.inr (.inl rfl)) nofun
  | replayed hpc' =>
      rw [hpc] at hpc'
      cases hpc'
      refine hstart _ rfl hi.documents ?_ fun _ => ?_
      · dsimp only
        split
        · exact .inr (.inr rfl)
        · exact .inr (.inl rfl)
      · exact leavesDue_of_update hevent rfl hj hkind hstate hdb rfl rfl rfl
  | created _ hr' =>
      rw [hreplay] at hr'
      split at hr' <;> cases hr'

/-- One step later a call that lost is still in its handler, or has ended and left its intent due. -/
theorem Lost.step {env : Env} {h : List Step} {x : Step} (hr : History env h x.pre)
    (hg : ∀ y ∈ h, Graceful y) (hv : x.Valid (World.perform env)) {c : Nat} {ids : UploadIds}
    (hl : Lost h x.pre c ids) : Lost (x :: h) x.post c ids := by
  obtain ⟨u, hu, heff, hwhere⟩ := hl.call
  have hpast : ∀ {y}, (EndsCall x c → Breaks x c ∨ LeavesDue x c ids) → y ∈ x :: h → EndsCall y c →
      Breaks y c ∨ LeavesDue y c ids := by
    intro y hx hy hends
    obtain rfl | hy := List.mem_cons.mp hy
    · exact hx hends
    · exact hl.ended y hy hends
  obtain ⟨hstay, hno⟩ | ⟨move, u', hevent, hu', ha⟩ := (World.perform_effect hv).upload_stays hu
  · refine ⟨⟨u, hstay, heff, hwhere⟩, fun y hy => hpast ?_ hy⟩
    rintro ⟨⟨move, hevent⟩, -⟩
    exact absurd hevent (hno move)
  · have hnot := ha.pcMove.not_ended
    have hids : u.pc.ids = some ids := by
      obtain hpc | hpc | hended := hwhere
      · rw [hpc]
        rfl
      · rw [hpc]
        rfl
      · rw [hnot] at hended
        cases hended
    obtain ⟨j, hj, hkind, hstate⟩ := pending_of_empty hr hg hu hids heff
    generalize hdb : x.post.db = db', x.post.store = store' at ha
    cases ha with
    | conflictExpedited hpc | failureExpedited hpc =>
        rw [hpc] at hids
        cases hids
        exact ⟨⟨_, hu', heff, .inr (.inr rfl)⟩, fun y hy => hpast
          (fun _ => .inr (leavesDue_of_update hevent rfl hj hkind hstate hdb rfl rfl rfl)) hy⟩
    | conflictLost | failureLost =>
        exact ⟨⟨_, hu', heff, .inr (.inr rfl)⟩, fun y hy => hpast
          (fun _ => .inl (.inr ⟨_, hevent⟩)) hy⟩
    | died =>
        exact ⟨⟨_, hu', heff, .inr (.inr rfl)⟩, fun y hy => hpast
          (fun _ => .inl (.inl hevent)) hy⟩
    | checkFailed hpc | checkRefused hpc | checkReplayed hpc | checkPassed hpc | intended hpc
    | intendLost hpc | saved hpc | saveLost hpc | renamed hpc | renameLost hpc | refused hpc
    | rolledBack hpc | replayed hpc | created hpc =>
        rw [hpc] at hwhere
        obtain hq | hq | hq := hwhere <;> cases hq

/-- **In every graceful run** the calls that lost have their intents due when they end. -/
theorem lost_of_history {env : Env} {h : List Step} {w : World} (hr : History env h w)
    (hg : ∀ x ∈ h, Graceful x) {x : Step} (hx : x ∈ h) {c : Nat} {u : Upload} {d : Document}
    {ids : UploadIds} (hlocked : ChecksLocked x c) (hc : Contends x.pre c u d)
    (hids : u.pc.ids = some ids) : Lost h w c ids := by
  refine hr.induct_past (fun h w => ∀ x ∈ h, ∀ u, ChecksLocked x c → Contends x.pre c u d →
    u.pc.ids = some ids → Lost h w c ids) (fun x hx => ?_)
    (fun h y hr hpast hv _ ih x hx u hlocked hc hids => ?_) hg x hx u hlocked hc hids
  · cases hx
  · obtain rfl | hx := List.mem_cons.mp hx
    · exact .start hr hpast hv hlocked hc hids
    · exact (ih x hx u hlocked hc hids).step hr hpast hv

/-! ## Nobody else's documents -/

/-- A check of the call met the live document, which its own owner had uploaded under its key. -/
def Met (h : List Step) (c : Nat) (u : Upload) (d : Document) : Prop :=
  ∃ x ∈ h, Decides x c ∧ x.pre.db.documents.find d.id = some d ∧ d.owner = u.user.pk ∧
    d.idempotencyKey = u.key

/-- A replay or a `Conflict` is grounded in a document that a check of the call has met. -/
def Grounded (h : List Step) (c : Nat) (u : Upload) : UploadPc → Prop
  | .returned document false =>
      ∃ d, Met h c u d ∧ document = d.load ∧ d.requestFingerprint = u.fingerprint
  | .conflicting _ | .raised .conflict => ∃ d, Met h c u d ∧ d.requestFingerprint ≠ u.fingerprint
  | _ => True

/-- A statement keeps the parameters of its call. -/
theorem Upload.Advance.parameters {env : Env} {db db' : Db} {store store' : Store} {u u' : Upload}
    {move : UploadMove} (ha : Advance env db store u move db' store' u') :
    u'.user = u.user ∧ u'.key = u.key ∧ u'.fingerprint = u.fingerprint := by
  cases ha <;> exact ⟨rfl, rfl, rfl⟩

/-- A document that was met stays met. -/
theorem Met.mono {h : List Step} {c : Nat} {u u' : Upload} {d : Document} (hm : Met h c u d)
    (huser : u'.user = u.user) (hkey : u'.key = u.key) (x : Step) : Met (x :: h) c u' d := by
  obtain ⟨y, hy, hdecides, hd, howner, hdkey⟩ := hm
  exact ⟨y, List.mem_cons_of_mem _ hy, hdecides, hd, huser ▸ howner, hkey ▸ hdkey⟩

/-- What a call stands on stays. -/
theorem Grounded.mono {h : List Step} {c : Nat} {u : Upload} {pc : UploadPc}
    (hg : Grounded h c u pc) (x : Step) : Grounded (x :: h) c u pc := by
  unfold Grounded at hg ⊢
  split at hg
  · obtain ⟨d, hm, hrest⟩ := hg
    exact ⟨d, hm.mono rfl rfl x, hrest⟩
  · obtain ⟨d, hm, hrest⟩ := hg
    exact ⟨d, hm.mono rfl rfl x, hrest⟩
  · obtain ⟨d, hm, hrest⟩ := hg
    exact ⟨d, hm.mono rfl rfl x, hrest⟩
  · trivial

/-- What a check answers is grounded in a document of the owner. -/
theorem met_of_replay {db : Db} {u : Upload} :
    (∀ d, replay db u.user u.key u.fingerprint = .ok (some d) →
      db.documents.find d.id = some d ∧ d.owner = u.user.pk ∧ d.idempotencyKey = u.key ∧
        d.requestFingerprint = u.fingerprint) ∧
    (replay db u.user u.key u.fingerprint = .error .conflict →
      ∃ d, db.documents.find d.id = some d ∧ d.owner = u.user.pk ∧ d.idempotencyKey = u.key ∧
        d.requestFingerprint ≠ u.fingerprint) := by
  obtain ⟨hpass, -⟩ | ⟨d, hmem, -, hsame, hreplay⟩ := replay_cases db u.user u.key u.fingerprint
  · rw [hpass]
    exact ⟨fun d hq => (nomatch hq), nofun⟩
  · obtain ⟨howner, hkey⟩ : d.owner = u.user.pk ∧ d.idempotencyKey = u.key := by
      simpa [sameUpload] using hsame
    have hd : db.documents.find d.id = some d := Table.find_of_mem hmem
    rw [hreplay]
    refine ⟨fun d' hq => ?_, fun hq => ?_⟩
    · split at hq
      · cases hq
      · next heq =>
          cases hq
          exact ⟨hd, howner, hkey, not_not.mp heq⟩
    · split at hq
      · next hne => exact ⟨d, hd, howner, hkey, hne⟩
      · cases hq

/-- One statement grounds what its call answers. -/
theorem Upload.Advance.grounded {env : Env} {h : List Step} {x : Step} {c : Nat} {move : UploadMove}
    {u u' : Upload} {db' : Db} {store' : Store}
    (ha : Advance env x.pre.db x.pre.store u move db' store' u') (hevent : x.event = .upload c move)
    (hg : Grounded h c u u.pc) : Grounded (x :: h) c u' u'.pc := by
  obtain ⟨huser, hkey, hfingerprint⟩ := ha.parameters
  have hconflict : Decides x c → replay x.pre.db u.user u.key u.fingerprint = .error .conflict →
      ∃ d, Met (x :: h) c u' d ∧ d.requestFingerprint ≠ u'.fingerprint := by
    intro hdecides hr
    obtain ⟨d, hd, howner, hdkey, hne⟩ := met_of_replay.2 hr
    rw [← huser] at howner
    rw [← hkey] at hdkey
    rw [← hfingerprint] at hne
    exact ⟨d, ⟨x, List.mem_cons_self, hdecides, hd, howner, hdkey⟩, hne⟩
  have hreplayed : ∀ d, Decides x c →
      replay x.pre.db u.user u.key u.fingerprint = .ok (some d) →
      ∃ d', Met (x :: h) c u' d' ∧ d.load = d'.load ∧ d'.requestFingerprint = u'.fingerprint := by
    intro d hdecides hr
    obtain ⟨hd, howner, hdkey, heq⟩ := met_of_replay.1 d hr
    rw [← huser] at howner
    rw [← hkey] at hdkey
    rw [← hfingerprint] at heq
    exact ⟨d, ⟨x, List.mem_cons_self, hdecides, hd, howner, hdkey⟩, rfl, heq⟩
  cases ha with
  | @checkRefused e _ hr =>
      cases e with
      | conflict => exact hconflict (.inl ⟨_, hevent⟩) hr
      | _ => trivial
  | checkReplayed _ hr => exact hreplayed _ (.inl ⟨_, hevent⟩) hr
  | refused _ hr => exact hconflict (.inr ⟨_, _, _, _, hevent⟩) hr
  | replayed _ hr =>
      dsimp only
      split
      · exact hreplayed _ (.inr ⟨_, _, _, _, hevent⟩) hr
      · trivial
  | conflictExpedited hpc =>
      dsimp only
      split
      · rw [hpc] at hg
        obtain ⟨d, hm, hne⟩ := hg
        exact ⟨d, hm.mono rfl rfl x, hne⟩
      · trivial
  | saved =>
      dsimp only [goto]
      split
      · trivial
      · split <;> trivial
  | intended | renamed | created =>
      dsimp only
      split <;> trivial
  | _ => trivial

/-- **In every reachable state** replays and conflicts are grounded. -/
theorem grounded_of_history {env : Env} {h : List Step} {w : World} (hr : History env h w) {c : Nat}
    {u : Upload} (hu : w.uploads c = some u) : Grounded h c u u.pc := by
  refine hr.induct (fun h w => ∀ u, w.uploads c = some u → Grounded h c u u.pc)
    (fun u hu => nomatch hu) (fun h x hr hv (_ : True) ih u' hu' => ?_) (fun _ _ => trivial) u hu
  obtain ⟨hold, -⟩ | ⟨-, user, data, key, requestId, -, rfl⟩ | ⟨move, u, hevent, -, hu, ha⟩ :=
    (World.perform_effect hv).upload_cases hu'
  · exact (ih u' hold).mono x
  · unfold Upload.enter
    dsimp only
    split <;> trivial
  · exact ha.grounded hevent (ih u hu)

/-! ## The law -/

/-- **Uploads are idempotent.** In every run:
an owner has at most one live document under a key;
a call with a valid key that runs one of its checks while the owner's document under that key lives,
ends, and does not fail with `ServiceUnavailable` returns that document as not created when the
fingerprints agree and raises `Conflict` otherwise, and none of its statements added a document, an
audit event or an OCR job;
every document was created by a step that left it exactly one OCR job, pending, and exactly one audit
event, the creation;
a call that loses at the check under the owner lock leaves its intent pending and due, unless its
process died or the update in its handler was lost (nobody having claimed an intent under a running
call);
and a replay or a `Conflict` comes from a document of the caller's own under the caller's key. -/
theorem upload_idempotency {env : Env} {h : List Step} {w : World} (hr : History env h w) :
    (∀ id id' d d' k, w.db.documents.find id = some d → w.db.documents.find id' = some d' →
      d.owner = d'.owner → d.idempotencyKey = some k → d'.idempotencyKey = some k → id = id') ∧
    (∀ x ∈ h, ∀ c u d u', Decides x c → Contends x.pre c u d → w.uploads c = some u' →
      u'.pc.ended = true → u'.pc ≠ .dead →
      (∀ e, u'.pc = .raised e → exceptionHandler e ≠ .serviceUnavailable) →
      (u.fingerprint = d.requestFingerprint → u'.pc = .returned d.load false) ∧
      (u.fingerprint ≠ d.requestFingerprint → u'.pc = .raised .conflict) ∧
      ∀ y ∈ h, ∀ move, y.event = .upload c move → Silent y) ∧
    ((∀ id d, w.db.documents.find id = some d → ∃ x ∈ h, Creates x id) ∧
      ∀ x ∈ h, ∀ id, Creates x id → FirstRows x.post.db id) ∧
    ((∀ x ∈ h, Graceful x) → ∀ x ∈ h, ∀ c u d ids, ChecksLocked x c → Contends x.pre c u d →
      u.pc.ids = some ids → ∀ y ∈ h, EndsCall y c → Breaks y c ∨ LeavesDue y c ids) ∧
    ∀ c u, w.uploads c = some u →
      (∀ document, u.pc = .returned document false →
        ∃ d, Met h c u d ∧ document = d.load ∧ d.requestFingerprint = u.fingerprint) ∧
      (u.pc = .raised .conflict → ∃ d, Met h c u d ∧ d.requestFingerprint ≠ u.fingerprint) := by
  refine ⟨keysUnique_of_history hr, fun x hx c u d u' hdecides hc hu' hended hdead hup => ?_,
    ⟨fun id d hd => exists_creates hr hd, fun x hx id hcreates => ?_⟩,
    fun hg x hx c u d ids hlocked hc hids => (lost_of_history hr hg hx hlocked hc hids).ended,
    fun c u hu => ⟨fun document hpc => ?_, fun hpc => ?_⟩⟩
  · have hans := answers_of_history hr hx hdecides hc hu'
    have hcases := hans.of_ended hended hdead hup
    refine ⟨fun heq => ?_, fun hne => ?_, ?_⟩
    · obtain ⟨hpc, -⟩ | ⟨-, hne⟩ := hcases
      · exact hpc
      · exact absurd heq hne
    · obtain ⟨-, heq⟩ | ⟨hpc, -⟩ := hcases
      · exact absurd heq hne
      · exact hpc
    · -- A replay and a `Conflict` come with the intent alone.
      refine silent_of_history hr hu' ?_
      have hextents : u'.pc.extents = [.nothing, .intent] := by
        obtain ⟨hpc, -⟩ | ⟨hpc, -⟩ := hcases <;> rw [hpc] <;> rfl
      obtain ⟨k, hk, hcom⟩ := atomic_of_history hr hu'
      cases hcom with
      | nothing he =>
          rw [he]
          rfl
      | intent hi => exact hi.documents
      | document =>
          rw [hextents] at hk
          simp at hk
  · obtain ⟨later, earlier, -, hearlier, hv, -⟩ := hr.cut hx
    exact hcreates.firstRows hearlier hv
  · have hgr := grounded_of_history hr hu
    rw [hpc] at hgr
    exact hgr
  · have hgr := grounded_of_history hr hu
    rw [hpc] at hgr
    exact hgr

/-- Two uploads of one file under one key, both past the first check before either commits. -/
def sampleRace : Option (List Step × World) :=
  Run.execute (World.perform sampleEnv) ([], .init)
    [.enterUpload 0 sampleUser sampleData (some (lit "k")) 100, .upload 0 (.check false),
      .enterUpload 1 sampleUser sampleData (some (lit "k")) 101, .upload 1 (.check false),
      .upload 0 (.intend ⟨1, 2, 3⟩ 0 .ok), .upload 1 (.intend ⟨11, 12, 13⟩ 0 .ok),
      .upload 0 (.save (.requested 7 1 2) .ok), .upload 1 (.save (.requested 7 11 12) .ok),
      .upload 0 (.commit ⟨1000, 4⟩ 5 none .ok), .upload 1 (.commit ⟨2000, 14⟩ 15 none .ok)]

/-- Both calls of the race can run. -/
theorem sampleRace_isSome : sampleRace.isSome = true := by decide +kernel

/-- The history of the race. -/
def sampleRaceHistory : List Step := (sampleRace.get sampleRace_isSome).1

/-- The state after the race. -/
def sampleRaceWorld : World := (sampleRace.get sampleRace_isSome).2

/-- The race is a run of the system. -/
theorem sampleRace_history : History sampleEnv sampleRaceHistory sampleRaceWorld :=
  Run.of_isSome rfl sampleRace_isSome

/-- The second call of the race has returned a document of its own owner under its key, and every
call of the race that lost has left its intent due. -/
theorem upload_idempotency_sample :
    ((sampleRaceWorld.uploads 1).any fun u => u.pc.ended) = true ∧
    ((sampleRaceWorld.db.jobs.find 13).any fun j =>
      j.state = .pending && j.availableAt = 2000) = true ∧
    (∀ u document, sampleRaceWorld.uploads 1 = some u → u.pc = .returned document false →
      ∃ d, Met sampleRaceHistory 1 u d ∧ document = d.load ∧
        d.requestFingerprint = u.fingerprint) ∧
    ∀ x ∈ sampleRaceHistory, ∀ c u d ids, ChecksLocked x c → Contends x.pre c u d →
      u.pc.ids = some ids → ∀ y ∈ sampleRaceHistory, EndsCall y c →
        Breaks y c ∨ LeavesDue y c ids := by
  obtain ⟨-, -, -, hloses, hgrounded⟩ := upload_idempotency sampleRace_history
  refine ⟨by decide +kernel, by decide +kernel, fun u document hu hpc => ?_, ?_⟩
  · exact (hgrounded 1 u hu).1 document hpc
  · exact hloses (graceful_of_unclaimed (by decide +kernel))

end MiniDms
