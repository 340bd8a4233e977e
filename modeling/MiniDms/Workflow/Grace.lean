import MiniDms.Workflow.DocumentLifecycle
import MiniDms.Workflow.UploadAtomicity

/-! # Claims and the grace period

A cleanup intent is committed before the object it would delete, due in an hour. The protocol of the
upload relies on that hour: no worker claims an intent while its call of `create_document` is still
running. `Graceful` is that assumption about one step, and `Mirrored` what it buys: but for dispatch
stamps, the intent of a running call is as the call itself has written it. -/

namespace MiniDms

open Python Relational TransitionSystem

/-- The state of a job. -/
def Db.jobState (db : Db) (id : Uuid) : Option JobState := (db.jobs.find id).map Job.state

/-- The job a delivery asks to claim. -/
def Event.claimed : Event → Option Uuid
  | .claim _ jobId _ _ => some jobId
  | _ => none

/-- The job an operator asks to rearm. -/
def Event.rearmed : Event → Option Uuid
  | .retryCleanup jobId _ => some jobId
  | _ => none

/-- A claim transaction takes the job out of the pending state. -/
def Takes (x : Step) (id : Uuid) : Prop :=
  x.event.claimed = some id ∧ x.pre.db.jobState id = some .pending ∧
    x.post.db.jobState id ≠ some .pending

/-- A `retry_cleanup` brings the failed job back to the pending state. -/
def Revives (x : Step) (id : Uuid) : Prop :=
  x.event.rearmed = some id ∧ x.pre.db.jobState id = some .failed ∧
    x.post.db.jobState id = some .pending

/-- Whether a step takes a job is decided by the two rows. -/
instance (x : Step) (id : Uuid) : Decidable (Takes x id) := inferInstanceAs (Decidable (_ ∧ _))

/-- Whether a step revives a job is decided by the two rows. -/
instance (x : Step) (id : Uuid) : Decidable (Revives x id) := inferInstanceAs (Decidable (_ ∧ _))

/-- The step claims no intent of a call that is still running. -/
def Graceful (x : Step) : Prop :=
  ∀ c u ids, x.pre.uploads c = some u → u.pc.ids = some ids → ¬ Takes x ids.intentId

/-- The step takes the job when the row was pending and is not pending any more. -/
theorem takes_of_find {x : Step} {id : Uuid} {row row' : Job} (hevent : x.event.claimed = some id)
    (hrow : x.pre.db.jobs.find id = some row) (hrow' : x.post.db.jobs.find id = some row')
    (hpending : row.state = .pending) (hleft : row'.state ≠ .pending) : Takes x id := by
  refine ⟨hevent, ?_, ?_⟩
  · rw [Db.jobState, hrow]
    exact congrArg some hpending
  · rw [Db.jobState, hrow']
    exact fun h => hleft (Option.some.inj h)

/-! ## Intents of running calls -/

/-- The intent of a running call, by what the call has committed: never claimed, and pending until the
document is committed. -/
theorem Atomic.intent_row {h : List Step} {c : Nat} {u : Upload} (hat : Atomic h c u)
    (hco : u.Coherent) {ids : UploadIds} (hpc : u.pc.ids = some ids) {j : Job}
    (hj : u.effect.jobs.find ids.intentId = some j) :
    j.attempts = 0 ∧ ((j.state = .pending ∧ IntentOnly h c u ids j ∧ Names h c u j u.pc) ∨
      (j.state = .succeeded ∧ u.pc = .failing ids)) := by
  obtain ⟨hmem, hid⟩ := Table.find_eq_some_iff.mp hj
  have hdrawn := hco ids hpc
  obtain ⟨k, hk, hcom⟩ := hat
  cases hcom with
  | nothing he =>
      rw [he] at hmem
      cases hmem
  | @intent ids' j' hi hn =>
      have hids := hi.drawn
      rw [hdrawn] at hids
      cases hids
      rw [hi.jobs] at hmem
      obtain rfl := List.mem_singleton.mp hmem
      exact ⟨hi.attempts, .inl ⟨hi.state, hi, hn⟩⟩
  | @document ids' row event job j' hd =>
      have hids := hd.drawn
      rw [hdrawn] at hids
      cases hids
      rw [hd.jobs] at hmem
      obtain rfl | hmem := List.mem_cons.mp hmem
      · exact absurd (hid.trans hd.intentId.symm) hd.fresh
      · obtain rfl := List.mem_singleton.mp hmem
        refine ⟨hd.intentAttempts, .inr ⟨hd.intentState, ?_⟩⟩
        revert hk hpc
        cases u.pc with
        | failing => exact fun hpc _ => congrArg _ (Option.some.inj hpc)
        | _ => simp [UploadPc.extents, UploadPc.ids]

/-- But for dispatch stamps, the intent of a running call is as the call has written it. -/
def Mirrored (w : World) : Prop :=
  ∀ c u ids, w.uploads c = some u → u.pc.ids = some ids →
    ∃ j, w.db.jobs.find ids.intentId = some j ∧
      u.effect.jobs.find ids.intentId = some j.unstamped

/-- Rewriting a job in the same way in two databases keeps the two rows alike. -/
theorem mirrored_updateJob {db effect : Db} {id : Uuid} {f : Job → Job}
    (hf : ∀ j, Job.unstamped { f j with id := j.id } = { f j.unstamped with id := j.unstamped.id })
    (h : ∃ j, db.jobs.find id = some j ∧ effect.jobs.find id = some j.unstamped) :
    ∃ j, (db.updateJob id f).jobs.find id = some j ∧
      (effect.updateJob id f).jobs.find id = some j.unstamped := by
  obtain ⟨j, hj, hj'⟩ := h
  refine ⟨{ f j with id := j.id }, ?_, ?_⟩
  · rw [Db.find_updateJob, if_pos rfl, hj]
    rfl
  · rw [Db.find_updateJob, if_pos rfl, hj', hf]
    rfl

/-- A statement of the call itself writes its intent alike in the database and in its effect. -/
theorem Upload.Advance.mirrored {env : Env} {db db' : Db} {store store' : Store} {u u' : Upload}
    {move : UploadMove} (ha : Advance env db store u move db' store' u') {ids : UploadIds}
    (hids : u'.pc.ids = some ids) (hfresh : u.pc.ids = some ids → ids.intentId ∉ move.draws)
    (h : u.pc.ids = some ids → ∃ j, db.jobs.find ids.intentId = some j ∧
      u.effect.jobs.find ids.intentId = some j.unstamped) :
    ∃ j, db'.jobs.find ids.intentId = some j ∧
      u'.effect.jobs.find ids.intentId = some j.unstamped := by
  have hpre := ha.pc_ids hids
  cases ha with
  | @intended ids' now ack hpc =>
      dsimp only at hids
      split at hids
      · cases hids
        have hkey : ids.intentId = (u.intent ids now).id := rfl
        refine ⟨u.intent ids now, ?_, ?_⟩
        · rw [Db.putJob_jobs, Table.find_put, if_pos hkey]
        · rw [Db.putJob_jobs, Table.find_put, if_pos hkey]
          rfl
      · cases hids
  | @created ids' actual draw jobId fault ack hpc =>
      have hpc' : u.pc.ids = some ids := hpre.resolve_right nofun
      have hids' : ids' = ids := by
        rw [hpc] at hpc'
        exact Option.some.inj hpc'
      subst hids'
      have hne : ids'.intentId ≠ (ocrJob jobId ids'.documentId u.requestId draw.now).id := by
        intro hq
        refine hfresh hpc' ?_
        rw [hq]
        exact List.mem_cons_self
      obtain ⟨j, hj, hj'⟩ := h hpc'
      refine mirrored_updateJob (fun _ => rfl) ⟨j, ?_, ?_⟩
      · rw [Db.putJob_jobs, Table.find_put, if_neg hne]
        exact hj
      · rw [Db.putJob_jobs, Table.find_put, if_neg hne]
        exact hj'
  | @renamed ids' actual now ack hpc | @replayed ids' actual draw jobId fault ack d hpc =>
      have hpc' : u.pc.ids = some ids := hpre.resolve_right nofun
      have hids' : ids' = ids := by
        rw [hpc] at hpc'
        exact Option.some.inj hpc'
      subst hids'
      exact mirrored_updateJob (fun _ => rfl) (h hpc')
  | saved | saveLost | renameLost | refused | rolledBack => exact h (hpre.resolve_right nofun)
  | _ => cases hids

/-- One graceful step keeps the intents of running calls as their calls wrote them. -/
theorem Mirrored.step {env : Env} {h : List Step} {x : Step} (hr : History env h x.pre)
    (hv : x.Valid (World.perform env)) (hg : Graceful x) (hm : Mirrored x.pre) :
    Mirrored x.post := by
  intro c u' ids hu' hids
  have he := World.perform_effect hv
  obtain ⟨hw, hp⟩ := provenance_of_history hr
  obtain ⟨hu, hno⟩ | ⟨-, _, _, _, _, -, rfl⟩ | ⟨move, u, -, hf, hu, ha⟩ := he.upload_cases hu'
  · obtain ⟨j, hj, heff⟩ := hm c u' ids hu hids
    have hrow := (atomic_of_history hr hu).intent_row (hw.coherent c u' hu) hids heff
    have hstate : j.state = .pending ∨ j.state = .succeeded := hrow.2.imp And.left And.left
    have hmove := he.jobMove hw ids.intentId
    rw [hj] at hmove
    obtain ⟨j', hj', -⟩ := hmove.frame
    rw [hj'] at hmove
    refine ⟨j', hj', heff.trans ?_⟩
    generalize hevent : x.event = e at hmove hno
    cases hmove with
    | same | stamped => rfl
    | taken _ _ hc | discarded _ hc =>
        refine absurd (takes_of_find ?_ hj hj' hc.1 nofun) (hg c u' ids hu hids)
        rw [hevent]
        rfl
    | settled _ _ _ hrunning =>
        rw [hrunning] at hstate
        obtain hs | hs := hstate <;> cases hs
    | recovered _ _ hexp =>
        rw [running_of_expired hexp] at hstate
        obtain hs | hs := hstate <;> cases hs
    | rearmed _ hfailed =>
        rw [hfailed] at hstate
        obtain hs | hs := hstate <;> cases hs
    | @rewritten c' move u ids' f _ hu₁ hids₁ hid =>
        -- The intents of two calls are different jobs.
        have hne : c' ≠ c := fun hq => hno move (by rw [hq])
        exact absurd hid (hp.apart c' c u u' ids' ids hu₁ hu (hw.coherent c' u hu₁ ids' hids₁)
          (hw.coherent c u' hu ids hids) hne).2.2
  · rw [Upload.pc_ids_enter] at hids
    cases hids
  · exact ha.mirrored hids (fun hpc hmem => hf.2 _ hmem (hw.knows_upload hu hpc).2.2)
      fun hpc => hm c u ids hu hpc

/-- **In every graceful run** the intents of running calls are as their calls wrote them. -/
theorem mirrored_of_history {env : Env} {h : List Step} {w : World} (hr : History env h w)
    (hg : ∀ x ∈ h, Graceful x) : Mirrored w :=
  hr.induct (fun _ w => Mirrored w) (fun _ _ _ hu => nomatch hu)
    (fun _ _ hr hv hx hm => hm.step hr hv hx) hg

/-- The intent of a running call was never claimed in a graceful run. -/
theorem intent_attempts {env : Env} {h : List Step} {w : World} (hr : History env h w)
    (hg : ∀ x ∈ h, Graceful x) {c : Nat} {u : Upload} {ids : UploadIds} {j : Job}
    (hu : w.uploads c = some u) (hids : u.pc.ids = some ids)
    (hj : w.db.jobs.find ids.intentId = some j) : j.attempts = 0 := by
  obtain ⟨j', hj', heff⟩ := mirrored_of_history hr hg c u ids hu hids
  rw [hj] at hj'
  cases hj'
  exact ((atomic_of_history hr hu).intent_row ((known_of_history hr).coherent c u hu) hids heff).1

/-- A run without claims is graceful. -/
theorem graceful_of_unclaimed {h : List Step} (hno : ∀ x ∈ h, x.event.claimed = none) :
    ∀ x ∈ h, Graceful x := by
  rintro x hx c u ids - - ⟨hclaimed, -⟩
  rw [hno x hx] at hclaimed
  cases hclaimed

/-- A run that claims OCR jobs only is graceful, as intents are cleanup jobs. -/
theorem graceful_of_ocr {env : Env} {h : List Step} {w : World} (hr : History env h w)
    (hocr : ∀ x ∈ h, x.event.claimed.all
      (fun id => (x.pre.db.jobs.find id).all (·.kind = .ocr)) = true) :
    ∀ x ∈ h, Graceful x := by
  rintro x hx c u ids hu hpc ⟨hclaimed, -⟩
  obtain ⟨later, earlier, -, hearlier, -⟩ := hr.cut hx
  obtain ⟨j, hj, hkind, -⟩ := (provenance_of_history hearlier).2.intents c u ids hu hpc
  have hall := hocr x hx
  rw [hclaimed, Option.all_some, hj, Option.all_some, hkind] at hall
  cases hall

/-- The sample run is graceful. -/
theorem sample_graceful : ∀ x ∈ sampleHistory, Graceful x :=
  graceful_of_ocr sample_history (by decide +kernel)

end MiniDms
