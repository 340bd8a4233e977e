import MiniDms.Workflow.Fencing
import MiniDms.Workflow.Grace

/-! # Bounded retries with backoff

Attempts are counted by the claim and judged by whoever ends the attempt: the worker's `finish` or a
recovery. The bound `attempts < max_attempts` of a pending job is what every transaction restores,
and the time a failed attempt leaves in `available_at` is what no transaction but a rearming
shortens. -/

namespace MiniDms

open Python Relational TransitionSystem

/-- The claims that took the job since it was created or last rearmed. -/
def claimsSince (id : Uuid) : List Step → Nat
  | [] => 0
  | x :: h =>
      if Revives x id then 0
      else if Takes x id then claimsSince id h + 1
      else claimsSince id h

/-- The attempts of a job, zero before it exists. -/
def Db.attempts (db : Db) (id : Uuid) : Nat := (db.jobs.find id).elim 0 Job.attempts

/-- The clock reading of a transaction on the job queue. -/
def Event.clock : Event → Option Timestamp
  | .claim _ _ _ draw | .finish _ _ _ draw | .recoverNext _ _ _ _ draw => some draw.now
  | .recoverExpired _ _ now _ | .dispatchSelect _ now _ | .retryCleanup _ now => some now
  | _ => none

/-- The step fails the current attempt of the job: its worker's `finish`, or a recovery. -/
def FailsWith (x : Step) (id : Uuid) (failure : OCRFailure) : Prop :=
  (∃ delivery job, Finishes x delivery (.failure failure) job ∧ job.id = id ∧ Settles x) ∨
    Recovers x id ∧ failure = workerLost

/-! ## Attempts count claims -/

/-- **One step counts one claim**: it clears the attempts of a job it rearms, adds one to those of a
job it takes, and keeps all others. -/
theorem attempts_step {env : Env} {x : Step} (hw : Known x.pre) (hv : x.Valid (World.perform env))
    (id : Uuid) :
    (Revives x id ∧ x.post.db.attempts id = 0) ∨
    (¬ Revives x id ∧ Takes x id ∧ x.post.db.attempts id = x.pre.db.attempts id + 1) ∨
    (¬ Revives x id ∧ ¬ Takes x id ∧ x.post.db.attempts id = x.pre.db.attempts id) := by
  have hm := (World.perform_effect hv).jobMove hw id
  unfold Revives Takes Db.jobState Db.attempts
  generalize x.event = e at hm ⊢
  generalize x.pre.db.jobs.find id = row at hm ⊢
  generalize x.post.db.jobs.find id = row' at hm ⊢
  cases hm with
  | same =>
      refine .inr (.inr ⟨?_, fun h => h.2.2 h.2.1, rfl⟩)
      rintro ⟨-, hf, hp⟩
      rw [hf] at hp
      cases hp
  | created _ hnew =>
      exact .inr (.inr ⟨fun h => (nomatch h.2.1), fun h => (nomatch h.2.1), hnew.attempts⟩)
  | taken _ _ hc | discarded _ hc =>
      exact .inr (.inl ⟨fun h => (nomatch h.1), ⟨rfl, congrArg some hc.1, nofun⟩, rfl⟩)
  | settled | recovered =>
      exact .inr (.inr ⟨fun h => (nomatch h.1), fun h => (nomatch h.1), settle_attempts ..⟩)
  | stamped => exact .inr (.inr ⟨fun h => (nomatch h.1), fun h => (nomatch h.1), rfl⟩)
  | rearmed _ hfailed => exact .inl ⟨⟨rfl, congrArg some hfailed, rfl⟩, rfl⟩
  | rewritten _ _ _ hf =>
      exact .inr (.inr ⟨fun h => (nomatch h.1), fun h => (nomatch h.1), by cases hf <;> rfl⟩)

/-- **Attempts count claims** along every run. -/
theorem attempts_eq_claimsSince {env : Env} {h : List Step} {w : World} (hr : History env h w)
    (id : Uuid) : w.db.attempts id = claimsSince id h := by
  refine hr.induct (fun h w => w.db.attempts id = claimsSince id h) rfl
    (fun h x hr hv (_ : True) ih => ?_) fun _ _ => trivial
  rw [claimsSince, ← ih]
  obtain ⟨hrev, hq⟩ | ⟨hrev, htake, hq⟩ | ⟨hrev, htake, hq⟩ :=
    attempts_step (known_of_history hr) hv id
  · rw [if_pos hrev, hq]
  · rw [if_neg hrev, if_pos htake, hq]
  · rw [if_neg hrev, if_neg htake, hq]

/-! ## The bound -/

/-- The attempts a job may have in its state. -/
structure Bounded (job : Job) : Prop where
  positive : 0 < job.maxAttempts
  le : job.attempts ≤ job.maxAttempts
  pending : job.state = .pending → job.attempts < job.maxAttempts
  running : job.state = .running → 0 < job.attempts

/-- Settling a job keeps its bound: it is retried only while attempts are left. -/
theorem Bounded.settle {job : Job} (h : Bounded job) (now : Timestamp) (jitter : Fin 2000001)
    (failure : Option OCRFailure) : Bounded (MiniDms.settle now jitter failure job) where
  positive := by rw [settle_maxAttempts]; exact h.positive
  le := by rw [settle_attempts, settle_maxAttempts]; exact h.le
  pending hs := by
    rw [settle_attempts, settle_maxAttempts]
    cases failure with
    | none => cases hs
    | some f =>
        simp only [MiniDms.settle] at hs
        split at hs
        · next hretry => exact decide_eq_true_iff.mp (Bool.and_eq_true_iff.mp hretry).2
        · cases hs
  running hs := absurd hs (settle_state_ne_running _ _ _ _)

/-- **Every move keeps the bound.** -/
theorem JobMove.bounded {w : World} {id : Uuid} {e : Event} {row : Option Job} {job' : Job}
    (hm : JobMove w id e row (some job')) (h : ∀ job, row = some job → Bounded job) :
    Bounded job' := by
  cases hm with
  | same => exact h job' rfl
  | created _ hnew =>
      refine ⟨hnew.maxAttempts, ?_, fun _ => ?_, fun hs => ?_⟩
      · rw [hnew.attempts]
        exact Nat.zero_le _
      · rw [hnew.attempts]
        exact hnew.maxAttempts
      · rw [hnew.state] at hs
        cases hs
  | @taken _ _ _ job _ _ hc | @discarded _ _ _ job _ hc =>
      -- A pending job has an attempt left, and the claim uses it.
      have hb := h job rfl
      exact ⟨hb.positive, hb.pending hc.1, nofun, fun _ => Nat.succ_pos _⟩
  | @settled _ _ _ _ _ job => exact (h job rfl).settle _ _ _
  | @recovered _ _ token _ draw _ job =>
      have hb := h job rfl
      have hfence : Bounded (fence draw token job) := ⟨hb.positive, hb.le, hb.pending, hb.running⟩
      exact hfence.settle _ _ _
  | @stamped _ _ _ job =>
      have hb := h job rfl
      exact ⟨hb.positive, hb.le, hb.pending, hb.running⟩
  | @rearmed _ job =>
      have hb := h job rfl
      exact ⟨hb.positive, Nat.zero_le _, fun _ => hb.positive, nofun⟩
  | @rewritten _ _ _ _ _ job _ _ _ hf =>
      have hb := h job rfl
      cases hf with
      | complete => exact ⟨hb.positive, hb.le, nofun, nofun⟩
      | _ => exact ⟨hb.positive, hb.le, hb.pending, hb.running⟩

/-- **In every reachable state** every job is bounded. -/
theorem bounded_of_history {env : Env} {h : List Step} {w : World} (hr : History env h w)
    {id : Uuid} {job : Job} (hjob : w.db.jobs.find id = some job) : Bounded job := by
  have hall : Known w ∧ ∀ id job, w.db.jobs.find id = some job → Bounded job := by
    refine hr.preserved (fun w => Known w ∧ ∀ id job, w.db.jobs.find id = some job → Bounded job)
      ⟨known_init, fun _ _ hj => nomatch hj⟩ fun x hv ⟨hw, hb⟩ => ?_
    have he := World.perform_effect hv
    refine ⟨hw.step he, fun id job' hj' => ?_⟩
    have hm := he.jobMove hw id
    rw [hj'] at hm
    exact hm.bounded (hb id)
  exact hall.2 id job hjob

/-! ## Failing for good -/

/-- A failed attempt leaves the job failed only when it must not be retried. -/
theorem settle_failed {now : Timestamp} {jitter : Fin 2000001} {failure : OCRFailure} {job : Job}
    (hb : Bounded job) (h : (settle now jitter (some failure) job).state = .failed) :
    failure.retryable = false ∨ job.attempts = job.maxAttempts := by
  simp only [settle] at h
  split at h
  · cases h
  · next hretry =>
      rw [Bool.and_eq_true, decide_eq_true_iff, not_and, not_lt] at hretry
      by_cases hf : failure.retryable = true
      · exact .inr (le_antisymm hb.le (hretry hf))
      · exact .inl (by simpa using hf)

/-- **A job fails for good** only at the end of an attempt, by a failure that is not retried or
without attempts left. -/
theorem failed_step {env : Env} {x : Step} (hw : Known x.pre) (hv : x.Valid (World.perform env))
    {id : Uuid} {job' : Job} (hb : ∀ job, x.pre.db.jobs.find id = some job → Bounded job)
    (hjob' : x.post.db.jobs.find id = some job') (hfailed : job'.state = .failed)
    (hnew : x.pre.db.jobState id ≠ some .failed) :
    ∃ failure, FailsWith x id failure ∧
      (failure.retryable = false ∨ job'.attempts = job'.maxAttempts) := by
  have hm := (World.perform_effect hv).jobMove hw id
  rw [hjob'] at hm
  generalize hrow : x.pre.db.jobs.find id = row at hm hb
  have hnot : ∀ job, row = some job → job.state ≠ .failed := by
    rintro job rfl hs
    exact hnew (by rw [Db.jobState, hrow]; exact congrArg some hs)
  generalize hevent : x.event = e at hm
  cases hm with
  | same => exact absurd hfailed (hnot job' rfl)
  | created _ hn =>
      rw [hn.state] at hfailed
      cases hfailed
  | taken | discarded | rearmed => cases hfailed
  | @stamped _ _ _ job => exact absurd hfailed (hnot job rfl)
  | @rewritten _ _ _ _ _ job _ _ _ hf =>
      cases hf with
      | complete => cases hfailed
      | _ => exact absurd hfailed (hnot job rfl)
  | @settled delivery call jitter draw d job hd hid htoken hrunning =>
      have hv' := hv
      rw [Transition.Valid, hevent] at hv'
      obtain ⟨-, -, hreply, -⟩ | ⟨hstale, -⟩ := World.perform_finish hv' hd (hid ▸ hrow)
      · cases call with
        | success result => cases hfailed
        | failure failure =>
            refine ⟨failure, .inl ⟨delivery, d.job, ⟨⟨jitter, draw, hevent⟩, d, hd, rfl⟩, hid, _,
              hreply⟩, ?_⟩
            rw [settle_attempts, settle_maxAttempts]
            exact settle_failed (hb job rfl) hfailed
      · exact absurd ⟨htoken, hrunning⟩ hstale
  | @recovered dispatcher limit token jitter draw todo job hf hd hexp =>
      have hb' := hb job rfl
      have hfence : Bounded (fence draw token job) :=
        ⟨hb'.positive, hb'.le, hb'.pending, hb'.running⟩
      refine ⟨workerLost, .inr ⟨⟨⟨dispatcher, limit, false, token, jitter, draw, todo, hevent, hd⟩,
        ?_⟩, rfl⟩, .inr ?_⟩
      · have hv' := hv
        rw [Transition.Valid, hevent] at hv'
        exact World.perform_recovered hv' hd hrow hexp
      · rw [settle_attempts, settle_maxAttempts]
        exact (settle_failed hfence hfailed).resolve_left fun h => by cases h

/-! ## Backoff -/

/-- A failed attempt leaves the job pending or failed. -/
theorem settle_some_state (now : Timestamp) (jitter : Fin 2000001) (failure : OCRFailure)
    (job : Job) : (settle now jitter (some failure) job).state = .pending ∨
      (settle now jitter (some failure) job).state = .failed := by
  simp only [settle]
  split
  · exact .inl rfl
  · exact .inr rfl

/-- **What a failing attempt leaves**: the job is pending or failed, and not available before the
backoff of the attempt has passed. -/
theorem FailsWith.row {env : Env} {x : Step} (hp : Provenance x.pre)
    (hv : x.Valid (World.perform env)) {id : Uuid} {failure : OCRFailure} {now : Timestamp}
    (hf : FailsWith x id failure) (hclock : x.event.clock = some now) :
    ∃ job job' jitter, x.pre.db.jobs.find id = some job ∧ job.state = .running ∧
      x.post.db.jobs.find id = some job' ∧ job'.attempts = job.attempts ∧
      job'.availableAt = now + backoff job.attempts jitter ∧
      (job'.state = .pending ∨ job'.state = .failed) := by
  obtain ⟨delivery, job, ⟨⟨jitter, draw, hevent⟩, d, hd, rfl⟩, rfl, state, hreply⟩ |
    ⟨⟨⟨dispatcher, limit, locked, token, jitter, draw, todo, hevent, hd⟩, hreply⟩, -⟩ := hf
  · rw [hevent] at hclock
    cases hclock
    rw [Transition.Valid, hevent] at hv
    obtain ⟨row, hrow, -⟩ := hp.held delivery d hd
    obtain ⟨-, hrunning, -, hdb⟩ | ⟨-, hstale, -⟩ := World.perform_finish hv hd hrow
    · refine ⟨row, settle draw.now jitter (some failure) row, jitter, hrow, hrunning, ?_,
        settle_attempts .., rfl, settle_some_state ..⟩
      rw [hdb, find_settleJob, settle_id, Db.job_id hrow, if_pos rfl]
      rfl
    · rw [hreply] at hstale
      cases hstale
  · rw [hevent] at hclock
    cases hclock
    rw [Transition.Valid, hevent, hreply] at hv
    obtain ⟨-, job, hjob, hexp, hdb⟩ := World.perform_recoverNext hv hd
    have hrunning := running_of_expired hexp
    have hkey : (fence draw token job).id = id := (Db.job_id hjob : job.id = id)
    refine ⟨job, settle draw.now jitter (some workerLost) (fence draw token job), jitter, hjob,
      hrunning, ?_, settle_attempts .., rfl, settle_some_state ..⟩
    rw [hdb, find_settleJob, settle_id, hkey, if_pos rfl]

/-- The job is waiting for its next attempt since the time it became available, or will have none
without a rearming. -/
def Waiting (w : World) (id : Uuid) (since : Timestamp) : Prop :=
  ∃ job, w.db.jobs.find id = some job ∧
    (job.state = .pending ∧ job.availableAt = since ∧ 0 < job.attempts ∨
      job.state = .succeeded ∨ job.state = .failed)

/-- Until its next claim or rearming a waiting job goes on waiting: the upload that could expedite it
has ended, since the job was claimed before. -/
theorem Waiting.step {env : Env} {h : List Step} {x : Step} {id : Uuid} {since : Timestamp}
    (hr : History env h x.pre) (hg : ∀ z ∈ h, Graceful z) (hv : x.Valid (World.perform env))
    (hwait : Waiting x.pre id since) (htake : ¬ Takes x id) (hrevive : ¬ Revives x id) :
    Waiting x.post id since := by
  obtain ⟨job, hjob, hstate⟩ := hwait
  have hm := (World.perform_effect hv).jobMove (known_of_history hr) id
  rw [hjob] at hm
  obtain ⟨job', hjob', -⟩ := hm.frame
  rw [hjob'] at hm
  refine ⟨job', hjob', ?_⟩
  have hnot : job.state ≠ .running := by
    obtain ⟨hs, -⟩ | hs | hs := hstate <;> rw [hs] <;> decide
  generalize hevent : x.event = e at hm
  cases hm with
  | same | stamped => exact hstate
  | taken _ _ hc | discarded _ hc =>
      refine absurd (takes_of_find ?_ hjob hjob' hc.1 nofun) htake
      rw [hevent]
      rfl
  | settled _ _ _ hrunning => exact absurd hrunning hnot
  | recovered _ _ hexp => exact absurd (running_of_expired hexp) hnot
  | rearmed _ hfailed =>
      refine absurd ⟨by rw [hevent]; rfl, ?_, ?_⟩ hrevive
      · rw [Db.jobState, hjob]
        exact congrArg some hfailed
      · rw [Db.jobState, hjob']
        rfl
  | @rewritten call move u ids f _ hup hids hid hf =>
      cases hf with
      | complete => exact .inr (.inl rfl)
      | rename => exact hstate
      | replay | expedite =>
          -- Only an intent that was never claimed is expedited.
          obtain ⟨-, -, hpos⟩ | hs := hstate
          · exact absurd (intent_attempts hr hg hup hids (hid ▸ hjob)) hpos.ne'
          · exact .inr hs

/-- A waiting job is claimed at the earliest when it became available. -/
theorem Waiting.takes {env : Env} {x : Step} {id : Uuid} {since now : Timestamp} (hw : Known x.pre)
    (hv : x.Valid (World.perform env)) (h : Waiting x.pre id since) (htake : Takes x id)
    (hclock : x.event.clock = some now) : since ≤ now := by
  obtain ⟨job, hjob, hstate⟩ := h
  have hm := (World.perform_effect hv).jobMove hw id
  obtain ⟨hevent, hpre, hpost⟩ := htake
  rw [Db.jobState, hjob] at hpre
  have hpending : job.state = .pending := Option.some.inj hpre
  obtain ⟨-, rfl, -⟩ | hs | hs := hstate
  · rw [Db.jobState] at hpost
    rw [hjob] at hm
    generalize x.event = e at hm hevent hclock
    generalize x.post.db.jobs.find id = row' at hm hpost
    cases hm with
    | same => exact absurd (congrArg some hpending) hpost
    | taken _ _ hc | discarded _ hc =>
        cases hclock
        exact hc.2
    | settled | recovered | stamped | rearmed | rewritten => cases hevent
  · rw [hpending] at hs
    cases hs
  · rw [hpending] at hs
    cases hs

/-- **The backoff is enforced**: between the end of a failed attempt and the next claim the backoff
of the attempt passes, whatever deliveries arrive in between. -/
theorem backoff_enforced {env : Env} {later mid earlier : List Step} {x y : Step} {w : World}
    (hr : History env (later ++ x :: mid ++ y :: earlier) w)
    (hg : ∀ z ∈ later ++ x :: mid ++ y :: earlier, Graceful z) {id : Uuid} {failure : OCRFailure}
    {now now' : Timestamp} {job : Job} (hy : FailsWith y id failure)
    (hnow : y.event.clock = some now) (hjob : y.post.db.jobs.find id = some job)
    (hx : Takes x id) (hnow' : x.event.clock = some now')
    (hmid : ∀ z ∈ mid, ¬ Takes z id ∧ ¬ Revives z id) :
    now + seconds (backoffSeconds job.attempts) ≤ now' := by
  obtain ⟨hearlier, hvy, hrmid, hvx⟩ := hr.cut_two
  obtain ⟨-, hpy⟩ := provenance_of_history hearlier
  obtain ⟨row, row', jitter, hrow, hrunning, hrow', hattempts, havail, hstate⟩ := hy.row hpy hvy hnow
  rw [hjob] at hrow'
  cases hrow'
  have hpos : 0 < job.attempts := hattempts ▸ (bounded_of_history hearlier hrow).running hrunning
  have hwait : Waiting y.post id job.availableAt :=
    ⟨job, hjob, hstate.imp (fun hs => ⟨hs, rfl, hpos⟩) .inr⟩
  have hinv := hrmid.induct
    (fun k v => (∀ z ∈ k ++ y :: earlier, Graceful z) ∧ Waiting v id job.availableAt)
    ⟨fun z hz => hg z (List.mem_append_right _ hz), hwait⟩
    (fun k z hk hv (hz : Graceful z ∧ ¬ Takes z id ∧ ¬ Revives z id) ⟨hgk, hwt⟩ =>
      ⟨List.forall_mem_cons.mpr ⟨hz.1, hgk⟩,
        hwt.step ((hearlier.step hvy).trans hk) hgk hv hz.2.1 hz.2.2⟩)
    fun z hz => ⟨hg z (by simp [hz]), hmid z hz⟩
  have hwx := known_of_history ((hearlier.step hvy).trans hrmid)
  have hjitter : (0 : Int) ≤ jitter.val := Int.natCast_nonneg _
  calc now + seconds (backoffSeconds job.attempts)
      ≤ now + backoff job.attempts jitter :=
        Int.add_le_add_left (Int.le_add_of_nonneg_right hjitter) now
    _ = job.availableAt := by rw [havail, hattempts]
    _ ≤ now' := hinv.2.takes hwx hvx hx hnow'

/-! ## Deliveries that change no attempt -/

/-- A publication writes nothing. -/
theorem publish_db {env : Env} {x : Step} (hv : x.Valid (World.perform env)) {dispatcher : Nat}
    {accepted : Bool} (hevent : x.event = .publish dispatcher accepted) : x.post.db = x.pre.db := by
  have he := World.perform_effect hv
  rw [hevent] at he
  generalize x.post = w' at he ⊢
  cases he with
  | idle | published => rfl

/-- A skipped delivery keeps the attempts of every job but one: the OCR job of a deleted document,
which its claim completes. -/
theorem skipped_attempts {env : Env} {x : Step} (hv : x.Valid (World.perform env)) {delivery : Nat}
    {id token : Uuid} {draw : Draw} (hevent : x.event = .claim delivery id token draw)
    (hreply : x.reply = .skipped) (k : Uuid) :
    x.post.db.attempts k = x.pre.db.attempts k ∨
      k = id ∧ Takes x id ∧ x.post.db.jobState id = some .succeeded ∧
        ∃ job, x.pre.db.jobs.find id = some job ∧ job.kind = .ocr ∧
          x.pre.db.documents.find job.documentId = none := by
  have hv' := hv
  rw [Transition.Valid, hevent] at hv'
  obtain ⟨-, -, ⟨-, -, hsame | ⟨job, hjob, hc, hkind, hrow, hdb⟩⟩ | ⟨_, -, -, hclaimed, -⟩⟩ :=
    World.perform_claim hv'
  · rw [hsame]
    exact .inl rfl
  · have hkey : job.id = id := Db.job_id hjob
    have hfind : ∀ k, x.post.db.jobs.find k =
        if k = id then some (discard (take draw token job)) else x.pre.db.jobs.find k := by
      intro k
      rw [hdb, find_discard, hkey]
    by_cases hk : k = id
    · have hpost := (hfind id).trans (if_pos rfl)
      refine .inr ⟨hk, takes_of_find ?_ hjob hpost hc.1 (fun h => by cases h), ?_, job, hjob, hkind, hrow⟩
      · rw [hevent]
        rfl
      · rw [Db.jobState, hpost]
        rfl
    · refine .inl ?_
      rw [Db.attempts, Db.attempts, hfind, if_neg hk]
  · rw [hreply] at hclaimed
    cases hclaimed

/-! ## The law -/

/-- **Bounded retries with enforced backoff.** In every run:
the attempts of a job are the claims that took it since it was created or last rearmed, never more
than its limit, and below the limit while it is pending;
a job fails for good only at the end of an attempt, by a failure that is not retried or at the limit;
in a graceful run `min(600, 5 * 2 ** (n - 1))` seconds, counted in microseconds, pass between the end
of the failed attempt `n` and the next claim;
and neither publications nor skipped deliveries change attempts, except that the claim which
completes the OCR job of a deleted document counts, although its delivery is skipped. -/
theorem bounded_retries {env : Env} {h : List Step} {w : World} (hr : History env h w) :
    (∀ job ∈ w.db.jobs.rows, job.attempts = claimsSince job.id h ∧
      job.attempts ≤ job.maxAttempts ∧ (job.state = .pending → job.attempts < job.maxAttempts)) ∧
    (∀ x ∈ h, ∀ id job, x.post.db.jobs.find id = some job → job.state = .failed →
      x.pre.db.jobState id ≠ some .failed → ∃ failure, FailsWith x id failure ∧
        (failure.retryable = false ∨ job.attempts = job.maxAttempts)) ∧
    ((∀ z ∈ h, Graceful z) → ∀ later x mid y earlier id failure now now' job,
      h = later ++ x :: mid ++ y :: earlier → FailsWith y id failure → y.event.clock = some now →
      y.post.db.jobs.find id = some job → Takes x id → x.event.clock = some now' →
      (∀ z ∈ mid, ¬ Takes z id ∧ ¬ Revives z id) →
        now + 1000000 * (min 600 (5 * 2 ^ (job.attempts - 1)) : Nat) ≤ now') ∧
    (∀ x ∈ h, ∀ dispatcher accepted, x.event = .publish dispatcher accepted →
      x.post.db = x.pre.db) ∧
    ∀ x ∈ h, ∀ delivery id token draw, x.event = .claim delivery id token draw →
      x.reply = .skipped → ∀ k, x.post.db.attempts k = x.pre.db.attempts k ∨
        k = id ∧ Takes x id ∧ x.post.db.jobState id = some .succeeded ∧
          ∃ job, x.pre.db.jobs.find id = some job ∧ job.kind = .ocr ∧
            x.pre.db.documents.find job.documentId = none := by
  refine ⟨fun job hjob => ?_, fun x hx id job hjob hfailed hnew => ?_, ?_,
    fun x hx _ _ hevent => publish_db (hr.valid hx) hevent,
    fun x hx _ _ _ _ hevent hreply k => skipped_attempts (hr.valid hx) hevent hreply k⟩
  · have hfind := Table.find_of_mem hjob
    have hb := bounded_of_history hr hfind
    refine ⟨?_, hb.le, hb.pending⟩
    rw [← attempts_eq_claimsSince hr, Db.attempts, hfind]
    rfl
  · obtain ⟨later, earlier, -, hearlier, hv, -⟩ := hr.cut hx
    exact failed_step (known_of_history hearlier) hv (fun _ => bounded_of_history hearlier) hjob
      hfailed hnew
  · rintro hg later x mid y earlier id failure now now' job rfl hy hnow hjob hx hnow' hmid
    have hdue := backoff_enforced hr hg hy hnow hjob hx hnow' hmid
    rwa [seconds, backoffSeconds, mul_comm] at hdue

/-- The upload, an attempt that fails, and the claim of the second attempt after the backoff. -/
def sampleRetry : Option (List Step × World) :=
  Run.execute (World.perform sampleEnv) ([], .init)
    (sampleUpload ++ [.claim 0 5 6 ⟨2000, 7⟩,
      .finish 0 (.failure ⟨.storageUnavailable, true⟩) 0 ⟨3000, 8⟩, .claim 1 5 9 ⟨5003000, 10⟩])

/-- The retries of the sample can happen. -/
theorem sampleRetry_isSome : sampleRetry.isSome = true := by decide +kernel

/-- The history of the retry. -/
def sampleRetryHistory : List Step := (sampleRetry.get sampleRetry_isSome).1

/-- The state after the retry. -/
def sampleRetryWorld : World := (sampleRetry.get sampleRetry_isSome).2

/-- They are a run of the system. -/
theorem sampleRetry_history : History sampleEnv sampleRetryHistory sampleRetryWorld :=
  Run.of_isSome rfl sampleRetry_isSome

/-- After the retry the OCR job is at its second attempt, which two claims account for. -/
theorem bounded_retries_sample :
    sampleRetryWorld.db.attempts 5 = 2 ∧
    ∀ job ∈ sampleRetryWorld.db.jobs.rows, job.attempts = claimsSince job.id sampleRetryHistory ∧
      job.attempts ≤ job.maxAttempts ∧ (job.state = .pending → job.attempts < job.maxAttempts) :=
  ⟨by decide +kernel, (bounded_retries sampleRetry_history).1⟩

/-- The upload, the deletion of the document, and the delivery of its OCR job. -/
def sampleDiscard : Option (List Step × World) :=
  Run.execute (World.perform sampleEnv) ([], .init)
    (sampleUpload ++ [.destroy ⟨sampleUser, 1, some (etag 1), 101⟩ 6 ⟨2000, 7⟩,
      .claim 0 5 8 ⟨3000, 9⟩])

/-- The late claim of the sample can happen. -/
theorem sampleDiscard_isSome : sampleDiscard.isSome = true := by decide +kernel

/-- The history of the skipped delivery. -/
def sampleDiscardHistory : List Step := (sampleDiscard.get sampleDiscard_isSome).1

/-- It ends a run of the system. -/
theorem sampleDiscard_history :
    History sampleEnv sampleDiscardHistory (sampleDiscard.get sampleDiscard_isSome).2 :=
  Run.of_isSome rfl sampleDiscard_isSome

/-- A skipped delivery may change attempts: that of the OCR job of a deleted document does. -/
theorem skipped_delivery_counts :
    ¬ ∀ h w, History sampleEnv h w → ∀ x ∈ h, (∃ id, x.event.claimed = some id) →
      x.reply = .skipped → ∀ k, x.post.db.attempts k = x.pre.db.attempts k := by
  intro hall
  have hfound : ∃ x ∈ sampleDiscardHistory, x.event.claimed = some 5 ∧
      (match x.reply with | .skipped => true | _ => false) = true ∧
        x.post.db.attempts 5 ≠ x.pre.db.attempts 5 := by decide +kernel
  obtain ⟨x, hx, hclaimed, hreply, hne⟩ := hfound
  refine hne (hall _ _ sampleDiscard_history x hx ⟨5, hclaimed⟩ ?_ 5)
  split at hreply
  · assumption
  · cases hreply

end MiniDms
