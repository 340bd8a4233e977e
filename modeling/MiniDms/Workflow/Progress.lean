import MiniDms.Workflow.Deliveries
import MiniDms.Workflow.Dispatch
import MiniDms.Workflow.Retries

/-! # Nothing gets stuck

Workers and dispatchers may die at any point. Whatever they leave behind, the work can be finished: from
every reachable state the dispatchers and the workers alone, new ones if need be, have a run after which
no job is pending or running. A pending job succeeds in it, and so does a running one that has an
attempt left; an expired lease is what makes the work of a dead worker available again. -/

namespace MiniDms

open Python Relational TransitionSystem

/-! ## Events that can happen -/

/-- The events of workers and dispatchers. -/
def Event.isWork : Event → Bool
  | .claim .. | .readDocument .. | .deleteObject .. | .finish .. | .recoverExpired .. | .recoverNext ..
  | .stop .. => true
  | _ => false

/-- Only finitely many deliveries have been made. -/
theorem free_of_history {env : Env} {h : List Step} {w : World} (hr : History env h w) :
    ∃ bound, ∀ n, bound ≤ n → w.deliveries n = none := by
  refine hr.preserved (fun w => ∃ bound, ∀ n, bound ≤ n → w.deliveries n = none)
    ⟨0, fun _ _ => rfl⟩ fun x hv ⟨bound, hfree⟩ => ?_
  refine ⟨max bound (x.event.delivery.elim 0 Nat.succ), fun n hn => ?_⟩
  obtain ⟨hle, hdelivery⟩ := max_le_iff.mp hn
  rw [(World.perform_effect hv).delivery_frame, hfree n hle]
  intro heq
  rw [heq] at hdelivery
  exact absurd hdelivery (Nat.not_succ_le_self n)

/-- A dispatcher stands where it has been put. -/
@[simp] theorem World.setDispatcher_self (w : World) (d : Nat) (state : Dispatcher) :
    (w.setDispatcher d state).dispatchers d = state := by
  show Function.update w.dispatchers d state d = state
  exact Function.update_self ..

/-- An idle dispatcher can start a recovery. -/
theorem World.perform_recoverExpired_eq {env : Env} {w : World} {dispatcher limit : Nat}
    {now : Timestamp} {ids : List Uuid} (hidle : w.dispatchers dispatcher = .idle)
    (hc : w.db.candidates now limit ids = true) :
    w.perform env (.recoverExpired dispatcher limit now ids) =
      some (w.setDispatcher dispatcher (.recovering limit ids), .done) := by
  simp only [World.perform, hidle, hc, and_self, if_true]

/-- The recovery of an expired job that is not locked can happen. -/
theorem World.perform_recoverNext_eq {env : Env} {w : World} {dispatcher limit : Nat}
    {token id : Uuid} {jitter : Fin 2000001} {draw : Draw} {todo : List Uuid} {job : Job}
    (hd : w.dispatchers dispatcher = .recovering limit (id :: todo))
    (hf : w.Fresh [token, draw.eventId]) (hjob : w.db.jobs.find id = some job)
    (hexp : expired draw.now job = true) :
    w.perform env (.recoverNext dispatcher false token jitter draw) =
      some ({ (w.drew [token, draw.eventId]).setDispatcher dispatcher (.recovering limit todo) with
        db := settleJob env (w.db.updateJob id (fence draw token)) draw
          (settle draw.now jitter (some workerLost) (fence draw token job)) none }, .done) := by
  simp only [World.perform, hd, World.draw_of_fresh hf, Option.bind_eq_bind, Option.bind_some,
    World.setDispatcher, World.drew_db, Bool.false_eq_true, if_false, recoverOne_of_find hjob,
    if_pos hexp]
  rfl

/-- A granted claim hands its job to the delivery. -/
theorem World.claim_granted {env : Env} {w : World} {n : Nat} {token jobId : Uuid} {draw : Draw}
    {db : Db} {job : Job} (hfree : w.deliveries n = none) (hf : w.Fresh [token, draw.eventId])
    (hclaim : MiniDms.claim env w.db draw token jobId = .ok (db, some job)) :
    ∃ w', w.perform env (.claim n jobId token draw) = some (w', .claimed job) ∧
      w'.deliveries n = some ⟨job, false, false⟩ ∧ w'.db = db :=
  ⟨_, World.perform_claim_eq hfree hf hclaim, Function.update_self .., rfl⟩

/-- An acknowledged deletion is what the delivery of a cleanup job completes with. -/
theorem World.object_deleted {env : Env} {w : World} {n : Nat} {d : Delivery} {key : StorageKey}
    (hd : w.deliveries n = some d) (hkind : d.job.kind = .deleteObject)
    (hkey : d.job.storageKey = some key) :
    ∃ w', w.perform env (.deleteObject n .ok) = some (w', .done) ∧
      w'.deliveries n = some { d with deleted := true } ∧ w'.db = w.db := by
  refine ⟨_, World.perform_deleteObject_eq hd hkind hkey .ok, ?_, rfl⟩
  show Function.update w.deliveries n _ n = _
  rw [Function.update_self, decide_eq_true rfl, Bool.or_true]

/-! ## Time -/

/-- The clock readings along a run, newest first. -/
def readings (path : List Step) : List Timestamp := path.filterMap fun x => x.event.clock

/-- Along the run the clocks are read between `t` and `t'`, and no reading is before an earlier one. -/
structure Timed (t : Timestamp) (path : List Step) (t' : Timestamp) : Prop where
  ordered : (readings path).Pairwise fun later earlier => earlier ≤ later
  lower : ∀ r ∈ readings path, t ≤ r
  upper : ∀ r ∈ readings path, r ≤ t'
  le : t ≤ t'

namespace Timed

variable {t t' t'' : Timestamp} {path path' : List Step}

/-- Where nothing is done, no clock is read. -/
theorem nil (t : Timestamp) : Timed t [] t :=
  ⟨.nil, List.forall_mem_nil _, List.forall_mem_nil _, le_rfl⟩

/-- A step that reads a clock reads the time to which the run has come. -/
theorem cons {x : Step} (h : Timed t path t') (hle : t' ≤ t'')
    (hx : ∀ r, x.event.clock = some r → r = t'') : Timed t (x :: path) t'' := by
  have hold : ∀ r ∈ readings path, r ≤ t'' := fun r hr => (h.upper r hr).trans hle
  cases hclock : x.event.clock with
  | none =>
      have hsame : readings (x :: path) = readings path := List.filterMap_cons_none hclock
      constructor
      · rw [hsame]
        exact h.ordered
      · rw [hsame]
        exact h.lower
      · rw [hsame]
        exact hold
      · exact h.le.trans hle
  | some r =>
      obtain rfl := hx r hclock
      have hmore : readings (x :: path) = r :: readings path := List.filterMap_cons_some hclock
      constructor
      · rw [hmore]
        exact .cons hold h.ordered
      · rw [hmore]
        exact List.forall_mem_cons.mpr ⟨h.le.trans hle, h.lower⟩
      · rw [hmore]
        exact List.forall_mem_cons.mpr ⟨le_rfl, hold⟩
      · exact h.le.trans hle

/-- One run after the other. -/
theorem append (h : Timed t path t') (h' : Timed t' path' t'') : Timed t (path' ++ path) t'' := by
  have hboth : readings (path' ++ path) = readings path' ++ readings path :=
    List.filterMap_append ..
  constructor
  · rw [hboth]
    exact List.pairwise_append.mpr ⟨h'.ordered, h.ordered, fun _ hr' r hr =>
      (h.upper r hr).trans (h'.lower _ hr')⟩
  · intro r hr
    rw [hboth, List.mem_append] at hr
    exact hr.elim (fun hr => h.le.trans (h'.lower r hr)) (h.lower r)
  · intro r hr
    rw [hboth, List.mem_append] at hr
    exact hr.elim (h'.upper r) fun hr => (h.upper r hr).trans h'.le
  · exact h.le.trans h'.le

end Timed

/-! ## Runs of the workers -/

/-- From `w` at the time `t` the workers and dispatchers run to `w'` at the time `t'`, where the row of
one job is `job'` and the other jobs are as they were. -/
def Works (env : Env) (t : Timestamp) (w : World) (id : Uuid) (job' : Job) (t' : Timestamp)
    (w' : World) : Prop :=
  ∃ path, Run (World.perform env) w path w' ∧ (∀ x ∈ path, x.event.isWork = true) ∧
    Timed t path t' ∧ ∀ k, w'.db.jobs.find k = if k = id then some job' else w.db.jobs.find k

namespace Works

variable {env : Env} {t t' t'' : Timestamp} {w w' w'' : World} {id : Uuid} {job job' : Job}

/-- Nothing has to be done. -/
theorem refl (hjob : w.db.jobs.find id = some job) : Works env t w id job t w := by
  refine ⟨[], .refl, List.forall_mem_nil _, .nil t, fun k => ?_⟩
  split
  · next hk => rw [hk, hjob]
  · rfl

/-- The table after a run is the table before it with one row written over. -/
theorem rows (h : Works env t w id job t' w') (k : Uuid) :
    w'.db.jobs.find k = if k = id then some job else w.db.jobs.find k := by
  obtain ⟨_, _, _, _, hrows⟩ := h
  exact hrows k

/-- The job is as it was left. -/
theorem find (h : Works env t w id job t' w') : w'.db.jobs.find id = some job := by
  rw [h.rows, if_pos rfl]

/-- An event that writes the job. -/
theorem step {e : Event} {r : Reply} (h : Works env t w id job t' w') (hwork : e.isWork = true)
    (hstep : w'.perform env e = some (w'', r)) (hle : t' ≤ t'')
    (hclock : ∀ r, e.clock = some r → r = t'')
    (hrows : ∀ k, w''.db.jobs.find k = if k = id then some job' else w'.db.jobs.find k) :
    Works env t w id job' t'' w'' := by
  obtain ⟨path, hr, hpath, htimed, hold⟩ := h
  refine ⟨_, hr.step hstep, List.forall_mem_cons.mpr ⟨hwork, hpath⟩, htimed.cons hle hclock,
    fun k => ?_⟩
  rw [hrows, hold]
  split <;> rfl

/-- An event that leaves the tables alone. -/
theorem quiet {e : Event} {r : Reply} (h : Works env t w id job t' w') (hwork : e.isWork = true)
    (hstep : w'.perform env e = some (w'', r)) (hle : t' ≤ t'')
    (hclock : ∀ r, e.clock = some r → r = t'') (hdb : w''.db = w'.db) :
    Works env t w id job t'' w'' := by
  refine h.step hwork hstep hle hclock fun k => ?_
  rw [hdb]
  split
  · next hk => rw [hk, h.find]
  · rfl

/-- One run after the other. -/
theorem trans (h : Works env t w id job t' w') (h' : Works env t' w' id job' t'' w'') :
    Works env t w id job' t'' w'' := by
  obtain ⟨path, hr, hpath, htimed, hrows⟩ := h
  obtain ⟨path', hr', hpath', htimed', hrows'⟩ := h'
  refine ⟨path' ++ path, hr.trans hr', ?_, htimed.append htimed', fun k => ?_⟩
  · intro x hx
    exact (List.mem_append.mp hx).elim (hpath' x) (hpath x)
  · rw [hrows', hrows]
    split <;> rfl

/-- The work continues a run from the initial state. -/
theorem history {h : List Step} (hw : Works env t w id job t' w') (hr : History env h w) :
    ∃ h', History env h' w' :=
  let ⟨path, hrun, _⟩ := hw
  ⟨path ++ h, hr.trans hrun⟩

end Works

/-! ## One job -/

/-- Settling a fenced job writes its row over. -/
theorem find_settleFenced {env : Env} {db : Db} {draw : Draw} {token id : Uuid} {job : Job}
    {jitter : Fin 2000001} (hjob : db.jobs.find id = some job) (k : Uuid) :
    (settleJob env (db.updateJob id (fence draw token)) draw
        (settle draw.now jitter (some workerLost) (fence draw token job)) none).jobs.find k =
      if k = id then some (settle draw.now jitter (some workerLost) (fence draw token job))
      else db.jobs.find k := by
  have hid : (fence draw token job).id = id := (Db.job_id hjob : job.id = id)
  rw [find_settleJob, settle_id, hid]
  split
  · rfl
  · next hne => rw [Db.find_updateJob, if_neg hne]

/-- **A running job can be recovered** at any time. Once its lease is over it is pending again, or it
has failed when its attempts are used up. -/
theorem works_recovered {env : Env} {h : List Step} {w : World} (hr : History env h w)
    (start : Timestamp) {id : Uuid} {job : Job} (hjob : w.db.jobs.find id = some job)
    (hrunning : job.state = .running) :
    ∃ w' job' t, Works env start w id job' t w' ∧
      job'.state = if job.attempts < job.maxAttempts then .pending else .failed := by
  obtain ⟨lease, hlease⟩ := Option.ne_none_iff_exists'.mp (leased_of_history hr hjob hrunning)
  -- A dispatcher that is started at `t`, when the lease is over, finds the job.
  obtain ⟨t, hstarted, hover⟩ : ∃ t, start ≤ t ∧ lease ≤ t :=
    ⟨max start lease, le_max_left .., le_max_right ..⟩
  have hexp : expired t job = true := by
    rw [expired, hrunning, hlease, Option.any_some]
    exact Bool.and_eq_true_iff.mpr ⟨rfl, decide_eq_true hover⟩
  have hcandidates : w.db.candidates t 1 [id] = true := by
    have hpos : 0 < (w.db.jobs.rows.filter (expired t)).length :=
      List.length_pos_of_mem (List.mem_filter.mpr ⟨(Table.find_eq_some_iff.mp hjob).1, hexp⟩)
    simp only [Db.candidates, List.nodup_singleton, List.all_cons, List.all_nil, hjob,
      Option.any_some, hexp, Bool.and_true, decide_true, List.length_singleton]
    exact decide_eq_true (min_eq_left hpos).symm
  have hstop : w.perform env (.stop 0) = some (w.setDispatcher 0 .idle, .done) := rfl
  have hstart : (w.setDispatcher 0 .idle).perform env (.recoverExpired 0 1 t [id]) =
      some ((w.setDispatcher 0 .idle).setDispatcher 0 (.recovering 1 [id]), .done) :=
    World.perform_recoverExpired_eq (World.setDispatcher_self ..) hcandidates
  have hfresh : ((w.setDispatcher 0 .idle).setDispatcher 0 (.recovering 1 [id])).Fresh
      [w.newId, (⟨t, w.newId + 1⟩ : Draw).eventId] := w.fresh_newId
  have hnext := @World.perform_recoverNext_eq env
    ((w.setDispatcher 0 .idle).setDispatcher 0 (.recovering 1 [id])) 0 1 w.newId id 0
    ⟨t, w.newId + 1⟩ [] job (World.setDispatcher_self ..) hfresh hjob hexp
  have hready := (Works.refl (t := start) hjob).quiet rfl hstop le_rfl (fun _ hq => by cases hq) rfl
  have hlisted := hready.quiet rfl hstart hstarted (fun _ hq => (Option.some.inj hq).symm) rfl
  have hworks := hlisted.step rfl hnext le_rfl (fun _ hq => (Option.some.inj hq).symm)
    (find_settleFenced hjob)
  refine ⟨_, _, t, hworks, ?_⟩
  simp only [settle, workerLost, fence, Bool.true_and]
  exact if_congr decide_eq_true_iff rfl rfl

/-- **A delivery can complete** the job it was granted, as long as no one has fenced it. -/
theorem Works.finished {env : Env} {t t₁ : Timestamp} {w w₁ : World} {id : Uuid} {n : Nat}
    {d : Delivery} {call : FinishCall} (hworks : Works env t w id d.job t₁ w₁)
    (hd : w₁.deliveries n = some d) (hrunning : d.job.state = .running)
    (hpermit : d.permits call = true) (hcall : call.failed = none) :
    ∃ w' job' t', Works env t w id job' t' w' ∧ job'.state = .succeeded := by
  have hid : d.job.id = id := Db.job_id hworks.find
  have hfresh : w₁.Fresh [(⟨t₁, w₁.newId⟩ : Draw).eventId] :=
    ⟨List.nodup_singleton _, fun k hk => w₁.fresh_newId.2 k (List.mem_singleton.mp hk ▸ List.mem_cons_self)⟩
  have hstep := @World.perform_finish_eq env w₁ n d call _ hd hpermit hfresh 0
  rw [finish_of_find (hid.symm ▸ hworks.find), if_pos ⟨rfl, hrunning⟩] at hstep
  refine ⟨_, settle t₁ 0 call.failed d.job, t₁, hworks.step rfl hstep le_rfl
    (fun _ hq => (Option.some.inj hq).symm) fun k => ?_, ?_⟩
  · show (settleJob env w₁.db _ _ _).jobs.find k = _
    rw [find_settleJob, settle_id, hid]
  · rw [hcall]
    rfl

/-- **A pending job can be carried out** at any time. It succeeds: its document is processed or its
object deleted, and an OCR job whose document is gone is completed by the claim. -/
theorem works_claimed {env : Env} {h : List Step} {w : World} (hr : History env h w)
    (start : Timestamp) {id : Uuid} {job : Job} (hjob : w.db.jobs.find id = some job)
    (hpending : job.state = .pending) :
    ∃ w' job' t, Works env start w id job' t w' ∧ job'.state = .succeeded := by
  -- The job is claimed at `t`, when it is available.
  obtain ⟨t, hstarted, havailable⟩ : ∃ t, start ≤ t ∧ job.availableAt ≤ t :=
    ⟨max start job.availableAt, le_max_left .., le_max_right ..⟩
  have hclock : ∀ {n : Nat} {r : Timestamp},
      (Event.claim n id w.newId ⟨t, w.newId + 1⟩).clock = some r → r = t :=
    fun hq => (Option.some.inj hq).symm
  have hput : ∀ k, (w.db.jobs.put (take ⟨t, w.newId + 1⟩ w.newId job)).find k =
      if k = id then some (take ⟨t, w.newId + 1⟩ w.newId job) else w.db.jobs.find k := by
    intro k
    have hid : (take ⟨t, w.newId + 1⟩ w.newId job).id = id := (Db.job_id hjob : job.id = id)
    rw [Table.find_put, hid]
  obtain ⟨n, hfree⟩ := free_of_history hr
  have hfree := hfree n le_rfl
  obtain ⟨⟨db, granted⟩, hclaim⟩ := claim_eq_ok env w.db ⟨t, w.newId + 1⟩ w.newId id
  obtain ⟨-, -, hidle⟩ | ⟨job₁, hjob₁, -, hcase⟩ := claim_cases hclaim
  · exact absurd ⟨hpending, havailable⟩ (hidle job hjob)
  rw [hjob] at hjob₁
  cases hjob₁
  obtain ⟨hkind, rfl, rfl⟩ | ⟨hkind, -, rfl, rfl⟩ | ⟨row, hkind, -, rfl, rfl⟩ := hcase
  · obtain ⟨w₁, hstep, hheld, hdb⟩ := World.claim_granted hfree w.fresh_newId hclaim
    have hgranted := (Works.refl (t := start) hjob).step rfl hstep hstarted (fun _ => hclock)
      fun k => by rw [hdb]; exact hput k
    obtain ⟨key, hkey⟩ := (keyed_of_history hr).jobs id job hjob hkind
    obtain ⟨w₂, hdelete, hdeleted, hsame⟩ := @World.object_deleted env _ _ _ _ hheld hkind hkey
    have hcleaned := hgranted.quiet rfl hdelete le_rfl (fun _ hq => by cases hq) hsame
    refine @Works.finished env _ _ _ _ _ _ _ (.success none) hcleaned hdeleted rfl ?_ rfl
    rw [Delivery.permits]
    simp only [take, hkind]
  · -- The document is gone, and the claim has completed the job.
    have hstep := World.perform_claim_eq hfree w.fresh_newId hclaim
    refine ⟨_, discard (take ⟨t, w.newId + 1⟩ w.newId job), t,
      (Works.refl hjob).step rfl hstep hstarted (fun _ => hclock) fun k => ?_, rfl⟩
    rw [find_discard, Db.job_id hjob]
  · obtain ⟨w₁, hstep, hheld, hdb⟩ := World.claim_granted hfree w.fresh_newId hclaim
    have hgranted := (Works.refl (t := start) hjob).step rfl hstep hstarted (fun _ => hclock)
      fun k => by rw [hdb]; exact hput k
    exact @Works.finished env _ _ _ _ _ _ _ (.success (some ⟨[], .dict []⟩)) hgranted hheld rfl
      (decide_eq_true hkind) rfl

/-- What the work of others makes of a job: it has succeeded, or it has failed as it had before or
because its last attempt was under way. -/
def Job.SettledAs (job job' : Job) : Prop :=
  job'.state = .succeeded ∨
    job'.state = .failed ∧ (job.state = .failed ∨
      job.state = .running ∧ job.maxAttempts ≤ job.attempts)

/-- **Every job can be settled** at any time, without a step of any other. -/
theorem works_settled {env : Env} {h : List Step} {w : World} (hr : History env h w)
    (start : Timestamp) {id : Uuid} {job : Job} (hjob : w.db.jobs.find id = some job) :
    ∃ w' job' t, Works env start w id job' t w' ∧ job.SettledAs job' := by
  cases hstate : job.state with
  | succeeded => exact ⟨w, job, start, .refl hjob, .inl hstate⟩
  | failed => exact ⟨w, job, start, .refl hjob, .inr ⟨hstate, .inl hstate⟩⟩
  | pending =>
      obtain ⟨w', job', t, hworks, hdone⟩ := works_claimed hr start hjob hstate
      exact ⟨w', job', t, hworks, .inl hdone⟩
  | running =>
      obtain ⟨w₁, job₁, t₁, hrecovered, hstate₁⟩ := works_recovered hr start hjob hstate
      by_cases hlt : job.attempts < job.maxAttempts
      · rw [if_pos hlt] at hstate₁
        obtain ⟨h₁, hr₁⟩ := hrecovered.history hr
        obtain ⟨w', job', t, hworks, hdone⟩ := works_claimed hr₁ t₁ hrecovered.find hstate₁
        exact ⟨w', job', t, hrecovered.trans hworks, .inl hdone⟩
      · rw [if_neg hlt] at hstate₁
        exact ⟨w₁, job₁, t₁, hrecovered, .inr ⟨hstate₁, .inr ⟨hstate, Nat.le_of_not_lt hlt⟩⟩⟩

/-! ## All jobs -/

/-- The listed jobs can be settled one after the other. -/
theorem works_all {env : Env} {h : List Step} {w : World} (hr : History env h w) (start : Timestamp)
    (ids : List Uuid) :
    ∃ path w' t, Run (World.perform env) w path w' ∧ (∀ x ∈ path, x.event.isWork = true) ∧
      Timed start path t ∧
      (∀ id, (w'.db.jobs.find id).isSome = (w.db.jobs.find id).isSome) ∧
      ∀ id job job', w.db.jobs.find id = some job → w'.db.jobs.find id = some job' →
        if id ∈ ids then job.SettledAs job' else job' = job := by
  induction ids with
  | nil =>
      refine ⟨[], w, start, .refl, List.forall_mem_nil _, .nil start, fun _ => rfl,
        fun id job job' hj hj' => ?_⟩
      rw [if_neg List.not_mem_nil]
      exact Option.some.inj (hj'.symm.trans hj)
  | cons id ids ih =>
      obtain ⟨path, w', t, hrun, hwork, htimed, hsome, hsettled⟩ := ih
      by_cases hmem : id ∈ ids ∨ w'.db.jobs.find id = none
      · -- The job has been settled already, or there is none.
        refine ⟨path, w', t, hrun, hwork, htimed, hsome, fun k job job' hj hj' => ?_⟩
        have hk := hsettled k job job' hj hj'
        by_cases hq : k = id
        · subst hq
          rw [if_pos List.mem_cons_self]
          obtain hmem | hnone := hmem
          · rwa [if_pos hmem] at hk
          · rw [hnone] at hj'
            cases hj'
        · simpa only [List.mem_cons, hq, false_or] using hk
      · obtain ⟨hout, hfound⟩ := not_or.mp hmem
        obtain ⟨job₁, hjob₁⟩ := Option.ne_none_iff_exists'.mp hfound
        obtain ⟨w'', job₂, t', ⟨path', hrun', hwork', htimed', hrows⟩, hdone⟩ :=
          works_settled (hr.trans hrun) t hjob₁
        refine ⟨path' ++ path, w'', t', hrun.trans hrun', fun x hx => ?_, htimed.append htimed',
          fun k => ?_, fun k job job' hj hj' => ?_⟩
        · exact (List.mem_append.mp hx).elim (hwork' x) (hwork x)
        · rw [hrows, ← hsome]
          split
          · next hk =>
              rw [hk, hjob₁]
              rfl
          · rfl
        · rw [hrows] at hj'
          by_cases hq : k = id
          · subst hq
            rw [if_pos rfl] at hj'
            cases hj'
            have hsame := hsettled k job job₁ hj hjob₁
            rw [if_neg hout] at hsame
            rw [if_pos List.mem_cons_self, ← hsame]
            exact hdone
          · rw [if_neg hq] at hj'
            have hk := hsettled k job job' hj hj'
            simpa only [List.mem_cons, hq, false_or] using hk

end MiniDms
