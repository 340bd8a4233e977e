import MiniDms.Workflow.Deliveries
import MiniDms.Workflow.Fencing

/-! # What others can do to a claim

A delivery settles a claim that is kept until it has done so. Of everything the others can do
meanwhile, two things take the claim away: a recovery of the job, and the upload that owns the job as
its cleanup intent and completes it. The second needs an upload that takes longer than the hour after
which its intent is due. -/

namespace MiniDms

open Python Relational TransitionSystem

/-- An upload completes a running job as its own intent. -/
def CompletesIntent (x : Step) (id : Uuid) : Prop :=
  (∃ call move, x.event = .upload call move) ∧
    (∃ row, x.pre.db.jobs.find id = some row ∧ row.state = .running) ∧
    ∃ row, x.post.db.jobs.find id = some row ∧ row.state = .succeeded

/-- A step of others, which does not recover the job. -/
structure Unrecovered (n : Nat) (id : Uuid) (x : Step) : Prop where
  other : x.event.delivery ≠ some n
  recovery : ¬ Recovers x id

/-- A step of others that spares the claim on a job. -/
structure Spares (n : Nat) (id : Uuid) (x : Step) : Prop extends Unrecovered n id x where
  intent : ¬ CompletesIntent x id

/-- **In every reachable state** no two deliveries hold one token. -/
theorem one_holder_of_history {env : Env} {h : List Step} {w : World} (hr : History env h w)
    {n m : Nat} {d e : Delivery} (hd : w.deliveries n = some d) (he : w.deliveries m = some e)
    (htoken : d.job.runToken = e.job.runToken) : n = m := by
  refine (hr.preserved (fun w => Known w ∧ ∀ n m d e, w.deliveries n = some d →
      w.deliveries m = some e → d.job.runToken = e.job.runToken → n = m)
    ⟨known_init, fun _ _ _ _ hd => by cases hd⟩ (fun x hv ⟨hw, ih⟩ => ?_)).2 n m d e hd he htoken
  have heffect := World.perform_effect hv
  refine ⟨hw.step heffect, fun n m d e hd he htoken => ?_⟩
  -- A claim draws a token that no delivery from before holds.
  have hfresh : ∀ {token : Uuid} {ids : List Uuid} {k : Nat} {y : Delivery},
      x.pre.Fresh (token :: ids) → x.pre.deliveries k = some y → y.job.runToken ≠ some token :=
    fun hf hy hq => hf.2 _ List.mem_cons_self ((hw.deliveries _ _ hy).token _ hq)
  obtain ⟨d', hd', hjob, -⟩ | ⟨_, token, _, hevent, hf, -, _, -, -, rfl, -⟩ :=
    heffect.delivery_cases hd
  · obtain ⟨e', he', hjob', -⟩ | ⟨_, token, _, -, hf, -, _, -, -, rfl, -⟩ :=
      heffect.delivery_cases he
    · exact ih n m d' e' hd' he' (by rw [← hjob, ← hjob', htoken])
    · exact absurd (hjob ▸ htoken) (hfresh hf hd')
  · obtain ⟨e', he', hjob', -⟩ | ⟨_, token', _, hevent', -⟩ := heffect.delivery_cases he
    · exact absurd (hjob' ▸ htoken.symm) (hfresh hf he')
    · rw [hevent] at hevent'
      cases hevent'
      rfl

/-- **Of all that others can do**, only a recovery and the completion of an intent end a claim. -/
theorem Spares.keepsClaim {env : Env} {h : List Step} {x : Step} {n : Nat} {d : Delivery}
    (hs : Spares n d.job.id x) (hr : History env h x.pre) (hv : x.Valid (World.perform env))
    (hd : x.pre.deliveries n = some d) : KeepsClaim d.job x.pre.db x.post.db := by
  intro row hrow htoken hstate
  have hpending : row.state ≠ .pending ∧ row.state ≠ .failed := by
    rcases hstate with h | h <;> simp [h]
  have hm := (World.perform_effect hv).jobMove (known_of_history hr) d.job.id
  rw [hrow] at hm
  generalize hevent : x.event = e at hm
  generalize hafter : x.post.db.jobs.find d.job.id = after at hm
  cases hm with
  | same => exact ⟨row, rfl, rfl, rfl, rfl, rfl, rfl, rfl⟩
  | taken _ _ hc => exact absurd hc.1 hpending.1
  | discarded _ hc => exact absurd hc.1 hpending.1
  | @settled m _ _ _ d' _ hd' _ htoken' =>
      -- Another delivery would hold the token of this one.
      have hother := hs.other
      rw [hevent] at hother
      refine absurd (congrArg some ?_) hother
      exact one_holder_of_history hr hd' hd (htoken'.symm.trans htoken)
  | @recovered dispatcher limit token jitter draw todo _ _ hd' hexp =>
      have hv' := hv
      rw [Transition.Valid, hevent] at hv'
      exact absurd ⟨⟨dispatcher, limit, false, token, jitter, draw, todo, hevent, hd'⟩,
        World.perform_recovered hv' hd' hrow hexp⟩ hs.recovery
  | stamped => exact ⟨_, rfl, rfl, rfl, rfl, rfl, rfl, rfl⟩
  | rearmed _ hfailed => exact absurd hfailed hpending.2
  | rewritten _ _ _ hf =>
      cases hf with
      | rename | replay | expedite => exact ⟨_, rfl, rfl, rfl, rfl, rfl, rfl, rfl⟩
      | complete =>
          -- The write that completes an intent leaves alone a row that has succeeded before.
          rcases hstate with hrunning | hdone
          · exact absurd ⟨⟨_, _, hevent⟩, ⟨row, hrow, hrunning⟩, ⟨_, hafter, rfl⟩⟩ hs.intent
          · exact ⟨_, rfl, rfl, hdone.symm, rfl, rfl, rfl, rfl⟩

/-- **A run whose steps spare a claim keeps it.** -/
theorem keepsClaim_of_run {env : Env} {h : List Step} {w w' : World} {path : List Step} {n : Nat}
    {d : Delivery} (hr : History env h w) (hd : w.deliveries n = some d)
    (hrun : Run (World.perform env) w path w') (hpath : ∀ x ∈ path, Spares n d.job.id x) :
    KeepsClaim d.job w.db w'.db := by
  refine (hrun.induct (fun _ v => v.deliveries n = some d ∧ KeepsClaim d.job w.db v.db)
    ⟨hd, .refl d.job w.db⟩ (fun k x hk hv hx ⟨hheld, hkeep⟩ => ⟨?_, ?_⟩) hpath).2
  · exact ((World.perform_effect hv).delivery_frame hx.other).trans hheld
  · exact hkeep.trans (hx.keepsClaim (hr.trans hk) hv hheld)

/-! ## Deliveries that meet others -/

/-- From `w` the system comes to `w'` by steps of which `P` holds. -/
def Through (env : Env) (P : Step → Prop) (w w' : World) : Prop :=
  ∃ path, Run (World.perform env) w path w' ∧ ∀ x ∈ path, P x

section

variable {env : Env} {n : Nat}

/-- Between the transactions of a delivery that is granted `job` in `w` the others take only steps of
which `P` holds. -/
structure Schedule.Within (k : Schedule env n) (P : Step → Prop) (maxUploadBytes : Int)
    (c : Collaborators) (w : World) (job : Job) : Prop where
  read : Through env P w (k.beforeRead w)
  success : Through env P (k.worked c w job) (k.completing c w job)
  failure : Through env P (k.raised maxUploadBytes c w job) (k.handling maxUploadBytes c w job)

variable {k : Schedule env n} {maxUploadBytes : Int} {c : Collaborators} {w : World} {job : Job}

/-- What is reached through steps that spare a claim has kept it. -/
theorem Through.keepsClaim {h : List Step} {w' : World} {d : Delivery}
    (ht : Through env (Spares n job.id) w w') (hr : History env h w)
    (hd : w.deliveries n = some d) (hjob : d.job = job) : KeepsClaim job w.db w'.db := by
  obtain ⟨path, hrun, hpath⟩ := ht
  subst hjob
  exact keepsClaim_of_run hr hd hrun hpath

/-- A segment continues a run from the initial state. -/
theorem Segment.history {h : List Step} {w' : World} {finished : List Finished}
    (hs : Segment env n w finished w') (hr : History env h w) : ∃ h', History env h' w' := by
  obtain ⟨path, hrun, -⟩ := hs
  exact ⟨_, hr.trans hrun⟩

/-- **A delivery whose claim the others spare is unfenced.** -/
theorem Schedule.unfenced {h : List Step} (hr : History env h w)
    (hd : w.deliveries n = some ⟨job, false, false⟩) (hack : k.ack = .ok ↔ c.deleted = .ok ())
    (hspares : k.Within (Spares n job.id) maxUploadBytes c w job) :
    (k.surroundings maxUploadBytes c w job).Unfenced env maxUploadBytes c w.db job := by
  have hkey : job.Keyed := (keyed_of_history hr).deliveries n _ hd
  obtain ⟨hworked, hdb, d, hheld, hjob, -⟩ :=
    @Schedule.worked_segment env n k maxUploadBytes c w job hd hkey hack
  obtain ⟨_, hreached⟩ := hworked.history hr
  have hsuccess := hspares.success.keepsClaim hreached hheld hjob
  rw [hdb] at hsuccess
  refine ⟨hspares.read.keepsClaim hr hd rfl, hsuccess, ?_⟩
  have hfailure := hspares.failure
  show KeepsClaim job ((k.surroundings maxUploadBytes c w job).handled env maxUploadBytes c w.db job)
    (k.handling maxUploadBytes c w job).db
  have hread : (k.surroundings maxUploadBytes c w job).beforeRead w.db = (k.beforeRead w).db := rfl
  unfold Surroundings.handled
  rw [hread]
  cases hwork : (work env maxUploadBytes c (k.beforeRead w).db job).result with
  | error e =>
      have hraised : k.raised maxUploadBytes c w job = k.worked c w job := by
        rw [raised, hwork]
      rw [hraised] at hfailure
      have hkeep := hfailure.keepsClaim hreached hheld hjob
      rw [hdb] at hkeep
      exact hkeep
  | ok result =>
      obtain ⟨hcompleted, hraised, d', hheld', hjob'⟩ := k.completed_segment hd hkey hack hwork
      obtain ⟨_, hcommitted⟩ := hcompleted.history hr
      have hkeep := hfailure.keepsClaim hcommitted hheld' hjob'
      rw [hraised] at hkeep
      exact hkeep

/-- **In every reachable state** a delivery that is granted a job settles it, whatever the others do
meanwhile, unless the job is recovered or an upload completes it as its own intent. -/
theorem Schedule.settles {h : List Step} (hr : History env h w)
    (hd : w.deliveries n = some ⟨job, false, false⟩) (hlive : Live w.db job)
    (hack : k.ack = .ok ↔ c.deleted = .ok ())
    (hspares : k.Within (Spares n job.id) maxUploadBytes c w job) (hcommits : k.failure.Commits) :
    ∃ row, Settlement env maxUploadBytes c (k.surroundings maxUploadBytes c w job)
      (k.beforeRead w).db job
      (runClaimed env maxUploadBytes c (k.surroundings maxUploadBytes c w job) w.db job) row :=
  settlement_of_live hlive (Schedule.unfenced hr hd hack hspares) hcommits

end

/-! ## The exception -/

/-- One event of others, if it is possible. -/
theorem Through.after {env : Env} {P : Step → Prop} {w : World} {e : Event}
    (h : ∀ r w', P ⟨w, e, r, w'⟩) : Through env P w (w.after env e) := by
  unfold World.after
  cases hstep : w.perform env e with
  | none => exact ⟨[], .refl, List.forall_mem_nil _⟩
  | some x => exact ⟨_, .step .refl hstep, List.forall_mem_singleton.mpr (h x.2 x.1)⟩

/-- An upload that has stored its object when its intent falls due, and the claim of the intent. -/
def sampleSlow : Option (List Step × World) :=
  Run.execute (World.perform sampleEnv) ([], .init)
    (sampleUpload.take 4 ++ [.claim 0 3 6 ⟨3600000000, 7⟩])

/-- The claim of the intent can happen. -/
theorem sampleSlow_isSome : sampleSlow.isSome = true := by decide +kernel

/-- The state in which the cleanup runs. -/
def sampleSlowWorld : World := (sampleSlow.get sampleSlow_isSome).2

/-- The state in which the cleanup runs is reachable. -/
theorem sampleSlow_history :
    History sampleEnv (sampleSlow.get sampleSlow_isSome).1 sampleSlowWorld :=
  Run.of_isSome rfl sampleSlow_isSome

/-- The intent as the worker holds it. -/
def sampleSlowJob : Job :=
  take ⟨3600000000, 7⟩ 6
    ((Upload.enter sampleEnv sampleUser sampleData (some (lit "k")) 100).intent ⟨1, 2, 3⟩ 0)

/-- The delivery has just been granted the intent. -/
theorem sampleSlow_delivery :
    sampleSlowWorld.deliveries 0 = some ⟨sampleSlowJob, false, false⟩ := by
  have hheld : (sampleSlowWorld.deliveries 0).any
      (fun d => d.job = sampleSlowJob && !d.deleted && !d.missing) = true := by decide +kernel
  obtain ⟨⟨job, deleted, missing⟩, hd, hfields⟩ := (Option.any_eq_true ..).mp hheld
  simp only [Bool.and_eq_true, decide_eq_true_eq, Bool.not_eq_true'] at hfields
  obtain ⟨⟨rfl, rfl⟩, rfl⟩ := hfields
  exact hd

/-- Its claim is live. -/
theorem sampleSlow_live : Live sampleSlowWorld.db sampleSlowJob := by
  have hstored : (sampleSlowWorld.db.jobs.find sampleSlowJob.id).any (· = sampleSlowJob) = true := by
    decide +kernel
  obtain ⟨row, hrow, hq⟩ := (Option.any_eq_true ..).mp hstored
  rw [of_decide_eq_true hq] at hrow
  exact ⟨sampleSlowJob, hrow, rfl, rfl, rfl, rfl, rfl, rfl⟩

/-- The upload commits its document after the object has been deleted. -/
def sampleOverlap : Schedule sampleEnv 0 :=
  { sampleSchedule sampleEnv 0 with
    beforeSuccess := fun w => w.after sampleEnv (.upload 0 (.commit ⟨3600000001, 4⟩ 5 none .ok))
    others_success := fun _ => Through.after fun _ _ hq => by cases hq
    draw := fun w => ⟨3600000002, w.newId⟩
    fresh := (sampleSchedule sampleEnv 0).fresh }

/-- Nothing is recovered meanwhile. -/
theorem sampleOverlap_within (maxUploadBytes : Int) (c : Collaborators) (w : World) (job : Job) :
    sampleOverlap.Within (Unrecovered 0 job.id) maxUploadBytes c w job := by
  refine ⟨⟨[], .refl, List.forall_mem_nil _⟩, Through.after fun _ _ => ⟨?_, ?_⟩,
    ⟨[], .refl, List.forall_mem_nil _⟩⟩
  · intro hq
    cases hq
  · rintro ⟨⟨_, _, _, _, _, _, _, hevent, -⟩, -⟩
    cases hevent

/-- What `run_job` leaves of the intent. -/
def sampleOverlapRun : JobRun :=
  runClaimed sampleEnv 10485760 sampleCollaborators
    (sampleOverlap.surroundings 10485760 sampleCollaborators sampleSlowWorld sampleSlowJob)
    sampleSlowWorld.db sampleSlowJob

/-- The row has succeeded afterwards. -/
theorem sampleOverlapRun_succeeded :
    (sampleOverlapRun.db.jobs.find sampleSlowJob.id).any (fun row => row.state = .succeeded) =
      true := by
  decide +kernel

/-- Every completion of the delivery was stale. -/
theorem sampleOverlapRun_stale :
    sampleOverlapRun.finished.all (fun f => f.reply = .stale) = true := by decide +kernel

/-- **An upload can take a claim away.** In the sample the upload commits while a delivery holds its
intent. No recovery takes place; the job has succeeded, and no success of the delivery was committed. -/
theorem overlap_not_settled :
    (∃ h, History sampleEnv h sampleSlowWorld) ∧
    sampleSlowWorld.deliveries 0 = some ⟨sampleSlowJob, false, false⟩ ∧
    Live sampleSlowWorld.db sampleSlowJob ∧
    sampleOverlap.Within (Unrecovered 0 sampleSlowJob.id) 10485760 sampleCollaborators
      sampleSlowWorld sampleSlowJob ∧
    (sampleOverlap.ack = .ok ∧ sampleCollaborators.deleted = .ok ()) ∧
    sampleOverlap.failure.Commits ∧
    (∃ row, sampleOverlapRun.db.jobs.find sampleSlowJob.id = some row ∧ row.state = .succeeded) ∧
    ¬ ∃ f ∈ sampleOverlapRun.finished, f.Succeeds := by
  refine ⟨⟨_, sampleSlow_history⟩, sampleSlow_delivery, sampleSlow_live,
    sampleOverlap_within .., ⟨rfl, rfl⟩, trivial, ?_, ?_⟩
  · obtain ⟨row, hrow, hstate⟩ := (Option.any_eq_true ..).mp sampleOverlapRun_succeeded
    exact ⟨row, hrow, of_decide_eq_true hstate⟩
  · rintro ⟨f, hf, -, hreply⟩
    exact hreply (of_decide_eq_true (List.all_eq_true.mp sampleOverlapRun_stale f hf))

end MiniDms
