import MiniDms.Workflow.Retries

/-! # Leases

A claim leases its job for `JOB_LEASE_SECONDS`, and Celery kills a task after
`CELERY_TASK_TIME_LIMIT`, a minute earlier. Until the lease has run out nothing but a completion by
the worker itself moves an OCR job, so a worker that keeps the limit works alone and is never
stale. -/

namespace MiniDms

open Python Relational TransitionSystem

/-- `CELERY_TASK_TIME_LIMIT`. -/
def celeryTaskTimeLimit : Nat := 180

/-- The delivery holds the job: the row is still as the claim left it, and no other delivery has its
token. -/
structure HoldsLease (w : World) (n : Nat) (job : Job) : Prop where
  row : ∃ row, w.db.jobs.find job.id = some row ∧ row.runToken = job.runToken ∧
    row.state = .running ∧ row.leaseUntil = job.leaseUntil ∧ row.kind = job.kind ∧
    row.documentId = job.documentId
  held : ∃ d, w.deliveries n = some d ∧ d.job = job
  alone : ∀ m d, w.deliveries m = some d → d.job.runToken = job.runToken → m = n

/-- A grant leases the job. -/
theorem Grants.leased {env : Env} {x : Step} {n : Nat} {job : Job} (hw : Known x.pre)
    (hv : x.Valid (World.perform env)) (hg : Grants x n job) : HoldsLease x.post n job := by
  obtain ⟨row, token, draw, hrow, -, htake, hfresh, hfree, hpost, hevent⟩ := hg.cases hv
  have he := World.perform_effect hv
  have htoken : job.runToken = some token := by rw [htake]; rfl
  refine ⟨⟨job, ?_, rfl, ?_, rfl, rfl, rfl⟩, ⟨_, hpost, rfl⟩, ?_⟩
  · obtain ⟨d, hd, -⟩ | ⟨jobId, token', draw', hevent', -, -, row', -, -, hd, hfind⟩ :=
      he.delivery_cases hpost
    · rw [hfree] at hd
      cases hd
    · rw [hevent] at hevent'
      cases hevent'
      rw [hfind]
      exact congrArg some (congrArg Delivery.job hd).symm
  · rw [htake]
    rfl
  · intro m d hd hsame
    obtain ⟨d', hd', hjob, -⟩ | ⟨_, _, _, hevent', -⟩ := he.delivery_cases hd
    · -- An older delivery has an older token.
      have hold : token ∈ x.pre.drawn := by
        refine (hw.deliveries m d' hd').token token ?_
        rw [← hjob, hsame, htoken]
      exact absurd hold hfresh
    · rw [hevent] at hevent'
      cases hevent'
      rfl

/-- **One step keeps the lease** of an OCR job, if it is neither a completion by the holder nor a
recovery when the lease has run out. -/
theorem HoldsLease.step {env : Env} {x : Step} {n : Nat} {job : Job} {token : Uuid} {ends : Timestamp}
    (hw : Known x.pre) (hp : Provenance x.pre) (hv : x.Valid (World.perform env))
    (h : HoldsLease x.pre n job) (hkind : job.kind = .ocr) (htoken : job.runToken = some token)
    (hends : job.leaseUntil = some ends) (hfirst : ∀ call, ¬ Finishes x n call job)
    (hlease : ∀ now, Recovers x job.id → x.event.clock = some now → now < ends) :
    HoldsLease x.post n job := by
  have he := World.perform_effect hv
  obtain ⟨⟨row, hrow, hrowToken, hstate, hrowUntil, hrowKind, hdoc⟩, ⟨d, hd, hjob⟩, halone⟩ := h
  refine ⟨?_, ?_, ?_⟩
  · have hm := he.jobMove hw job.id
    rw [hrow] at hm
    generalize hevent : x.event = e at hm
    generalize hrow' : x.post.db.jobs.find job.id = row' at hm
    cases hm with
    | same => exact ⟨row, rfl, hrowToken, hstate, hrowUntil, hrowKind, hdoc⟩
    | taken _ _ hc => cases hstate.symm.trans hc.1
    | discarded _ hc => cases hstate.symm.trans hc.1
    | @settled m call jitter draw d' _ hd' hid htoken' =>
        -- Only the holder has the token.
        obtain rfl := halone m d' hd' (htoken'.symm.trans hrowToken)
        rw [hd] at hd'
        cases hd'
        exact absurd ⟨⟨jitter, draw, hevent⟩, d, hd, hjob⟩ (hfirst call)
    | @recovered dispatcher limit token' jitter draw todo _ hf hdispatcher hexp =>
        have hreply : x.reply = .done := by
          rw [Transition.Valid, hevent] at hv
          exact World.perform_recovered hv hdispatcher hrow hexp
        have hlt := hlease draw.now
          ⟨⟨dispatcher, limit, false, token', jitter, draw, todo, hevent, hdispatcher⟩, hreply⟩
          (by rw [hevent]; rfl)
        rw [expired, hrowUntil, hends, Bool.and_eq_true] at hexp
        exact absurd (of_decide_eq_true hexp.2) (not_le.mpr hlt)
    | stamped hdue =>
        rw [due, hstate] at hdue
        simp at hdue
    | rearmed _ hfailed => cases hstate.symm.trans hfailed
    | @rewritten call move u ids f _ hu hids hid =>
        -- The intent of an upload is a cleanup job.
        obtain ⟨j, hj, hcleanup, -⟩ := hp.intents call u ids hu hids
        rw [hid, hrow] at hj
        cases hj
        cases hcleanup.symm.trans (hrowKind.trans hkind)
  · obtain ⟨d', hd', hsame⟩ := he.delivery_stays hd
    exact ⟨d', hd', hsame.trans hjob⟩
  · intro m d' hd' hsame
    obtain ⟨d₀, hd₀, hjob₀, -⟩ | ⟨_, token', draw, -, hf, -, _, -, -, rfl, -⟩ :=
      he.delivery_cases hd'
    · exact halone m d₀ hd₀ (hjob₀ ▸ hsame)
    · -- A new delivery has a new token.
      have hnew : some token' = some token := htoken ▸ hsame
      cases hnew
      have hdrawn := (hw.db.jobs _ row hrow).token token (hrowToken.trans htoken)
      exact absurd hdrawn (hf.2 _ List.mem_cons_self)

/-- **The lease holds along a run** in which the holder completes nothing and every recovery of the
job comes before the end of the lease. -/
theorem HoldsLease.run {env : Env} {w w' : World} {h : List Step} {n : Nat} {job : Job} {token : Uuid}
    {ends : Timestamp} (hw : Known w) (hp : Provenance w) (hr : Run (World.perform env) w h w')
    (hl : HoldsLease w n job) (hkind : job.kind = .ocr) (htoken : job.runToken = some token)
    (hends : job.leaseUntil = some ends) (hfirst : ∀ z ∈ h, ∀ call, ¬ Finishes z n call job)
    (hlease : ∀ z ∈ h, ∀ now, Recovers z job.id → z.event.clock = some now → now < ends) :
    HoldsLease w' n job := by
  refine (hr.invariant (fun w => Known w ∧ Provenance w ∧ HoldsLease w n job) ⟨hw, hp, hl⟩
    (fun x hv hx hI => ?_) fun z hz => And.intro (hfirst z hz) (hlease z hz)).2.2
  obtain ⟨hw, hp, hl⟩ := hI
  have he := World.perform_effect hv
  exact ⟨hw.step he, hp.step hw he, hl.step hw hp hv hkind htoken hends hx.1 hx.2⟩

/-- While the lease holds, no one else is granted the job. -/
theorem HoldsLease.not_granted {env : Env} {x : Step} {n m : Nat} {job job' : Job}
    (hv : x.Valid (World.perform env)) (h : HoldsLease x.pre n job) (hg : Grants x m job') :
    job'.id ≠ job.id := by
  intro hid
  obtain ⟨row, hrow, -, hstate, -⟩ := h.row
  obtain ⟨row', _, _, hrow', hc, -⟩ := hg.cases hv
  rw [hid, hrow] at hrow'
  cases hrow'
  cases hstate.symm.trans hc.1

/-- **A completion under a lease settles the job**, and with it the document. -/
theorem HoldsLease.finish {env : Env} {x : Step} {n : Nat} {job : Job} {call : FinishCall}
    (hv : x.Valid (World.perform env)) (h : HoldsLease x.pre n job) (hkind : job.kind = .ocr)
    (hf : Finishes x n call job) :
    ∃ state, x.reply = .finished (.settled state) ∧ state ≠ .running ∧
      (call.failed = none → state = .succeeded) ∧
      ∀ d, x.post.db.documents.find job.documentId = some d →
        d.status = state.documentStatus ∧
          ∀ result, call.result = some result →
            d.extractedText = result.text ∧ d.processingInfo = result.info := by
  obtain ⟨⟨jitter, draw, hevent⟩, d, hd, rfl⟩ := hf
  obtain ⟨row, hrow, htoken, hstate, -, hrowKind, hdoc⟩ := h.row
  rw [Transition.Valid, hevent] at hv
  obtain ⟨-, -, hreply, hdb⟩ | ⟨hstale, -⟩ := World.perform_finish hv hd hrow
  · refine ⟨_, hreply, settle_state_ne_running _ _ _ _, fun hnone => ?_, fun d' hd' => ?_⟩
    · rw [hnone]
      rfl
    · have hdocument : (settle draw.now jitter call.failed row).documentId = d.job.documentId :=
        (settle_documentId ..).trans hdoc
      have hocr : (settle draw.now jitter call.failed row).kind = .ocr :=
        (settle_kind ..).trans (hrowKind.trans hkind)
      rw [hdb, settleJob, hocr, hdocument] at hd'
      cases hfind : x.pre.db.documents.find d.job.documentId with
      | none =>
          rw [hfind] at hd'
          cases hfind.symm.trans hd'
      | some before =>
          rw [hfind] at hd'
          dsimp only at hd'
          rw [moveDocument_documents, Table.find_put, Document.move_id, Db.document_id hfind,
            if_pos rfl] at hd'
          cases hd'
          refine ⟨rfl, fun result hresult => ?_⟩
          rw [hresult]
          exact ⟨rfl, rfl⟩
  · exact absurd ⟨htoken, hstate⟩ hstale

/-- **A worker that keeps its time limit works alone and is heard.** A claim grants an OCR job to a
delivery, and the first completion of the delivery comes before Celery kills the task. What recovers
the job in between then reads a clock at most the time limit after the claim, and `skew` for the
difference of the clocks. If the clocks differ by less than the minute that the lease is longer than
the limit, nobody else was granted the job in between, the completion is not stale, and the document,
if it has not been deleted, shows the status and the result that the completion reports. -/
theorem timely_finish_settles {env : Env} {later mid earlier : List Step} {x y : Step} {w : World}
    (hr : History env (later ++ x :: mid ++ y :: earlier) w) {n : Nat} {job : Job}
    {call : FinishCall} {start : Timestamp} {skew : Int} (hgrant : Grants y n job)
    (hkind : job.kind = .ocr) (hstart : y.event.clock = some start) (hfinish : Finishes x n call job)
    (hfirst : ∀ z ∈ mid, ∀ call', ¬ Finishes z n call' job)
    (hclocks : ∀ z ∈ mid, ∀ t, Recovers z job.id → z.event.clock = some t →
      t ≤ start + seconds celeryTaskTimeLimit + skew)
    (hskew : skew < seconds (jobLeaseSeconds - celeryTaskTimeLimit)) :
    (∀ z ∈ mid, ∀ m job', Grants z m job' → job'.id ≠ job.id) ∧
    ∃ state, x.reply = .finished (.settled state) ∧ state ≠ .running ∧
      (call.failed = none → state = .succeeded) ∧
      ∀ d, x.post.db.documents.find job.documentId = some d →
        d.status = state.documentStatus ∧
          ∀ result, call.result = some result →
            d.extractedText = result.text ∧ d.processingInfo = result.info := by
  obtain ⟨hearlier, hvy, hmid, hvx⟩ := hr.cut_two
  obtain ⟨hw, hp⟩ := provenance_of_history hearlier
  have hey := World.perform_effect hvy
  obtain ⟨row, token, draw, -, -, htake, -, -, -, hevent⟩ := hgrant.cases hvy
  have hends : job.leaseUntil = some (start + seconds jobLeaseSeconds) := by
    rw [hevent] at hstart
    cases hstart
    rw [htake]
    rfl
  have htoken : job.runToken = some token := by rw [htake]; rfl
  have hlease : ∀ z ∈ mid, ∀ t, Recovers z job.id → z.event.clock = some t →
      t < start + seconds jobLeaseSeconds := by
    intro z hz t hrecovers hclock
    have hmargin : seconds celeryTaskTimeLimit + seconds (jobLeaseSeconds - celeryTaskTimeLimit) =
        seconds jobLeaseSeconds := by decide
    calc t ≤ start + seconds celeryTaskTimeLimit + skew := hclocks z hz t hrecovers hclock
      _ < start + seconds celeryTaskTimeLimit +
          seconds (jobLeaseSeconds - celeryTaskTimeLimit) := by gcongr
      _ = start + seconds jobLeaseSeconds := by rw [add_assoc, hmargin]
  have hrun : ∀ {h : List Step} {v : World}, Run (World.perform env) y.post h v → (∀ z ∈ h, z ∈ mid) →
      HoldsLease v n job := by
    intro h v hh hsub
    exact (hgrant.leased hw hvy).run (hw.step hey) (hp.step hw hey) hh hkind htoken hends
      (fun z hz => hfirst z (hsub z hz)) fun z hz => hlease z (hsub z hz)
  refine ⟨fun z hz m job' hg => ?_, (hrun hmid fun _ hz => hz).finish hvx hkind hfinish⟩
  obtain ⟨after, before, rfl, hbefore, hvz, -⟩ := hmid.cut hz
  have hleased := hrun hbefore fun _ hz' => by simp [hz']
  exact hleased.not_granted hvz hg

/-- The delivery of the sample, as its claim granted it. -/
def sampleGranted : Job := take ⟨2000, 7⟩ 6 (ocrJob 5 1 100 1000)

/-- The completion of the sample. -/
def sampleSuccess : FinishCall :=
  .success (some ⟨lit "Invoice 42", .dict [(lit "pages", .int 1)]⟩)

/-- While the worker reads its document a duplicate delivery asks for the job, and a dispatcher looks
for expired ones. -/
def busyEvents : List Event :=
  sampleUpload ++
    [.claim 0 5 6 ⟨2000, 7⟩,
      .readDocument 0,
      .claim 1 5 10 ⟨2500, 11⟩,
      .recoverExpired 0 100 2600 [],
      .finish 0 sampleSuccess 0 ⟨3000, 8⟩]

/-- Their run, if every event of it is possible. -/
def sampleBusy : Option (List Step × World) :=
  Run.execute (World.perform sampleEnv) ([], .init) busyEvents

/-- Every event of it is possible. -/
theorem sampleBusy_isSome : sampleBusy.isSome = true := by decide +kernel

/-- It is a run of the system. -/
theorem sampleBusy_history : History sampleEnv (sampleBusy.get sampleBusy_isSome).1
    (sampleBusy.get sampleBusy_isSome).2 :=
  Run.of_isSome rfl sampleBusy_isSome

/-- The run ends with a claim, three other steps and the completion of the delivery. -/
theorem sampleBusy_eq : ∃ x p q r y earlier,
    (sampleBusy.get sampleBusy_isSome).1 = [] ++ x :: [p, q, r] ++ y :: earlier ∧
    x.event = .finish 0 sampleSuccess 0 ⟨3000, 8⟩ ∧ p.event = .recoverExpired 0 100 2600 [] ∧
    q.event = .claim 1 5 10 ⟨2500, 11⟩ ∧ r.event = .readDocument 0 ∧
    y.event = .claim 0 5 6 ⟨2000, 7⟩ := by
  have hexecute : Run.execute (World.perform sampleEnv) ([], .init) busyEvents =
      some (sampleBusy.get sampleBusy_isSome) := (Option.some_get sampleBusy_isSome).symm
  have hevents : (sampleBusy.get sampleBusy_isSome).1.map Transition.event =
      .finish 0 sampleSuccess 0 ⟨3000, 8⟩ :: .recoverExpired 0 100 2600 [] ::
        .claim 1 5 10 ⟨2500, 11⟩ :: .readDocument 0 :: .claim 0 5 6 ⟨2000, 7⟩ ::
          (sampleUpload.reverse ++ []) :=
    Run.execute_events hexecute
  obtain ⟨x, _, hh, hx, hevents⟩ := List.map_eq_cons_iff.mp hevents
  obtain ⟨p, _, rfl, hp, hevents⟩ := List.map_eq_cons_iff.mp hevents
  obtain ⟨q, _, rfl, hq, hevents⟩ := List.map_eq_cons_iff.mp hevents
  obtain ⟨r, _, rfl, hr, hevents⟩ := List.map_eq_cons_iff.mp hevents
  obtain ⟨y, earlier, rfl, hy, -⟩ := List.map_eq_cons_iff.mp hevents
  exact ⟨x, p, q, r, y, earlier, hh, hx, hp, hq, hr, hy⟩

/-- In this run the first delivery completes the job a millisecond after its claim. -/
theorem timely_finish_settles_sample : ∃ x mid y earlier,
    (sampleBusy.get sampleBusy_isSome).1 = [] ++ x :: mid ++ y :: earlier ∧ mid.length = 3 ∧
      Grants y 0 sampleGranted ∧ Finishes x 0 sampleSuccess sampleGranted ∧
      (∀ z ∈ mid, ∀ m job, Grants z m job → job.id ≠ sampleGranted.id) ∧
      ∃ state, x.reply = .finished (.settled state) := by
  obtain ⟨x, p, q, r, y, earlier, hh, hx, hp, hq, hr, hy⟩ := sampleBusy_eq
  have hreply : ((sampleBusy.get sampleBusy_isSome).1[4]?).any (fun z =>
      z.reply.granted = some sampleGranted) = true := by decide +kernel
  have hheld : ((sampleBusy.get sampleBusy_isSome).1[0]?).any (fun z =>
      (z.pre.deliveries 0).any fun d => d.job = sampleGranted) = true := by decide +kernel
  have hrun := sampleBusy_history
  rw [hh] at hreply hheld hrun
  have hgrant : Grants y 0 sampleGranted := by
    refine ⟨⟨6, ⟨2000, 7⟩, hy⟩, ?_⟩
    have hgranted : decide (y.reply.granted = some sampleGranted) = true := hreply
    exact Reply.granted_eq_some_iff.mp (of_decide_eq_true hgranted)
  have hfinish : Finishes x 0 sampleSuccess sampleGranted := by
    obtain ⟨d, hd, hjob⟩ := (Option.any_eq_true ..).mp
      (show (x.pre.deliveries 0).any (fun d => d.job = sampleGranted) = true from hheld)
    exact ⟨⟨0, ⟨3000, 8⟩, hx⟩, d, hd, of_decide_eq_true hjob⟩
  -- In between nothing is completed and nothing is recovered.
  have hmid : ∀ z ∈ [p, q, r], (∀ call, ¬ Finishes z 0 call sampleGranted) ∧
      ¬ Recovers z sampleGranted.id := by
    have hquiet : ∀ {z : Step} {e : Event}, z.event = e →
        (∀ call jitter draw, e ≠ .finish 0 call jitter draw) →
        (∀ dispatcher locked token jitter draw,
          e ≠ .recoverNext dispatcher locked token jitter draw) →
        (∀ call, ¬ Finishes z 0 call sampleGranted) ∧ ¬ Recovers z sampleGranted.id := by
      rintro z _ rfl hfinish hrecover
      refine ⟨?_, ?_⟩
      · rintro call ⟨⟨jitter, draw, hevent⟩, -⟩
        exact hfinish call jitter draw hevent
      · rintro ⟨⟨dispatcher, _, locked, token, jitter, draw, _, hevent, -⟩, -⟩
        exact hrecover dispatcher locked token jitter draw hevent
    refine List.forall_mem_cons.mpr ⟨hquiet hp ?_ ?_, List.forall_mem_cons.mpr
      ⟨hquiet hq ?_ ?_, List.forall_mem_singleton.mpr (hquiet hr ?_ ?_)⟩⟩
    all_goals
      intros
      intro hevent
      cases hevent
  obtain ⟨halone, state, hstate, -⟩ := @timely_finish_settles sampleEnv [] [p, q, r] earlier x y
    (sampleBusy.get sampleBusy_isSome).2 hrun 0 sampleGranted sampleSuccess 2000 0 hgrant rfl
    (by rw [hy]; rfl) hfinish (fun z hz => (hmid z hz).1)
    (fun z hz _ hrecovers => absurd hrecovers (hmid z hz).2) (by decide)
  exact ⟨x, [p, q, r], y, earlier, hh, rfl, hgrant, hfinish, halone, state, hstate⟩

end MiniDms
