import MiniDms.Workflow.Lockstep

/-! # Fencing

A worker keeps the job row its own claim returned and may complete it arbitrarily late, or more than
once. What protects the tables is the run token: every claim and every recovery draws a fresh one,
and a token under which a job is not running any more never comes back. -/

namespace MiniDms

open Python Relational TransitionSystem

/-! ## What a worker is answered -/

/-- The answers of a claim: a granted job, which the delivery then holds, or nothing, when it wrote
nothing or completed the OCR job of a document that is gone. -/
theorem World.perform_claim {env : Env} {w w' : World} {r : Reply} {delivery : Nat}
    {jobId token : Uuid} {draw : Draw}
    (h : w.perform env (.claim delivery jobId token draw) = some (w', r)) :
    w.deliveries delivery = none ∧ w.Fresh [token, draw.eventId] ∧
      (((∀ job, r ≠ .claimed job) ∧ w'.deliveries = w.deliveries ∧
          (w'.db = w.db ∨ ∃ job, w.db.jobs.find jobId = some job ∧ Claimable draw.now job ∧
            job.kind = .ocr ∧ w.db.documents.find job.documentId = none ∧
            w'.db = (w.db.putJob (take draw token job)).putJob
              (discard (take draw token job)))) ∨
        ∃ job, w.db.jobs.find jobId = some job ∧ Claimable draw.now job ∧
          r = .claimed (take draw token job) ∧
          w'.deliveries delivery = some ⟨take draw token job, false, false⟩) := by
  obtain ⟨hf, h₁⟩ := World.draw_bind h
  simp only [World.drew_db, World.drew_deliveries] at h₁
  cases hnone : w.deliveries delivery with
  | some d =>
      simp only [hnone, Option.isSome_some, if_true] at h₁
      cases h₁
  | none =>
      refine ⟨rfl, hf, ?_⟩
      simp only [hnone, Option.isSome_none, Bool.false_eq_true, if_false] at h₁
      cases hres : MiniDms.claim env w.db draw token jobId with
      | error e =>
          rw [hres] at h₁
          cases h₁
          exact .inl ⟨fun _ => Reply.noConfusion, rfl, .inl rfl⟩
      | ok res =>
          obtain ⟨db, granted⟩ := res
          rw [hres] at h₁
          obtain ⟨rfl, rfl, -⟩ | ⟨job, hjob, hc, ⟨hk, rfl, rfl⟩ | ⟨hk, hrow, rfl, rfl⟩ |
            ⟨row, hk, hrow, rfl, rfl⟩⟩ := claim_cases hres
          · cases h₁
            exact .inl ⟨fun _ => Reply.noConfusion, rfl, .inl rfl⟩
          · cases h₁
            exact .inr ⟨job, hjob, hc, rfl, Function.update_self ..⟩
          · cases h₁
            exact .inl ⟨fun _ => Reply.noConfusion, rfl, .inr ⟨job, hjob, hc, hk, hrow, rfl⟩⟩
          · cases h₁
            exact .inr ⟨job, hjob, hc, rfl, Function.update_self ..⟩

/-- The answers of a completion: the settled state of a job that is running under the token the
worker holds, or `"stale"` and an untouched database. -/
theorem World.perform_finish {env : Env} {w w' : World} {r : Reply} {delivery : Nat}
    {call : FinishCall} {jitter : Fin 2000001} {draw : Draw} {d : Delivery} {current : Job}
    (h : w.perform env (.finish delivery call jitter draw) = some (w', r))
    (hd : w.deliveries delivery = some d) (hjob : w.db.jobs.find d.job.id = some current) :
    (current.runToken = d.job.runToken ∧ current.state = .running ∧
      r = .finished (.settled (settle draw.now jitter call.failed current).state) ∧
      w'.db = settleJob env w.db draw (settle draw.now jitter call.failed current) call.result) ∨
    (¬ (current.runToken = d.job.runToken ∧ current.state = .running) ∧
      r = .finished .stale ∧ w'.db = w.db) := by
  obtain ⟨d', hd', h₁⟩ := Option.bind_eq_some_iff.mp h
  rw [hd] at hd'
  cases hd'
  obtain ⟨-, h₂⟩ := World.draw_bind h₁
  simp only [World.drew_db] at h₂
  split at h₂
  · rw [finish_of_find hjob] at h₂
    split at h₂
    · next hlive =>
        cases h₂
        exact .inl ⟨hlive.1, hlive.2, rfl, rfl⟩
    · next hstale =>
        cases h₂
        exact .inr ⟨hstale, rfl, rfl⟩
  · cases h₂

/-- A recovery that answers is the recovery of an expired job. -/
theorem World.perform_recoverNext {env : Env} {w w' : World} {dispatcher limit : Nat}
    {locked : Bool} {token id : Uuid} {jitter : Fin 2000001} {draw : Draw} {todo : List Uuid}
    (h : w.perform env (.recoverNext dispatcher locked token jitter draw) = some (w', .done))
    (hd : w.dispatchers dispatcher = .recovering limit (id :: todo)) :
    locked = false ∧ ∃ job, w.db.jobs.find id = some job ∧ expired draw.now job = true ∧
      w'.db = settleJob env (w.db.updateJob id (fence draw token)) draw
        (settle draw.now jitter (some workerLost) (fence draw token job)) none := by
  simp only [World.perform, hd] at h
  obtain ⟨-, h₁⟩ := World.draw_bind h
  simp only [World.setDispatcher, World.drew_db] at h₁
  cases locked with
  | true => cases h₁
  | false =>
      refine ⟨rfl, ?_⟩
      simp only [Bool.false_eq_true, if_false] at h₁
      cases hjob : w.db.jobs.find id with
      | none =>
          have hnone : recoverOne env w.db draw token jitter id = .ok (w.db, false) := by
            rw [recoverOne, hjob]
          rw [hnone] at h₁
          cases h₁
      | some job =>
          rw [recoverOne_of_find hjob] at h₁
          by_cases hexp : expired draw.now job = true
          · rw [if_pos hexp] at h₁
            cases h₁
            exact ⟨job, rfl, hexp, rfl⟩
          · rw [if_neg hexp] at h₁
            cases h₁

/-- The recovery of an expired job that is not locked answers. -/
theorem World.perform_recovered {env : Env} {w w' : World} {r : Reply} {dispatcher limit : Nat}
    {token id : Uuid} {jitter : Fin 2000001} {draw : Draw} {todo : List Uuid} {job : Job}
    (h : w.perform env (.recoverNext dispatcher false token jitter draw) = some (w', r))
    (hd : w.dispatchers dispatcher = .recovering limit (id :: todo))
    (hjob : w.db.jobs.find id = some job) (hexp : expired draw.now job = true) : r = .done := by
  simp only [World.perform, hd] at h
  obtain ⟨-, h₁⟩ := World.draw_bind h
  simp only [World.setDispatcher, World.drew_db, Bool.false_eq_true, if_false] at h₁
  rw [recoverOne_of_find hjob, if_pos hexp] at h₁
  cases h₁
  rfl

/-! ## Retired tokens -/

/-- The job is not running under a token that was drawn. -/
structure Retired (w : World) (id token : Uuid) : Prop where
  drawn : token ∈ w.drawn
  notRunning : ∀ job, w.db.jobs.find id = some job →
    ¬ (job.runToken = some token ∧ job.state = .running)

/-- A job that is running under an old token after a move was running under it before, and the
move was no claim. -/
theorem JobMove.running {w : World} {id token : Uuid} {e : Event} {row : Option Job} {job' : Job}
    (hm : JobMove w id e row (some job')) (htoken : token ∈ w.drawn)
    (hlive : job'.runToken = some token ∧ job'.state = .running) :
    ∃ job, row = some job ∧ (job.runToken = some token ∧ job.state = .running) := by
  obtain ⟨ht, hs⟩ := hlive
  cases hm with
  | same => exact ⟨job', rfl, ht, hs⟩
  | created hfresh hnew =>
      rw [hnew.state] at hs
      cases hs
  | taken hf =>
      cases ht
      exact absurd htoken (hf.2 _ (by simp))
  | discarded => cases hs
  | settled => exact absurd hs (settle_state_ne_running _ _ _ _)
  | recovered => exact absurd hs (settle_state_ne_running _ _ _ _)
  | stamped => exact ⟨_, rfl, ht, hs⟩
  | rearmed => cases hs
  | rewritten _ _ _ hf =>
      cases hf with
      | complete => cases hs
      | _ => exact ⟨_, rfl, ht, hs⟩

/-- One event brings no retired token back. -/
theorem Retired.step {env : Env} {w w' : World} {e : Event} {id token : Uuid} (hw : Known w)
    (he : Effect env w e w') (h : Retired w id token) : Retired w' id token where
  drawn := he.drawn_subset h.drawn
  notRunning job' hjob' hlive := by
    have hm := he.jobMove hw id
    rw [hjob'] at hm
    obtain ⟨job, hjob, hjlive⟩ := hm.running h.drawn hlive
    exact h.notRunning job hjob hjlive

/-- **A retired token stays retired** along every run. -/
theorem Retired.run {env : Env} {w w' : World} {h : List Step} {id token : Uuid} (hw : Known w)
    (hr : Run (World.perform env) w h w') (hret : Retired w id token) : Retired w' id token :=
  (hr.preserved (fun w => Known w ∧ Retired w id token) ⟨hw, hret⟩ fun _ hv hI =>
    ⟨hI.1.step (World.perform_effect hv), hI.2.step hI.1 (World.perform_effect hv)⟩).2

/-- A worker whose token is retired is stale. -/
theorem Retired.stale {env : Env} {w w' : World} {r : Reply} {delivery : Nat} {call : FinishCall}
    {jitter : Fin 2000001} {draw : Draw} {d : Delivery} {token : Uuid} (hp : Provenance w)
    (h : w.perform env (.finish delivery call jitter draw) = some (w', r))
    (hd : w.deliveries delivery = some d) (htoken : d.job.runToken = some token)
    (hret : Retired w d.job.id token) : r = .finished .stale ∧ w'.db = w.db := by
  obtain ⟨current, hjob, -⟩ := hp.held delivery d hd
  obtain ⟨ht, hs, -⟩ | ⟨-, hr, hdb⟩ := World.perform_finish h hd hjob
  · exact absurd ⟨ht.trans htoken, hs⟩ (hret.notRunning current hjob)
  · exact ⟨hr, hdb⟩

/-! ## The history of an attempt -/

/-- The step grants the delivery the job, as `claim` returned it. -/
def Grants (x : Step) (delivery : Nat) (job : Job) : Prop :=
  (∃ token draw, x.event = .claim delivery job.id token draw) ∧ x.reply = .claimed job

/-- The step is a call of `finish` by the delivery that holds the job. -/
def Finishes (x : Step) (delivery : Nat) (call : FinishCall) (job : Job) : Prop :=
  (∃ jitter draw, x.event = .finish delivery call jitter draw) ∧
    ∃ d, x.pre.deliveries delivery = some d ∧ d.job = job

/-- The completion took effect. -/
def Settles (x : Step) : Prop := ∃ state, x.reply = .finished (.settled state)

/-- The step recovers the job. -/
def Recovers (x : Step) (id : Uuid) : Prop :=
  (∃ dispatcher limit locked token jitter draw todo,
    x.event = .recoverNext dispatcher locked token jitter draw ∧
      x.pre.dispatchers dispatcher = .recovering limit (id :: todo)) ∧ x.reply = .done

/-- The step rearms the job. -/
def Rearms (x : Step) (id : Uuid) : Prop :=
  (∃ now, x.event = .retryCleanup id now) ∧ x.reply = .done

/-- The step ends the attempt that runs under the token: its worker completes it, or a dispatcher
recovers it. -/
def Ends (x : Step) (id token : Uuid) : Prop :=
  (∃ row, x.pre.db.jobs.find id = some row ∧ row.runToken = some token ∧ row.state = .running) ∧
    ((∃ delivery call job, Finishes x delivery call job ∧ job.id = id ∧ Settles x) ∨ Recovers x id)

/-- What a grant leaves. -/
theorem Grants.cases {env : Env} {x : Step} {delivery : Nat} {job : Job}
    (hv : x.Valid (World.perform env)) (hg : Grants x delivery job) :
    ∃ row token draw, x.pre.db.jobs.find job.id = some row ∧ Claimable draw.now row ∧
      job = take draw token row ∧ token ∉ x.pre.drawn ∧ x.pre.deliveries delivery = none ∧
      x.post.deliveries delivery = some ⟨job, false, false⟩ ∧
      x.event = .claim delivery job.id token draw := by
  obtain ⟨⟨token, draw, hevent⟩, hreply⟩ := hg
  rw [Transition.Valid, hevent, hreply] at hv
  obtain ⟨hfree, hf, ⟨hno, -⟩ | ⟨row, hrow, hc, hr, hpost⟩⟩ := World.perform_claim hv
  · exact absurd rfl (hno job)
  · cases hr
    exact ⟨row, token, draw, hrow, hc, rfl, hf.2 _ (by simp), hfree, hpost, hevent⟩

/-- A token that was drawn is not the one a grant draws. -/
theorem Grants.fresh_token {env : Env} {x : Step} {delivery : Nat} {job : Job}
    (hv : x.Valid (World.perform env)) (hg : Grants x delivery job) {token : Uuid}
    (ht : token ∈ x.pre.drawn) : job.runToken ≠ some token := by
  obtain ⟨row, token', draw, -, -, rfl, hfresh, -⟩ := hg.cases hv
  intro hq
  cases hq
  exact hfresh ht

/-- A delivery keeps the job it was granted. -/
theorem Effect.delivery_stays {env : Env} {w w' : World} {e : Event} (he : Effect env w e w')
    {delivery : Nat} {d : Delivery} (hd : w.deliveries delivery = some d) :
    ∃ d', w'.deliveries delivery = some d' ∧ d'.job = d.job := by
  cases he with
  | @cleanupClaimed n _ _ _ _ _ hnew | @ocrClaimed n _ _ _ _ _ _ hnew =>
      have hne : delivery ≠ n := by
        rintro rfl
        rw [hnew] at hd
        cases hd
      exact ⟨d, by simp only [World.setDelivery, Function.update_of_ne hne]; exact hd, rfl⟩
  | @documentRead n x hx =>
      by_cases hq : delivery = n
      · subst hq
        rw [hx] at hd
        cases hd
        exact ⟨_, Function.update_self .., rfl⟩
      · exact ⟨d, by simp only [World.setDelivery, Function.update_of_ne hq]; exact hd, rfl⟩
  | @objectDeleted n ack x key hx =>
      by_cases hq : delivery = n
      · subst hq
        rw [hx] at hd
        cases hd
        exact ⟨_, Function.update_self .., rfl⟩
      · exact ⟨d, by simp only [World.setDelivery, Function.update_of_ne hq]; exact hd, rfl⟩
  | _ => exact ⟨d, hd, rfl⟩

/-- Along a run a delivery keeps the job it was granted. -/
theorem delivery_stays {env : Env} {w w' : World} {h : List Step}
    (hr : Run (World.perform env) w h w') {delivery : Nat} {d : Delivery}
    (hd : w.deliveries delivery = some d) : ∃ d', w'.deliveries delivery = some d' ∧ d'.job = d.job :=
  hr.preserved (fun v => ∃ d', v.deliveries delivery = some d' ∧ d'.job = d.job) ⟨d, hd, rfl⟩
    fun _ hv ⟨_, hd', hj'⟩ =>
      let ⟨d'', hd'', hj''⟩ := (World.perform_effect hv).delivery_stays hd'
      ⟨d'', hd'', hj''.trans hj'⟩

/-- **The end of an attempt retires its token.** -/
theorem Ends.retired {env : Env} {x : Step} {id token : Uuid} (hw : Known x.pre)
    (hv : x.Valid (World.perform env)) (he : Ends x id token) :
    Retired x.post id token := by
  obtain ⟨⟨row, hrow, htoken, hrunning⟩, hend⟩ := he
  have heffect := World.perform_effect hv
  refine ⟨heffect.drawn_subset ((hw.db.jobs _ row hrow).token _ htoken), fun job' hjob' => ?_⟩
  rintro ⟨-, hstate⟩
  obtain ⟨delivery, call, job, ⟨⟨jitter, draw, hevent⟩, d, hd, rfl⟩, rfl, state, hreply⟩ |
    ⟨⟨dispatcher, limit, locked, token', jitter, draw, todo, hevent, hd⟩, hreply⟩ := hend
  · rw [Transition.Valid, hevent] at hv
    obtain ⟨-, -, -, hdb⟩ | ⟨-, hstale, -⟩ := World.perform_finish hv hd hrow
    · rw [hdb, find_settleJob, settle_id, Db.job_id hrow, if_pos rfl] at hjob'
      cases hjob'
      exact settle_state_ne_running _ _ _ _ hstate
    · rw [hreply] at hstale
      cases hstale
  · rw [Transition.Valid, hevent, hreply] at hv
    obtain ⟨-, job, hjob, -, hdb⟩ := World.perform_recoverNext hv hd
    have hkey : (fence draw token' job).id = id := (Db.job_id hjob : job.id = id)
    rw [hdb, find_settleJob, settle_id, hkey, if_pos rfl] at hjob'
    cases hjob'
    exact settle_state_ne_running _ _ _ _ hstate

/-! ## The grant a delivery goes back to -/

/-- The history goes back to the grant of the delivery's job, and while the job runs under the
delivery's token it was not granted again. -/
def GrantedBy (h : List Step) (w : World) (delivery : Nat) (held : Job) : Prop :=
  ∃ later x earlier, h = later ++ x :: earlier ∧ Grants x delivery held ∧
    ∀ row, w.db.jobs.find held.id = some row → row.runToken = held.runToken →
      row.state = .running → ∀ z ∈ later, ∀ n job, Grants z n job → job.id ≠ held.id

/-- One step keeps the grants. -/
theorem GrantedBy.step {env : Env} {h : List Step} {x : Step} (hr : History env h x.pre)
    (hv : x.Valid (World.perform env)) {delivery : Nat} {d : Delivery}
    (hd : x.pre.deliveries delivery = some d) (hg : GrantedBy h x.pre delivery d.job) :
    GrantedBy (x :: h) x.post delivery d.job := by
  obtain ⟨later, y, earlier, rfl, hy, hlast⟩ := hg
  refine ⟨x :: later, y, earlier, rfl, hy, fun row' hrow' htoken hrunning => ?_⟩
  have hw := known_of_history hr
  obtain ⟨_, token, draw, -, -, htake, -⟩ := hy.cases (hr.valid (by simp))
  have ht : d.job.runToken = some token := by rw [htake]; rfl
  -- The job was running under the same token before the step.
  have hm := (World.perform_effect hv).jobMove hw d.job.id
  rw [hrow'] at hm
  obtain ⟨row, hrow, hrt, hrs⟩ :=
    hm.running ((hw.deliveries delivery d hd).token token ht) ⟨htoken.trans ht, hrunning⟩
  intro z hz n job hzg hid
  obtain rfl | hz := List.mem_cons.mp hz
  · obtain ⟨row₂, _, _, hrow₂, hc, -⟩ := hzg.cases hv
    rw [hid, hrow] at hrow₂
    cases hrow₂
    rw [hc.1] at hrs
    cases hrs
  · exact hlast row hrow (hrt.trans ht.symm) hrs z hz n job hzg hid

/-- **Every delivery goes back to the grant of its job**, the latest one while the job runs under the
delivery's token. -/
theorem granted_of_history {env : Env} {h : List Step} {w : World} (hr : History env h w) :
    ∀ delivery d, w.deliveries delivery = some d → GrantedBy h w delivery d.job := by
  refine hr.induct (fun h w => ∀ delivery d, w.deliveries delivery = some d →
      GrantedBy h w delivery d.job)
    (fun delivery d hd => by cases hd) (fun h x hr hv (_ : True) ih delivery d' hd' => ?_)
    fun _ _ => trivial
  obtain ⟨d, hd, hjob, -⟩ | ⟨jobId, token, draw, hevent, -, hfree, job, hjob, -, rfl, -⟩ :=
    (World.perform_effect hv).delivery_cases hd'
  · rw [hjob]
    exact (ih delivery d hd).step hr hv hd
  · refine ⟨[], x, h, rfl, ?_, fun _ _ _ _ z hz => by cases hz⟩
    have hkey : (take draw token job).id = jobId := (Db.job_id hjob : job.id = jobId)
    have hv' := hv
    rw [Transition.Valid, hevent] at hv'
    obtain ⟨-, -, ⟨-, hsame, -⟩ | ⟨row, hrow, -, hreply, -⟩⟩ := World.perform_claim hv'
    · rw [hsame, hfree] at hd'
      cases hd'
    · rw [hjob] at hrow
      cases hrow
      exact ⟨⟨token, draw, by rw [hkey]; exact hevent⟩, hreply⟩

/-- A delivery holds a token. -/
theorem held_token {env : Env} {h : List Step} {w : World} (hr : History env h w) {delivery : Nat}
    {d : Delivery} (hd : w.deliveries delivery = some d) :
    ∃ token, d.job.runToken = some token := by
  obtain ⟨later, x, earlier, rfl, hg, -⟩ := granted_of_history hr delivery d hd
  obtain ⟨row, token, draw, -, -, htake, -⟩ := hg.cases (hr.valid (by simp))
  exact ⟨token, by rw [htake]; rfl⟩

/-! ## Attempts are counted up -/

/-- A move that is no rearming lowers no attempt count. -/
theorem JobMove.attempts_le {w : World} {id : Uuid} {e : Event} {job : Job} {row' : Option Job}
    (hm : JobMove w id e (some job) row') (hrearm : ∀ now, e ≠ .retryCleanup id now) :
    ∃ job', row' = some job' ∧ job.attempts ≤ job'.attempts := by
  cases hm with
  | same | stamped => exact ⟨_, rfl, le_rfl⟩
  | taken | discarded => exact ⟨_, rfl, Nat.le_succ _⟩
  | settled => exact ⟨_, rfl, (settle_attempts _ _ _ _).ge⟩
  | recovered => exact ⟨_, rfl, by rw [settle_attempts]; exact le_rfl⟩
  | rearmed => exact absurd rfl (hrearm _)
  | rewritten _ _ _ hf => exact ⟨_, rfl, by cases hf <;> exact le_rfl⟩

/-- A step that rearms nothing lowers no attempt count. -/
theorem attempts_le_step {env : Env} {x : Step} (hw : Known x.pre)
    (hv : x.Valid (World.perform env)) {id : Uuid} {job : Job} (hrearm : ¬ Rearms x id)
    (hjob : x.pre.db.jobs.find id = some job) :
    ∃ job', x.post.db.jobs.find id = some job' ∧ job.attempts ≤ job'.attempts := by
  have hm := (World.perform_effect hv).jobMove hw id
  rw [hjob] at hm
  by_cases hevent : ∃ now, x.event = .retryCleanup id now
  · -- A `retry_cleanup` that is refused writes nothing.
    obtain ⟨now, hevent⟩ := hevent
    have hv' := hv
    rw [Transition.Valid, hevent] at hv'
    simp only [World.perform] at hv'
    split at hv'
    · next db hdb =>
        refine absurd ⟨⟨now, hevent⟩, ?_⟩ hrearm
        exact (Prod.mk.inj (Option.some.inj hv')).2.symm
    · have hpost : x.post = x.pre := (Prod.mk.inj (Option.some.inj hv')).1.symm
      exact ⟨job, hpost ▸ hjob, le_rfl⟩
  · exact hm.attempts_le fun now hq => hevent ⟨now, hq⟩

/-- Along a run that rearms nothing no attempt count goes down. -/
theorem attempts_le_run {env : Env} {w w' : World} {h : List Step} {id : Uuid} {job : Job}
    (hw : Known w) (hr : Run (World.perform env) w h w') (hrearm : ∀ z ∈ h, ¬ Rearms z id)
    (hjob : w.db.jobs.find id = some job) :
    ∃ job', w'.db.jobs.find id = some job' ∧ job.attempts ≤ job'.attempts :=
  (hr.invariant (fun v => Known v ∧ ∃ job', v.db.jobs.find id = some job' ∧
      job.attempts ≤ job'.attempts) ⟨hw, job, hjob, le_rfl⟩
    (fun _ hv hno ⟨hk, _, hj, hle⟩ =>
      let ⟨job'', hj'', hle''⟩ := attempts_le_step hk hv hno hj
      ⟨hk.step (World.perform_effect hv), job'', hj'', hle.trans hle''⟩) hrearm).2

/-! ## The stored text -/

/-- The text of the document is the result that the holder of the latest granted claim of its current
OCR job passed to `finish`. -/
def StoredByHolder (h : List Step) (d : Document) : Prop :=
  ∃ later x mid y earlier delivery job result, h = later ++ x :: mid ++ y :: earlier ∧
    currentOcrJob d.id h = some job.id ∧ Grants y delivery job ∧
    Finishes x delivery (.success (some result)) job ∧ Settles x ∧
    d.extractedText = result.text ∧
    ∀ z ∈ later ++ x :: mid, ∀ n granted, Grants z n granted → granted.id ≠ job.id

/-- A step that grants another job, or none, and inserts no OCR job keeps the text's origin. -/
theorem StoredByHolder.cons {h : List Step} {x : Step} {d d' : Document} (hs : StoredByHolder h d)
    (hid : d'.id = d.id) (htext : d'.extractedText = d.extractedText)
    (hcurrent : currentOcrJob d.id (x :: h) = currentOcrJob d.id h)
    (hgrant : ∀ n granted, Grants x n granted → currentOcrJob d.id h ≠ some granted.id) :
    StoredByHolder (x :: h) d' := by
  obtain ⟨later, y, mid, z, earlier, n, job, result, rfl, hc, hg, hf, hset, ht, hlast⟩ := hs
  refine ⟨x :: later, y, mid, z, earlier, n, job, result, rfl, ?_, hg, hf, hset, htext.trans ht, ?_⟩
  · rw [hid, hcurrent, hc]
  · intro u hu n' granted hu'
    obtain rfl | hu := List.mem_cons.mp hu
    · intro hq
      exact hgrant n' granted hu' (hq ▸ hc)
    · exact hlast u hu n' granted hu'

/-- A completion that stores a text is the holder's. -/
theorem Finishes.storedByHolder {env : Env} {h : List Step} {x : Step} (hr : History env h x.pre)
    (hv : x.Valid (World.perform env)) {delivery : Nat} {jitter : Fin 2000001} {draw : Draw}
    {result : ExtractionResult} {d : Delivery} {row : Job} {doc : Document}
    (hevent : x.event = .finish delivery (.success (some result)) jitter draw)
    (hd : x.pre.deliveries delivery = some d) (hrow : x.pre.db.jobs.find d.job.id = some row)
    (htoken : row.runToken = d.job.runToken) (hrunning : row.state = .running)
    (hcurrent : currentOcrJob doc.id (x :: h) = some d.job.id)
    (htext : doc.extractedText = result.text) : StoredByHolder (x :: h) doc := by
  obtain ⟨later, y, earlier, rfl, hg, hlast⟩ := granted_of_history hr delivery d hd
  refine ⟨[], x, later, y, earlier, delivery, d.job, result, rfl, hcurrent, hg,
    ⟨⟨jitter, draw, hevent⟩, d, hd, rfl⟩, ?_, htext, fun z hz n job hz' => ?_⟩
  · rw [Transition.Valid, hevent] at hv
    obtain ⟨-, -, hreply, -⟩ | ⟨hstale, -⟩ := World.perform_finish hv hd hrow
    · exact ⟨_, hreply⟩
    · exact absurd ⟨htoken, hrunning⟩ hstale
  · obtain rfl | hz := List.mem_cons.mp hz
    · obtain ⟨⟨_, _, hclaim⟩, -⟩ := hz'
      rw [hevent] at hclaim
      cases hclaim
    · exact hlast row hrow htoken hrunning z hz n job hz'

/-- One step keeps the origin of the stored text. -/
theorem storedByHolder_step {env : Env} {h : List Step} {x : Step} (hr : History env h x.pre)
    (hv : x.Valid (World.perform env)) {id : Uuid} {row' : Document}
    (ih : ∀ row, x.pre.db.documents.find id = some row → row.status = .succeeded →
      StoredByHolder h row)
    (hrow' : x.post.db.documents.find id = some row') (hsucceeded : row'.status = .succeeded) :
    StoredByHolder (x :: h) row' := by
  obtain ⟨hw, hp⟩ := provenance_of_history hr
  have hl := lockstep_view hr id
  have hm := (World.perform_effect hv).documentMove hw hp id
  have hid' : row'.id = id := Db.document_id hrow'
  -- A row that has succeeded shows no new job: a new job is pending.
  have hsame : ∀ k, (x.pre.db.view id).ocr k = none → (x.post.db.view id).ocr k = none := by
    obtain ⟨hsame, -⟩ | ⟨k, job, -, hpending, hocr, hl'⟩ :=
      hm.lockstep hl fun _ _ => Db.view_ocr_key
    · exact hsame
    · obtain ⟨k', job', hk', hjob', hmir⟩ := hl'.mirror row' hrow'
      cases hk'
      rw [hocr, Function.update_self] at hjob'
      cases hjob'
      rw [hmir.status, hpending] at hsucceeded
      cases hsucceeded
  have hcurrent : currentOcrJob id (x :: h) = currentOcrJob id h := by
    rw [currentOcrJob, insertedOcrJob_eq_none hsame, Option.none_or]
  -- The job of a document that has succeeded cannot be claimed.
  have hkeep : ∀ row, x.pre.db.documents.find id = some row → row.status = .succeeded →
      row'.extractedText = row.extractedText → StoredByHolder (x :: h) row' := by
    intro row hrow hs htext
    have hid : row.id = id := Db.document_id hrow
    refine (ih row hrow hs).cons (hid'.trans hid.symm) htext (hid.symm ▸ hcurrent) ?_
    intro n granted hg hq
    obtain ⟨j, _, _, hj, hc, -⟩ := hg.cases hv
    obtain ⟨k, job, hk, hjob, hmir⟩ := hl.mirror row hrow
    rw [hid, hk] at hq
    obtain ⟨j', hj', -, rfl⟩ := Db.view_ocr_eq_some_iff.mp hjob
    rw [Option.some.inj hq, hj] at hj'
    cases hj'
    have hstate : j.unstamped.state = .pending := hc.1
    rw [hmir.status, hstate] at hs
    cases hs
  have hpost : (x.post.db.view id).row = some row' := hrow'
  generalize hevent : x.event = e at hm
  generalize x.post.db.view id = v' at hm hpost
  cases hm with
  | same => exact hkeep row' hpost hsucceeded rfl
  | orphaned hrow => exact absurd (hrow.symm.trans hpost) fun h => by cases h
  | created | reprocessed | started => cases hpost; cases hsucceeded
  | @edited request data draw row _ hpk hrow =>
      cases hpost
      refine hkeep row hrow ?_ rfl
      rw [Document.indexed_columns, Patch.edit_status] at hsucceeded
      exact hsucceeded
  | deleted => cases hpost
  | @recovered dispatcher token jobId jitter draw job row _ hrow hjob hrunning =>
      cases hpost
      exfalso
      revert hsucceeded
      show (settle draw.now jitter (some workerLost) (fence draw token job)).state.documentStatus =
        .succeeded → False
      simp only [settle]
      split <;> exact fun hs => by cases hs
  | @finished delivery call jitter draw d job row _ hd hrow hjob htoken hrunning hresult =>
      cases hpost
      obtain ⟨j, hj, -, rfl⟩ := Db.view_ocr_eq_some_iff.mp hjob
      have hlive : j.unstamped.state ≠ .failed := by rw [hrunning]; decide
      cases call with
      | failure f =>
          exfalso
          revert hsucceeded
          show (settle draw.now jitter (some f) j.unstamped).state.documentStatus =
            .succeeded → False
          simp only [settle]
          split <;> exact fun hs => by cases hs
      | success result =>
          obtain ⟨r, rfl⟩ := Option.isSome_iff_exists.mp (hresult rfl)
          refine Finishes.storedByHolder hr hv hevent hd hj htoken hrunning ?_ rfl
          rw [hid', hcurrent]
          exact hl.eq_current hjob hlive

/-- **The text of a document comes from the current holder.** In every reachable state a document
that has succeeded shows what the holder of the latest granted claim of its current OCR job passed,
and every other document shows no text. -/
theorem storedByHolder_of_history {env : Env} {h : List Step} {w : World} (hr : History env h w)
    {d : Document} (hd : d ∈ w.db.documents.rows) :
    (d.status = .succeeded ∧ StoredByHolder h d) ∨
      (d.status ≠ .succeeded ∧ d.extractedText = []) := by
  by_cases hs : d.status = .succeeded
  · refine .inl ⟨hs, ?_⟩
    refine hr.induct (fun h w => ∀ id row, w.db.documents.find id = some row →
        row.status = .succeeded → StoredByHolder h row) (fun id row hrow => by cases hrow)
      (fun h x hr hv (_ : True) ih id row hrow hs =>
        storedByHolder_step hr hv (fun row => ih id row) hrow hs)
      (fun _ _ => trivial) d.id d (Table.find_of_mem hd) hs
  · obtain ⟨k, job, -, -, hm⟩ := (lockstep_view hr d.id).mirror d (Table.find_of_mem hd)
    exact .inr ⟨hs, hm.extractedText_nil hs⟩

/-! ## The law -/

/-- **Fencing.** In every run:
each claim grants a fresh token to a delivery of its own, and between two rearmings of a job no
attempt is granted twice;
a completion takes effect only on a job that is running under the worker's token, and otherwise
answers `"stale"` and changes nothing;
of the completions of one delivery at most one takes effect;
once an attempt has been completed or recovered, every completion under its token is stale;
and a stored text is the result of the holder of the latest granted claim. -/
theorem fencing {env : Env} {h : List Step} {w : World} (hr : History env h w) :
    (∀ later x mid y earlier n n' job job', h = later ++ x :: mid ++ y :: earlier →
      Grants x n job → Grants y n' job' →
        job.runToken ≠ job'.runToken ∧ n ≠ n' ∧
          (job.id = job'.id → (∀ z ∈ mid, ¬ Rearms z job.id) → job'.attempts < job.attempts)) ∧
    (∀ x ∈ h, ∀ n call job, Finishes x n call job →
      (x.reply = .finished .stale ∧ x.post.db = x.pre.db) ∨
        Settles x ∧ ∃ row, x.pre.db.jobs.find job.id = some row ∧ row.state = .running ∧
          row.runToken = job.runToken) ∧
    (∀ later x mid y earlier n call call' job job', h = later ++ x :: mid ++ y :: earlier →
      Finishes x n call job → Finishes y n call' job' → ¬ (Settles x ∧ Settles y)) ∧
    (∀ later x mid y earlier n call job token, h = later ++ x :: mid ++ y :: earlier →
      Ends y job.id token → Finishes x n call job → job.runToken = some token →
        x.reply = .finished .stale ∧ x.post.db = x.pre.db) ∧
    ∀ d ∈ w.db.documents.rows, (d.status = .succeeded ∧ StoredByHolder h d) ∨
      (d.status ≠ .succeeded ∧ d.extractedText = []) := by
  -- After the end of an attempt its token is retired, and stays so.
  have hended : ∀ later x mid y earlier n call job token, h = later ++ x :: mid ++ y :: earlier →
      Ends y job.id token → Finishes x n call job → job.runToken = some token →
        x.reply = .finished .stale ∧ x.post.db = x.pre.db := by
    rintro later x mid y earlier n call job token rfl hend
      ⟨⟨jitter, draw, hevent⟩, d, hd, rfl⟩ htoken
    obtain ⟨hearlier, hy, hmid, hx⟩ := hr.cut_two
    have hw := known_of_history hearlier
    have hp := (provenance_of_history ((hearlier.step hy).trans hmid)).2
    have hret := (hend.retired hw hy).run (hw.step (World.perform_effect hy)) hmid
    rw [Transition.Valid, hevent] at hx
    exact hret.stale hp hx hd htoken
  have heffect : ∀ x ∈ h, ∀ n call job, Finishes x n call job →
      (x.reply = .finished .stale ∧ x.post.db = x.pre.db) ∨
        Settles x ∧ ∃ row, x.pre.db.jobs.find job.id = some row ∧ row.state = .running ∧
          row.runToken = job.runToken := by
    rintro x hx n call job ⟨⟨jitter, draw, hevent⟩, d, hd, rfl⟩
    obtain ⟨later, earlier, -, hearlier, hv, -⟩ := hr.cut hx
    obtain ⟨row, hrow, -⟩ := (provenance_of_history hearlier).2.held n d hd
    rw [Transition.Valid, hevent] at hv
    obtain ⟨ht, hs, hreply, -⟩ | ⟨-, hreply, hdb⟩ := World.perform_finish hv hd hrow
    · exact .inr ⟨⟨_, hreply⟩, row, hrow, hs, ht⟩
    · exact .inl ⟨hreply, hdb⟩
  refine ⟨?_, heffect, ?_, hended, fun d hd => storedByHolder_of_history hr hd⟩
  · rintro later x mid y earlier n n' job job' rfl hx hy
    obtain ⟨hearlier, hvy, hmid, hvx⟩ := hr.cut_two
    have hw := known_of_history hearlier
    have hwy := hw.step (World.perform_effect hvy)
    obtain ⟨row', token', draw', hrow', -, htake', -, hfree', hpost', hevent'⟩ := hy.cases hvy
    obtain ⟨row, token, draw, hrow, -, htake, hfresh, hfree, -⟩ := hx.cases hvx
    obtain ⟨d, hd, hdjob⟩ := delivery_stays hmid hpost'
    have htoken' : job'.runToken = some token' := by rw [htake']; rfl
    refine ⟨?_, ?_, fun hid hrearm => ?_⟩
    · -- The older token was drawn when the newer one was.
      have hknown := (known_of_history ((hearlier.step hvy).trans hmid)).deliveries n' d hd
      rw [hdjob] at hknown
      rw [htoken']
      exact hx.fresh_token hvx (hknown.token token' htoken')
    · rintro rfl
      rw [hfree] at hd
      cases hd
    · have hgranted : y.post.db.jobs.find job.id = some job' := by
        obtain ⟨x', hx', hq, -⟩ | ⟨jobId, t, dr, he, -, -, j, hj, -, hheld, hj'⟩ :=
          (World.perform_effect hvy).delivery_cases hpost'
        · rw [hfree'] at hx'
          cases hx'
        · rw [hevent'] at he
          cases he
          rw [hid, hj']
          exact congrArg some (congrArg Delivery.job hheld).symm
      obtain ⟨row₁, hrow₁, hle⟩ := attempts_le_run hwy hmid hrearm hgranted
      rw [hrow] at hrow₁
      cases hrow₁
      rw [htake]
      exact Nat.lt_succ_of_le hle
  · rintro later x mid y earlier n call call' job job' rfl hx hy ⟨hsx, hsy⟩
    obtain ⟨hearlier, hvy, hmid, hvx⟩ := hr.cut_two
    obtain ⟨⟨_, _, hevent⟩, d', hd', hdj'⟩ := hy
    obtain ⟨d, hd, hdj⟩ := hx.2
    -- The delivery holds the same job both times, so the first completion ended its attempt.
    obtain ⟨d₁, hd₁, hq₁⟩ := (World.perform_effect hvy).delivery_stays hd'
    obtain ⟨d₂, hd₂, hq₂⟩ := delivery_stays hmid hd₁
    rw [hd] at hd₂
    cases hd₂
    have hjob : job = job' := by rw [← hdj, ← hdj', hq₂, hq₁]
    subst hjob
    have hy' : Finishes y n call' job := ⟨⟨_, _, hevent⟩, d', hd', hdj'⟩
    obtain ⟨hstale, -⟩ | ⟨-, row, hrow, hrs, hrt⟩ := heffect y (by simp) n call' job hy'
    · obtain ⟨s, hs⟩ := hsy
      rw [hstale] at hs
      cases hs
    · obtain ⟨token, htoken⟩ := held_token hearlier hd'
      rw [hdj'] at htoken
      obtain ⟨hstale, -⟩ := hended later x mid y earlier n call job token rfl
        ⟨⟨row, hrow, hrt.trans htoken, hrs⟩, .inl ⟨n, call', job, hy', rfl, hsy⟩⟩ hx htoken
      obtain ⟨s, hs⟩ := hsx
      rw [hstale] at hs
      cases hs

/-- The first worker is too slow: a dispatcher recovers the job when the lease is over, a second worker
takes it, and both complete. -/
def fencedEvents : List Event :=
  sampleUpload ++
    [.claim 0 5 6 ⟨2000, 7⟩,
      .recoverExpired 0 100 240002000 [5],
      .recoverNext 0 false 8 0 ⟨240002000, 9⟩,
      .claim 1 5 10 ⟨250002000, 11⟩,
      .finish 0 (.success (some ⟨lit "Invoice 41", .dict []⟩)) 0 ⟨250003000, 12⟩,
      .finish 1 (.success (some ⟨lit "Invoice 42", .dict []⟩)) 0 ⟨250004000, 13⟩]

/-- Their run, if every event of it is possible. -/
def sampleFenced : Option (List Step × World) :=
  Run.execute (World.perform sampleEnv) ([], .init) fencedEvents

/-- Every step of the two workers is possible. -/
theorem sampleFenced_isSome : sampleFenced.isSome = true := by decide +kernel

/-- They are a run of the system. -/
theorem sampleFenced_history : History sampleEnv (sampleFenced.get sampleFenced_isSome).1
    (sampleFenced.get sampleFenced_isSome).2 :=
  Run.of_isSome rfl sampleFenced_isSome

/-- Of the two completions one is stale, and the stored text is the result of the second claim. -/
theorem fencing_sample :
    ((sampleFenced.get sampleFenced_isSome).1.filter fun x => x.reply.granted.isSome).length = 2 ∧
    ((sampleFenced.get sampleFenced_isSome).1.any fun x => match x.reply with
      | .finished .stale => true
      | _ => false) = true ∧
    (∃ d ∈ (sampleFenced.get sampleFenced_isSome).2.db.documents.rows,
      d.extractedText = lit "Invoice 42") ∧
    ∀ d ∈ (sampleFenced.get sampleFenced_isSome).2.db.documents.rows,
      (d.status = .succeeded ∧ StoredByHolder (sampleFenced.get sampleFenced_isSome).1 d) ∨
        (d.status ≠ .succeeded ∧ d.extractedText = []) :=
  ⟨by decide +kernel, by decide +kernel, by decide +kernel,
    (fencing sampleFenced_history).2.2.2.2⟩

end MiniDms
