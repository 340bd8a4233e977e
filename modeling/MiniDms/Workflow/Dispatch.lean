import MiniDms.Workflow.Retries

/-! # Dispatch and recovery

A pending job is published by any dispatcher that finds it due, whatever became of earlier
publications; a running job is taken back by any dispatcher that finds its lease expired. The dispatch
stamp only spaces publications out: it is cleared whenever a job becomes pending again, and within one
pending period it is renewed at most once per interval. -/

namespace MiniDms

open Python Relational TransitionSystem

/-! ## Selection -/

/-- The dispatcher's transaction selects the job and stamps it. -/
def Stamps (x : Step) (id : Uuid) (now : Timestamp) : Prop :=
  ∃ dispatcher limit locked, x.event = .dispatchSelect dispatcher now locked ∧
    x.pre.dispatchers dispatcher = .recovering limit [] ∧
      id ∈ (selectDue x.pre.db now limit locked).map Job.id

/-- **Every due job is selected** when the limit allows for all of them and its row is not locked. -/
theorem mem_selectDue {db : Db} {now : Timestamp} {limit : Nat} {locked : List Uuid} {job : Job}
    (hjob : job ∈ db.jobs.rows) (hdue : due now job = true) (hfree : job.id ∉ locked)
    (hlimit : (db.jobs.rows.filter (due now)).length ≤ limit) :
    job ∈ selectDue db now limit locked := by
  have hsub : (db.jobs.rows.filter fun j => due now j && j.id ∉ locked).Sublist
      (db.jobs.rows.filter (due now)) :=
    List.monotone_filter_right _ fun j hj => (Bool.and_eq_true_iff.mp hj).1
  rw [selectDue, List.take_of_length_le]
  · rw [List.mem_insertionSort, List.mem_filter, Bool.and_eq_true, decide_eq_true_iff]
    exact ⟨hjob, hdue, hfree⟩
  · rw [List.length_insertionSort]
    exact hsub.length_le.trans hlimit

/-- The condition of the dispatcher's query, spelled out. -/
theorem due_iff {now : Timestamp} {job : Job} :
    due now job = true ↔ job.state = .pending ∧ job.availableAt ≤ now ∧
      ∀ t, job.dispatchedAt = some t → t ≤ now - seconds jobRedispatchSeconds := by
  unfold due
  cases job.dispatchedAt with
  | none => simp
  | some t =>
      simp only [Option.all_some, Bool.and_eq_true, decide_eq_true_iff, Option.some.injEq,
        forall_eq']
      tauto

/-- A dispatcher stamps the jobs it selects and goes on to publish them. -/
theorem World.perform_dispatchSelect {env : Env} {w w' : World} {r : Reply} {n limit : Nat}
    {now : Timestamp} {locked : List Uuid}
    (h : w.perform env (.dispatchSelect n now locked) = some (w', r))
    (hd : w.dispatchers n = .recovering limit []) :
    w'.db = stampDispatched w.db now ((selectDue w.db now limit locked).map Job.id) ∧
      w'.dispatchers n = .publishing ((selectDue w.db now limit locked).map Job.id) 0 := by
  simp only [World.perform, hd] at h
  cases h
  exact ⟨rfl, Function.update_self ..⟩

/-- A stamped job was due, and its row carries the stamp. -/
theorem Stamps.row {env : Env} {x : Step} (hv : x.Valid (World.perform env)) {id : Uuid}
    {now : Timestamp} (hs : Stamps x id now) :
    ∃ job, x.pre.db.jobs.find id = some job ∧ due now job = true ∧
      x.post.db.jobs.find id = some { job with dispatchedAt := some now } := by
  obtain ⟨n, limit, locked, hevent, hd, hmem⟩ := hs
  rw [Transition.Valid, hevent] at hv
  obtain ⟨job, hsel, rfl⟩ := List.mem_map.mp hmem
  obtain ⟨hrow, hdue, -⟩ := due_of_mem_selectDue hsel
  refine ⟨job, Table.find_of_mem hrow, hdue, ?_⟩
  rw [(World.perform_dispatchSelect hv hd).1, stampDispatched, Db.find_updateJobs,
    Table.find_of_mem hrow, Option.map_some, if_pos (decide_eq_true hmem)]

/-! ## The stamp of a pending period -/

/-- The job carries a stamp at least as new as the given one, or was completed. -/
def StampedSince (w : World) (id : Uuid) (since : Timestamp) : Prop :=
  ∃ job, w.db.jobs.find id = some job ∧
    ((∃ t, job.dispatchedAt = some t ∧ since ≤ t) ∧ job.state = .pending ∨ job.state = .succeeded)

/-- Until the next claim a stamped job keeps a stamp at least as new. -/
theorem StampedSince.step {env : Env} {x : Step} {id : Uuid} {since : Timestamp} (hw : Known x.pre)
    (hv : x.Valid (World.perform env)) (h : StampedSince x.pre id since) (htake : ¬ Takes x id) :
    StampedSince x.post id since := by
  obtain ⟨job, hjob, hstate⟩ := h
  have hm := (World.perform_effect hv).jobMove hw id
  rw [hjob] at hm
  obtain ⟨job', hjob', -⟩ := hm.frame
  rw [hjob'] at hm
  refine ⟨job', hjob', ?_⟩
  have hnot : job.state = .pending ∨ job.state = .succeeded := hstate.imp And.right fun hs => hs
  generalize hevent : x.event = e at hm
  cases hm with
  | same => exact hstate
  | taken _ _ hc | discarded _ hc =>
      refine absurd (takes_of_find ?_ hjob hjob' hc.1 nofun) htake
      rw [hevent]
      rfl
  | settled _ _ _ hrunning =>
      rw [hrunning] at hnot
      obtain hs | hs := hnot <;> cases hs
  | recovered _ _ hexp =>
      rw [running_of_expired hexp] at hnot
      obtain hs | hs := hnot <;> cases hs
  | rearmed _ hfailed =>
      rw [hfailed] at hnot
      obtain hs | hs := hnot <;> cases hs
  | @stamped _ now _ _ hdue =>
      obtain ⟨hpending, -, hold⟩ := due_iff.mp hdue
      obtain ⟨⟨t, ht, hle⟩, -⟩ | hs := hstate
      · have hnew : t ≤ now := (hold t ht).trans (Int.sub_le_self _ (by decide))
        exact .inl ⟨⟨now, rfl, hle.trans hnew⟩, hpending⟩
      · exact .inr hs
  | rewritten _ _ _ hf =>
      cases hf with
      | complete => exact .inr rfl
      | _ => exact hstate

/-- **Stamps are spaced.** Within one pending period two selections of a job are at least the
redispatch interval apart. -/
theorem stamps_spaced {env : Env} {later mid earlier : List Step} {x y : Step} {w : World}
    (hr : History env (later ++ x :: mid ++ y :: earlier) w) {id : Uuid} {now now' : Timestamp}
    (hy : Stamps y id now) (hx : Stamps x id now') (hmid : ∀ z ∈ mid, ¬ Takes z id) :
    now + seconds jobRedispatchSeconds ≤ now' := by
  obtain ⟨hearlier, hvy, hrmid, hvx⟩ := hr.cut_two
  obtain ⟨row, hrow, hdue, hrow'⟩ := hy.row hvy
  have hstart : StampedSince y.post id now :=
    ⟨_, hrow', .inl ⟨⟨now, rfl, le_rfl⟩, (due_iff.mp hdue).1⟩⟩
  have hinv := hrmid.invariant (fun v => Known v ∧ StampedSince v id now)
    ⟨(known_of_history hearlier).step (World.perform_effect hvy), hstart⟩
    (fun z hv (hz : ¬ Takes z id) ⟨hw, hs⟩ =>
      ⟨hw.step (World.perform_effect hv), hs.step hw hv hz⟩) hmid
  obtain ⟨job, hjob, hdue', -⟩ := hx.row hvx
  obtain ⟨hpending, -, hold⟩ := due_iff.mp hdue'
  obtain ⟨job', hjob', ⟨⟨t, ht, hle⟩, -⟩ | hs⟩ := hinv.2
  · rw [hjob] at hjob'
    cases hjob'
    have hlast := hold t ht
    linarith
  · rw [hjob] at hjob'
    cases hjob'
    rw [hpending] at hs
    cases hs

/-- **Becoming pending again clears the stamp.** -/
theorem JobMove.clears {w : World} {id : Uuid} {e : Event} {job job' : Job}
    (hm : JobMove w id e (some job) (some job')) (hleft : job.state ≠ .pending)
    (hback : job'.state = .pending) : job'.dispatchedAt = none := by
  cases hm with
  | same | stamped => exact absurd hback hleft
  | taken | discarded => cases hback
  | settled | recovered => exact settle_dispatchedAt ..
  | rearmed => rfl
  | rewritten _ _ _ hf =>
      cases hf with
      | complete => cases hback
      | _ => exact absurd hback hleft

/-! ## Leases -/

/-- A running job has a lease. -/
def Leased (job : Job) : Prop := job.state = .running → job.leaseUntil ≠ none

/-- **Every move leaves a running job with a lease.** -/
theorem JobMove.leased {w : World} {id : Uuid} {e : Event} {row : Option Job} {job' : Job}
    (hm : JobMove w id e row (some job')) (h : ∀ job, row = some job → Leased job) :
    Leased job' := by
  cases hm with
  | same => exact h job' rfl
  | created _ hnew => exact fun hs => absurd (hnew.state.symm.trans hs) nofun
  | taken => exact fun _ => nofun
  | settled | recovered => exact fun hs => (settle_state_ne_running _ _ _ _ hs).elim
  | @stamped _ _ _ job => exact h job rfl
  | discarded | rearmed => exact nofun
  | @rewritten _ _ _ _ _ job _ _ _ hf =>
      cases hf with
      | complete => exact nofun
      | _ => exact h job rfl

/-- **In every reachable state** every running job has a lease. -/
theorem leased_of_history {env : Env} {h : List Step} {w : World} (hr : History env h w) {id : Uuid}
    {job : Job} (hjob : w.db.jobs.find id = some job) : Leased job := by
  have hall : Known w ∧ ∀ id job, w.db.jobs.find id = some job → Leased job := by
    refine hr.preserved (fun w => Known w ∧ ∀ id job, w.db.jobs.find id = some job → Leased job)
      ⟨known_init, fun _ _ hj => nomatch hj⟩ fun x hv ⟨hw, hl⟩ => ?_
    have he := World.perform_effect hv
    refine ⟨hw.step he, fun id job' hj' => ?_⟩
    have hm := he.jobMove hw id
    rw [hj'] at hm
    exact hm.leased (hl id)
  exact hall.2 id job hjob

/-! ## Recovery -/

/-- The step moves the job out of the running state. -/
def Leaves (x : Step) (id : Uuid) : Prop :=
  x.pre.db.jobState id = some .running ∧ x.post.db.jobState id ≠ some .running

/-- **Every expired job is a candidate** when the limit allows for all of them. -/
theorem mem_candidates {db : Db} {now : Timestamp} {limit : Nat} {candidates : List Uuid} {job : Job}
    (hc : db.candidates now limit candidates = true) (hjob : job ∈ db.jobs.rows)
    (hexp : expired now job = true)
    (hlimit : (db.jobs.rows.filter (expired now)).length ≤ limit) : job.id ∈ candidates := by
  rw [Db.candidates, Bool.and_eq_true, Bool.and_eq_true, decide_eq_true_iff, decide_eq_true_iff,
    List.all_eq_true, min_eq_right hlimit] at hc
  obtain ⟨⟨hnodup, hall⟩, hlength⟩ := hc
  -- The candidates are as many distinct expired jobs as there are expired jobs.
  have hsub : candidates ⊆ (db.jobs.rows.filter (expired now)).map Job.id := by
    intro id hid
    obtain ⟨j, hj, hexp'⟩ := (Option.any_eq_true _ _).mp (hall id hid)
    exact List.mem_map.mpr ⟨j, List.mem_filter.mpr ⟨(Table.find_eq_some_iff.mp hj).1, hexp'⟩,
      Db.job_id hj⟩
  have hperm := (hnodup.subperm hsub).perm_of_length_le (by rw [List.length_map, hlength])
  exact hperm.mem_iff.mpr (List.mem_map_of_mem (List.mem_filter.mpr ⟨hjob, hexp⟩))

/-- What becomes of a dispatcher that is recovering: nothing, the next iteration, the end of its list
or its end. -/
theorem Effect.recovering {env : Env} {w w' : World} {e : Event} (he : Effect env w e w')
    {n limit : Nat} {todo : List Uuid} (hd : w.dispatchers n = .recovering limit todo) :
    w'.dispatchers n = w.dispatchers n ∨
    (∃ locked token jitter draw id rest, e = .recoverNext n locked token jitter draw ∧
      todo = id :: rest ∧ w'.dispatchers n = .recovering limit rest) ∨
    todo = [] ∨ e = .stop n := by
  have hother : ∀ {m : Nat} {d : Dispatcher}, n ≠ m →
      Function.update w.dispatchers m d n = w.dispatchers n := fun hne => Function.update_of_ne hne _ _
  cases he with
  | @recoveryStarted m _ _ _ hidle =>
      have hne : n ≠ m := by
        rintro rfl
        rw [hidle] at hd
        cases hd
      exact .inl (hother hne)
  | @published m _ _ _ _ hpub =>
      have hne : n ≠ m := by
        rintro rfl
        rw [hpub] at hd
        cases hd
      exact .inl (hother hne)
  | @stamped m _ _ _ hdone =>
      by_cases hne : n = m
      · subst hne
        rw [hdone] at hd
        cases hd
        exact .inr (.inr (.inl rfl))
      · exact .inl (hother hne)
  | @stopped m =>
      by_cases hne : n = m
      · exact .inr (.inr (.inr (by rw [hne])))
      · exact .inl (hother hne)
  | @recoveryPassed m _ locked token jitter draw id rest _ hm
  | @recovered m _ token jitter draw id rest _ _ hm =>
      by_cases hne : n = m
      · subst hne
        rw [hm] at hd
        cases hd
        exact .inr (.inl ⟨_, token, jitter, draw, id, rest, rfl, rfl, Function.update_self ..⟩)
      · exact .inl (hother hne)
  | _ => exact .inl rfl

/-- The dispatcher is not stopped, and at its turn finds the row of the job free, no earlier than
`now`. -/
def Unhindered (x : Step) (n : Nat) (id : Uuid) (now : Timestamp) : Prop :=
  x.event ≠ .stop n ∧ ∀ locked token jitter draw limit rest,
    x.event = .recoverNext n locked token jitter draw →
      x.pre.dispatchers n = .recovering limit (id :: rest) → locked = false ∧ now ≤ draw.now

/-- The job runs on an expired lease and is still on the dispatcher's list. -/
def Awaits (w : World) (n : Nat) (id : Uuid) (now : Timestamp) : Prop :=
  (∃ job, w.db.jobs.find id = some job ∧ expired now job = true) ∧
    ∃ limit todo, w.dispatchers n = .recovering limit todo ∧ id ∈ todo

/-- A job that is expired is expired later. -/
theorem expired_mono {now now' : Timestamp} {job : Job} (h : expired now job = true)
    (hle : now ≤ now') : expired now' job = true := by
  obtain ⟨hrunning, hlease⟩ := Bool.and_eq_true_iff.mp h
  obtain ⟨t, ht, hexp⟩ := (Option.any_eq_true _ _).mp hlease
  refine Bool.and_eq_true_iff.mpr ⟨hrunning, (Option.any_eq_true _ _).mpr ⟨t, ht, ?_⟩⟩
  exact decide_eq_true ((decide_eq_true_iff.mp hexp).trans hle)

/-- A move leaves a job that runs on an expired lease so, or takes it out of the running state. -/
theorem JobMove.expired_or_left {w : World} {id : Uuid} {e : Event} {job job' : Job} {now : Timestamp}
    (hm : JobMove w id e (some job) (some job')) (h : expired now job = true) :
    expired now job' = true ∨ job'.state ≠ .running := by
  have hrunning := running_of_expired h
  cases hm with
  | same => exact .inl h
  | taken _ _ hc => exact absurd (hrunning.symm.trans hc.1) nofun
  | stamped => exact .inl h
  | settled | recovered => exact .inr (settle_state_ne_running _ _ _ _)
  | discarded | rearmed => exact .inr nofun
  | rewritten _ _ _ hf =>
      cases hf with
      | complete => exact .inr nofun
      | _ => exact .inl h

/-- The iteration for an expired job takes it out of the running state. -/
theorem leaves_of_turn {env : Env} {x : Step} (hv : x.Valid (World.perform env)) {n limit : Nat}
    {id token : Uuid} {jitter : Fin 2000001} {draw : Draw} {rest : List Uuid} {job : Job}
    (hevent : x.event = .recoverNext n false token jitter draw)
    (hd : x.pre.dispatchers n = .recovering limit (id :: rest))
    (hjob : x.pre.db.jobs.find id = some job) (hexp : expired draw.now job = true) :
    Leaves x id := by
  rw [Transition.Valid, hevent] at hv
  rw [World.perform_recovered hv hd hjob hexp] at hv
  obtain ⟨-, job', hjob', -, hdb⟩ := World.perform_recoverNext hv hd
  have hkey : (fence draw token job').id = id := (Db.job_id hjob' : job'.id = id)
  constructor
  · rw [Db.jobState, hjob]
    exact congrArg some (running_of_expired hexp)
  · rw [Db.jobState, hdb, find_settleJob, settle_id, hkey, if_pos rfl]
    exact fun hs => settle_state_ne_running _ _ _ _ (Option.some.inj hs)

/-- In one step of an unhindered recovery an awaiting job leaves the running state or goes on
awaiting its turn. -/
theorem Awaits.step {env : Env} {x : Step} {n : Nat} {id : Uuid} {now : Timestamp}
    (hw : Known x.pre) (hv : x.Valid (World.perform env)) (hn : Unhindered x n id now)
    (h : Awaits x.pre n id now) : Leaves x id ∨ Awaits x.post n id now := by
  obtain ⟨⟨job, hjob, hexp⟩, limit, todo, hd, hmem⟩ := h
  have he := World.perform_effect hv
  have hm := he.jobMove hw id
  rw [hjob] at hm
  obtain ⟨job', hjob', -⟩ := hm.frame
  rw [hjob'] at hm
  obtain hexp' | hleft := hm.expired_or_left hexp
  · obtain hsame | ⟨locked, token, jitter, draw, id', rest, hevent, rfl, hrest⟩ | rfl | hstop :=
      he.recovering hd
    · exact .inr ⟨⟨job', hjob', hexp'⟩, limit, todo, hsame.trans hd, hmem⟩
    · by_cases hid : id = id'
      · subst hid
        obtain ⟨rfl, hnow⟩ := hn.2 locked token jitter draw limit rest hevent hd
        exact .inl (leaves_of_turn hv hevent hd hjob (expired_mono hexp hnow))
      · obtain rfl | hmem := List.mem_cons.mp hmem
        · exact absurd rfl hid
        · exact .inr ⟨⟨job', hjob', hexp'⟩, limit, rest, hrest, hmem⟩
    · cases hmem
    · exact absurd hstop hn.1
  · refine .inl ⟨?_, ?_⟩
    · rw [Db.jobState, hjob]
      exact congrArg some (running_of_expired hexp)
    · rw [Db.jobState, hjob']
      exact fun hs => hleft (Option.some.inj hs)

/-- **A recovery run moves every expired job out of the running state**: when the loop has come to the
end of its list, the job has left that state, by this dispatcher or by another transaction. -/
theorem leaves_of_recovery {env : Env} {mid earlier : List Step} {x : Step} {w : World}
    (hr : History env (mid ++ x :: earlier) w) {n limit : Nat} {now : Timestamp}
    {candidates : List Uuid} {job : Job} (hevent : x.event = .recoverExpired n limit now candidates)
    (hjob : job ∈ x.pre.db.jobs.rows) (hexp : expired now job = true)
    (hlimit : (x.pre.db.jobs.rows.filter (expired now)).length ≤ limit)
    (hmid : ∀ z ∈ mid, Unhindered z n job.id now)
    (hdone : ∃ limit, w.dispatchers n = .recovering limit []) : ∃ y ∈ mid, Leaves y job.id := by
  obtain ⟨v, hstart, hrmid⟩ := hr.split
  obtain ⟨hearlier, hv, rfl⟩ := hstart.uncons
  have hw := known_of_history hearlier
  have hawaits : Awaits x.post n job.id now := by
    have hv' := hv
    rw [Transition.Valid, hevent] at hv'
    simp only [World.perform] at hv'
    split at hv'
    · next hc =>
        have hpost := (Prod.mk.inj (Option.some.inj hv')).1
        rw [← hpost]
        exact ⟨⟨job, Table.find_of_mem hjob, hexp⟩, limit, candidates, Function.update_self ..,
          mem_candidates hc.2 hjob hexp hlimit⟩
    · cases hv'
  have hinv := hrmid.induct
    (fun k v => Known v ∧ ((∃ y ∈ k, Leaves y job.id) ∨ Awaits v n job.id now))
    ⟨hw.step (World.perform_effect hv), .inr hawaits⟩
    (fun k z _ hvz hz hI => by
      obtain ⟨hwz, hk⟩ := hI
      refine ⟨hwz.step (World.perform_effect hvz), ?_⟩
      obtain ⟨y, hy, hleaves⟩ | hk := hk
      · exact .inl ⟨y, List.mem_cons_of_mem _ hy, hleaves⟩
      · exact (hk.step hwz hvz hz).imp_left fun hleaves => ⟨z, List.mem_cons_self, hleaves⟩)
    hmid
  obtain ⟨limit', hdone⟩ := hdone
  obtain hleft | ⟨-, limit'', todo, hd, hmem⟩ := hinv.2
  · exact hleft
  · rw [hdone] at hd
    cases hd
    cases hmem

/-! ## The law -/

/-- **No job is stranded or flooded.** In every run:
every selection picks each due job, when its limit allows and the row is free;
every running job has a lease, and a recovery that lists it as expired and finds its row free takes it
out of that state;
a job that becomes pending again has no dispatch stamp;
and within one pending period stamps are at least the redispatch interval apart. -/
theorem no_job_stranded {env : Env} {h : List Step} {w : World} (hr : History env h w) :
    (∀ x ∈ h, ∀ n limit now locked, x.event = .dispatchSelect n now locked →
      x.pre.dispatchers n = .recovering limit [] → ∀ job ∈ x.pre.db.jobs.rows,
        job.state = .pending → job.availableAt ≤ now →
        (∀ t, job.dispatchedAt = some t → t ≤ now - seconds jobRedispatchSeconds) →
        (x.pre.db.jobs.rows.filter (due now)).length ≤ limit → job.id ∉ locked →
          Stamps x job.id now ∧
            ∃ ids, x.post.dispatchers n = .publishing ids 0 ∧ job.id ∈ ids) ∧
    (∀ job ∈ w.db.jobs.rows, job.state = .running → job.leaseUntil ≠ none) ∧
    (∀ mid x earlier n limit now candidates job, h = mid ++ x :: earlier →
      x.event = .recoverExpired n limit now candidates → job ∈ x.pre.db.jobs.rows →
      job.state = .running → (∀ t, job.leaseUntil = some t → t ≤ now) →
      (x.pre.db.jobs.rows.filter (expired now)).length ≤ limit →
      (∀ z ∈ mid, Unhindered z n job.id now) →
      (∃ limit, w.dispatchers n = .recovering limit []) → ∃ y ∈ mid, Leaves y job.id) ∧
    (∀ x ∈ h, ∀ id job job', x.pre.db.jobs.find id = some job →
      x.post.db.jobs.find id = some job' → job.state ≠ .pending → job'.state = .pending →
        job'.dispatchedAt = none) ∧
    ∀ later x mid y earlier id now now', h = later ++ x :: mid ++ y :: earlier →
      Stamps y id now → Stamps x id now' → (∀ z ∈ mid, ¬ Takes z id) →
        now + seconds jobRedispatchSeconds ≤ now' := by
  refine ⟨?_, fun job hjob => leased_of_history hr (Table.find_of_mem hjob), ?_, ?_, ?_⟩
  · intro x hx n limit now locked hevent hd job hjob hpending havail hold hlimit hfree
    have hmem := List.mem_map_of_mem (f := Job.id)
      (mem_selectDue hjob (due_iff.mpr ⟨hpending, havail, hold⟩) hfree hlimit)
    refine ⟨⟨n, limit, locked, hevent, hd, hmem⟩, _, ?_, hmem⟩
    have hv := hr.valid hx
    rw [Transition.Valid, hevent] at hv
    exact (World.perform_dispatchSelect hv hd).2
  · rintro mid x earlier n limit now candidates job rfl hevent hjob hrunning hlease hlimit hmid hdone
    refine leaves_of_recovery hr hevent hjob ?_ hlimit hmid hdone
    obtain ⟨v, hstart, -⟩ := hr.split
    obtain ⟨hearlier, -, -⟩ := hstart.uncons
    obtain ⟨t, ht⟩ := Option.ne_none_iff_exists'.mp
      (leased_of_history hearlier (Table.find_of_mem hjob) hrunning)
    rw [expired, hrunning, ht, Option.any_some, decide_eq_true (hlease t ht)]
    rfl
  · intro x hx id job job' hjob hjob' hleft hback
    obtain ⟨later, earlier, -, hearlier, hv, -⟩ := hr.cut hx
    have hm := (World.perform_effect hv).jobMove (known_of_history hearlier) id
    rw [hjob, hjob'] at hm
    exact hm.clears hleft hback
  · rintro later x mid y earlier id now now' rfl hy hx hmid
    exact stamps_spaced hr hy hx hmid

/-- The upload, a dispatch whose publication fails, and a claim. -/
def sampleDispatch : Option (List Step × World) :=
  Run.execute (World.perform sampleEnv) ([], .init)
    (sampleUpload ++ [.recoverExpired 0 100 2000 [], .dispatchSelect 0 2000 [], .publish 0 false,
      .claim 0 5 6 ⟨3000, 7⟩])

/-- The dispatches of the sample can happen. -/
theorem sampleDispatch_isSome : sampleDispatch.isSome = true := by decide +kernel

/-- The history of the dispatch. -/
def sampleDispatchHistory : List Step := (sampleDispatch.get sampleDispatch_isSome).1

/-- The state after the dispatch. -/
def sampleDispatchWorld : World := (sampleDispatch.get sampleDispatch_isSome).2

/-- They are a run of the system. -/
theorem sampleDispatch_history :
    History sampleEnv sampleDispatchHistory sampleDispatchWorld :=
  Run.of_isSome rfl sampleDispatch_isSome

/-- The claimed job runs on a lease although its publication failed. -/
theorem no_job_stranded_sample :
    (∃ job ∈ sampleDispatchWorld.db.jobs.rows, job.state = .running ∧ job.dispatchedAt = some 2000) ∧
    ∀ job ∈ sampleDispatchWorld.db.jobs.rows, job.state = .running → job.leaseUntil ≠ none :=
  ⟨by decide +kernel, (no_job_stranded sampleDispatch_history).2.1⟩

end MiniDms
