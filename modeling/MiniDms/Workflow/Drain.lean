import MiniDms.Workflow.Progress
import MiniDms.Workflow.Downloads
import MiniDms.Workflow.ObjectCover

/-! # The storage can be drained

Uploads that die, deletions whose object could not be reached, cleanup jobs that have used up their
attempts: all of them leave objects behind that no document needs. Once no upload is under way, the
dispatchers, the workers and the operator's `retry_cleanup` have a run after which the storage holds the
objects of the live documents and nothing else. -/

namespace MiniDms

open Python Relational TransitionSystem

/-! ## Upkeep -/

/-- The events of workers and dispatchers, and the operator's command. -/
def Event.isUpkeep : Event → Bool
  | .retryCleanup .. => true
  | e => e.isWork

/-- The work of workers and dispatchers is upkeep. -/
theorem Event.isUpkeep_of_isWork {e : Event} (h : e.isWork = true) : e.isUpkeep = true := by
  cases e <;> first | exact h | rfl

/-- Upkeep leaves the uploads alone. -/
theorem Effect.uploads_frame {env : Env} {w w' : World} {e : Event} (he : Effect env w e w')
    (hupkeep : e.isUpkeep = true) : w'.uploads = w.uploads := by
  cases he with
  | entered | advanced => cases hupkeep
  | _ => rfl

/-- Upkeep keeps every document under its name, and creates none. -/
theorem Effect.names_frame {env : Env} {w w' : World} {e : Event} (hw : Known w) (hp : Provenance w)
    (he : Effect env w e w') (hupkeep : e.isUpkeep = true) (id : Uuid) :
    (w'.db.documents.find id).map (·.storageKey) = (w.db.documents.find id).map (·.storageKey) := by
  cases hrow' : w'.db.documents.find id with
  | none =>
      cases hrow : w.db.documents.find id with
      | none => rfl
      | some row =>
          -- Only a DELETE request removes a row.
          obtain ⟨request, jobId, draw, rfl, -⟩ := he.row_stays hrow hrow'
          cases hupkeep
  | some d' =>
      obtain ⟨d, hd, hsame⟩ | ⟨c, u, ids, actual, draw, jobId, fault, ack, rfl, -⟩ :=
        (he.documentMove hw hp id).identity hrow'
      · have hrow : w.db.documents.find id = some d := hd
        rw [hrow]
        exact congrArg some hsame.storageKey.symm
      · cases hupkeep

/-- No upload is under way. -/
def UploadsEnded (w : World) : Prop := ∀ c u, w.uploads c = some u → u.pc.ended = true

/-- A call that is over holds no identifiers. -/
theorem UploadPc.ids_of_ended {pc : UploadPc} (h : pc.ended = true) : pc.ids = none := by
  cases pc <;> first | rfl | cases h

section Upkeep

variable {env : Env} {w w' : World} {path : List Step}

/-- A run of upkeep leaves the uploads alone. -/
theorem uploads_of_upkeep (hrun : Run (World.perform env) w path w')
    (hupkeep : ∀ x ∈ path, x.event.isUpkeep = true) : w'.uploads = w.uploads :=
  hrun.invariant (fun v => v.uploads = w.uploads) rfl
    (fun _ hv hx ih => ((World.perform_effect hv).uploads_frame hx).trans ih) hupkeep

/-- Upkeep under way after all uploads have ended is graceful, and saves nothing. -/
theorem graceful_of_upkeep (hrun : Run (World.perform env) w path w')
    (hupkeep : ∀ x ∈ path, x.event.isUpkeep = true) (hended : UploadsEnded w) :
    ∀ x ∈ path, Graceful x ∧ KeepsName x := by
  intro x hx
  obtain ⟨later, earlier, rfl, hearlier, -⟩ := hrun.cut hx
  have hsame := uploads_of_upkeep hearlier fun y hy =>
    hupkeep y (List.mem_append_right _ (List.mem_cons_of_mem _ hy))
  constructor
  · intro c u ids hu hids
    rw [hsame] at hu
    rw [UploadPc.ids_of_ended (hended c u hu)] at hids
    cases hids
  · intro c actual ack u ids hevent
    have hx := hupkeep x hx
    rw [hevent] at hx
    cases hx

/-- Upkeep keeps every document under its name, and creates none. -/
theorem names_of_upkeep {h : List Step} (hr : History env h w)
    (hrun : Run (World.perform env) w path w') (hupkeep : ∀ x ∈ path, x.event.isUpkeep = true)
    (id : Uuid) :
    (w'.db.documents.find id).map (·.storageKey) = (w.db.documents.find id).map (·.storageKey) := by
  obtain ⟨hw, hp⟩ := provenance_of_history hr
  refine (hrun.invariant (fun v => (Known v ∧ Provenance v) ∧
    (v.db.documents.find id).map (·.storageKey) = (w.db.documents.find id).map (·.storageKey))
    ⟨⟨hw, hp⟩, rfl⟩ (fun x hv hx ih => ?_) hupkeep).2
  obtain ⟨⟨hw, hp⟩, ih⟩ := ih
  have he := World.perform_effect hv
  exact ⟨⟨hw.step he, hp.step hw he⟩, (he.names_frame hw hp hx id).trans ih⟩

end Upkeep

/-! ## Failed cleanups -/

/-- **A cleanup job that has failed can be carried out** once it is rearmed, at any time. -/
theorem cleanup_succeeds {env : Env} {h : List Step} {w : World} (hr : History env h w)
    (start : Timestamp) {id : Uuid} {job : Job} (hjob : w.db.jobs.find id = some job)
    (hkind : job.kind = .deleteObject) (hfailed : job.state = .failed) :
    ∃ path w' job' t, Run (World.perform env) w path w' ∧ (∀ x ∈ path, x.event.isUpkeep = true) ∧
      Timed start path t ∧ job'.state = .succeeded ∧
      ∀ k, w'.db.jobs.find k = if k = id then some job' else w.db.jobs.find k := by
  have hid : (rearm start job).id = id := (Db.job_id hjob : job.id = id)
  have hstep : w.perform env (.retryCleanup id start) =
      some ({ w with db := w.db.putJob (rearm start job) }, .done) := by
    have hres : retryCleanup w.db start id = some (w.db.putJob (rearm start job)) :=
      retryCleanup_eq_some_iff.mpr ⟨job, hjob, hkind, hfailed, rfl⟩
    simp only [World.perform, hres]
  have hrows : ∀ k, (w.db.putJob (rearm start job)).jobs.find k =
      if k = id then some (rearm start job) else w.db.jobs.find k := by
    intro k
    rw [Db.putJob_jobs, Table.find_put, hid]
  obtain ⟨w', job', t, ⟨path, hrun, hwork, htimed, hrows'⟩, hdone⟩ :=
    works_claimed (hr.step hstep) start ((hrows id).trans (if_pos rfl)) rfl
  have hrearmed := (Timed.nil start).cons (x := ⟨w, .retryCleanup id start, .done,
    { w with db := w.db.putJob (rearm start job) }⟩) le_rfl fun _ hq => (Option.some.inj hq).symm
  refine ⟨_, w', job', t, (Run.refl.step hstep).trans hrun, fun x hx => ?_,
    hrearmed.append htimed, hdone, fun k => ?_⟩
  · obtain hx | hx := List.mem_append.mp hx
    · exact Event.isUpkeep_of_isWork (hwork x hx)
    · obtain rfl := List.mem_singleton.mp hx
      rfl
  · rw [hrows', hrows]
    split <;> rfl

/-- The listed cleanup jobs that have failed can be carried out one after the other. -/
theorem cleanups_succeed {env : Env} {h : List Step} {w : World} (hr : History env h w)
    (start : Timestamp) (ids : List Uuid) :
    ∃ path w' t, Run (World.perform env) w path w' ∧ (∀ x ∈ path, x.event.isUpkeep = true) ∧
      Timed start path t ∧
      ∀ k job', w'.db.jobs.find k = some job' → job'.state = .succeeded ∨
        w.db.jobs.find k = some job' ∧
          (k ∈ ids → ¬ (job'.kind = .deleteObject ∧ job'.state = .failed)) := by
  induction ids with
  | nil =>
      exact ⟨[], w, start, .refl, List.forall_mem_nil _, .nil start,
        fun k job' hj => .inr ⟨hj, fun hk => absurd hk List.not_mem_nil⟩⟩
  | cons id ids ih =>
      obtain ⟨path, w', t, hrun, hupkeep, htimed, hrows⟩ := ih
      by_cases hfailed : ∃ job, w'.db.jobs.find id = some job ∧ job.kind = .deleteObject ∧
          job.state = .failed
      · obtain ⟨job, hjob, hkind, hstate⟩ := hfailed
        obtain ⟨path', w'', job'', t', hrun', hupkeep', htimed', hdone, hrows'⟩ :=
          cleanup_succeeds (hr.trans hrun) t hjob hkind hstate
        refine ⟨path' ++ path, w'', t', hrun.trans hrun', fun x hx => ?_, htimed.append htimed',
          fun k job' hj => ?_⟩
        · exact (List.mem_append.mp hx).elim (hupkeep' x) (hupkeep x)
        · rw [hrows'] at hj
          split at hj
          · cases hj
            exact .inl hdone
          · next hne =>
              refine (hrows k job' hj).imp_right fun hold => ⟨hold.1, fun hk => ?_⟩
              exact hold.2 ((List.mem_cons.mp hk).resolve_left hne)
      · -- The job is gone, or it has not failed.
        refine ⟨path, w', t, hrun, hupkeep, htimed, fun k job' hj => ?_⟩
        refine (hrows k job' hj).imp_right fun hold => ⟨hold.1, fun hk => ?_⟩
        obtain rfl | hk := List.mem_cons.mp hk
        · exact fun hq => hfailed ⟨job', hj, hq⟩
        · exact hold.2 hk

/-! ## The law -/

/-- Every object is tracked as long as the store keeps names and no intent of a running call is
claimed. -/
theorem tracked_of_history {env : Env} {h : List Step} {w : World} (hr : History env h w)
    (hx : ∀ x ∈ h, Graceful x ∧ KeepsName x) : Tracked w :=
  hr.induct_past (fun _ w => Tracked w) tracked_init
    (fun _ _ hr hpast hv hx ht => ht.step hr hv (fun y hy => (hpast y hy).1) hx.2) hx

/-- **The storage can be drained.** From every state of a run in which the store keeps the names it is
asked for and no worker claims the intent of a call that is still running, once no upload is under way,
whatever uploads, workers and dispatchers have died or failed before, and from every time on: the
workers, the dispatchers and the operator's command have a run, along which no clock goes back, after
which every cleanup job has succeeded and the names in the storage are exactly those of the live
documents, which are the documents there were, with the objects they had. -/
theorem storage_can_be_drained {env : Env} {h : List Step} {w : World} (hr : History env h w)
    (hg : ∀ x ∈ h, Graceful x) (hk : ∀ x ∈ h, KeepsName x) (hended : UploadsEnded w)
    (start : Timestamp) :
    ∃ path w' t, Run (World.perform env) w path w' ∧ (∀ x ∈ path, x.event.isUpkeep = true) ∧
      Timed start path t ∧
      (∀ id job, w'.db.jobs.find id = some job → job.kind = .deleteObject →
        job.state = .succeeded) ∧
      (∀ key, (w'.store key).isSome ↔
        ∃ id d, w'.db.documents.find id = some d ∧ d.storageKey = key) ∧
      ∀ id, (w'.db.documents.find id).map (·.storageKey) =
          (w.db.documents.find id).map (·.storageKey) ∧
        ∀ d, w.db.documents.find id = some d →
          w'.store d.storageKey = w.store d.storageKey := by
  obtain ⟨path₀, w₀, t₀, hrun₀, hwork₀, htimed₀, hsome, hsettled⟩ :=
    works_all hr start (w.db.jobs.rows.map Job.id)
  obtain ⟨path₁, w', t₁, hrun₁, hupkeep₁, htimed₁, hrows⟩ :=
    cleanups_succeed (hr.trans hrun₀) t₀ (w₀.db.jobs.rows.map Job.id)
  have hrun := hrun₀.trans hrun₁
  have hupkeep : ∀ x ∈ path₁ ++ path₀, x.event.isUpkeep = true := fun x hx =>
    (List.mem_append.mp hx).elim (hupkeep₁ x) fun hx => Event.isUpkeep_of_isWork (hwork₀ x hx)
  have hlist : ∀ {v : World} {id : Uuid} {job : Job}, v.db.jobs.find id = some job →
      id ∈ v.db.jobs.rows.map Job.id := fun hjob =>
    List.mem_map.mpr ⟨_, (Table.find_eq_some_iff.mp hjob).1, Db.job_id hjob⟩
  have hcleanups : ∀ id job, w'.db.jobs.find id = some job → job.kind = .deleteObject →
      job.state = .succeeded := by
    intro id job hjob hkind
    obtain hdone | ⟨hjob₀, hnot⟩ := hrows id job hjob
    · exact hdone
    · have hfound : (w.db.jobs.find id).isSome = true := by rw [← hsome, hjob₀]; rfl
      obtain ⟨old, hold⟩ := Option.isSome_iff_exists.mp hfound
      have hone := hsettled id old job hold hjob₀
      rw [if_pos (hlist hold)] at hone
      obtain hdone | ⟨hfailed, -⟩ := hone
      · exact hdone
      · exact absurd ⟨hkind, hfailed⟩ (hnot (hlist hjob₀))
  have hquiet := graceful_of_upkeep hrun hupkeep hended
  have hall : ∀ x ∈ path₁ ++ path₀ ++ h, Graceful x ∧ KeepsName x := fun x hx =>
    (List.mem_append.mp hx).elim (hquiet x) fun hx => ⟨hg x hx, hk x hx⟩
  have hr' := hr.trans hrun
  have hsafe := safe_of_history hr' fun x hx => (hall x hx).1
  have hnames := names_of_upkeep hr hrun hupkeep
  refine ⟨_, w', t₁, hrun, hupkeep, htimed₀.append htimed₁, hcleanups,
    fun key => ⟨fun hstore => ?_, ?_⟩, fun id => ⟨hnames id, fun d hd => ?_⟩⟩
  · obtain ⟨content, hstore⟩ := Option.isSome_iff_exists.mp hstore
    obtain hlive | ⟨id, job, hjob, hkind, -, hnot⟩ :=
      (tracked_of_history hr' hall).cover key content hstore
    · exact hlive
    · exact absurd (hcleanups id job hjob hkind) hnot
  · rintro ⟨id, d, hd, rfl⟩
    obtain ⟨_, _, _, _, _, _, hstore⟩ := (hsafe.stored id d hd).object
    rw [hstore]
    rfl
  · -- Both objects are the file of the call that created the document.
    have hname := hnames id
    rw [hd] at hname
    obtain ⟨d', hd', hkey⟩ := Option.map_eq_some_iff.mp hname
    obtain ⟨c, u, ids, hu, hids, hdoc, hstore⟩ := ((safe_of_history hr hg).stored id d hd).object
    obtain ⟨c', u', ids', hu', hids', hdoc', hstore'⟩ := (hsafe.stored id d' hd').object
    rw [uploads_of_upkeep hrun hupkeep] at hu'
    have hsame : c' = c := by
      by_contra hc
      refine ((provenance_of_history hr).2.apart c' c u' u ids' ids hu' hu hids' hids hc).1 ?_
      rw [hdoc', hdoc, Db.document_id hd', Db.document_id hd]
    subst hsame
    rw [hu] at hu'
    cases hu'
    have hkey : d'.storageKey = d.storageKey := hkey
    rw [← hkey, hstore', hkey, hstore]

/-- The only call of the upload that landed has raised. -/
theorem sampleLanded_ended : UploadsEnded sampleLandedWorld := by
  intro c u hu
  obtain ⟨x, hx, requestId, hevent⟩ := entered_of_history sampleLanded_history hu
  have hmem := Run.event_mem_of_isSome rfl sampleLanded_isSome hx
  rw [hevent] at hmem
  simp only [List.mem_cons, List.not_mem_nil, or_false, reduceCtorEq] at hmem
  obtain rfl : c = 0 := (Event.enterUpload.inj hmem).1
  have hall : (sampleLandedWorld.uploads 0).all (·.pc.ended) = true := by decide +kernel
  rw [hu] at hall
  exact hall

/-- The object that landed without a document can be deleted, two hours later. -/
theorem storage_can_be_drained_sample :
    (sampleLandedWorld.store (.requested 7 1 2)).isSome = true ∧
    ∃ path w' t, Run (World.perform sampleEnv) sampleLandedWorld path w' ∧
      (∀ x ∈ path, x.event.isUpkeep = true) ∧ Timed 7200000000 path t ∧
      (w'.store (.requested 7 1 2)).isSome = false := by
  obtain ⟨path, w', t, hrun, hupkeep, htimed, -, hstore, hnames⟩ :=
    storage_can_be_drained sampleLanded_history
      (graceful_of_ocr sampleLanded_history (by decide +kernel))
      (keepsName_of_all (by decide +kernel)) sampleLanded_ended 7200000000
  refine ⟨by decide +kernel, path, w', t, hrun, hupkeep, htimed, ?_⟩
  rw [Bool.eq_false_iff]
  intro hfound
  -- There is no document.
  obtain ⟨id, d, hd, -⟩ := (hstore _).mp hfound
  have hname := (hnames id).1
  have hempty : sampleLandedWorld.db.documents.rows.isEmpty = true := by decide +kernel
  have hnone : sampleLandedWorld.db.documents.find id = none := by
    cases hrow : sampleLandedWorld.db.documents.find id with
    | none => rfl
    | some row =>
        have hmem := (Table.find_eq_some_iff.mp hrow).1
        rw [List.isEmpty_iff.mp hempty] at hmem
        cases hmem
  rw [hd, hnone] at hname
  cases hname

end MiniDms
