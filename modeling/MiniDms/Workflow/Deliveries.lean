import MiniDms.Workflow.Settlement
import MiniDms.Workflow.Attribution

/-! # A delivery is a run of the system

`run_job` is a program with an outcome for everything its collaborators can do, and the system has
events a delivery may take in any order. This file connects the two: whatever the collaborators do and
whatever the others do between the transactions of a delivery, what `run_job` leaves in the database is
what a run of the system leaves, in which the transactions of `finish` that committed are the
completions of the delivery. What holds of every reachable state therefore holds of every state a
worker leaves. -/

namespace MiniDms

open Python Relational TransitionSystem

/-! ## Segments of a run -/

/-- The delivery an event belongs to. -/
def Event.delivery : Event → Option Nat
  | .claim n _ _ _ | .readDocument n | .deleteObject n _ | .finish n _ _ _ => some n
  | _ => none

/-- The transaction of `finish` that a step commits for a delivery. -/
def finishedBy (n : Nat) (x : Step) : Option Finished :=
  match x.event, x.reply with
  | .finish m call _ _, .finished reply =>
      if m = n then some ⟨call, x.pre.db, x.post.db, reply⟩ else none
  | _, _ => none

/-- From `w` the system runs to `w'`, and the delivery commits the transactions of `finish` listed,
oldest first. -/
def Segment (env : Env) (n : Nat) (w : World) (finished : List Finished) (w' : World) : Prop :=
  ∃ path, Run (World.perform env) w path w' ∧ (path.filterMap (finishedBy n)).reverse = finished

/-- The others run from `w` to `w'`. -/
def Others (env : Env) (n : Nat) (w w' : World) : Prop :=
  ∃ path, Run (World.perform env) w path w' ∧ ∀ x ∈ path, x.event.delivery ≠ some n

namespace Segment

variable {env : Env} {n : Nat} {w w' w'' : World} {finished finished' : List Finished}

/-- Nothing happening is a segment. -/
theorem refl : Segment env n w [] w := ⟨[], .refl, rfl⟩

/-- Segments compose. -/
theorem trans (h : Segment env n w finished w') (h' : Segment env n w' finished' w'') :
    Segment env n w (finished ++ finished') w'' := by
  obtain ⟨path, hr, rfl⟩ := h
  obtain ⟨path', hr', rfl⟩ := h'
  refine ⟨path' ++ path, hr.trans hr', ?_⟩
  rw [List.filterMap_append, List.reverse_append]

/-- One step is a segment. -/
theorem of_perform {e : Event} {r : Reply} (h : w.perform env e = some (w', r)) :
    Segment env n w (finishedBy n ⟨w, e, r, w'⟩).toList w' := by
  refine ⟨[⟨w, e, r, w'⟩], .step .refl h, ?_⟩
  cases hq : finishedBy n ⟨w, e, r, w'⟩ <;> simp [hq]

/-- The others complete nothing of the delivery. -/
theorem of_others (h : Others env n w w') : Segment env n w [] w' := by
  obtain ⟨path, hr, hfree⟩ := h
  refine ⟨path, hr, ?_⟩
  rw [List.reverse_eq_nil_iff, List.filterMap_eq_nil_iff]
  intro x hx
  have hx := hfree x hx
  unfold finishedBy
  split
  · next m call _ _ _ hevent _ =>
      rw [hevent] at hx
      exact if_neg fun hq => hx (congrArg some hq)
  · rfl

end Segment

/-- An event of another delivery, or of none, leaves a delivery as it is. -/
theorem Effect.delivery_frame {env : Env} {w w' : World} {e : Event} (he : Effect env w e w')
    {n : Nat} (hn : e.delivery ≠ some n) : w'.deliveries n = w.deliveries n := by
  have hne : ∀ {m : Nat}, some m ≠ some n → n ≠ m := fun h hq => h (congrArg some hq.symm)
  cases he with
  | cleanupClaimed | ocrClaimed | documentRead | objectDeleted =>
      exact Function.update_of_ne (hne hn) _ _
  | _ => rfl

/-- The others leave a delivery as it is. -/
theorem Others.delivery {env : Env} {n : Nat} {w w' : World} (h : Others env n w w') :
    w'.deliveries n = w.deliveries n := by
  obtain ⟨path, hr, hfree⟩ := h
  exact hr.invariant (fun v => v.deliveries n = w.deliveries n) rfl
    (fun _ hv hn hd => ((World.perform_effect hv).delivery_frame hn).trans hd) hfree

/-! ## Cleanup jobs name an object -/

/-- A move of a job keeps the object it names, or names another one. -/
theorem JobMove.keyed {w : World} {id : Uuid} {e : Event} {job job' : Job}
    (hm : JobMove w id e (some job) (some job')) (h : job.Keyed) : job'.Keyed := by
  cases hm with
  | settled | recovered =>
      unfold Job.Keyed
      rw [settle_kind, settle_storageKey]
      exact h
  | rewritten _ _ _ hf =>
      cases hf with
      | rename actual => exact fun _ => ⟨actual, rfl⟩
      | _ => exact h
  | _ => exact h

/-- The cleanup jobs, and those of the deliveries, name an object. -/
structure Keyed (w : World) : Prop where
  jobs : ∀ id j, w.db.jobs.find id = some j → j.Keyed
  deliveries : ∀ n d, w.deliveries n = some d → d.job.Keyed

/-- **In every reachable state** a cleanup job names an object. -/
theorem keyed_of_history {env : Env} {h : List Step} {w : World} (hr : History env h w) : Keyed w := by
  refine hr.preserved (fun w => Known w ∧ Keyed w)
    ⟨known_init, fun _ _ hj => (nomatch hj), fun _ _ hd => (nomatch hd)⟩ (fun x hv ⟨hw, hk⟩ => ?_)
    |>.2
  have he := World.perform_effect hv
  have hjobs : ∀ id j, x.post.db.jobs.find id = some j → j.Keyed := by
    intro id j' hj'
    have hm := he.jobMove hw id
    cases hj : x.pre.db.jobs.find id with
    | none => exact (he.job_created hj hj').2.2
    | some j =>
        rw [hj, hj'] at hm
        exact hm.keyed (hk.jobs id j hj)
  refine ⟨hw.step he, hjobs, fun n d' hd' => ?_⟩
  obtain ⟨d, hd, hjob, -⟩ | ⟨jobId, token, draw, -, -, -, job, -, -, rfl, hrow⟩ :=
    he.delivery_cases hd'
  · rw [hjob]
    exact hk.deliveries n d hd
  · exact hjobs jobId _ hrow

/-! ## How a delivery meets the others -/

/-- Everything outside a delivery: at each point between its transactions the others take the system
through a run of their own, identifiers are drawn fresh, and the deletion and the calls of `finish` end
in some way. -/
structure Schedule (env : Env) (n : Nat) where
  beforeRead : World → World
  beforeSuccess : World → World
  beforeFailure : World → World
  others_read : ∀ w, Others env n w (beforeRead w)
  others_success : ∀ w, Others env n w (beforeSuccess w)
  others_failure : ∀ w, Others env n w (beforeFailure w)
  draw : World → Draw
  fresh : ∀ w : World, w.Fresh [(draw w).eventId]
  /-- How the deletion of the object ends. -/
  ack : Ack
  success : FinishAnswer
  successJitter : Fin 2000001
  failure : FinishAnswer
  failureJitter : Fin 2000001

/-- An identifier that no one has drawn, and none above it either. -/
def World.newId (w : World) : Uuid := w.drawn.foldr max 0 + 1

/-- What has been drawn is below the next identifier. -/
theorem World.lt_newId {w : World} {id : Uuid} (hid : id ∈ w.drawn) : id < w.newId := by
  unfold newId
  generalize w.drawn = drawn at hid
  induction drawn with
  | nil => cases hid
  | cons x drawn ih =>
      have hle : id ≤ max x (drawn.foldr max 0) := by
        obtain rfl | hid := List.mem_cons.mp hid
        · exact le_max_left ..
        · exact (Nat.le_of_lt_succ (ih hid)).trans (le_max_right ..)
      exact Nat.lt_succ_of_le hle

/-- The next two identifiers are fresh. -/
theorem World.fresh_newId (w : World) : w.Fresh [w.newId, w.newId + 1] := by
  refine ⟨by simp, fun id hid hdrawn => ?_⟩
  have hlt := World.lt_newId hdrawn
  obtain rfl | hid := List.mem_cons.mp hid
  · exact lt_irrefl _ hlt
  · rw [List.mem_singleton.mp hid] at hlt
    exact absurd hlt (Nat.not_lt.mpr (Nat.le_succ _))

/-- The world after an event, or the world itself when the event is impossible. -/
def World.after (env : Env) (w : World) (e : Event) : World :=
  (w.perform env e).elim w Prod.fst

/-- The event a delivery takes between its claim and its completion, if it comes so far. -/
def Collaborators.event (c : Collaborators) (job : Job) (n : Nat) (ack : Ack) : Option Event :=
  match job.kind with
  | .deleteObject => some (.deleteObject n ack)
  | .ocr =>
      match c.queried with
      | .ok () => some (.readDocument n)
      | .error _ => none

/-- The world after a call of `finish`, which a rollback leaves as it was. -/
def World.afterFinish (env : Env) (w : World) (n : Nat) (call : FinishCall) (jitter : Fin 2000001)
    (draw : Draw) : FinishAnswer → World
  | .rolledBack _ => w
  | _ => w.after env (.finish n call jitter draw)

section

variable {env : Env} {n : Nat} (k : Schedule env n) (maxUploadBytes : Int) (c : Collaborators)
  (w : World) (job : Job)

/-- The world the body of `run_job` leaves. -/
def Schedule.worked : World :=
  (c.event job n k.ack).elim (k.beforeRead w) ((k.beforeRead w).after env)

/-- The world the first call of `finish` finds. -/
def Schedule.completing : World := k.beforeSuccess (k.worked c w job)

/-- The world the handlers are entered in: the one the body left, or the one a success left that
raised. -/
def Schedule.raised : World :=
  match (work env maxUploadBytes c (k.beforeRead w).db job).result with
  | .error _ => k.worked c w job
  | .ok result =>
      (k.completing c w job).afterFinish env n (.success result) k.successJitter
        (k.draw (k.completing c w job)) k.success

/-- The world the handlers find. -/
def Schedule.handling : World := k.beforeFailure (k.raised maxUploadBytes c w job)

/-- What `run_job` meets when it is started in `w`. -/
def Schedule.surroundings : Surroundings where
  beforeRead _ := (k.beforeRead w).db
  beforeSuccess _ := (k.completing c w job).db
  success := k.success
  successDraw := k.draw (k.completing c w job)
  successJitter := k.successJitter
  beforeFailure _ := (k.handling maxUploadBytes c w job).db
  failure := k.failure
  failureDraw := k.draw (k.handling maxUploadBytes c w job)
  failureJitter := k.failureJitter

end

/-! ## Events that can happen -/

/-- A free delivery can claim. -/
theorem World.perform_claim_eq {env : Env} {w : World} {n : Nat} {token jobId : Uuid} {draw : Draw}
    {db : Db} {granted : Option Job} (hfree : w.deliveries n = none)
    (hf : w.Fresh [token, draw.eventId])
    (hclaim : MiniDms.claim env w.db draw token jobId = .ok (db, granted)) :
    w.perform env (.claim n jobId token draw) =
      match granted with
      | none => some ({ w.drew [token, draw.eventId] with db := db }, .skipped)
      | some job =>
          some ({ (w.drew [token, draw.eventId]).setDelivery n ⟨job, false, false⟩ with db := db },
            .claimed job) := by
  simp only [World.perform, World.draw_of_fresh hf, Option.bind_eq_bind, Option.bind_some,
    World.drew_deliveries, hfree, Option.isSome_none, Bool.false_eq_true, if_false, World.drew_db,
    hclaim]
  cases granted <;> rfl

/-- A delivery can complete as it is permitted to. -/
theorem World.perform_finish_eq {env : Env} {w : World} {n : Nat} {d : Delivery} {call : FinishCall}
    {draw : Draw} (hd : w.deliveries n = some d) (hpermit : d.permits call = true)
    (hf : w.Fresh [draw.eventId]) (jitter : Fin 2000001) :
    w.perform env (.finish n call jitter draw) =
      some ((w.drew [draw.eventId]).respond
        (((MiniDms.finish env w.db draw jitter d.job call.result call.failed).map
          fun r => (r.1, .finished r.2)).mapError .database)) := by
  simp only [World.perform, hd, Option.bind_eq_bind, Option.bind_some, World.draw_of_fresh hf,
    hpermit, if_true, World.drew_db]
  rfl

/-- The delivery of a cleanup job can delete its object. -/
theorem World.perform_deleteObject_eq {env : Env} {w : World} {n : Nat} {d : Delivery}
    {key : StorageKey} (hd : w.deliveries n = some d) (hkind : d.job.kind = .deleteObject)
    (hkey : d.job.storageKey = some key) (ack : Ack) :
    w.perform env (.deleteObject n ack) =
      some ({ w.setDelivery n { d with deleted := d.deleted || ack = .ok } with
        store := if ack.applied then Function.update w.store key none else w.store }, .done) := by
  simp only [World.perform, hd, hkind, hkey, Option.bind_eq_bind, Option.bind_some]
  rfl

/-- The delivery of an OCR job can read its document. -/
theorem World.perform_readDocument_eq {env : Env} {w : World} {n : Nat} {d : Delivery}
    (hd : w.deliveries n = some d) (hkind : d.job.kind = .ocr) :
    w.perform env (.readDocument n) =
      some (w.setDelivery n { d with
        missing := d.missing || (w.db.documents.find d.job.documentId).isNone }, .done) := by
  simp only [World.perform, hd, hkind, Option.bind_eq_bind, Option.bind_some, if_true]
  rfl

/-! ## The refinement -/

/-- An event that can happen is a segment. -/
theorem World.after_segment {env : Env} {w : World} {n : Nat} {e : Event} {x : World × Reply}
    (h : w.perform env e = some x) :
    Segment env n w (finishedBy n ⟨w, e, x.2, x.1⟩).toList (w.after env e) ∧
      w.after env e = x.1 := by
  have hafter : w.after env e = x.1 := by rw [World.after, h]; rfl
  rw [hafter]
  exact ⟨.of_perform h, rfl⟩

/-- **One call of `finish`** is one step of the system at most, with the database and the transaction
`run_job` accounts for. -/
theorem World.afterFinish_segment {env : Env} {v : World} {n : Nat} {d : Delivery}
    {call : FinishCall} {draw : Draw} (hd : v.deliveries n = some d)
    (hpermit : d.permits call = true) (hf : v.Fresh [draw.eventId]) (jitter : Fin 2000001)
    (answer : FinishAnswer) :
    Segment env n v (callFinish env v.db draw jitter d.job call answer).finished
        (v.afterFinish env n call jitter draw answer) ∧
      (v.afterFinish env n call jitter draw answer).db =
        (callFinish env v.db draw jitter d.job call answer).db ∧
      (v.afterFinish env n call jitter draw answer).deliveries n = some d := by
  obtain ⟨hsegment, hafter⟩ := World.after_segment (n := n)
    (World.perform_finish_eq hd hpermit hf jitter)
  have hheld : (v.after env (.finish n call jitter draw)).deliveries n = some d := by
    rw [hafter]
    cases (MiniDms.finish env v.db draw jitter d.job call.result call.failed) <;> exact hd
  have hdb : (v.after env (.finish n call jitter draw)).db =
      ((v.drew [draw.eventId]).respond
        (((MiniDms.finish env v.db draw jitter d.job call.result call.failed).map
          fun r => (r.1, .finished r.2)).mapError .database)).1.db := congrArg World.db hafter
  unfold callFinish
  cases hres : MiniDms.finish env v.db draw jitter d.job call.result call.failed with
  | error e =>
      rw [hres] at hsegment hdb
      cases answer with
      | rolledBack => exact ⟨.refl, rfl, hd⟩
      | returned | unacknowledged => exact ⟨hsegment, hdb, hheld⟩
  | ok res =>
      rw [hres] at hsegment hdb
      -- The step answers, so it is a transaction of the delivery.
      have hone : Segment env n v [⟨call, v.db, res.1, res.2⟩]
          (v.after env (.finish n call jitter draw)) := by
        have hown : finishedBy n ⟨v, .finish n call jitter draw, .finished res.2,
            { v.drew [draw.eventId] with db := res.1 }⟩ = some ⟨call, v.db, res.1, res.2⟩ :=
          if_pos rfl
        have hlist := congrArg Option.toList hown
        exact Eq.mp (congrArg (Segment env n v · (v.after env (.finish n call jitter draw))) hlist)
          hsegment
      cases answer with
      | rolledBack => exact ⟨.refl, rfl, hd⟩
      | returned | unacknowledged => exact ⟨hone, hdb, hheld⟩

section

variable {env : Env} {n : Nat} {k : Schedule env n} {maxUploadBytes : Int} {c : Collaborators}
  {w : World} {job : Job}

/-- **The body** takes one step of the system at most. It leaves the database as it found it, and
entitles the delivery to the success it computes. -/
theorem Schedule.worked_segment (hd : w.deliveries n = some ⟨job, false, false⟩) (hkey : job.Keyed)
    (hack : k.ack = .ok ↔ c.deleted = .ok ()) :
    Segment env n w [] (k.worked c w job) ∧ (k.worked c w job).db = (k.beforeRead w).db ∧
      ∃ d, (k.worked c w job).deliveries n = some d ∧ d.job = job ∧
        ∀ result, (work env maxUploadBytes c (k.beforeRead w).db job).result = .ok result →
          d.permits (.success result) = true := by
  have hothers := Segment.of_others (k.others_read w)
  have hheld : (k.beforeRead w).deliveries n = some ⟨job, false, false⟩ :=
    (k.others_read w).delivery.trans hd
  have hearned : ∀ result, (work env maxUploadBytes c (k.beforeRead w).db job).result = .ok result →
      Earned env maxUploadBytes c (k.beforeRead w).db job result := fun _ => earned_of_work
  unfold Earned at hearned
  cases hkind : job.kind with
  | deleteObject =>
      obtain ⟨key, hstorage⟩ := hkey hkind
      obtain ⟨hsegment, hafter⟩ := World.after_segment (n := n)
        (World.perform_deleteObject_eq hheld hkind hstorage k.ack)
      have hworked : k.worked c w job = (k.beforeRead w).after env (.deleteObject n k.ack) := by
        rw [worked, Collaborators.event, hkind]
        rfl
      rw [hworked]
      refine ⟨hothers.trans hsegment, (congrArg World.db hafter).trans rfl, ⟨job, k.ack = .ok, false⟩,
        (congrArg (World.deliveries · n) hafter).trans (Function.update_self ..), rfl, ?_⟩
      intro result hresult
      have hdeleted := hearned result hresult
      rw [hkind] at hdeleted
      obtain ⟨hdeleted, rfl⟩ := hdeleted
      simp only [Delivery.permits, hkind]
      exact decide_eq_true (hack.mpr hdeleted)
  | ocr =>
      rw [hkind] at hearned
      cases hquery : c.queried with
      | error e =>
          have hworked : k.worked c w job = k.beforeRead w := by
            rw [worked, Collaborators.event, hkind, hquery]
            rfl
          rw [hworked]
          refine ⟨hothers, rfl, _, hheld, rfl, fun result hresult => ?_⟩
          simp only [work, hkind, hquery, Traced.result_bind, Traced.result_call] at hresult
          cases hresult
      | ok =>
          obtain ⟨hsegment, hafter⟩ := World.after_segment (n := n)
            (World.perform_readDocument_eq hheld hkind)
          have hworked : k.worked c w job = (k.beforeRead w).after env (.readDocument n) := by
            rw [worked, Collaborators.event, hkind, hquery]
            rfl
          rw [hworked]
          refine ⟨hothers.trans hsegment, (congrArg World.db hafter).trans rfl, _,
            (congrArg (World.deliveries · n) hafter).trans (Function.update_self ..), rfl, ?_⟩
          intro result hresult
          -- Without a result only a missing document is completed, and the read found it missing.
          obtain ⟨hnone, rfl⟩ | ⟨_, _, r, -, -, -, -, -, rfl⟩ := hearned result hresult
          · simp only [Delivery.permits, hkind, hnone, Option.isNone_none, Bool.false_or]
          · exact decide_eq_true hkind

/-- **The handlers** take one step of the system at most, after what the others do. -/
theorem Schedule.handle_segment {u : World} {d : Delivery} (hd : u.deliveries n = some d)
    (hjob : d.job = job) (hraised : k.raised maxUploadBytes c w job = u) (db : Db) (e : Exn) :
    ∃ w', Segment env n u (handle env (k.surroundings maxUploadBytes c w job) db job e).finished w' ∧
      w'.db = (handle env (k.surroundings maxUploadBytes c w job) db job e).db := by
  have hheld := (k.others_failure u).delivery.trans hd
  have hpermit : d.permits (.failure (recorded e)) = true := rfl
  obtain ⟨hsegment, hdb, -⟩ := World.afterFinish_segment hheld hpermit (k.fresh _) k.failureJitter
    k.failure
  rw [hjob] at hsegment hdb
  unfold handle surroundings handling
  rw [hraised]
  exact ⟨_, (Segment.of_others (k.others_failure u)).trans hsegment, hdb⟩

/-- **A success** takes one step of the system at most, after what the others do. -/
theorem Schedule.completed_segment (hd : w.deliveries n = some ⟨job, false, false⟩)
    (hkey : job.Keyed) (hack : k.ack = .ok ↔ c.deleted = .ok ()) {result : Option ExtractionResult}
    (hwork : (work env maxUploadBytes c (k.beforeRead w).db job).result = .ok result) :
    Segment env n w (callFinish env (k.completing c w job).db (k.draw (k.completing c w job))
        k.successJitter job (.success result) k.success).finished
        (k.raised maxUploadBytes c w job) ∧
      (k.raised maxUploadBytes c w job).db = (callFinish env (k.completing c w job).db
        (k.draw (k.completing c w job)) k.successJitter job (.success result) k.success).db ∧
      ∃ d, (k.raised maxUploadBytes c w job).deliveries n = some d ∧ d.job = job := by
  obtain ⟨hworked, -, d, hheld, rfl, hpermit⟩ :=
    @Schedule.worked_segment env n k maxUploadBytes c w job hd hkey hack
  have hcompleting := (k.others_success (k.worked c w d.job)).delivery.trans hheld
  obtain ⟨hsuccess, hdb, hheld'⟩ := World.afterFinish_segment hcompleting (hpermit result hwork)
    (k.fresh _) k.successJitter k.success
  unfold raised
  rw [hwork]
  exact ⟨hworked.trans ((Segment.of_others (k.others_success _)).trans hsuccess), hdb, d, hheld', rfl⟩

/-- **From its claim to its end** a delivery is a segment of a run. -/
theorem Schedule.runClaimed_segment (hd : w.deliveries n = some ⟨job, false, false⟩)
    (hkey : job.Keyed) (hack : k.ack = .ok ↔ c.deleted = .ok ()) :
    ∃ w', Segment env n w
        (runClaimed env maxUploadBytes c (k.surroundings maxUploadBytes c w job) w.db job).finished w' ∧
      w'.db = (runClaimed env maxUploadBytes c (k.surroundings maxUploadBytes c w job) w.db job).db := by
  obtain ⟨hworked, hdb, d, hheld, hjob, hpermit⟩ :=
    @Schedule.worked_segment env n k maxUploadBytes c w job hd hkey hack
  have hread : (k.surroundings maxUploadBytes c w job).beforeRead w.db = (k.beforeRead w).db := rfl
  simp only [runClaimed, hread]
  cases hwork : (work env maxUploadBytes c (k.beforeRead w).db job).result with
  | error e =>
      have hraised : k.raised maxUploadBytes c w job = k.worked c w job := by
        rw [raised, hwork]
      obtain ⟨w', hsegment, hdb'⟩ := k.handle_segment hheld hjob hraised (k.beforeRead w).db e
      exact ⟨w', hworked.trans hsegment, hdb'⟩
  | ok result =>
      obtain ⟨hstart, hsuccessDb, d', hheld', hjob'⟩ := k.completed_segment hd hkey hack hwork
      cases hanswer : (callFinish env
          ((k.surroundings maxUploadBytes c w job).beforeSuccess (k.beforeRead w).db)
          (k.surroundings maxUploadBytes c w job).successDraw
          (k.surroundings maxUploadBytes c w job).successJitter job (.success result)
          (k.surroundings maxUploadBytes c w job).success).answer with
      | ok reply =>
          dsimp only
          rw [hanswer]
          exact ⟨_, hstart, hsuccessDb⟩
      | error e =>
          dsimp only
          rw [hanswer]
          obtain ⟨w', hsegment, hdb'⟩ := k.handle_segment hheld' hjob' rfl _ e
          exact ⟨w', hstart.trans hsegment, hdb'⟩

end

/-- A claim never raises: the document it moves is the row it has just read. -/
theorem claim_eq_ok (env : Env) (db : Db) (draw : Draw) (token jobId : Uuid) :
    ∃ result, claim env db draw token jobId = .ok result := by
  unfold claim
  cases db.jobs.find jobId with
  | none => exact ⟨_, rfl⟩
  | some job =>
      dsimp only
      split
      · exact ⟨_, rfl⟩
      · have hkind : (take draw token job).kind = job.kind := rfl
        rw [hkind]
        cases job.kind with
        | deleteObject => exact ⟨_, rfl⟩
        | ocr =>
            dsimp only
            cases hrow : (db.putJob (take draw token job)).documents.find
                (take draw token job).documentId with
            | none => exact ⟨_, rfl⟩
            | some row =>
                have hload : (db.putJob (take draw token job)).documents.find row.id = some row := by
                  rw [Db.document_id hrow]
                  exact hrow
                dsimp only
                rw [transition_load hload]
                exact ⟨_, rfl⟩

/-- **`run_job` refines the system.** In every reachable state, for every job, whatever the
collaborators return or raise, whatever the others do between the transactions of the delivery and
however its calls of `finish` end: the claim is a step of the system. When it grants nothing, `run_job`
leaves the database of that step. When it grants the job, the system has a run from there to the
database `run_job` leaves, and the transactions of `finish` that `run_job` commits are the completions
of the delivery in that run. -/
theorem run_job_refines {env : Env} {h : List Step} {w : World} (hr : History env h w) {n : Nat}
    (hfree : w.deliveries n = none) {token : Uuid} {draw : Draw} (hfresh : w.Fresh [token, draw.eventId])
    (k : Schedule env n) (c : Collaborators) (hack : k.ack = .ok ↔ c.deleted = .ok ())
    (maxUploadBytes : Int) (jobId : Uuid) :
    ∃ w₁ r, w.perform env (.claim n jobId token draw) = some (w₁, r) ∧
      ((r = .skipped ∧ ∀ s, runJob env maxUploadBytes c s w.db draw token jobId = .ok (none, w₁.db)) ∨
        ∃ job run w', r = .claimed job ∧
          runJob env maxUploadBytes c (k.surroundings maxUploadBytes c w₁ job) w.db draw token jobId =
            .ok (some run, w'.db) ∧
          Segment env n w₁ run.finished w') := by
  obtain ⟨⟨db, granted⟩, hclaim⟩ := claim_eq_ok env w.db draw token jobId
  cases granted with
  | none =>
      refine ⟨_, _, World.perform_claim_eq hfree hfresh hclaim, .inl ⟨rfl, fun s => ?_⟩⟩
      simp only [runJob, hclaim]
      rfl
  | some job =>
      have hstep := World.perform_claim_eq hfree hfresh hclaim
      have hheld : ({ (w.drew [token, draw.eventId]).setDelivery n ⟨job, false, false⟩ with
          db := db } : World).deliveries n = some ⟨job, false, false⟩ := Function.update_self ..
      have hkey : job.Keyed := (keyed_of_history (.step hr hstep)).deliveries n _ hheld
      obtain ⟨w', hsegment, hdb⟩ :=
        @Schedule.runClaimed_segment env n k maxUploadBytes c _ job hheld hkey hack
      refine ⟨_, _, hstep, .inr ⟨job, _, w', rfl, ?_, hsegment⟩⟩
      simp only [runJob, hclaim]
      rw [hdb]
      rfl

/-- A delivery nobody interferes with, whose calls all return. -/
def sampleSchedule (env : Env) (n : Nat) : Schedule env n where
  beforeRead w := w
  beforeSuccess w := w
  beforeFailure w := w
  others_read _ := ⟨[], .refl, List.forall_mem_nil _⟩
  others_success _ := ⟨[], .refl, List.forall_mem_nil _⟩
  others_failure _ := ⟨[], .refl, List.forall_mem_nil _⟩
  draw w := ⟨3000, w.newId⟩
  fresh _ := ⟨List.nodup_singleton _, fun _ hid hdrawn =>
    absurd (World.lt_newId hdrawn) (List.mem_singleton.mp hid ▸ lt_irrefl _)⟩
  ack := .ok
  success := .returned
  successJitter := 0
  failure := .returned
  failureJitter := 0

/-- The store has lost the object. -/
def sampleUnreachable : Collaborators where
  deleted := .ok ()
  queried := .ok ()
  directory := .ok ()
  opened := .error .other
  chunks := []
  closed := .ok ()
  extract _ _ := .ok ⟨lit "Invoice 42", .dict []⟩
  cleaned := .ok ()

/-- The job of the uploaded document is granted, and its failed delivery is a run. -/
theorem run_job_refines_sample : ∃ w₁ job run w',
    sampleFreshWorld.perform sampleEnv (.claim 0 5 6 ⟨2000, 7⟩) = some (w₁, .claimed job) ∧
    runJob sampleEnv 100 sampleUnreachable
        ((sampleSchedule sampleEnv 0).surroundings 100 sampleUnreachable w₁ job)
        sampleFreshWorld.db ⟨2000, 7⟩ 6 5 = .ok (some run, w'.db) ∧
      Segment sampleEnv 0 w₁ run.finished w' := by
  have hclaimed : (sampleFreshWorld.perform sampleEnv (.claim 0 5 6 ⟨2000, 7⟩)).any
      (fun x => x.2.granted.isSome) = true := by decide +kernel
  have hfree : sampleFreshWorld.deliveries 0 = none :=
    Option.isNone_iff_eq_none.mp (by decide +kernel)
  have hfresh : sampleFreshWorld.Fresh [6, (⟨2000, 7⟩ : Draw).eventId] :=
    ⟨by decide, by decide +kernel⟩
  obtain ⟨w₁, r, hstep, ⟨rfl, -⟩ | ⟨job, run, w', rfl, hrun, hsegment⟩⟩ :=
    run_job_refines sampleFresh_history hfree hfresh
      (sampleSchedule sampleEnv 0) sampleUnreachable (iff_of_true rfl rfl) 100 5
  · rw [hstep] at hclaimed
    cases hclaimed
  · exact ⟨w₁, job, run, w', hstep, hrun, hsegment⟩

end MiniDms
