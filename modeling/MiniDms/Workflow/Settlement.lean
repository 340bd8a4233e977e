import MiniDms.Workflow.RunJob

/-! # What becomes of a claim

A delivery that nobody fences settles its claim. The row is `Live` until a transaction of `finish`
commits; a success that commits and is not acknowledged leaves the row `Done`, and the handler that
runs afterwards finds nothing to do. -/

namespace MiniDms

open Python Relational TransitionSystem

/-! ## What others leave -/

/-- From one database to the next the claim is kept: a row that is running or has succeeded under the
token of the claim keeps its token, its state, its attempts and its identity. A recovery that fences
the claim is excluded by this, and so is the upload that completes the row as its own intent. -/
def KeepsClaim (job : Job) (before after : Db) : Prop :=
  ∀ row, before.jobs.find job.id = some row → row.runToken = job.runToken →
    row.state = .running ∨ row.state = .succeeded →
    ∃ row', after.jobs.find job.id = some row' ∧ row'.runToken = row.runToken ∧
      row'.state = row.state ∧ row'.attempts = row.attempts ∧
      row'.maxAttempts = row.maxAttempts ∧ row'.kind = row.kind ∧
      row'.documentId = row.documentId

/-- Nothing happening keeps a claim. -/
theorem KeepsClaim.refl (job : Job) (db : Db) : KeepsClaim job db db := by
  intro row hrow _ _
  exact ⟨row, hrow, rfl, rfl, rfl, rfl, rfl, rfl⟩

/-- What keeps a claim twice keeps it. -/
theorem KeepsClaim.trans {job : Job} {db db' db'' : Db} (h : KeepsClaim job db db')
    (h' : KeepsClaim job db' db'') : KeepsClaim job db db'' := by
  intro row hrow htoken hstate
  obtain ⟨row', hrow', htoken', hstate', hattempts, hmax, hkind, hdoc⟩ := h row hrow htoken hstate
  obtain ⟨row'', hrow'', htoken'', hstate'', hattempts', hmax', hkind', hdoc'⟩ :=
    h' row' hrow' (htoken'.trans htoken) (by rwa [hstate'])
  exact ⟨row'', hrow'', htoken''.trans htoken', hstate''.trans hstate', hattempts'.trans hattempts,
    hmax'.trans hmax, hkind'.trans hkind, hdoc'.trans hdoc⟩

/-- The database the handlers of `run_job` start from: the one the body has read, or the one a success
has left that raised. -/
def Surroundings.handled (s : Surroundings) (env : Env) (maxUploadBytes : Int) (c : Collaborators)
    (db : Db) (job : Job) : Db :=
  match (work env maxUploadBytes c (s.beforeRead db) job).result with
  | .error _ => s.beforeRead db
  | .ok result =>
      (callFinish env (s.beforeSuccess (s.beforeRead db)) s.successDraw s.successJitter job
        (.success result) s.success).db

/-- The claim is kept while the delivery runs: until it reads, until it records its success, and until
its handlers record a failure. -/
structure Surroundings.Unfenced (s : Surroundings) (env : Env) (maxUploadBytes : Int)
    (c : Collaborators) (db : Db) (job : Job) : Prop where
  read : KeepsClaim job db (s.beforeRead db)
  success : KeepsClaim job (s.beforeRead db) (s.beforeSuccess (s.beforeRead db))
  failure : KeepsClaim job (s.handled env maxUploadBytes c db job)
    (s.beforeFailure (s.handled env maxUploadBytes c db job))

/-- The call takes effect. -/
def FinishAnswer.Commits : FinishAnswer → Prop
  | .rolledBack _ => False
  | _ => True

/-! ## The claim under way -/

/-- The row is running under the token of the claim. -/
def Live (db : Db) (job : Job) : Prop :=
  ∃ row, db.jobs.find job.id = some row ∧ row.runToken = job.runToken ∧ row.state = .running ∧
    row.attempts = job.attempts ∧ row.maxAttempts = job.maxAttempts ∧ row.kind = job.kind ∧
    row.documentId = job.documentId

/-- The row has succeeded under the token of the claim. -/
def Done (db : Db) (job : Job) : Prop :=
  ∃ row, db.jobs.find job.id = some row ∧ row.runToken = job.runToken ∧ row.state = .succeeded

/-- A granted claim is live. -/
theorem live_of_claim {env : Env} {db db' : Db} {draw : Draw} {token jobId : Uuid} {job : Job}
    (h : claim env db draw token jobId = .ok (db', some job)) : Live db' job := by
  obtain ⟨-, hnone, -⟩ | ⟨found, hfound, -, hcase⟩ := claim_cases h
  · cases hnone
  have hlive : ∀ {db₁ : Db}, db₁.jobs = (db.putJob (take draw token found)).jobs →
      Live db₁ (take draw token found) := by
    intro db₁ hjobs
    refine ⟨take draw token found, ?_, rfl, rfl, rfl, rfl, rfl, rfl⟩
    rw [hjobs, Db.putJob_jobs, Table.find_put]
    exact if_pos rfl
  obtain ⟨-, rfl, hjob⟩ | ⟨-, -, hnone, -⟩ | ⟨row, -, -, hjob, rfl⟩ := hcase
  · cases hjob
    exact hlive rfl
  · cases hnone
  · cases hjob
    exact hlive rfl

/-- Others leave a live claim live. -/
theorem Live.keep {db db' : Db} {job : Job} (h : Live db job) (hkeep : KeepsClaim job db db') :
    Live db' job := by
  obtain ⟨row, hrow, htoken, hstate, hattempts, hmax, hkind, hdoc⟩ := h
  obtain ⟨row', hrow', htoken', hstate', hattempts', hmax', hkind', hdoc'⟩ :=
    hkeep row hrow htoken (.inl hstate)
  exact ⟨row', hrow', htoken'.trans htoken, hstate'.trans hstate, hattempts'.trans hattempts,
    hmax'.trans hmax, hkind'.trans hkind, hdoc'.trans hdoc⟩

/-- Others leave a completed claim completed. -/
theorem Done.keep {db db' : Db} {job : Job} (h : Done db job) (hkeep : KeepsClaim job db db') :
    Done db' job := by
  obtain ⟨row, hrow, htoken, hstate⟩ := h
  obtain ⟨row', hrow', htoken', hstate', -⟩ := hkeep row hrow htoken (.inr hstate)
  exact ⟨row', hrow', htoken'.trans htoken, hstate'.trans hstate⟩

/-! ## One call of `finish` -/

/-- What the document table stores of an extraction. -/
def Db.texts (db : Db) (id : Uuid) : Option (Str × Json) :=
  (db.documents.find id).map fun d => (d.extractedText, d.processingInfo)

/-- Settling replaces the stored text by that of the result, if there is one. -/
theorem settleJob_texts (env : Env) (db : Db) (draw : Draw) (job : Job)
    (result : Option ExtractionResult) (hresult : job.kind = .deleteObject → result = none) :
    (settleJob env db draw job result).texts job.documentId =
      (db.texts job.documentId).map fun old => result.elim old fun r => (r.text, r.info) := by
  have hkept : (db.putJob job).texts job.documentId =
      (db.texts job.documentId).map fun old => (none : Option ExtractionResult).elim old
        fun r => (r.text, r.info) := by
    simp only [Option.elim_none, Option.map_id', Db.texts, Db.putJob_documents]
  unfold settleJob
  cases hkind : job.kind with
  | deleteObject =>
      rw [hresult hkind]
      exact hkept
  | ocr =>
      cases hrow : db.documents.find job.documentId with
      | none =>
          show (db.putJob job).texts job.documentId = _
          simp only [Db.texts, Db.putJob_documents, hrow, Option.map_none]
      | some row =>
          have hid : row.id = job.documentId := Db.document_id hrow
          show (moveDocument env (db.putJob job) draw row job.state.documentStatus job job.errorCode
            result).texts job.documentId = _
          simp only [Db.texts, moveDocument_documents, Table.find_put, Document.move_id, hid, if_true,
            Option.map_some, hrow]
          cases result <;> rfl

/-- What a committed transaction of `finish` left of the document. -/
def Finished.Stores (f : Finished) (id : Uuid) : Prop :=
  f.after.texts id = (f.before.texts id).map fun old =>
    f.call.result.elim old fun r => (r.text, r.info)

/-- The settled row of a live claim. -/
theorem finish_of_live {env : Env} {db : Db} {job : Job} (h : Live db job) (draw : Draw)
    (jitter : Fin 2000001) (call : FinishCall)
    (hcall : job.kind = .deleteObject → call.result = none) :
    ∃ row after, finish env db draw jitter job call.result call.failed =
        .ok (after, .settled row.state) ∧
      after.jobs.find job.id = some row ∧ row.runToken = job.runToken ∧ row.state ≠ .running ∧
      row.attempts = job.attempts ∧ row.maxAttempts = job.maxAttempts ∧
      (call.failed = none → row.state = .succeeded) ∧
      (∀ failure, call.failed = some failure → row.errorCode = some failure.code ∧
        row.state = if failure.retryable && row.attempts < row.maxAttempts then .pending
          else .failed) ∧
      after.texts job.documentId = (db.texts job.documentId).map fun old =>
        call.result.elim old fun r => (r.text, r.info) := by
  obtain ⟨current, hcurrent, htoken, hstate, hattempts, hmax, hkind, hdoc⟩ := h
  have hfinish := @finish_of_find env db draw jitter job current call.result call.failed hcurrent
  rw [if_pos ⟨htoken, hstate⟩] at hfinish
  refine ⟨settle draw.now jitter call.failed current, _, hfinish, ?_, ?_,
    settle_state_ne_running draw.now jitter call.failed current, (settle_attempts ..).trans hattempts,
    (settle_maxAttempts ..).trans hmax, ?_, ?_, ?_⟩
  · have hid : (settle draw.now jitter call.failed current).id = job.id :=
      (settle_id ..).trans (Db.job_id hcurrent)
    rw [settleJob_jobs, Table.find_put, if_pos hid.symm]
  · rw [settle_runToken, htoken]
  · intro hnone
    rw [hnone]
    rfl
  · intro failure hfailure
    rw [hfailure]
    exact ⟨rfl, rfl⟩
  · have hkept : (settle draw.now jitter call.failed current).kind = .deleteObject →
        call.result = none := by
      rw [settle_kind, hkind]
      exact hcall
    have htexts := settleJob_texts env db draw (settle draw.now jitter call.failed current)
      call.result hkept
    rw [settle_documentId, hdoc] at htexts
    exact htexts

/-- A completed claim is stale. -/
theorem finish_of_done {env : Env} {db : Db} {job : Job} (h : Done db job) (draw : Draw)
    (jitter : Fin 2000001) (call : FinishCall) :
    finish env db draw jitter job call.result call.failed = .ok (db, .stale) := by
  obtain ⟨current, hcurrent, -, hstate⟩ := h
  have hstale : ¬ (current.runToken = job.runToken ∧ current.state = .running) := by
    rw [hstate]
    rintro ⟨-, hrunning⟩
    cases hrunning
  rw [finish_of_find hcurrent, if_neg hstale]

/-! ## The body -/

/-- What entitles a delivery to record a success: the object has been deleted, or the document was
missing, or the copied bytes passed the integrity check and extraction returned the result. -/
def Earned (env : Env) (maxUploadBytes : Int) (c : Collaborators) (db : Db) (job : Job)
    (result : Option ExtractionResult) : Prop :=
  match job.kind with
  | .deleteObject => c.deleted = .ok () ∧ result = none
  | .ocr =>
      (db.documents.find job.documentId = none ∧ result = none) ∨
      ∃ document content r, db.documents.find job.documentId = some document ∧
        fetch maxUploadBytes c = .ok content ∧ content.length = document.size ∧
        env.sha256 content = document.sha256 ∧ c.extract document.mimeType content = .ok r ∧
        result = some r

/-- Leaving a context normally takes a normal body. -/
theorem leaving_eq_ok_iff {α : Type} {exit : Except Exn Unit} {body : Except Exn α} {a : α} :
    leaving exit body = .ok a ↔ exit = .ok () ∧ body = .ok a := by
  cases exit with
  | error e => simp [leaving]
  | ok u => simp [leaving]

/-- **A body that comes to its end has earned its success.** -/
theorem earned_of_work {env : Env} {maxUploadBytes : Int} {c : Collaborators} {db : Db} {job : Job}
    {result : Option ExtractionResult}
    (h : (work env maxUploadBytes c db job).result = .ok result) :
    Earned env maxUploadBytes c db job result := by
  unfold work at h
  unfold Earned
  cases hkind : job.kind with
  | deleteObject =>
      rw [hkind] at h
      simp only [Traced.result_bind, Traced.result_call] at h
      obtain ⟨_, hdeleted, h⟩ := bind_eq_ok.mp h
      cases h
      exact ⟨mapError_eq_ok.mp hdeleted, rfl⟩
  | ocr =>
      rw [hkind] at h
      simp only [Traced.result_bind, Traced.result_call] at h
      obtain ⟨_, -, h⟩ := bind_eq_ok.mp h
      cases hrow : db.documents.find job.documentId with
      | none =>
          rw [hrow] at h
          cases h
          exact .inl ⟨rfl, rfl⟩
      | some document =>
          rw [hrow] at h
          simp only [Traced.result_bind, Traced.result_call] at h
          obtain ⟨_, -, h⟩ := bind_eq_ok.mp h
          obtain ⟨-, hbody⟩ := leaving_eq_ok_iff.mp h
          simp only [process, Traced.result_bind, Traced.result_call] at hbody
          obtain ⟨content, hcontent, hbody⟩ := bind_eq_ok.mp hbody
          by_cases hintact : content.length ≠ document.size ∨ env.sha256 content ≠ document.sha256
          · rw [if_pos hintact] at hbody
            cases hbody
          · rw [if_neg hintact] at hbody
            simp only [Traced.result_bind, Traced.result_call, Traced.result_record] at hbody
            obtain ⟨_, -, hbody⟩ := bind_eq_ok.mp hbody
            obtain ⟨r, hextract, hbody⟩ := bind_eq_ok.mp hbody
            cases hbody
            push Not at hintact
            exact .inr ⟨document, content, r, rfl, hcontent, hintact.1, hintact.2, hextract, rfl⟩

/-- Only extraction yields a result. -/
theorem Earned.result_eq_none {env : Env} {maxUploadBytes : Int} {c : Collaborators} {db : Db}
    {job : Job} {result : Option ExtractionResult} (h : Earned env maxUploadBytes c db job result)
    (hkind : job.kind = .deleteObject) : result = none := by
  rw [Earned, hkind] at h
  exact h.2

/-! ## The law -/

/-- The exception that reached the handlers: of the body, or of a success that could not be
committed. -/
def Reached (env : Env) (maxUploadBytes : Int) (c : Collaborators) (s : Surroundings) (db : Db)
    (job : Job) (e : Exn) : Prop :=
  (work env maxUploadBytes c db job).result = .error e ∨
    (∃ result, (work env maxUploadBytes c db job).result = .ok result) ∧ s.success = .rolledBack e

/-- A transaction that recorded a success. -/
def Finished.Succeeds (f : Finished) : Prop := f.call.failed = none ∧ f.reply ≠ .stale

/-- What a delivery makes of its claim. -/
structure Settlement (env : Env) (maxUploadBytes : Int) (c : Collaborators) (s : Surroundings) (db : Db)
    (job : Job) (run : JobRun) (row : Job) : Prop where
  find : run.db.jobs.find job.id = some row
  token : row.runToken = job.runToken
  settled : row.state ≠ .running
  succeeded : row.state = .succeeded ↔ ∃ f ∈ run.finished, f.Succeeds
  earned : ∀ f ∈ run.finished, f.Succeeds → Earned env maxUploadBytes c db job f.call.result
  failed : row.state ≠ .succeeded → ∃ e, Reached env maxUploadBytes c s db job e ∧
    row.errorCode = some (recorded e).code ∧
    row.state = if (recorded e).retryable && row.attempts < row.maxAttempts then .pending
      else .failed
  stores : ∀ f ∈ run.finished, f.Stores job.documentId ∧
    (f.call.result.isSome = true → f.Succeeds)

/-- **The handlers settle a live claim as a failure.** -/
theorem handle_of_live {env : Env} {s : Surroundings} {db : Db} {job : Job} (hlive : Live db job)
    (hkeep : KeepsClaim job db (s.beforeFailure db)) (hcommits : s.failure.Commits) (e : Exn) :
    ∃ row f, (handle env s db job e).db.jobs.find job.id = some row ∧
      row.runToken = job.runToken ∧ (handle env s db job e).finished = [f] ∧
      f.call = .failure (recorded e) ∧ f.Stores job.documentId ∧
      row.errorCode = some (recorded e).code ∧
      row.state = if (recorded e).retryable && row.attempts < row.maxAttempts then .pending
        else .failed := by
  obtain ⟨row, after, hfinish, hfind, htoken, -, -, -, -, hfailed, htexts⟩ :=
    @finish_of_live env _ _ (hlive.keep hkeep) s.failureDraw s.failureJitter
      (.failure (recorded e)) fun _ => rfl
  obtain ⟨hcode, hstate⟩ := hfailed _ rfl
  unfold handle callFinish
  rw [hfinish]
  dsimp only
  cases hanswer : s.failure with
  | rolledBack e' =>
      rw [hanswer] at hcommits
      exact hcommits.elim
  | returned => exact ⟨row, _, hfind, htoken, rfl, rfl, htexts, hcode, hstate⟩
  | unacknowledged e' => exact ⟨row, _, hfind, htoken, rfl, rfl, htexts, hcode, hstate⟩

/-- The handlers leave a completed claim as it is. -/
theorem handle_of_done {env : Env} {s : Surroundings} {db : Db} {job : Job} (hdone : Done db job)
    (hkeep : KeepsClaim job db (s.beforeFailure db)) (hcommits : s.failure.Commits) (e : Exn) :
    ∃ f, (handle env s db job e).db = s.beforeFailure db ∧ (handle env s db job e).finished = [f] ∧
      f.call = .failure (recorded e) ∧ f.reply = .stale ∧ f.after = f.before := by
  have hfinish := @finish_of_done env _ _ (hdone.keep hkeep) s.failureDraw s.failureJitter
    (.failure (recorded e))
  unfold handle callFinish
  rw [hfinish]
  dsimp only
  cases hanswer : s.failure with
  | rolledBack e' =>
      rw [hanswer] at hcommits
      exact hcommits.elim
  | returned => exact ⟨_, rfl, rfl, rfl, rfl, rfl⟩
  | unacknowledged e' => exact ⟨_, rfl, rfl, rfl, rfl, rfl⟩

/-- A failure never leaves a succeeded row. -/
theorem failure_state_ne {retry : Bool} {state : JobState}
    (h : state = if retry then .pending else .failed) : state ≠ .running ∧ state ≠ .succeeded := by
  cases retry with
  | false => rw [h]; exact ⟨nofun, nofun⟩
  | true => rw [h]; exact ⟨nofun, nofun⟩

/-- The handlers settle what a body or a rolled back success left live. -/
theorem settles_of_handle {env : Env} {maxUploadBytes : Int} {c : Collaborators} {s : Surroundings}
    {db db' : Db} {job : Job} {e : Exn} (hlive : Live db' job)
    (hkeep : KeepsClaim job db' (s.beforeFailure db')) (hcommits : s.failure.Commits)
    (hreached : Reached env maxUploadBytes c s db job e) :
    ∃ row, Settlement env maxUploadBytes c s db job (handle env s db' job e) row := by
  obtain ⟨row, f, hfind, htoken, hfinished, hcall, hstores, hcode, hstate⟩ :=
    @handle_of_live env s db' job hlive hkeep hcommits e
  have hne := failure_state_ne hstate
  have hfails : ∀ g ∈ (handle env s db' job e).finished, ¬ g.Succeeds := by
    intro g hg hsucceeds
    rw [hfinished, List.mem_singleton] at hg
    have hnone := hsucceeds.1
    rw [hg, hcall] at hnone
    cases hnone
  refine ⟨row, hfind, htoken, hne.1, ⟨fun h => absurd h hne.2, ?_⟩, ?_, ?_, ?_⟩
  · rintro ⟨g, hg, hsucceeds⟩
    exact absurd hsucceeds (hfails g hg)
  · intro g hg hsucceeds
    exact absurd hsucceeds (hfails g hg)
  · intro _
    exact ⟨e, hreached, hcode, hstate⟩
  · intro g hg
    rw [hfinished, List.mem_singleton] at hg
    subst hg
    refine ⟨hstores, fun hsome => ?_⟩
    rw [hcall] at hsome
    cases hsome

/-- A claim that is live when the delivery reads, and kept meanwhile, is settled. -/
theorem settlement_of_live {env : Env} {maxUploadBytes : Int} {c : Collaborators} {s : Surroundings}
    {db : Db} {job : Job} (hlive : Live db job) (hunfenced : s.Unfenced env maxUploadBytes c db job)
    (hcommits : s.failure.Commits) :
    ∃ row, Settlement env maxUploadBytes c s (s.beforeRead db) job
      (runClaimed env maxUploadBytes c s db job) row := by
  have hread : Live (s.beforeRead db) job := hlive.keep hunfenced.read
  have hfailure := hunfenced.failure
  unfold Surroundings.handled at hfailure
  unfold runClaimed
  dsimp only
  cases hwork : (work env maxUploadBytes c (s.beforeRead db) job).result with
  | error e =>
      simp only [hwork] at hfailure
      exact settles_of_handle hread hfailure hcommits (.inl hwork)
  | ok result =>
      have hearned := earned_of_work hwork
      have hlive : Live (s.beforeSuccess (s.beforeRead db)) job := hread.keep hunfenced.success
      obtain ⟨row, after, hfinish, hfind, htoken, hrunning, -, -, hsucceeded, -, htexts⟩ :=
        @finish_of_live env _ _ hlive s.successDraw s.successJitter (.success result)
          hearned.result_eq_none
      have hstate : row.state = .succeeded := hsucceeded rfl
      simp only [hwork, callFinish, hfinish] at hfailure
      simp only [callFinish, hfinish]
      cases hanswer : s.success with
      | returned =>
          refine ⟨row, hfind, htoken, hrunning, ⟨fun _ => ?_, fun _ => hstate⟩, ?_,
            fun h => absurd hstate h, ?_⟩
          · exact ⟨_, List.mem_singleton_self _, rfl, nofun⟩
          · intro f hf _
            rw [List.mem_singleton] at hf
            subst hf
            exact hearned
          · intro f hf
            rw [List.mem_singleton] at hf
            subst hf
            exact ⟨htexts, fun _ => ⟨rfl, nofun⟩⟩
      | rolledBack e =>
          -- Nothing was committed, and the handler finds the claim live.
          simp only [hanswer] at hfailure
          exact settles_of_handle hlive hfailure hcommits (.inr ⟨⟨result, hwork⟩, hanswer⟩)
      | unacknowledged e =>
          -- The success stands, and the handler finds the claim completed.
          simp only [hanswer] at hfailure
          have hdone : Done after job := ⟨row, hfind, htoken, hstate⟩
          obtain ⟨f, hdb, hfinished, hcall, hstale, hsame⟩ :=
            @handle_of_done env s after job hdone hfailure hcommits e
          obtain ⟨row', hfind', htoken', hstate', -⟩ :=
            hfailure row hfind htoken (.inr hstate)
          have hdone' : row'.state = .succeeded := hstate'.trans hstate
          refine ⟨row', ?_, htoken'.trans htoken, ?_, ⟨fun _ => ?_, fun _ => hdone'⟩, ?_,
            fun h => absurd hdone' h, ?_⟩
          · rw [hdb]
            exact hfind'
          · rw [hdone']
            nofun
          · exact ⟨_, List.mem_append_left _ (List.mem_singleton_self _), rfl, nofun⟩
          · intro g hg hsucceeds
            rw [List.mem_append, List.mem_singleton, hfinished, List.mem_singleton] at hg
            rcases hg with rfl | rfl
            · exact hearned
            · exact absurd hstale hsucceeds.2
          · intro g hg
            rw [List.mem_append, List.mem_singleton, hfinished, List.mem_singleton] at hg
            rcases hg with rfl | rfl
            · exact ⟨htexts, fun _ => ⟨rfl, nofun⟩⟩
            · constructor
              · rw [Finished.Stores, hsame, hcall]
                simp only [FinishCall.result, Option.elim_none, Option.map_id']
              · intro hsome
                rw [hcall] at hsome
                cases hsome

/-- **A delivery settles its claim with the right outcome.** For every granted claim, whatever the
collaborators return or raise and wherever a success that is being committed raises, if the claim is
kept meanwhile and the failure that a handler records commits: the row is no longer running under the
token of the claim; it has succeeded exactly when a success committed, which has been earned; otherwise
it is pending or failed as the recorded failure, the attempts and their limit say; and the stored text
and processing information of the document are replaced by the result of a success, which is what
extraction returned, and by nothing else. -/
theorem run_job_settles {env : Env} {maxUploadBytes : Int} {c : Collaborators} {s : Surroundings}
    {db db' : Db} {draw : Draw} {token jobId : Uuid} {job : Job}
    (hclaim : claim env db draw token jobId = .ok (db', some job))
    (hunfenced : s.Unfenced env maxUploadBytes c db' job) (hcommits : s.failure.Commits) :
    ∃ row, Settlement env maxUploadBytes c s (s.beforeRead db') job
      (runClaimed env maxUploadBytes c s db' job) row := by
  exact settlement_of_live (live_of_claim hclaim) hunfenced hcommits

/-- The library functions of the sample, with the digest of the sample file. -/
def deliveryEnv : Env :=
  { sampleEnv with
    sha256 := fun bytes =>
      if bytes = sampleData.file.content then sampleData.file.sha256 else sampleEnv.sha256 bytes }

/-- A database with the sample document and its OCR job. -/
def sampleStored : Db :=
  let upload : Upload :=
    ⟨sampleUser, sampleData, some (lit "k"), 100, sampleEnv.sha256 [], .entered, none, .empty⟩
  let document := upload.document ⟨1, 2, 3⟩ (.requested 7 1 2) 1000
  (Db.empty.putDocument (.indexed deliveryEnv document [])).putJob (ocrJob 5 1 100 1000)

/-- The sample job can be claimed. -/
theorem sampleStored_claim :
    (claim deliveryEnv sampleStored ⟨2000, 7⟩ 6 5).toOption.isSome = true := by decide +kernel

/-- The database after the claim of the sample job. -/
def sampleTaken : Db := ((claim deliveryEnv sampleStored ⟨2000, 7⟩ 6 5).toOption.get
  sampleStored_claim).1

/-- The job as the worker holds it. -/
def sampleTakenJob : Job := take ⟨2000, 7⟩ 6 (ocrJob 5 1 100 1000)

/-- The claim grants the job. -/
theorem sampleTaken_claim :
    claim deliveryEnv sampleStored ⟨2000, 7⟩ 6 5 = .ok (sampleTaken, some sampleTakenJob) := by
  rw [eq_ok_of_isSome sampleStored_claim]
  have hjob : ((claim deliveryEnv sampleStored ⟨2000, 7⟩ 6 5).toOption.get
      sampleStored_claim).2 = some sampleTakenJob := by decide +kernel
  rw [hjob]
  rfl

/-- The store returns the file in two chunks, and extraction reads a line in it. -/
def sampleCollaborators : Collaborators where
  deleted := .ok ()
  queried := .ok ()
  directory := .ok ()
  opened := .ok ()
  chunks :=
    [⟨.ok (sampleData.file.content.take 5), .ok ()⟩, ⟨.ok (sampleData.file.content.drop 5), .ok ()⟩]
  closed := .ok ()
  extract _ _ := .ok ⟨lit "Invoice 42", .dict []⟩
  cleaned := .ok ()

/-- Nothing else runs, and the connection is lost after the success has been committed. -/
def sampleSurroundings : Surroundings where
  beforeRead db := db
  beforeSuccess db := db
  success := .unacknowledged .other
  successDraw := ⟨3000, 8⟩
  successJitter := 0
  beforeFailure db := db
  failure := .returned
  failureDraw := ⟨3500, 9⟩
  failureJitter := 0

/-- Where nothing else runs nothing fences a claim. -/
theorem sampleSurroundings_unfenced (env : Env) (maxUploadBytes : Int) (c : Collaborators) (db : Db)
    (job : Job) : sampleSurroundings.Unfenced env maxUploadBytes c db job :=
  ⟨.refl job _, .refl job _, .refl job _⟩

/-- The sample delivery loses the acknowledgement of its success: two transactions of `finish` commit,
and the job has succeeded. -/
theorem run_job_settles_sample :
    (runClaimed deliveryEnv 10485760 sampleCollaborators sampleSurroundings sampleTaken
      sampleTakenJob).finished.length = 2 ∧
    ((runClaimed deliveryEnv 10485760 sampleCollaborators sampleSurroundings sampleTaken
      sampleTakenJob).db.jobs.find 5).any (fun job => job.state = .succeeded) ∧
    ∃ row, Settlement deliveryEnv 10485760 sampleCollaborators sampleSurroundings sampleTaken
      sampleTakenJob (runClaimed deliveryEnv 10485760 sampleCollaborators sampleSurroundings
        sampleTaken sampleTakenJob) row := by
  refine ⟨by decide +kernel, by decide +kernel, ?_⟩
  exact run_job_settles sampleTaken_claim (sampleSurroundings_unfenced ..) trivial

end MiniDms
