import MiniDms.Workflow.Commutation
import MiniDms.Workflow.Revision
import MiniDms.Workflow.StorageKeys

/-! # The precondition of a request

A client sends back the revision it has read. The request is refused exactly when another request has
rewritten or deleted the document since; whatever the workers did in between does not count. -/

namespace MiniDms

open Python Relational TransitionSystem

/-- The step is a request on the document that took effect. -/
def Rewrites (x : Step) (id : Uuid) : Prop :=
  (∃ request, x.event.request = some request ∧ request.pk = id) ∧ x.post.db ≠ x.pre.db

/-- The event changes a document under a precondition, with valid data. -/
def Event.conditional : Event → Bool
  | .partialUpdate _ (.ok _) _ | .destroy .. | .reprocess .. => true
  | _ => false

/-! ## What leaves a revision behind -/

/-- A move keeps the revision and the owner of a row, or is a request on it. -/
theorem DocumentMove.kept_or_requested {env : Env} {w : World} {id : Uuid} {e : Event}
    {v v' : DocumentView} (hm : DocumentMove env w id e v v') {d : Document} (hd : v.row = some d) :
    (∃ d', v'.row = some d' ∧ d'.revision = d.revision ∧ d'.owner = d.owner) ∨
      (∃ request, e.request = some request ∧ request.pk = id) ∧ v'.row ≠ v.row := by
  cases hm with
  | same => exact .inl ⟨d, hd, rfl, rfl⟩
  | orphaned hrow => exact absurd (hrow.symm.trans hd) nofun
  | created _ _ _ _ hrow => exact absurd (hrow.symm.trans hd) nofun
  | @edited request data draw row _ hpk hrow =>
      refine .inr ⟨⟨request, rfl, hpk⟩, fun heq => ?_⟩
      have hsame : some (Document.indexed env (data.edit draw.now row.toDocumentColumns)
          row.extractedText) = some row := heq.trans hrow
      have hrev := congrArg (fun o => o.map fun d : Document => d.revision) hsame
      simp only [Option.map_some, Document.indexed_columns, Patch.edit_revision,
        Option.some.injEq] at hrev
      omega
  | @deleted request jobId draw row _ hpk hrow =>
      exact .inr ⟨⟨request, rfl, hpk⟩, fun heq => absurd (heq.trans hrow) nofun⟩
  | @reprocessed request jobId draw row _ hpk _ hrow =>
      refine .inr ⟨⟨request, rfl, hpk⟩, fun heq => ?_⟩
      have hsame : some (Document.indexed env (row.reprocessed draw.now) row.extractedText) =
          some row := heq.trans hrow
      have hrev := congrArg (fun o => o.map fun d : Document => d.revision) hsame
      simp only [Option.map_some, Document.indexed_columns, DocumentColumns.reprocessed,
        DocumentColumns.reset, Option.some.injEq] at hrev
      omega
  | started hrow =>
      rw [hd] at hrow
      cases hrow
      exact .inl ⟨_, rfl, rfl, rfl⟩
  | finished _ hrow =>
      rw [hd] at hrow
      cases hrow
      exact .inl ⟨_, rfl, rfl, rfl⟩
  | recovered hrow =>
      rw [hd] at hrow
      cases hrow
      exact .inl ⟨_, rfl, rfl, rfl⟩

/-- **Without a request that takes effect a document stays** as it was read: live, with its revision
and its owner. -/
theorem unwritten_run {env : Env} {w w' : World} {h : List Step} {id : Uuid} {d : Document}
    (hw : Known w) (hp : Provenance w) (hr : Run (World.perform env) w h w')
    (hd : w.db.documents.find id = some d) (hnone : ∀ x ∈ h, ¬ Rewrites x id) :
    ∃ d', w'.db.documents.find id = some d' ∧ d'.revision = d.revision ∧ d'.owner = d.owner := by
  refine (hr.invariant (fun w => Known w ∧ Provenance w ∧ ∃ d', w.db.documents.find id = some d' ∧
    d'.revision = d.revision ∧ d'.owner = d.owner) ⟨hw, hp, d, hd, rfl, rfl⟩ (fun x hv hx hI => ?_)
    hnone).2.2
  obtain ⟨hw, hp, d₁, hd₁, hrev, howner⟩ := hI
  have he := World.perform_effect hv
  refine ⟨hw.step he, hp.step hw he, ?_⟩
  obtain ⟨d₂, hd₂, hrev', howner'⟩ | ⟨hrequest, hne⟩ :=
    (he.documentMove hw hp id).kept_or_requested hd₁
  · exact ⟨d₂, hd₂, hrev'.trans hrev, howner'.trans howner⟩
  · refine absurd ⟨hrequest, fun hsame => hne ?_⟩ hx
    rw [hsame]

/-- A request that raises commits nothing. -/
theorem World.perform_raised {env : Env} {w w' : World} {e : Event} {request : Request}
    {error : ApiError} (h : w.perform env e = some (w', .raised error))
    (hrequest : e.request = some request) : w'.db = w.db := by
  cases e with
  | partialUpdate request' body draw =>
      obtain ⟨-, h₁⟩ := World.draw_bind h
      simp only [World.drew_db] at h₁
      cases hres : MiniDms.partialUpdate env w.db draw request' body with
      | error error' =>
          rw [hres] at h₁
          cases h₁
          rfl
      | ok res =>
          rw [hres] at h₁
          cases h₁
  | destroy request' jobId draw =>
      obtain ⟨-, h₁⟩ := World.draw_bind h
      simp only [World.drew_db] at h₁
      cases hres : MiniDms.destroy w.db draw jobId request' with
      | error error' =>
          rw [hres] at h₁
          cases h₁
          rfl
      | ok db =>
          rw [hres] at h₁
          cases h₁
  | reprocess request' jobId draw =>
      obtain ⟨-, h₁⟩ := World.draw_bind h
      simp only [World.drew_db] at h₁
      cases hres : MiniDms.reprocess env w.db draw jobId request' with
      | error error' =>
          rw [hres] at h₁
          cases h₁
          rfl
      | ok res =>
          rw [hres] at h₁
          cases h₁
  | _ => cases hrequest

/-- A request that takes effect leaves the revision behind it. -/
theorem Rewrites.revision_lt {env : Env} {x : Step} {id : Uuid} (hv : x.Valid (World.perform env))
    (hx : Rewrites x id) {d' : Document} (hd' : x.post.db.documents.find id = some d') :
    ∃ d, x.pre.db.documents.find id = some d ∧ d.revision < d'.revision := by
  obtain ⟨⟨request, hrequest, rfl⟩, hne⟩ := hx
  have hok : ∀ error, x.reply ≠ .raised error := by
    intro error hraised
    rw [Transition.Valid, hraised] at hv
    exact hne (World.perform_raised hv hrequest)
  obtain ⟨d, hd, -, hsame | hlt⟩ := World.perform_request hv hrequest hok
  · exact absurd hsame hne
  · exact ⟨d, hd, hlt d' hd'⟩

/-- **After a request that took effect** a document is gone or has a higher revision. -/
theorem rewritten_run {env : Env} {w w' : World} {h : List Step} {id : Uuid} {d : Document}
    (hw : Known w) (hp : Provenance w) (hr : Run (World.perform env) w h w')
    (hd : w.db.documents.find id = some d) {x : Step} (hx : x ∈ h) (hrewrites : Rewrites x id) :
    ∀ d', w'.db.documents.find id = some d' → d.revision < d'.revision := by
  obtain ⟨later, earlier, -, hearlier, hv, hlater⟩ := hr.cut hx
  have hpast := movedOn_run hw hp hearlier hd
  have he := World.perform_effect hv
  refine past_run (hpast.known.step he) (hpast.provenance.step hpast.known he)
    (hpast.born.step he) hlater fun d' hd' => ?_
  obtain ⟨row, hrow, hlt⟩ := hrewrites.revision_lt hv hd'
  obtain hlt' | ⟨heq, -⟩ := hpast.row row hrow
  · exact hlt'.trans hlt
  · exact heq ▸ hlt

/-! ## What a request finds -/

/-- **A request with another revision is refused**, as one on a missing document is, and commits
nothing. -/
theorem World.perform_stale {env : Env} {w w' : World} {e : Event} {r : Reply} {request : Request}
    {revision : Nat} (h : w.perform env e = some (w', r)) (hrequest : e.request = some request)
    (hvalid : e.conditional = true) (hmatch : request.ifMatch = some (etag revision))
    (hstale : ∀ d, w.db.documents.find request.pk = some d → d.revision ≠ revision) :
    (r = .raised .preconditionFailed ∨ r = .raised .notFound) ∧ w'.db = w.db := by
  have hget : getObject w.db request.user request.pk = .error .notFound ∨
      ∃ o, getObject w.db request.user request.pk = .ok o ∧
        checkRevision o.toDocumentColumns request.ifMatch = .error .preconditionFailed := by
    unfold getObject
    cases hrow : w.db.documents.find request.pk with
    | none => exact .inl rfl
    | some row =>
        dsimp only
        by_cases hscope : scopedDocuments request.user row = true
        · rw [if_pos hscope]
          refine .inr ⟨row.defer, rfl, ?_⟩
          have hne : etag revision ≠ etag row.defer.revision :=
            fun heq => hstale row hrow (etag_injective heq).symm
          simp only [checkRevision, hmatch]
          exact if_pos hne
        · rw [if_neg hscope]
          exact .inl rfl
  have hraised : ∀ error, r = .raised error → w'.db = w.db := by
    rintro error rfl
    exact World.perform_raised h hrequest
  suffices hr : r = .raised .preconditionFailed ∨ r = .raised .notFound from
    ⟨hr, hr.elim (hraised _) (hraised _)⟩
  cases e with
  | partialUpdate request' body draw =>
      cases hrequest
      cases body with
      | error error => cases hvalid
      | ok data =>
          obtain ⟨-, h₁⟩ := World.draw_bind h
          simp only [World.drew_db, MiniDms.partialUpdate] at h₁
          obtain hnone | ⟨o, hget, hcheck⟩ := hget
          · rw [hnone] at h₁
            cases h₁
            exact .inr rfl
          · rw [hget] at h₁
            simp only [bind, Except.bind, updateDocument, hcheck] at h₁
            cases h₁
            exact .inl rfl
  | destroy request' jobId draw =>
      cases hrequest
      obtain ⟨-, h₁⟩ := World.draw_bind h
      simp only [World.drew_db, MiniDms.destroy] at h₁
      obtain hnone | ⟨o, hget, hcheck⟩ := hget
      · rw [hnone] at h₁
        cases h₁
        exact .inr rfl
      · rw [hget] at h₁
        simp only [bind, Except.bind, deleteDocument, hcheck] at h₁
        cases h₁
        exact .inl rfl
  | reprocess request' jobId draw =>
      cases hrequest
      obtain ⟨-, h₁⟩ := World.draw_bind h
      simp only [World.drew_db, MiniDms.reprocess] at h₁
      obtain hnone | ⟨o, hget, hcheck⟩ := hget
      · rw [hnone] at h₁
        cases h₁
        exact .inr rfl
      · rw [hget] at h₁
        simp only [bind, Except.bind, reprocessDocument, hcheck] at h₁
        cases h₁
        exact .inl rfl
  | _ => cases hrequest

/-- **A request with the revision of a visible row is accepted**, but for reprocessing a document that
has not failed. -/
theorem World.perform_matching {env : Env} {w w' : World} {e : Event} {r : Reply} {request : Request}
    {row : Document} (h : w.perform env e = some (w', r)) (hrequest : e.request = some request)
    (hvalid : e.conditional = true) (hrow : w.db.documents.find request.pk = some row)
    (hscope : scopedDocuments request.user row = true)
    (hmatch : request.ifMatch = some (etag row.revision)) :
    (∀ error, r ≠ .raised error) ∨
      r = .raised .conflict ∧ row.status ≠ .failed ∧ ∃ jobId draw, e = .reprocess request jobId draw := by
  have hget : getObject w.db request.user request.pk = .ok row.defer :=
    getObject_eq_ok_iff.mpr ⟨row, hrow, hscope, rfl⟩
  have hcheck : checkRevision row.defer.toDocumentColumns request.ifMatch = .ok () :=
    checkRevision_eq_ok_iff.mpr hmatch
  cases e with
  | partialUpdate request' body draw =>
      cases hrequest
      cases body with
      | error error => cases hvalid
      | ok data =>
          obtain ⟨-, h₁⟩ := World.draw_bind h
          obtain ⟨document, hok⟩ := partialUpdate_eq_ok_iff.mpr
            ⟨row, data, hrow, hscope, rfl, hmatch, rfl⟩
          simp only [World.drew_db] at h₁
          rw [hok] at h₁
          cases h₁
          exact .inl fun _ h => by cases h
  | destroy request' jobId draw =>
      cases hrequest
      obtain ⟨-, h₁⟩ := World.draw_bind h
      simp only [World.drew_db, MiniDms.destroy, hget, bind, Except.bind, deleteDocument, hcheck]
        at h₁
      cases h₁
      exact .inl fun _ h => by cases h
  | reprocess request' jobId draw =>
      cases hrequest
      obtain ⟨-, h₁⟩ := World.draw_bind h
      by_cases hfailed : row.status = .failed
      · have hfind : w.db.documents.find row.reset.id = some row := by
          rw [DocumentColumns.reset, Table.key_of_find hrow]
          exact hrow
        have hstatus : ¬ row.defer.status ≠ .failed := not_not.mpr hfailed
        cases hres : MiniDms.reprocess env w.db draw jobId request with
        | ok res =>
            rw [World.drew_db, hres] at h₁
            cases h₁
            exact .inl fun _ h => by cases h
        | error error =>
            -- Nothing is left that could raise: the save finds its row.
            obtain herror | ⟨o, ho, hrest⟩ := bind_eq_error.mp hres
            · cases hget.symm.trans herror
            rw [hget] at ho
            cases ho
            obtain herror | ⟨_, -, hrest⟩ := bind_eq_error.mp hrest
            · cases hcheck.symm.trans herror
            rw [if_neg hstatus] at hrest
            obtain herror | ⟨_, -, hrest⟩ := bind_eq_error.mp hrest
            · have hsave := congrArg (Except.mapError ApiError.database)
                (@DocumentObject.save_deferred env w.db draw.now row.reset row hfind)
              cases hsave.symm.trans herror
            · cases hrest
      · have hne : row.defer.status ≠ .failed := hfailed
        simp only [World.drew_db, MiniDms.reprocess, hget, bind, Except.bind, reprocessDocument,
          hcheck, ne_eq, hne, not_false_eq_true, if_true] at h₁
        cases h₁
        exact .inr ⟨rfl, hfailed, jobId, draw, rfl⟩
  | _ => cases hrequest

/-- **A precondition fails exactly when the document has been rewritten.** A client reads a document it
can see, anything happens, and the client sends a PATCH with valid data, a DELETE or a reprocess
request with the revision it has read. Either a request has rewritten or deleted the document in
between: then the client is refused and nothing is committed. Or none has, whatever the workers have
done: then the document still has the metadata that was read, and the request is accepted, but for
reprocessing a document that has not failed. -/
theorem refused_iff_rewritten {env : Env} {h path : List Step} {w w' w'' : World} {id : Uuid}
    {d : Document} (hr : History env h w) (hpath : Run (World.perform env) w path w')
    (hd : w.db.documents.find id = some d) {e : Event} {r : Reply} {request : Request}
    (hscope : scopedDocuments request.user d = true) (hrequest : e.request = some request)
    (hvalid : e.conditional = true) (hpk : request.pk = id)
    (hmatch : request.ifMatch = some (etag d.revision))
    (hstep : w'.perform env e = some (w'', r)) :
    ((∃ x ∈ path, Rewrites x id) ∧ (r = .raised .preconditionFailed ∨ r = .raised .notFound) ∧
      w''.db = w'.db) ∨
    ((∀ x ∈ path, ¬ Rewrites x id) ∧ ∃ row, w'.db.documents.find id = some row ∧
      row.revision = d.revision ∧ SameMetadata d row ∧
      ((∀ error, r ≠ .raised error) ∨ r = .raised .conflict ∧ row.status ≠ .failed ∧
        ∃ jobId draw, e = .reprocess request jobId draw)) := by
  subst hpk
  obtain ⟨hw, hp⟩ := provenance_of_history hr
  by_cases hrewritten : ∃ x ∈ path, Rewrites x request.pk
  · obtain ⟨x, hx, hrewrites⟩ := id hrewritten
    have hlt := rewritten_run hw hp hpath hd hx hrewrites
    exact .inl ⟨hrewritten, World.perform_stale hstep hrequest hvalid hmatch
      fun d' hd' => (hlt d' hd').ne'⟩
  · have hnone : ∀ x ∈ path, ¬ Rewrites x request.pk := fun x hx hrewrites =>
      hrewritten ⟨x, hx, hrewrites⟩
    obtain ⟨row, hrow, hrev, howner⟩ := unwritten_run hw hp hpath hd hnone
    have hsame : SameMetadata d row := by
      obtain hlt | ⟨-, hsame⟩ := (movedOn_run hw hp hpath hd).row row hrow
      · exact absurd hrev hlt.ne'
      · exact hsame
    have hscope' : scopedDocuments request.user row = true := by
      rw [scopedDocuments, howner]
      exact hscope
    exact .inr ⟨hnone, row, hrow, hrev, hsame,
      World.perform_matching hstep hrequest hvalid hrow hscope' (hrev ▸ hmatch)⟩

/-- What the worker does while the client edits. -/
def sampleWorkEvents : List Event :=
  [.claim 0 5 6 ⟨2000, 7⟩, .finish 0 (.success (some ⟨lit "Invoice 42", .dict []⟩)) 0 ⟨3000, 8⟩]

/-- The work on the uploaded document. -/
def sampleWorked : Option (List Step × World) :=
  Run.execute (World.perform sampleEnv) ([], sampleFreshWorld) sampleWorkEvents

/-- The worker of the sample can run. -/
theorem sampleWorked_isSome : sampleWorked.isSome = true := by decide +kernel

/-- The state when the client sends its edit. -/
def sampleWorkedWorld : World := (sampleWorked.get sampleWorked_isSome).2

/-- It is a run from the uploaded document. -/
theorem sampleWorked_run : Run (World.perform sampleEnv) sampleFreshWorld
    (sampleWorked.get sampleWorked_isSome).1 sampleWorkedWorld :=
  Run.of_isSome rfl sampleWorked_isSome

/-- The client's PATCH, with the revision of the upload. -/
def sampleLate : Event :=
  .partialUpdate ⟨sampleUser, 1, some (etag 1), 101⟩
    (.ok fun | .description => some (lit "paid") | _ => none) ⟨4000, 9⟩

/-- The request can still be served. -/
theorem sampleLate_isSome : (sampleWorkedWorld.perform sampleEnv sampleLate).isSome = true := by
  decide +kernel

/-- The document is processed after it was read, and the PATCH is accepted all the same. -/
theorem refused_iff_rewritten_sample : ∃ row w r, sampleWorkedWorld.db.documents.find 1 = some row ∧
    row.revision = 1 ∧ row.status = .succeeded ∧
      sampleWorkedWorld.perform sampleEnv sampleLate = some (w, r) ∧ ∀ error, r ≠ .raised error := by
  obtain ⟨d, hd, hd'⟩ := (Option.any_eq_true ..).mp
    (show (sampleFreshWorld.db.documents.find 1).any
      (fun d => d.revision = 1 && scopedDocuments sampleUser d) = true by decide +kernel)
  obtain ⟨row', hrow', hs⟩ := (Option.any_eq_true ..).mp
    (show (sampleWorkedWorld.db.documents.find 1).any (fun d => d.status = .succeeded) = true by
      decide +kernel)
  obtain ⟨⟨w, r⟩, hstep⟩ := Option.isSome_iff_exists.mp sampleLate_isSome
  rw [Bool.and_eq_true] at hd'
  have hrev : d.revision = 1 := of_decide_eq_true hd'.1
  have hmatch : some (etag 1) = some (etag d.revision) := by rw [hrev]
  obtain ⟨⟨x, hx, ⟨request, hrequest, -⟩, -⟩, -⟩ | ⟨-, row, hrow, hrow1, -, hok | ⟨-, -, _, _, he⟩⟩ :=
    @refused_iff_rewritten sampleEnv _ _ _ _ w 1 d sampleFresh_history sampleWorked_run hd sampleLate r
      ⟨sampleUser, 1, some (etag 1), 101⟩ hd'.2 rfl rfl rfl hmatch hstep
  · have hevent : x.event ∈ sampleWorkEvents := Run.event_mem_of_isSome rfl sampleWorked_isSome hx
    rw [sampleWorkEvents, List.mem_pair] at hevent
    obtain hevent | hevent := hevent
    · rw [hevent] at hrequest
      cases hrequest
    · rw [hevent] at hrequest
      cases hrequest
  · rw [hrow'] at hrow
    cases hrow
    exact ⟨row', w, r, hrow', hrow1.trans hrev, of_decide_eq_true hs, hstep, hok⟩
  · cases he

end MiniDms
