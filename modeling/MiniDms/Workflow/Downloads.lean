import MiniDms.Workflow.Deletion
import MiniDms.Workflow.ObjectSafety
import MiniDms.Workflow.Uploaded
import MiniDms.Documents.Views

/-! # What was uploaded is what is downloaded

A call that has answered with a new document has put a row and an object in place. The row leaves
by a DELETE request only, and as long as it is there a download returns the file of that call. -/

namespace MiniDms

open Python Relational TransitionSystem

/-! ## The row of an answered call -/

/-- The step is a DELETE that removed the document: by staff or the owner, on its revision. -/
def Removes (x : Step) (id : Uuid) : Prop :=
  ∃ request jobId draw row, x.event = .destroy request jobId draw ∧ request.pk = id ∧
    x.pre.db.documents.find id = some row ∧ scopedDocuments request.user row = true ∧
    request.ifMatch = some (etag row.revision)

/-- A DELETE on the revision of the row is carried out. -/
theorem Removes.done {env : Env} {x : Step} {id : Uuid} (hv : x.Valid (World.perform env))
    (h : Removes x id) : x.reply = .done := by
  obtain ⟨request, jobId, draw, row, hevent, rfl, hrow, hscope, hmatch⟩ := h
  rw [Transition.Valid, hevent] at hv
  obtain ⟨-, h₁⟩ := World.draw_bind hv
  have hget : getObject x.pre.db request.user request.pk = .ok row.defer :=
    getObject_eq_ok_iff.mpr ⟨row, hrow, hscope, rfl⟩
  have hcheck : checkRevision row.defer.toDocumentColumns request.ifMatch = .ok () :=
    checkRevision_eq_ok_iff.mpr hmatch
  simp only [World.drew_db, MiniDms.destroy, hget, bind, Except.bind, deleteDocument, hcheck] at h₁
  exact (Prod.mk.inj (Option.some.inj h₁)).2.symm

/-- **A removed document is gone for good.** -/
theorem Removes.gone {env : Env} {h : List Step} {w : World} (hr : History env h w) {x : Step}
    (hx : x ∈ h) {id : Uuid} (hremoves : Removes x id) : w.db.documents.find id = none := by
  obtain ⟨_, _, -, hearlier, hv, hlater⟩ := hr.cut hx
  have hdone := hremoves.done hv
  obtain ⟨request, jobId, draw, row, hevent, rfl, -⟩ := hremoves
  rw [Transition.Valid, hevent, hdone] at hv
  exact ((Gone.of_destroy hearlier hv).run hlater).document

/-- A row stays until a DELETE removes it. -/
theorem Effect.row_stays {env : Env} {w w' : World} {e : Event} (he : Effect env w e w') {id : Uuid}
    {row : Document} (hrow : w.db.documents.find id = some row)
    (hgone : w'.db.documents.find id = none) :
    ∃ request jobId draw, e = .destroy request jobId draw ∧ request.pk = id ∧
      scopedDocuments request.user row = true ∧ request.ifMatch = some (etag row.revision) := by
  -- A statement that puts a row, or none, removes no row.
  have hput : ∀ row', (w.db.documents.put row').find id ≠ none := by
    intro row' h
    rw [Table.find_put] at h
    split at h
    · cases h
    · rw [hrow] at h
      cases h
  have hkeep : w'.db.documents ≠ w.db.documents := by
    intro h
    rw [h, hrow] at hgone
    cases hgone
  cases he with
  | @destroyed request jobId draw row' _ hrow' hscope hmatch =>
      have hk : row'.id = request.pk := Db.document_id hrow'
      have herase : (w.db.documents.erase row'.id).find id = none := hgone
      rw [Table.find_erase] at herase
      split at herase
      · next hid =>
          have hpk : request.pk = id := hk.symm.trans hid.symm
          rw [hpk, hrow] at hrow'
          cases hrow'
          exact ⟨request, jobId, draw, rfl, hpk, hscope, hmatch⟩
      · rw [hrow] at herase
        cases herase
  | edited => exact absurd hgone (hput _)
  | reprocessed => exact absurd hgone (hput _)
  | ocrClaimed => exact absurd hgone (hput _)
  | @settled delivery call jitter draw d current =>
      obtain hsame | ⟨_, -, hset⟩ := settleJob_documents env w.db draw
        (settle draw.now jitter call.failed current) call.result
      · exact absurd hsame hkeep
      · exact absurd (hset ▸ hgone) (hput _)
  | @recovered dispatcher limit token jitter draw jobId todo job =>
      obtain hsame | ⟨_, -, hset⟩ := settleJob_documents env (w.db.updateJob jobId (fence draw token))
        draw (settle draw.now jitter (some workerLost) (fence draw token job)) none
      · exact absurd hsame hkeep
      · exact absurd (hset ▸ hgone) (hput _)
  | advanced _ _ _ ha =>
      cases ha with
      | created => exact absurd hgone (hput _)
      | _ => exact absurd rfl hkeep
  | _ => exact absurd rfl hkeep

/-- What a call that created its document answers, and the row it leaves. -/
theorem Upload.Advance.returned {env : Env} {db db' : Db} {store store' : Store} {u u' : Upload}
    {move : UploadMove} (ha : Advance env db store u move db' store' u') {document : DocumentObject}
    (hpc : u'.pc = .returned document true) :
    ∃ ids row, u.pc.uncommitted = some ids ∧ u'.ids = u.ids ∧ document.id = ids.documentId ∧
      db'.documents.find ids.documentId = some row ∧ FromUpload row u' := by
  cases ha with
  | @created ids actual draw jobId fault ack hnamed =>
      dsimp only at hpc
      split at hpc
      · cases hpc
        refine ⟨ids, _, ?_, rfl, rfl, (Table.find_put ..).trans (if_pos rfl), ?_⟩
        · rw [hnamed]
          rfl
        · exact ⟨rfl, rfl, rfl, rfl, rfl, rfl, rfl⟩
      · cases hpc
  | saved =>
      simp only [Upload.goto] at hpc
      split at hpc
      · cases hpc
      · split at hpc <;> cases hpc
  | intended | renamed | replayed =>
      dsimp only at hpc
      split at hpc <;> cases hpc
  | conflictExpedited =>
      dsimp only at hpc
      cases hpc
  | _ => cases hpc

/-- The document of an answered call is there, or a DELETE has removed it. -/
structure Durable (h : List Step) (w : World) (u : Upload) (id : Uuid) : Prop where
  drawn : ∃ ids, u.ids = some ids ∧ ids.documentId = id
  born : Born w id
  row : (∃ d, w.db.documents.find id = some d ∧ FromUpload d u) ∨
    w.db.documents.find id = none ∧ ∃ x ∈ h, Removes x id

/-- One step keeps the document of an answered call, or removes it by a DELETE. -/
theorem Durable.step {env : Env} {h : List Step} {x : Step} (hr : History env h x.pre)
    (hv : x.Valid (World.perform env)) {u : Upload} {id : Uuid} (hd : Durable h x.pre u id) :
    Durable (x :: h) x.post u id := by
  have he := World.perform_effect hv
  obtain ⟨hw, hp⟩ := provenance_of_history hr
  refine ⟨hd.drawn, hd.born.step he, ?_⟩
  obtain ⟨d, hrow, hfrom⟩ | ⟨hnone, y, hy, hremoves⟩ := hd.row
  · cases hrow' : x.post.db.documents.find id with
    | none =>
        obtain ⟨request, jobId, draw, hevent, hpk, hscope, hmatch⟩ := he.row_stays hrow hrow'
        exact .inr ⟨rfl, x, List.mem_cons_self,
          request, jobId, draw, d, hevent, hpk, hrow, hscope, hmatch⟩
    | some d' =>
        obtain ⟨d₀, hrow₀, hsame, -⟩ | ⟨_, u₁, ids, actual, draw, _, _, _, -, hu, hpc, hnew⟩ :=
          (he.documentMove hw hp id).content hrow'
        · have hfind : x.pre.db.documents.find id = some d₀ := hrow₀
          rw [hrow] at hfind
          cases hfind
          exact .inl ⟨d', rfl, hsame.fromUpload hfrom⟩
        -- No call creates a document under an identifier that is in use.
        · have hid : d'.id = id := Db.document_id hrow'
          rw [hnew] at hid
          exact absurd hid (hd.born.calls _ u₁ ids hu (by rw [hpc]; rfl))
  · exact .inr ⟨hd.born.document_none he hnone, y, List.mem_cons_of_mem _ hy, hremoves⟩

/-- **The document of every answered call is there or was deleted**, in every reachable state. -/
theorem durable_of_history {env : Env} {h : List Step} {w : World} (hr : History env h w) {c : Nat}
    {u : Upload} {document : DocumentObject} (hu : w.uploads c = some u)
    (hpc : u.pc = .returned document true) : Durable h w u document.id := by
  refine hr.induct (fun h w => ∀ u document, w.uploads c = some u →
    u.pc = .returned document true → Durable h w u document.id) (fun _ _ hu => nomatch hu)
    (fun h x hr hv (_ : True) hI u document hu hpc => ?_) (fun _ _ => trivial) u document hu hpc
  have he := World.perform_effect hv
  have hw := known_of_history hr
  obtain ⟨hold, -⟩ | ⟨-, _, _, _, _, -, rfl⟩ | ⟨move, u₀, -, -, hu₀, ha⟩ := he.upload_cases hu
  · exact (hI u document hold hpc).step hr hv
  · rw [Upload.enter] at hpc
    dsimp only at hpc
    split at hpc <;> cases hpc
  · obtain ⟨ids, row, hids, hsame, hid, hrow, hfrom⟩ := ha.returned hpc
    have hdrawn := hw.coherent c u₀ hu₀ ids (UploadPc.ids_of_uncommitted hids)
    obtain ⟨hw', hp'⟩ := provenance_of_history (hr.step hv)
    rw [hid]
    exact ⟨⟨ids, hsame.trans hdrawn, rfl⟩, hp'.born hw' hrow, .inl ⟨row, hrow, hfrom⟩⟩

/-! ## The download -/

/-- The file of a call, as an attachment. -/
def UploadData.attachment (data : UploadData) : Attachment :=
  ⟨data.file.content, data.file.name, data.file.detectedType, data.file.size⟩

/-- What a download of a live document answers. -/
theorem download_of_find {db : Db} {store : Store} {user : User} {id : Uuid} {d : Document}
    {content : Bytes} (hd : db.documents.find id = some d)
    (hstore : store d.storageKey = some content) :
    download db store user id =
      if scopedDocuments user d then .ok ⟨content, d.filename, d.mimeType, d.size⟩
      else .error .notFound := by
  have hkey : store d.defer.storageKey = some content := hstore
  rw [download, getObject, hd]
  dsimp only
  split
  · simp only [bind, Except.bind, hkey]
    rfl
  · rfl

/-- A document that is not there cannot be downloaded. -/
theorem download_of_none {db : Db} {store : Store} {user : User} {id : Uuid}
    (hd : db.documents.find id = none) : download db store user id = .error .notFound := by
  rw [download, getObject, hd]
  rfl

/-- **An acknowledged upload is durable.** In every run in which no worker claims the intent of a
call that is still running, once a call has answered with a document of its own, then in every later
state, whatever other uploads, workers, recoveries and requests have done in between: unless a DELETE
has removed it, the document can be downloaded by its owner and by staff, with exactly the bytes, the
name, the type and the length that this call was given, and by nobody else;
and once a DELETE on its revision by staff or its owner has removed it, everybody is answered that it
is not found. -/
theorem acknowledged_upload_is_durable {env : Env} {h : List Step} {w : World}
    (hr : History env h w) (hg : ∀ x ∈ h, Graceful x) {c : Nat} {u : Upload}
    {document : DocumentObject} (hu : w.uploads c = some u)
    (hpc : u.pc = .returned document true) :
    (∃ x ∈ h, ∃ requestId, x.event = .enterUpload c u.user u.data u.key requestId) ∧
    ((¬ ∃ x ∈ h, Removes x document.id) → ∀ user, download w.db w.store user document.id =
      if user.isStaff ∨ user.pk = u.user.pk then .ok u.data.attachment else .error .notFound) ∧
    ((∃ x ∈ h, Removes x document.id) →
      ∀ user, download w.db w.store user document.id = .error .notFound) := by
  refine ⟨entered_of_history hr hu, fun hkept user => ?_, ?_⟩
  · have hdur := durable_of_history hr hu hpc
    obtain ⟨d, hd, hfrom⟩ | ⟨-, hremoved⟩ := hdur.row
    swap
    · exact absurd hremoved hkept
    -- The object is the content of the call with the identifier, which is this call.
    obtain ⟨c', u', ids', hu', hids', hdoc', hstore⟩ := ((safe_of_history hr hg).stored _ d hd).object
    obtain ⟨ids, hids, hdoc⟩ := hdur.drawn
    have hsame : u'.data = u.data := by
      by_cases hc : c' = c
      · rw [hc, hu] at hu'
        cases hu'
        rfl
      · refine absurd ?_ ((provenance_of_history hr).2.apart c' c u' u ids' ids hu' hu hids' hids hc).1
        rw [hdoc', hdoc]
        exact Db.document_id hd
    rw [download_of_find hd hstore, hsame, hfrom.filename, hfrom.mimeType, hfrom.size]
    have hscope : scopedDocuments user d = true ↔ user.isStaff ∨ user.pk = u.user.pk := by
      rw [scopedDocuments, Bool.or_eq_true, decide_eq_true_iff, hfrom.owner]
      exact or_congr Iff.rfl eq_comm
    split
    · next hs => exact (if_pos (hscope.mp hs)).symm
    · next hs => exact (if_neg (mt hscope.mpr hs)).symm
  · rintro ⟨x, hx, hremoves⟩ user
    exact download_of_none (hremoves.gone hr hx)

/-- The call has answered with the sample document. -/
def Upload.createdSample (u : Upload) : Bool :=
  match u.pc with
  | .returned document true => document.id = 1 && u.data.file.size = 14
  | _ => false

/-- What a call that has created the sample document has answered. -/
theorem Upload.of_createdSample {w : World} {c : Nat}
    (h : (w.uploads c).any createdSample = true) :
    ∃ u document, w.uploads c = some u ∧ u.pc = .returned document true ∧ document.id = 1 ∧
      u.data.attachment.contentLength = 14 := by
  obtain ⟨u, hu, hpc⟩ := (Option.any_eq_true ..).mp h
  unfold createdSample at hpc
  split at hpc
  · next document hq =>
      rw [Bool.and_eq_true] at hpc
      exact ⟨u, document, hu, hq, of_decide_eq_true hpc.1, of_decide_eq_true hpc.2⟩
  · cases hpc

/-- The steps up to the deletion of the sample document. -/
def sampleRemoval : List Step :=
  ⟨sampleUploaded, sampleDestroy, .done, sampleDestroyed⟩ ::
    (sampleDeletion.get sampleDeletion_isSome).1

/-- The state after the deletion is reachable. -/
theorem sampleRemoval_history : History sampleEnv sampleRemoval sampleDestroyed :=
  sampleUploaded_history.step sampleDestroyed_step

/-- No intent is claimed in it. -/
theorem sampleRemoval_graceful : ∀ x ∈ sampleRemoval, Graceful x :=
  graceful_of_unclaimed (by decide +kernel)

/-- The deletion removes the document. -/
theorem sampleRemoval_removes : Removes ⟨sampleUploaded, sampleDestroy, .done, sampleDestroyed⟩ 1 := by
  have hrow : (sampleUploaded.db.documents.find 1).any
      (fun d => d.revision = 1 && scopedDocuments sampleUser d) = true := by decide +kernel
  obtain ⟨row, hrow, hd⟩ := (Option.any_eq_true ..).mp hrow
  rw [Bool.and_eq_true, decide_eq_true_iff] at hd
  refine ⟨⟨sampleUser, 1, some (etag 1), 101⟩, 10, ⟨1500, 11⟩, row, rfl, rfl, ?_, hd.2, ?_⟩
  · dsimp only
    exact hrow
  · rw [hd.1]

/-- After the sample run the owner and the staff download the small PDF that was uploaded, and after
the deletion of the sample document nobody does. -/
theorem acknowledged_upload_is_durable_sample :
    (∃ u document, sampleWorld.uploads 0 = some u ∧ u.pc = .returned document true ∧
      document.id = 1 ∧ u.data.attachment.contentLength = 14 ∧
      ∀ user, download sampleWorld.db sampleWorld.store user document.id =
        if user.isStaff ∨ user.pk = u.user.pk then .ok u.data.attachment else .error .notFound) ∧
    ∀ user, download sampleDestroyed.db sampleDestroyed.store user 1 = .error .notFound := by
  constructor
  · obtain ⟨u, document, hu, hpc, hid, hlength⟩ := Upload.of_createdSample
      (show (sampleWorld.uploads 0).any Upload.createdSample = true by decide +kernel)
    refine ⟨u, document, hu, hpc, hid, hlength,
      (acknowledged_upload_is_durable sample_history sample_graceful hu hpc).2.1 ?_⟩
    rintro ⟨x, hx, hremoves⟩
    have hlive : (sampleWorld.db.documents.find 1).isSome = true := by decide +kernel
    rw [hid] at hremoves
    rw [hremoves.gone sample_history hx] at hlive
    cases hlive
  · obtain ⟨u, document, hu, hpc, hid, -⟩ := Upload.of_createdSample
      (show (sampleDestroyed.uploads 0).any Upload.createdSample = true by decide +kernel)
    have hgone := (acknowledged_upload_is_durable sampleRemoval_history sampleRemoval_graceful hu
      hpc).2.2
    rw [hid] at hgone
    exact hgone ⟨_, List.mem_cons_self, sampleRemoval_removes⟩

end MiniDms
