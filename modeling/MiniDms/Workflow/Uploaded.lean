import MiniDms.Validation.Fields
import MiniDms.Workflow.Idempotency

/-! # What a document keeps of its upload

The row of a live document names the file, the owner, the key and the fingerprint of the call that
created it, whatever has happened since; only its metadata can have been edited. -/

namespace MiniDms

open Python Relational TransitionSystem

/-- What the row of a document keeps of the call that created it. -/
structure FromUpload (d : Document) (u : Upload) : Prop where
  owner : d.owner = u.user.pk
  filename : d.filename = u.data.file.name
  mimeType : d.mimeType = u.data.file.detectedType
  size : d.size = u.data.file.size
  sha256 : d.sha256 = u.data.file.sha256
  idempotencyKey : d.idempotencyKey = u.key
  requestFingerprint : d.requestFingerprint = u.fingerprint

/-- The row a call creates. -/
theorem fromUpload_document (env : Env) (u : Upload) (ids : UploadIds) (actual : StorageKey)
    (now : Timestamp) : FromUpload (.indexed env (u.document ids actual now) []) u :=
  ⟨rfl, rfl, rfl, rfl, rfl, rfl, rfl⟩

/-! ## One event -/

/-- The columns that are written when a document is created and never again. -/
structure SameSource (a b : Document) : Prop where
  owner : a.owner = b.owner
  filename : a.filename = b.filename
  mimeType : a.mimeType = b.mimeType
  size : a.size = b.size
  sha256 : a.sha256 = b.sha256
  idempotencyKey : a.idempotencyKey = b.idempotencyKey
  requestFingerprint : a.requestFingerprint = b.requestFingerprint

/-- The columns a metadata edit may write. -/
def SameFields (a b : DocumentColumns) : Prop := ∀ f, a.getField f = b.getField f

/-- What comes from the same source comes from the same call. -/
theorem SameSource.fromUpload {a b : Document} (h : SameSource a b) {u : Upload}
    (ha : FromUpload a u) : FromUpload b u :=
  ⟨h.owner ▸ ha.owner, h.filename ▸ ha.filename, h.mimeType ▸ ha.mimeType, h.size ▸ ha.size,
    h.sha256 ▸ ha.sha256, h.idempotencyKey ▸ ha.idempotencyKey,
    h.requestFingerprint ▸ ha.requestFingerprint⟩

/-- **Where the content of a row comes from**: from the row before, with its metadata kept or edited,
or from the call that has just created it. -/
theorem DocumentMove.content {env : Env} {w : World} {id : Uuid} {e : Event} {v v' : DocumentView}
    (hm : DocumentMove env w id e v v') {d' : Document} (hd' : v'.row = some d') :
    (∃ d, v.row = some d ∧ SameSource d d' ∧
      (SameFields d.toDocumentColumns d'.toDocumentColumns ∨
        ∃ request data draw, e = .partialUpdate request (.ok data) draw ∧
          d'.toDocumentColumns = data.edit draw.now d.toDocumentColumns)) ∨
    ∃ call u ids actual draw jobId fault ack, e = .upload call (.commit draw jobId fault ack) ∧
      w.uploads call = some u ∧ u.pc = .named ids actual ∧
        d' = .indexed env (u.document ids actual draw.now) [] := by
  have hall : ∀ (a b : DocumentColumns), a.title = b.title → a.description = b.description →
      a.documentType = b.documentType → a.tags = b.tags → a.metadata = b.metadata →
      SameFields a b := by
    intro a b ht hd hdt htg hm f
    cases f <;> assumption
  cases hm with
  | same | orphaned =>
      exact .inl ⟨d', hd', ⟨rfl, rfl, rfl, rfl, rfl, rfl, rfl⟩, .inl fun _ => rfl⟩
  | @created call u ids actual draw jobId fault ack _ hu hpc =>
      cases hd'
      exact .inr ⟨call, u, ids, actual, draw, jobId, fault, ack, rfl, hu, hpc, rfl⟩
  | @edited request data draw row _ hpk hrow =>
      cases hd'
      obtain ⟨t, d, dt, tg, m, hedit⟩ := data.edit_frame draw.now row.toDocumentColumns
      refine .inl ⟨row, hrow, ?_, .inr ⟨request, data, draw, rfl, rfl⟩⟩
      constructor <;> rw [Document.indexed_columns, hedit]
  | deleted => cases hd'
  | @reprocessed request jobId draw row _ hpk hjob hrow =>
      cases hd'
      exact .inl ⟨row, hrow, ⟨rfl, rfl, rfl, rfl, rfl, rfl, rfl⟩, .inl (hall _ _ rfl rfl rfl rfl rfl)⟩
  | @started delivery jobId token draw job row _ hrow =>
      cases hd'
      exact .inl ⟨row, hrow, ⟨rfl, rfl, rfl, rfl, rfl, rfl, rfl⟩, .inl (hall _ _ rfl rfl rfl rfl rfl)⟩
  | @finished delivery call jitter draw d job row _ hd hrow =>
      cases hd'
      exact .inl ⟨row, hrow, ⟨rfl, rfl, rfl, rfl, rfl, rfl, rfl⟩, .inl (hall _ _ rfl rfl rfl rfl rfl)⟩
  | @recovered dispatcher token jobId jitter draw job row _ hrow =>
      cases hd'
      exact .inl ⟨row, hrow, ⟨rfl, rfl, rfl, rfl, rfl, rfl, rfl⟩, .inl (hall _ _ rfl rfl rfl rfl rfl)⟩

/-! ## Runs -/

/-- The fingerprint of a call is that of its payload. -/
def Upload.Fingerprinted (env : Env) (u : Upload) : Prop :=
  MiniDms.fingerprint env u.data = some u.fingerprint

/-- A statement keeps the payload of its call. -/
theorem Upload.Advance.data {env : Env} {db db' : Db} {store store' : Store} {u u' : Upload}
    {move : UploadMove} (ha : Advance env db store u move db' store' u') : u'.data = u.data := by
  cases ha <;> rfl

/-- A statement keeps what the row of the document has of its call. -/
theorem FromUpload.advance {env : Env} {db db' : Db} {store store' : Store} {u u' : Upload}
    {move : UploadMove} {d : Document} (h : FromUpload d u)
    (ha : Upload.Advance env db store u move db' store' u') : FromUpload d u' := by
  obtain ⟨huser, hkey, hfingerprint⟩ := ha.parameters
  have hdata := ha.data
  exact ⟨huser ▸ h.owner, hdata ▸ h.filename, hdata ▸ h.mimeType, hdata ▸ h.size, hdata ▸ h.sha256,
    hkey ▸ h.idempotencyKey, hfingerprint ▸ h.requestFingerprint⟩

/-- A call has the payload it was entered with. -/
theorem entered_of_history {env : Env} {h : List Step} {w : World} (hr : History env h w)
    {c : Nat} {u : Upload} (hu : w.uploads c = some u) :
    ∃ x ∈ h, ∃ requestId, x.event = .enterUpload c u.user u.data u.key requestId := by
  refine hr.induct (fun h w => ∀ u, w.uploads c = some u →
      ∃ x ∈ h, ∃ requestId, x.event = .enterUpload c u.user u.data u.key requestId)
    (fun _ hu => nomatch hu) (fun h x _ hv (_ : True) ih u' hu' => ?_) (fun _ _ => trivial) u hu
  obtain ⟨hold, -⟩ | ⟨-, user, data, key, requestId, hevent, rfl⟩ | ⟨move, u, -, -, hu, ha⟩ :=
    (World.perform_effect hv).upload_cases hu'
  · obtain ⟨y, hy, hevent⟩ := ih u' hold
    exact ⟨y, List.mem_cons_of_mem _ hy, hevent⟩
  · exact ⟨x, List.mem_cons_self, requestId, hevent⟩
  · obtain ⟨y, hy, hevent⟩ := ih u hu
    rw [← ha.data, ← ha.parameters.1, ← ha.parameters.2.1] at hevent
    exact ⟨y, List.mem_cons_of_mem _ hy, hevent⟩

/-- The payload of an upload that enters has been accepted. -/
def AcceptedUpload (x : Step) : Prop :=
  ∀ call user data key requestId, x.event = .enterUpload call user data key requestId →
    ∃ stack, data.Accepted stack

/-- In a run whose uploads were accepted every call has an accepted payload. -/
theorem accepted_of_history {env : Env} {h : List Step} {w : World} (hr : History env h w)
    (hinputs : ∀ x ∈ h, AcceptedUpload x) {c : Nat} {u : Upload} (hu : w.uploads c = some u) :
    ∃ stack, u.data.Accepted stack := by
  obtain ⟨x, hx, requestId, hevent⟩ := entered_of_history hr hu
  exact hinputs x hx c u.user u.data u.key requestId hevent

/-- A call whose payload has no fingerprint has raised, and nothing else. -/
theorem fingerprinted_of_history {env : Env} {h : List Step} {w : World} (hr : History env h w)
    {c : Nat} {u : Upload} (hu : w.uploads c = some u) :
    u.Fingerprinted env ∨ u.pc = .raised .internal := by
  refine hr.induct (fun _ w => ∀ u, w.uploads c = some u →
      u.Fingerprinted env ∨ u.pc = .raised .internal) (fun _ hu => nomatch hu)
    (fun _ x _ hv (_ : True) ih u' hu' => ?_) (fun _ _ => trivial) u hu
  obtain ⟨hold, -⟩ | ⟨-, user, data, key, requestId, -, rfl⟩ | ⟨move, u, -, -, hu, ha⟩ :=
    (World.perform_effect hv).upload_cases hu'
  · exact ih u' hold
  · unfold Upload.Fingerprinted Upload.enter
    dsimp only
    cases hfingerprint : fingerprint env data with
    | none => exact .inr rfl
    | some text => exact .inl rfl
  · have hparameters := ha.parameters
    obtain hold | hraised := ih u hu
    · left
      rw [Upload.Fingerprinted, ha.data, hparameters.2.2]
      exact hold
    · -- A call that has raised makes no further statement.
      have hnot := ha.pcMove.not_ended
      rw [hraised] at hnot
      cases hnot

/-- **In every reachable state** a live document comes from a call, which has a fingerprint. -/
theorem uploaded_of_history {env : Env} {h : List Step} {w : World} (hr : History env h w) {id : Uuid}
    {d : Document} (hd : w.db.documents.find id = some d) :
    ∃ c u, w.uploads c = some u ∧ FromUpload d u ∧ u.Fingerprinted env := by
  refine hr.induct (fun _ w => ∀ d, w.db.documents.find id = some d →
      ∃ c u, w.uploads c = some u ∧ FromUpload d u ∧ u.Fingerprinted env) (fun _ hd => nomatch hd)
    (fun h x hr hv (_ : True) ih d' hd' => ?_) (fun _ _ => trivial) d hd
  obtain ⟨hw, hp⟩ := provenance_of_history hr
  have he := World.perform_effect hv
  -- The call goes on existing, with its parameters.
  have hstays : ∀ c u, x.pre.uploads c = some u → FromUpload d' u → u.Fingerprinted env →
      ∃ c u, x.post.uploads c = some u ∧ FromUpload d' u ∧ u.Fingerprinted env := by
    intro c u hu hfrom hfingerprint
    obtain ⟨hstay, -⟩ | ⟨move, u', -, hu', ha⟩ := he.upload_stays hu
    · exact ⟨c, u, hstay, hfrom, hfingerprint⟩
    · refine ⟨c, u', hu', hfrom.advance ha, ?_⟩
      rw [Upload.Fingerprinted, ha.data, ha.parameters.2.2]
      exact hfingerprint
  obtain ⟨d, hrow, hsource, -⟩ | ⟨c, u, ids, actual, draw, jobId, fault, ack, -, hu, hpc, rfl⟩ :=
    (he.documentMove hw hp id).content hd'
  · obtain ⟨c, u, hu, hfrom, hfingerprint⟩ := ih d hrow
    exact hstays c u hu (hsource.fromUpload hfrom) hfingerprint
  · obtain hfingerprint | hraised := fingerprinted_of_history hr hu
    · exact hstays c u hu (fromUpload_document env u ids actual draw.now) hfingerprint
    · rw [hpc] at hraised
      cases hraised

/-- The text of the sample upload and one of an edit. -/
theorem sampleTexts_valid : ValidText 255 false (lit "Invoice") ∧ ValidText 10000 true (lit "paid") :=
  ⟨⟨by decide, (fun h => nomatch h), by decide, by decide, by decide⟩,
    ⟨by decide, (fun h => nomatch h), by decide, by decide, by decide⟩⟩

/-- The sample upload passes its validators. -/
theorem sampleData_accepted : sampleData.Accepted sampleStack where
  title := ⟨_, sampleTexts_valid.1.charField⟩
  description := ⟨[], rfl⟩
  documentType := ⟨[], rfl⟩
  tags := ⟨.list [], [], rfl, rfl⟩
  metadata := ⟨_, validateMetadata_eq_ok_iff.mpr
    ⟨⟨⟨⟨⟨_, rfl⟩, by decide, by decide, by decide, by decide⟩, by decide, by decide +kernel⟩,
      by decide⟩, rfl⟩⟩
  keys := rfl

end MiniDms
