import MiniDms.Workflow.DocumentLifecycle

/-! # The revision identifies the metadata

Every writer saves whole rows, the OCR worker included. Lost updates are excluded by the revision:
each metadata edit and each reprocessing request raises it, nothing else touches it or the metadata,
and a request commits only on the revision it names. -/

namespace MiniDms

open Python Relational TransitionSystem

/-- The metadata fields of two rows agree. -/
def SameMetadata (a b : Document) : Prop :=
  a.title = b.title ∧ a.description = b.description ∧ a.documentType = b.documentType ∧
    a.tags = b.tags ∧ a.metadata = b.metadata

/-- A row has its own metadata. -/
theorem SameMetadata.refl (a : Document) : SameMetadata a a := ⟨rfl, rfl, rfl, rfl, rfl⟩

/-- Sameness of metadata is transitive. -/
theorem SameMetadata.trans {a b c : Document} (h : SameMetadata a b) (h' : SameMetadata b c) :
    SameMetadata a c :=
  ⟨h.1.trans h'.1, h.2.1.trans h'.2.1, h.2.2.1.trans h'.2.2.1, h.2.2.2.1.trans h'.2.2.2.1,
    h.2.2.2.2.trans h'.2.2.2.2⟩

/-! ## One move -/

/-- What one move does to the revision of a born document: it goes up, or it stays with the
metadata. -/
theorem DocumentMove.revision {env : Env} {w : World} {id : Uuid} {e : Event}
    {v v' : DocumentView} (hm : DocumentMove env w id e v v') (hborn : Born w id)
    {row' : Document} (hrow' : v'.row = some row') :
    ∃ row, v.row = some row ∧
      (row.revision < row'.revision ∨ row.revision = row'.revision ∧ SameMetadata row row') := by
  cases hm with
  | same => exact ⟨row', hrow', .inr ⟨rfl, .refl row'⟩⟩
  | orphaned hrow => exact absurd (hrow.symm.trans hrow') nofun
  | created hu hpc hid => exact absurd hid (hborn.calls _ _ _ hu (by rw [hpc]; rfl))
  | @edited request data draw row _ hpk hrow =>
      cases hrow'
      refine ⟨row, hrow, .inl ?_⟩
      rw [Document.indexed_columns, Patch.edit_revision]
      exact Nat.lt_succ_self _
  | @reprocessed request jobId draw row _ hpk hjob hrow =>
      cases hrow'
      exact ⟨row, hrow, .inl (Nat.lt_succ_self _)⟩
  | deleted => cases hrow'
  | @started delivery jobId token draw job row _ hrow =>
      cases hrow'
      exact ⟨row, hrow, .inr ⟨rfl, .refl row⟩⟩
  | @finished delivery call jitter draw d job row _ hd hrow =>
      cases hrow'
      exact ⟨row, hrow, .inr ⟨rfl, .refl row⟩⟩
  | @recovered dispatcher token jobId jitter draw job row _ hrow =>
      cases hrow'
      exact ⟨row, hrow, .inr ⟨rfl, .refl row⟩⟩

/-- The events of workers and of recovery. -/
def Event.ofJob : Event → Bool
  | .claim .. | .finish .. | .recoverNext .. => true
  | _ => false

/-- A claim, a completion or a recovery keeps every document with its revision and metadata. -/
theorem DocumentMove.ofJob {env : Env} {w : World} {id : Uuid} {e : Event} {v v' : DocumentView}
    (hm : DocumentMove env w id e v v') (he : e.ofJob = true) {row : Document}
    (hrow : v.row = some row) :
    ∃ row', v'.row = some row' ∧ row'.revision = row.revision ∧ SameMetadata row row' := by
  cases hm with
  | same => exact ⟨row, hrow, rfl, .refl row⟩
  | orphaned hnone => exact absurd (hnone.symm.trans hrow) nofun
  | created | edited | reprocessed | deleted => cases he
  | started hrow' | finished _ hrow' | recovered hrow' =>
      rw [hrow] at hrow'
      cases hrow'
      exact ⟨_, rfl, rfl, .refl row⟩

/-! ## What a successful request has shown -/

/-- The request a PATCH, DELETE or reprocess event executes. -/
def Event.request : Event → Option Request
  | .partialUpdate request _ _ | .destroy request _ _ | .reprocess request _ _ => some request
  | _ => none

/-- **A successful request carried the revision of the row it committed on.** It either wrote
nothing, or left the document with a higher revision or deleted. -/
theorem World.perform_request {env : Env} {w w' : World} {e : Event} {r : Reply}
    {request : Request} (h : w.perform env e = some (w', r)) (hreq : e.request = some request)
    (hok : ∀ error, r ≠ .raised error) :
    ∃ row, w.db.documents.find request.pk = some row ∧
      request.ifMatch = some (etag row.revision) ∧
      (w'.db = w.db ∨ ∀ row', w'.db.documents.find request.pk = some row' →
        row.revision < row'.revision) := by
  cases e with
  | partialUpdate request' body draw =>
      cases hreq
      obtain ⟨hf, h₁⟩ := World.draw_bind h
      simp only [World.drew_db] at h₁
      cases hres : MiniDms.partialUpdate env w.db draw request body with
      | error error =>
          rw [hres] at h₁
          cases h₁
          exact absurd rfl (hok error)
      | ok res =>
          rw [hres] at h₁
          cases h₁
          obtain ⟨row, data, hrow, -, -, hmatch, ⟨-, hdb, -⟩ | ⟨-, hdb, -⟩⟩ :=
            partialUpdate_cases hres
          · exact ⟨row, hrow, hmatch, .inl hdb⟩
          · refine ⟨row, hrow, hmatch, .inr fun row' hrow' => ?_⟩
            have hpk : request.pk = (data.edit draw.now row.toDocumentColumns).id := by
              rw [Patch.edit_id]
              exact (Db.document_id hrow).symm
            have hfind : res.1.documents.find request.pk = some row' := hrow'
            rw [hdb, audit_documents, Db.putDocument_documents, Table.find_put,
              if_pos (by exact hpk)] at hfind
            cases hfind
            rw [Document.indexed_columns, Patch.edit_revision]
            exact Nat.lt_succ_self _
  | destroy request' jobId draw =>
      cases hreq
      obtain ⟨hf, h₁⟩ := World.draw_bind h
      simp only [World.drew_db] at h₁
      cases hres : MiniDms.destroy w.db draw jobId request with
      | error error =>
          rw [hres] at h₁
          cases h₁
          exact absurd rfl (hok error)
      | ok db =>
          rw [hres] at h₁
          cases h₁
          obtain ⟨row, hrow, -, hmatch, rfl⟩ := destroy_cases hres
          refine ⟨row, hrow, hmatch, .inr fun row' hrow' => ?_⟩
          rw [Db.document_id hrow] at hrow'
          have hgone : (w.db.documents.erase request.pk).find request.pk = some row' := hrow'
          rw [Table.find_erase, if_pos rfl] at hgone
          cases hgone
  | reprocess request' jobId draw =>
      cases hreq
      obtain ⟨hf, h₁⟩ := World.draw_bind h
      simp only [World.drew_db] at h₁
      cases hres : MiniDms.reprocess env w.db draw jobId request with
      | error error =>
          rw [hres] at h₁
          cases h₁
          exact absurd rfl (hok error)
      | ok res =>
          rw [hres] at h₁
          cases h₁
          obtain ⟨row, hrow, -, hmatch, -, hdb, -⟩ := reprocess_cases hres
          refine ⟨row, hrow, hmatch, .inr fun row' hrow' => ?_⟩
          have hpk : request.pk = row.id := (Db.document_id hrow).symm
          have hfind : res.1.documents.find request.pk = some row' := hrow'
          rw [hdb, Db.putJob_documents, audit_documents, Db.putDocument_documents, Table.find_put,
            if_pos (by exact hpk)] at hfind
          cases hfind
          exact Nat.lt_succ_self _
  | _ => cases hreq

/-! ## Along a run -/

/-- The document is gone, or it has moved on from a state: to a higher revision, or with the same
metadata under the same revision. -/
structure MovedOn (w : World) (id : Uuid) (d : Document) : Prop where
  known : Known w
  provenance : Provenance w
  born : Born w id
  row : ∀ d', w.db.documents.find id = some d' →
    d.revision < d'.revision ∨ d.revision = d'.revision ∧ SameMetadata d d'

/-- One step moves a document on. -/
theorem MovedOn.step {env : Env} {w w' : World} {e : Event} {id : Uuid} {d : Document}
    (h : MovedOn w id d) (he : Effect env w e w') : MovedOn w' id d where
  known := h.known.step he
  provenance := h.provenance.step h.known he
  born := h.born.step he
  row d' hd' := by
    obtain ⟨d₁, hd₁, hstep⟩ :=
      (he.documentMove h.known h.provenance id).revision h.born hd'
    obtain hlt | ⟨heq, hsame⟩ := h.row d₁ hd₁
    · exact .inl (hstep.elim hlt.trans fun hs => hs.1 ▸ hlt)
    · obtain hlt | ⟨heq', hsame'⟩ := hstep
      · exact .inl (heq ▸ hlt)
      · exact .inr ⟨heq.trans heq', hsame.trans hsame'⟩

/-- A live document moves on along every run. -/
theorem movedOn_run {env : Env} {w w' : World} {h : List Step} (hw : Known w) (hp : Provenance w)
    (hr : Run (World.perform env) w h w') {id : Uuid} {d : Document}
    (hd : w.db.documents.find id = some d) : MovedOn w' id d := by
  refine hr.preserved (fun w => MovedOn w id d) ⟨hw, hp, hp.born hw hd, fun d' hd' => ?_⟩
    fun _ hv hI => hI.step (World.perform_effect hv)
  rw [hd] at hd'
  cases hd'
  exact .inr ⟨rfl, .refl d⟩

/-- A document that was given up or has a higher revision is past a revision, for ever. -/
theorem past_run {env : Env} {w w' : World} {h : List Step} {id : Uuid} {r : Nat} (hw : Known w)
    (hp : Provenance w) (hborn : Born w id) (hr : Run (World.perform env) w h w')
    (hpast : ∀ d, w.db.documents.find id = some d → r < d.revision) :
    ∀ d, w'.db.documents.find id = some d → r < d.revision := by
  have hall := hr.preserved (fun w => Known w ∧ Provenance w ∧ Born w id ∧
    ∀ d, w.db.documents.find id = some d → r < d.revision) ⟨hw, hp, hborn, hpast⟩
    fun x hv ⟨hw, hp, hborn, hpast⟩ => by
      have he := World.perform_effect hv
      refine ⟨hw.step he, hp.step hw he, hborn.step he, fun d' hd' => ?_⟩
      obtain ⟨d, hd, hstep⟩ := (he.documentMove hw hp id).revision hborn hd'
      exact hstep.elim (hpast d hd).trans fun hs => hs.1 ▸ hpast d hd
  exact hall.2.2.2

/-- The step is a PATCH, DELETE or reprocess of the document that carried the quoted revision and
succeeded. -/
def Writes (x : Step) (id : Uuid) (r : Nat) : Prop :=
  ∃ request, x.event.request = some request ∧ request.pk = id ∧
    request.ifMatch = some (etag r) ∧ ∀ error, x.reply ≠ .raised error

/-- A writer commits on the revision it carried, and leaves it behind unless it writes nothing. -/
theorem Writes.row {env : Env} {x : Step} {id : Uuid} {r : Nat}
    (hv : x.Valid (World.perform env)) (hx : Writes x id r) :
    ∃ d, x.pre.db.documents.find id = some d ∧ d.revision = r ∧
      (x.post.db = x.pre.db ∨
        ∀ d', x.post.db.documents.find id = some d' → r < d'.revision) := by
  obtain ⟨request, hreq, rfl, hmatch, hok⟩ := hx
  obtain ⟨d, hd, hmatch', hwrote⟩ := World.perform_request hv hreq hok
  rw [hmatch] at hmatch'
  have hr : r = d.revision := etag_injective (Option.some.inj hmatch')
  exact ⟨d, hd, hr.symm, hwrote.imp_right fun hlt d' hd' => hr ▸ hlt d' hd'⟩

/-- **The revision identifies the metadata and no edit is lost.** Between two states of a run the
revision of a document does not go down, and an equal revision means equal metadata;
every PATCH, DELETE or reprocess that succeeds carried the quoted revision of the row it committed
on;
of two writers that carried one revision and succeeded, the earlier one changed nothing;
a writer that carries the revision of a state it has read commits on the metadata of that state;
and claims, completions and recoveries keep revision and metadata. -/
theorem revision_identifies_metadata {env : Env} {h path : List Step} {w w' : World}
    (hr : History env h w) (hpath : Run (World.perform env) w path w') :
    (∀ id d d', w.db.documents.find id = some d → w'.db.documents.find id = some d' →
      d.revision ≤ d'.revision ∧ (d.revision = d'.revision → SameMetadata d d')) ∧
    (∀ x ∈ h, ∀ request, x.event.request = some request → (∀ error, x.reply ≠ .raised error) →
      ∃ d, x.pre.db.documents.find request.pk = some d ∧
        request.ifMatch = some (etag d.revision)) ∧
    (∀ later x mid y earlier id r, h = later ++ x :: mid ++ y :: earlier → Writes x id r →
      Writes y id r → y.post.db = y.pre.db) ∧
    (∀ id d, w.db.documents.find id = some d → ∀ x ∈ path, Writes x id d.revision →
      ∃ row, x.pre.db.documents.find id = some row ∧ SameMetadata d row) ∧
    (∀ x ∈ h, x.event.ofJob = true → ∀ id d, x.pre.db.documents.find id = some d →
      ∃ d', x.post.db.documents.find id = some d' ∧ d'.revision = d.revision ∧
        SameMetadata d d') := by
  obtain ⟨hw, hp⟩ := provenance_of_history hr
  refine ⟨fun id d d' hd hd' => ?_, fun x hx request hreq hok => ?_, ?_, fun id d hd x hx hwx => ?_,
    fun x hx hjob id d hd => ?_⟩
  · obtain hlt | ⟨heq, hsame⟩ := (movedOn_run hw hp hpath hd).row d' hd'
    · exact ⟨hlt.le, fun heq => absurd heq hlt.ne⟩
    · exact ⟨heq.le, fun _ => hsame⟩
  · obtain ⟨d, hd, hmatch, -⟩ := World.perform_request (hr.valid hx) hreq hok
    exact ⟨d, hd, hmatch⟩
  · rintro later x mid y earlier id r rfl hx hy
    obtain ⟨hearlier, hvy, hmid, hvx⟩ := hr.cut_two
    obtain ⟨hwy, hpy⟩ := provenance_of_history hearlier
    have hey := World.perform_effect hvy
    obtain ⟨dy, hdy, -, hsame | hpast⟩ := hy.row hvy
    · exact hsame
    · -- The earlier writer left the revision behind, so the later one could not carry it.
      obtain ⟨dx, hdx, hrx, -⟩ := hx.row hvx
      have hlt := past_run (hwy.step hey) (hpy.step hwy hey) ((hpy.born hwy hdy).step hey) hmid
        hpast dx hdx
      omega
  · obtain ⟨later, earlier, -, hearlier, hv, -⟩ := hpath.cut hx
    obtain ⟨row, hrow, hrev, -⟩ := hwx.row hv
    obtain hlt | ⟨-, hsame⟩ := (movedOn_run hw hp hearlier hd).row row hrow
    · omega
    · exact ⟨row, hrow, hsame⟩
  · obtain ⟨later, earlier, -, hearlier, hv, -⟩ := hr.cut hx
    obtain ⟨hwx, hpx⟩ := provenance_of_history hearlier
    exact ((World.perform_effect hv).documentMove hwx hpx id).ofJob hjob hd

/-- The owner of the sample document describes it as paid. -/
def sampleEdit : Option (List Step × World) :=
  Run.execute (World.perform sampleEnv) ([], sampleWorld)
    [.partialUpdate ⟨sampleUser, 1, some (etag 1), 101⟩
      (.ok fun | .description => some (lit "paid") | _ => none) ⟨4000, 9⟩]

/-- The edit of the sample can happen. -/
theorem sampleEdit_isSome : sampleEdit.isSome = true := by decide +kernel

/-- The history of the edit. -/
def sampleEditHistory : List Step := (sampleEdit.get sampleEdit_isSome).1

/-- The state after the edit. -/
def sampleEditWorld : World := (sampleEdit.get sampleEdit_isSome).2

/-- It is a run from the sample state. -/
theorem sampleEdit_run :
    Run (World.perform sampleEnv) sampleWorld sampleEditHistory sampleEditWorld :=
  Run.of_isSome rfl sampleEdit_isSome

/-- The edit of the sample document raises its revision from 1 to 2. -/
theorem revision_identifies_metadata_sample :
    (sampleWorld.db.documents.find 1).any (fun d => d.revision = 1) ∧
    (sampleEditWorld.db.documents.find 1).any (fun d => d.revision = 2) ∧
    ∀ d d', sampleWorld.db.documents.find 1 = some d →
      sampleEditWorld.db.documents.find 1 = some d' →
        d.revision ≤ d'.revision ∧ (d.revision = d'.revision → SameMetadata d d') :=
  ⟨by decide +kernel, by decide +kernel,
    (revision_identifies_metadata sample_history sampleEdit_run).1 1⟩

end MiniDms
