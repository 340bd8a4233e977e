import MiniDms.Validation.Files
import MiniDms.Workflow.Settlement
import MiniDms.Workflow.Uploaded

/-! # The integrity of stored files

An upload is hashed chunk by chunk under a limit, and so is the copy a worker makes of the stored
object. Whatever the chunks, both loops see the whole of the bytes, so the copy passes its check
exactly when the store returns what was uploaded. -/

namespace MiniDms

open Python Relational TransitionSystem Traced

/-- The store returns these bytes in chunks, and everything local succeeds. -/
structure Collaborators.Serves (c : Collaborators) (bytes : Bytes) : Prop where
  queried : c.queried = .ok ()
  directory : c.directory = .ok ()
  opened : c.opened = .ok ()
  chunks : ∃ chunks : List Bytes, (∀ chunk ∈ chunks, chunk ≠ []) ∧ chunks.flatten = bytes ∧
    c.chunks = chunks.map fun chunk => ⟨.ok chunk, .ok ()⟩
  closed : c.closed = .ok ()
  cleaned : c.cleaned = .ok ()

/-! ## The copy -/

/-- The failure of a copy that is not what was uploaded. -/
def integrityFailure : Exn := .permanent .integrityError

/-- **The copying loop goes over all the chunks, or fails at the limit.** -/
theorem copyChunks_served {maxUploadBytes : Int} (chunks : List Bytes) (copied : Bytes)
    (hne : ∀ chunk ∈ chunks, chunk ≠ []) (hcopied : copied.length ≤ maxUploadBytes) :
    copyChunks maxUploadBytes (chunks.map fun chunk => ⟨.ok chunk, .ok ()⟩) copied =
      if maxUploadBytes < (copied ++ chunks.flatten).length then .error integrityFailure
      else .ok (copied ++ chunks.flatten) := by
  induction chunks generalizing copied with
  | nil =>
      rw [List.flatten_nil, List.append_nil, if_neg (not_lt.mpr hcopied)]
      rfl
  | cons chunk chunks ih =>
      rw [List.flatten_cons, ← List.append_assoc]
      have hchunk : chunk ≠ [] := hne chunk List.mem_cons_self
      show (if chunk = [] then _ else if _ then _ else _ : Except Exn Bytes) = _
      rw [if_neg hchunk]
      by_cases hlimit : maxUploadBytes < (copied ++ chunk).length
      · have hlonger : maxUploadBytes < ((copied ++ chunk) ++ chunks.flatten).length := by
          rw [@List.length_append _ (copied ++ chunk)]
          exact hlimit.trans_le (by exact_mod_cast Nat.le_add_right _ _)
        rw [if_pos hlimit, if_pos hlonger]
        rfl
      · rw [if_neg hlimit]
        exact ih (copied ++ chunk) (fun c hc => hne c (List.mem_cons_of_mem _ hc))
          (not_lt.mp hlimit)

/-- The copy of what the store returns. -/
theorem fetch_served {maxUploadBytes : Int} (hlimit : 0 ≤ maxUploadBytes) {c : Collaborators}
    {bytes : Bytes} (h : c.Serves bytes) :
    fetch maxUploadBytes c =
      if maxUploadBytes < bytes.length then .error integrityFailure else .ok bytes := by
  obtain ⟨chunks, hne, rfl, hchunks⟩ := h.chunks
  have hcopy := copyChunks_served chunks [] hne (by simpa using hlimit)
  rw [List.nil_append] at hcopy
  rw [fetch, h.opened]
  show Except.mapError storageFailure (leaving c.closed (copyChunks maxUploadBytes c.chunks [])) = _
  rw [h.closed, hchunks, leaving, hcopy]
  split <;> rfl

/-! ## The body of a delivery -/

variable {env : Env} {maxUploadBytes : Int} {c : Collaborators} {bytes : Bytes} {db : Db} {job : Job}
  {document : Document}

/-- Where the body of a delivery of an OCR job comes to. -/
theorem work_served (h : c.Serves bytes) (hocr : job.kind = .ocr)
    (hdocument : db.documents.find job.documentId = some document) :
    work env maxUploadBytes c db job = process env maxUploadBytes c document := by
  rw [work, hocr]
  dsimp only
  rw [h.queried, hdocument, h.directory, h.cleaned]
  rfl

/-- Intact bytes are extracted. -/
theorem work_of_intact (h : c.Serves bytes) (hocr : job.kind = .ocr)
    (hdocument : db.documents.find job.documentId = some document)
    (hlimit : bytes.length ≤ maxUploadBytes) (hsize : bytes.length = document.size)
    (hsha256 : env.sha256 bytes = document.sha256) :
    work env maxUploadBytes c db job =
      ⟨[⟨document.mimeType, bytes⟩], (c.extract document.mimeType bytes).map some⟩ := by
  have hfetch : fetch maxUploadBytes c = .ok bytes := by
    rw [fetch_served ((Int.natCast_nonneg _).trans hlimit) h, if_neg (not_lt.mpr hlimit)]
  rw [work_served h hocr hdocument, process, hfetch]
  show (if _ then _ else _ : Traced Extraction Exn _) = _
  rw [if_neg (by tauto)]
  cases c.extract document.mimeType bytes <;> rfl

/-- Bytes of another size or digest are not. -/
theorem work_of_damaged (hmax : 0 ≤ maxUploadBytes) (h : c.Serves bytes) (hocr : job.kind = .ocr)
    (hdocument : db.documents.find job.documentId = some document)
    (hdamaged : bytes.length ≠ document.size ∨ env.sha256 bytes ≠ document.sha256) :
    work env maxUploadBytes c db job = ⟨[], .error integrityFailure⟩ := by
  rw [work_served h hocr hdocument, process, fetch_served hmax h]
  split
  · rfl
  · show (if _ then _ else _ : Traced Extraction Exn _) = _
    rw [if_pos hdamaged]
    rfl

/-! ## The law -/

/-- A delivery and the upload agree on the bytes of a document: these bytes are extracted, and others
fail the job for good. -/
structure Agrees (env : Env) (maxUploadBytes : Int) (s : Surroundings) (db : Db) (job : Job)
    (document : Document) (content : Bytes) : Prop where
  intact : ∀ c : Collaborators, c.Serves content →
    work env maxUploadBytes c (s.beforeRead db) job =
      ⟨[⟨document.mimeType, content⟩], (c.extract document.mimeType content).map some⟩
  damaged : ∀ (c : Collaborators) (bytes : Bytes), c.Serves bytes →
    -- SHA-256 does not collide on the two.
    (env.sha256 bytes = env.sha256 content → bytes = content) → bytes ≠ content →
    (work env maxUploadBytes c (s.beforeRead db) job).events = [] ∧
      ∃ row, (runClaimed env maxUploadBytes c s db job).db.jobs.find job.id = some row ∧
        row.state = .failed ∧ row.errorCode = some .integrityError

/-- The file of every upload that enters has been validated. -/
def FilesValidated (unicode : UnicodeData) (env : Env) (maxUploadBytes : Int) (x : Step) : Prop :=
  ∀ call user data key requestId, x.event = .enterUpload call user data key requestId →
    ∃ upload, validateFile unicode env maxUploadBytes upload = .ok data.file

/-- Whatever the store returns other than the uploaded bytes fails the job for good. -/
theorem failed_of_damaged (hmax : 0 ≤ maxUploadBytes) {s : Surroundings} {draw : Draw}
    {token jobId : Uuid} {db' : Db} (hclaim : claim env db draw token jobId = .ok (db', some job))
    (hunfenced : s.Unfenced env maxUploadBytes c db' job) (hcommits : s.failure.Commits)
    (hocr : job.kind = .ocr)
    (hdocument : (s.beforeRead db').documents.find job.documentId = some document)
    (h : c.Serves bytes)
    (hdamaged : bytes.length ≠ document.size ∨ env.sha256 bytes ≠ document.sha256) :
    ∃ row, (runClaimed env maxUploadBytes c s db' job).db.jobs.find job.id = some row ∧
      row.state = .failed ∧ row.errorCode = some .integrityError := by
  have hlive : Live (s.beforeRead db') job := (live_of_claim hclaim).keep hunfenced.read
  have hwork := work_of_damaged hmax h hocr hdocument hdamaged
  have hfailure := hunfenced.failure
  unfold Surroundings.handled at hfailure
  simp only [hwork] at hfailure
  obtain ⟨row, f, hfind, -, -, -, -, hcode, hstate⟩ :=
    @handle_of_live env s _ job hlive hfailure hcommits integrityFailure
  refine ⟨row, ?_, hstate, hcode⟩
  unfold runClaimed
  simp only [hwork]
  exact hfind

/-- **Upload and worker agree on the integrity of files.** In every run in which the files of uploads
have been validated, a delivery that reads a live document, of a state of the run, finds the file of
a call: bytes that `validate_file` accepted. When the store returns these bytes, in whatever chunks,
they and nothing else are handed to extraction, whose answer is that of the body; when it returns
others, nothing is extracted and the job fails for good with `integrity_error`. -/
theorem upload_and_worker_agree {unicode : UnicodeData} {h : List Step} {w : World}
    (hr : History env h w) (hvalidated : ∀ x ∈ h, FilesValidated unicode env maxUploadBytes x)
    {s : Surroundings} {draw : Draw} {token jobId : Uuid} {db' : Db}
    (hclaim : claim env db draw token jobId = .ok (db', some job)) (hocr : job.kind = .ocr)
    (hunfenced : ∀ c, s.Unfenced env maxUploadBytes c db' job) (hcommits : s.failure.Commits)
    (hread : s.beforeRead db' = w.db)
    (hdocument : w.db.documents.find job.documentId = some document) :
    ∃ call u upload, w.uploads call = some u ∧ FromUpload document u ∧
      validateFile unicode env maxUploadBytes upload = .ok u.data.file ∧
      Agrees env maxUploadBytes s db' job document upload.content := by
  obtain ⟨call, u, hu, hfrom, -⟩ := uploaded_of_history hr hdocument
  obtain ⟨x, hx, requestId, hevent⟩ := entered_of_history hr hu
  obtain ⟨upload, haccepted⟩ := hvalidated x hx call u.user u.data u.key requestId hevent
  refine ⟨call, u, upload, hu, hfrom, haccepted, ?_⟩
  obtain ⟨hlimit, hlength, -, detected, -, -, hfile⟩ := validateFile_eq_ok_iff.mp haccepted
  have hsize : document.size = upload.content.length := by
    rw [hfrom.size, hfile, hlength]
  have hsha256 : document.sha256 = env.sha256 upload.content := by
    rw [hfrom.sha256, hfile]
  have hmax : 0 ≤ maxUploadBytes := (Int.natCast_nonneg _).trans hlimit
  rw [← hread] at hdocument
  constructor
  · intro c hserves
    exact work_of_intact hserves hocr hdocument (hlength ▸ hlimit) hsize.symm hsha256.symm
  · intro c bytes hserves hcollision hne
    have hdamaged : bytes.length ≠ document.size ∨ env.sha256 bytes ≠ document.sha256 := by
      refine .inr fun hdigest => hne (hcollision ?_)
      rw [hdigest, hsha256]
    rw [work_of_damaged hmax hserves hocr hdocument hdamaged]
    exact ⟨rfl, failed_of_damaged hmax hclaim (hunfenced c) hcommits hocr hdocument hserves hdamaged⟩

/-- A granted claim of the system is one of `claim`. -/
theorem World.claim_of_perform {w w' : World} {delivery : Nat} {jobId token : Uuid} {draw : Draw}
    (h : w.perform env (.claim delivery jobId token draw) = some (w', .claimed job)) :
    MiniDms.claim env w.db draw token jobId = .ok (w'.db, some job) := by
  obtain ⟨-, h₁⟩ := World.draw_bind h
  simp only [World.drew_db, World.drew_deliveries] at h₁
  cases hfree : w.deliveries delivery with
  | some d =>
      simp only [hfree, Option.isSome_some, if_true] at h₁
      cases h₁
  | none =>
      simp only [hfree, Option.isSome_none, Bool.false_eq_true, if_false] at h₁
      cases hclaim : MiniDms.claim env w.db draw token jobId with
      | error e =>
          rw [hclaim] at h₁
          cases h₁
      | ok granted =>
          obtain ⟨db', granted⟩ := granted
          rw [hclaim] at h₁
          cases granted <;> cases h₁
          rfl

/-- An event that is answered with a job has granted it. -/
theorem Reply.of_granted {o : Option (World × Reply)} (h : o.isSome = true)
    (hr : (o.get h).2.granted = some job) : o = some ((o.get h).1, .claimed job) := by
  cases o with
  | none => cases h
  | some x =>
      obtain ⟨w, r⟩ := x
      have hgranted : r.granted = some job := hr
      rw [Reply.granted_eq_some_iff.mp hgranted]
      rfl

/-- The sample upload under the digest of the sample file. -/
def sampleStoring : Option (List Step × World) :=
  Run.execute (World.perform deliveryEnv) ([], .init) sampleUpload

/-- The sample upload goes through. -/
theorem sampleStoring_isSome : sampleStoring.isSome = true := by decide +kernel

/-- The claim of its OCR job. -/
def sampleTaking : Option (World × Reply) :=
  World.perform deliveryEnv (sampleStoring.get sampleStoring_isSome).2 (.claim 0 5 6 ⟨2000, 7⟩)

/-- The claim can happen. -/
theorem sampleTaking_isSome : sampleTaking.isSome = true := by decide +kernel

/-- The claim is granted. -/
theorem sampleTaking_granted : sampleTaking =
    some ((sampleTaking.get sampleTaking_isSome).1, .claimed sampleTakenJob) :=
  Reply.of_granted sampleTaking_isSome (by decide +kernel)

/-- The run up to the claim. -/
theorem sampleTaking_history : ∃ h, History deliveryEnv h (sampleTaking.get sampleTaking_isSome).1 ∧
    ∀ x ∈ h, FilesValidated sampleUnicode deliveryEnv 26214400 x := by
  refine ⟨_, (Run.of_isSome rfl sampleStoring_isSome).step sampleTaking_granted, ?_⟩
  intro x hx call user data key requestId hevent
  obtain rfl | hx := List.mem_cons.mp hx
  · cases hevent
  · have hmem : x.event ∈ sampleUpload := Run.event_mem_of_isSome rfl sampleStoring_isSome hx
    rw [hevent] at hmem
    obtain rfl : data = sampleData := by
      simp only [sampleUpload, List.mem_cons, List.not_mem_nil, or_false, reduceCtorEq] at hmem
      cases hmem
      rfl
    refine ⟨namedUpload (lit "a.pdf"), ?_⟩
    rw [@validateFile_named deliveryEnv (lit "a.pdf") (by decide +kernel) (by decide +kernel)]
    have hname : cleanName sampleUnicode (lit "a.pdf") = lit "a.pdf" := by decide +kernel
    rw [hname]
    rfl

/-- The sample document is live when the delivery reads it. -/
theorem sampleTaking_live :
    ((sampleTaking.get sampleTaking_isSome).1.db.documents.find 1).isSome = true := by decide +kernel

/-- The delivery of the sample job and the sample upload agree. -/
theorem upload_and_worker_agree_sample : ∃ document call u upload,
    (sampleTaking.get sampleTaking_isSome).1.uploads call = some u ∧ FromUpload document u ∧
      validateFile sampleUnicode deliveryEnv 26214400 upload = .ok u.data.file ∧
      Agrees deliveryEnv 26214400 sampleSurroundings
        (sampleTaking.get sampleTaking_isSome).1.db sampleTakenJob document upload.content := by
  obtain ⟨h, hr, hvalidated⟩ := sampleTaking_history
  have hread : ∀ db, sampleSurroundings.beforeRead db = db := fun _ => rfl
  obtain ⟨document, hdocument⟩ := Option.isSome_iff_exists.mp sampleTaking_live
  exact ⟨document, upload_and_worker_agree hr hvalidated
    (World.claim_of_perform sampleTaking_granted) rfl
    (fun _ => sampleSurroundings_unfenced ..) trivial (hread _) hdocument⟩

end MiniDms
