import MiniDms.Validation.UploadForms
import MiniDms.Workflow.Downloads
import MiniDms.Workflow.Echo
import MiniDms.Workflow.Integrity
import MiniDms.Workflow.Revision

/-! # Uploading a downloaded document

A client that keeps what GET and the download answer can send it back as an upload form. The form is
accepted with the same metadata and the same file, and as long as nobody has edited the document it
is the upload that made it: under the same key it is answered with the document. -/

namespace MiniDms

open Python Relational TransitionSystem

/-! ## The call a document comes from -/

/-- The metadata of the row is that of the payload. -/
structure MetadataOf (d : DocumentColumns) (data : UploadData) : Prop where
  title : data.title = d.title
  description : data.description = d.description
  documentType : data.documentType = d.documentType
  tags : data.tags = d.tags
  metadata : data.metadata = d.metadata

/-- The call that created the document of a row. -/
structure CallOf (env : Env) (w : World) (d : Document) (u : Upload) : Prop where
  call : ∃ c ids, w.uploads c = some u ∧ u.ids = some ids ∧ ids.documentId = d.id
  source : FromUpload d u
  fingerprinted : u.Fingerprinted env

/-- It goes on existing, with its payload. -/
theorem CallOf.step {env : Env} {w w' : World} {e : Event} {d : Document} {u : Upload}
    (h : CallOf env w d u) (hun : Undrawn w) (he : Effect env w e w') :
    ∃ u', CallOf env w' d u' ∧ u'.data = u.data := by
  obtain ⟨c, ids, hu, hids, hdoc⟩ := h.call
  obtain ⟨u', hu', hids', hdata⟩ := he.call_stays hun hu hids
  refine ⟨u', ?_, hdata⟩
  obtain ⟨hstay, -⟩ | ⟨move, u'', -, hu'', ha⟩ := he.upload_stays hu
  · rw [hstay] at hu'
    cases hu'
    exact ⟨⟨c, ids, hstay, hids, hdoc⟩, h.source, h.fingerprinted⟩
  · rw [hu''] at hu'
    cases hu'
    refine ⟨⟨c, ids, hu'', hids', hdoc⟩, h.source.advance ha, ?_⟩
    rw [Upload.Fingerprinted, ha.data, ha.parameters.2.2]
    exact h.fingerprinted

/-- What a row has of the metadata it was created with: all of it, as long as the revision is the
first. -/
structure Unedited (d : Document) (data : UploadData) : Prop where
  revised : 1 ≤ d.revision
  unedited : d.revision = 1 → MetadataOf d.toDocumentColumns data

/-- A move that raises the revision, or keeps it with the metadata, keeps this. -/
theorem Unedited.move {d d' : Document} {data : UploadData} (h : Unedited d data)
    (hrevision : d.revision < d'.revision ∨ d.revision = d'.revision ∧ SameMetadata d d') :
    Unedited d' data := by
  obtain hlt | ⟨heq, ht, hde, hty, htg, hm⟩ := hrevision
  · refine ⟨h.revised.trans hlt.le, fun hfirst => ?_⟩
    have hrevised := h.revised
    omega
  · refine ⟨heq ▸ h.revised, fun hfirst => ?_⟩
    obtain ⟨ht', hde', hty', htg', hm'⟩ := h.unedited (heq.trans hfirst)
    exact ⟨ht'.trans ht, hde'.trans hde, hty'.trans hty, htg'.trans htg, hm'.trans hm⟩

/-- In every reachable state a call before its intent has no identifiers. -/
theorem undrawn_of_history {env : Env} {h : List Step} {w : World} (hr : History env h w) :
    Undrawn w :=
  hr.induct (fun _ w => Undrawn w) (fun _ _ hu => nomatch hu)
    (fun _ _ _ hv (_ : True) ih => ih.step (World.perform_effect hv)) fun _ _ => trivial

/-- **In every reachable state** a live document has the call that created it. -/
theorem callOf_of_history {env : Env} {h : List Step} {w : World} (hr : History env h w) {id : Uuid}
    {d : Document} (hd : w.db.documents.find id = some d) :
    ∃ u, CallOf env w d u ∧ Unedited d u.data := by
  refine hr.induct (fun _ w => ∀ d, w.db.documents.find id = some d →
    ∃ u, CallOf env w d u ∧ Unedited d u.data)
    (fun _ hd => nomatch hd) (fun h x hr hv (_ : True) ih d' hd' => ?_) (fun _ _ => trivial) d hd
  obtain ⟨hw, hp⟩ := provenance_of_history hr
  have he := World.perform_effect hv
  have hun := undrawn_of_history hr
  have hmove := he.documentMove hw hp id
  obtain ⟨d, hrow, hsource, -⟩ | ⟨c, u, ids, actual, draw, jobId, fault, ack, -, hu, hpc, rfl⟩ :=
    hmove.content hd'
  · have hfind : x.pre.db.documents.find id = some d := hrow
    obtain ⟨d₀, hrow₀, hrevision⟩ := hmove.revision (hp.born hw hfind) hd'
    rw [hrow] at hrow₀
    cases hrow₀
    have hid : d'.id = d.id := (Db.document_id hd').trans (Db.document_id hfind).symm
    obtain ⟨u, hcall, hmetadata⟩ := ih d hfind
    obtain ⟨u', hcall', hdata⟩ := hcall.step hun he
    obtain ⟨c, ids, hu, hids, hdoc⟩ := hcall'.call
    refine ⟨u', ⟨⟨c, ids, hu, hids, hdoc.trans hid.symm⟩, hsource.fromUpload hcall'.source,
      hcall'.fingerprinted⟩, ?_⟩
    rw [hdata]
    exact hmetadata.move hrevision
  · -- The row the call has just created.
    have hids := hw.coherent c u hu ids (by rw [hpc]; rfl)
    have hfingerprinted : u.Fingerprinted env := by
      obtain hfingerprint | hraised := fingerprinted_of_history hr hu
      · exact hfingerprint
      · rw [hpc] at hraised
        cases hraised
    have hcall : CallOf env x.pre (.indexed env (u.document ids actual draw.now) []) u :=
      ⟨⟨c, ids, hu, hids, rfl⟩, fromUpload_document env u ids actual draw.now, hfingerprinted⟩
    obtain ⟨u', hcall', hdata⟩ := hcall.step hun he
    refine ⟨u', hcall', le_rfl, fun _ => ?_⟩
    rw [hdata]
    exact ⟨rfl, rfl, rfl, rfl, rfl⟩

/-! ## The file -/

variable {unicode : UnicodeData} {env : Env} {maxUploadBytes : Int}

/-- A cleaned name has no separators and is its own last component. -/
theorem lastComponent_of_no_separator {name : Str} (hslash : codePoint '/' ∉ name)
    (hback : codePoint '\\' ∉ name) : lastComponent name = name := by
  have hmap : (name.map fun c => if c = codePoint '\\' then codePoint '/' else c) = name := by
    refine (List.map_congr_left fun c hc => ?_).trans (List.map_id' name)
    rw [if_neg]
    rintro rfl
    exact hback hc
  rw [lastComponent, hmap, List.rtakeWhile_eq_self_iff]
  intro c hc
  refine decide_eq_true ?_
  rintro rfl
  exact hslash hc

/-- **Cleaning a name is idempotent.** -/
theorem cleanName_cleanName (name : Str) :
    cleanName unicode (cleanName unicode name) = cleanName unicode name := by
  have hsub : ∀ {c}, c ∈ cleanName unicode name → c ∈ lastComponent name := fun hc =>
    (List.mem_filter.mp hc).1
  obtain ⟨hslash, hback⟩ := not_mem_lastComponent name
  have hlast := lastComponent_of_no_separator (mt hsub hslash) (mt hsub hback)
  rw [cleanName, hlast, List.filter_eq_self]
  exact fun c hc => (List.mem_filter.mp hc).2

/-- No type is detected in an empty file. -/
theorem detectType_nil : detectType [] = none := rfl

/-- **An accepted file is accepted again**, under the name, the size and the bytes it was accepted
with, and however it is cut. -/
theorem fileField_of_accepted {upload again : RawUpload} {file : UploadedFile}
    (h : validateFile unicode env maxUploadBytes upload = .ok file) (hname : again.name = file.name)
    (hsize : again.size = file.size) (hcontent : again.content = file.content) :
    fileField unicode env maxUploadBytes (.file again) = .ok file := by
  obtain ⟨hlimit, hlength, ⟨hne, hshort⟩, detected, hdetect, hexpected, rfl⟩ :=
    validateFile_eq_ok_iff.mp h
  have hname : again.name = cleanName unicode upload.name := hname
  have hsize : again.size = upload.size := hsize
  have hcontent : again.content = upload.content := hcontent
  have hclean : cleanName unicode again.name = cleanName unicode upload.name := by
    rw [hname, cleanName_cleanName]
  refine fileField_eq_ok_iff.mpr ⟨again, rfl, hname ▸ hne, ?_, validateFile_eq_ok_iff.mpr ?_⟩
  · intro hzero
    have hnil : upload.content = [] := List.length_eq_zero_iff.mp (by rw [hlength, ← hsize, hzero])
    rw [hnil, detectType_nil] at hdetect
    cases hdetect
  · rw [hclean, hsize, hcontent]
    exact ⟨hlimit, hlength, ⟨hne, hshort⟩, detected, hdetect, hexpected, rfl⟩

/-! ## The form -/

/-- The text is one of the value, with any whitespace between and around its parts, and nests no
deeper than the levels left to the scanner. -/
def Spells (stack : CallStack) (v : Json) (text : Str) : Prop :=
  ∃ w t w', Json.Blank w ∧ Json.ValueText stack.decoder v t ∧ Json.Blank w' ∧ text = w ++ (t ++ w')

/-- Such a text is read as the value. -/
theorem Spells.loads {stack : CallStack} {v : Json} {text : Str} (h : Spells stack v text) :
    Json.loads stack.decoder text = .ok v := by
  obtain ⟨w, t, w', hw, ht, hw', rfl⟩ := h
  exact ht.loads hw hw'

/-- The form sends back what GET and the download have answered: the texts as they are, tags and
metadata in any JSON text the scanner has levels for, the file under its name and in any chunks, and
nothing else. -/
structure Resends (stack : CallStack) (form : Form) (document : DocumentColumns)
    (attachment : Attachment) : Prop where
  known : unknownNames form = []
  title : form.get (lit "title") = some (.text document.title)
  description : form.get (lit "description") = some (.text document.description)
  documentType : form.get (lit "document_type") = some (.text document.documentType)
  tags : ∃ text, form.get (lit "tags") = some (.text text) ∧ Spells stack document.tags text
  metadata : ∃ text, form.get (lit "metadata") = some (.text text) ∧
    Spells stack document.metadata text
  file : ∃ upload, form.get (lit "file") = some (.file upload) ∧
    upload.name = attachment.filename ∧ upload.size = attachment.contentLength ∧
    upload.content = attachment.content

/-- A valid text is accepted as it is. -/
theorem textField_of_valid {maxLength : Nat} {allowBlank : Bool} {value : Str}
    (h : ValidText maxLength allowBlank value) :
    textField maxLength allowBlank (.text value) = .ok value :=
  textField_eq_ok_iff.mpr ⟨h.charField, fun _ => ⟨value, rfl⟩⟩

/-- **A form that sends a document back is accepted**, with its metadata and its file. -/
theorem validateUpload_of_resends {stack : CallStack} {form : Form} {document : DocumentColumns}
    {attachment : Attachment} (hvalid : document.Valid)
    (hform : Resends stack form document attachment) {upload : RawUpload} {file : UploadedFile}
    (hfile : validateFile unicode env maxUploadBytes upload = .ok file)
    (hname : attachment.filename = file.name) (hsize : attachment.contentLength = file.size)
    (hcontent : attachment.content = file.content) :
    validateUpload stack unicode env maxUploadBytes form = .ok
      ⟨document.title, document.description, document.documentType, document.tags,
        document.metadata, file⟩ := by
  have hfield : ∀ {α : Type} {name : Str} {absent : Except FieldFailure α}
      {present : FormValue → Except FieldFailure α} {value : FormValue} {a : α},
      form.get name = some value → present value = .ok a → form.field name absent present = .ok a :=
    fun hget hpresent => Form.field_eq_ok_iff.mpr (.inr ⟨_, hget, hpresent⟩)
  refine validateUpload_eq_ok_iff.mpr ⟨hform.known, ?_, ?_, ?_, ?_, ?_, ?_⟩
  · exact hfield hform.title (textField_of_valid (hvalid .title).accepted)
  · exact hfield hform.description (textField_of_valid (hvalid .description).accepted)
  · exact hfield hform.documentType (textField_of_valid (hvalid .documentType).accepted)
  · obtain ⟨text, hget, htext⟩ := hform.tags
    obtain ⟨tags, hkept, heq⟩ := (hvalid .tags).accepted
    refine hfield hget (tagsField_eq_ok_iff.mpr ⟨document.tags, tags, ?_, ?_, heq⟩)
    · rw [multipartTags, FormValue.str, (jsonField stack).decodes _ _ htext.loads]
    · have heq : document.tags = .list (tags.map .str) := heq
      rw [heq]
      exact hkept.validateTags
  · obtain ⟨text, hget, htext⟩ := hform.metadata
    exact hfield hget (metadataField_eq_ok_iff.mpr
      ⟨htext.loads, validateMetadata_eq_ok_iff.mpr ⟨(hvalid .metadata).accepted, rfl⟩⟩)
  · obtain ⟨again, hget, hagain⟩ := hform.file
    obtain ⟨hname', hsize', hcontent'⟩ := hagain
    exact hfield hget (fileField_of_accepted hfile (hname'.trans hname) (hsize'.trans hsize)
      (hcontent'.trans hcontent))

/-- The form with what `json.dumps` writes of tags and metadata, and the file in one chunk. -/
def resent (document : DocumentColumns) (attachment : Attachment) : Form :=
  [(lit "title", .text document.title), (lit "description", .text document.description),
    (lit "document_type", .text document.documentType), (lit "tags", .text document.tags.dumps),
    (lit "metadata", .text document.metadata.dumps),
    (lit "file", .file ⟨attachment.filename, attachment.contentLength, attachment.content,
      [attachment.content], List.flatten_singleton⟩)]

/-- What `dumps` writes of a shallow value spells it. -/
theorem spells_dumps {stack : CallStack} {v : Json} (hfinite : v.finite = true)
    (hprint : v.printable = true) (hdistinct : v.distinct = true) (hshallow : v.nesting ≤ 5) :
    Spells stack v v.dumps := by
  have hroom := stack.room
  exact ⟨[], v.dumps, [], Json.blank_nil,
    Json.valueText_dumps v stack.decoder hfinite hprint hdistinct (by omega), Json.blank_nil,
    (List.append_nil _).symm⟩

/-- **Every document can be sent back.** -/
theorem resends_resent {document : DocumentColumns} (hvalid : document.Valid)
    (attachment : Attachment) (stack : CallStack) :
    Resends stack (resent document attachment) document attachment where
  known := by
    show (uploadNames.dedup.filter (· ∉ uploadNames)).insertionSort (· ≤ ·) = []
    decide
  title := rfl
  description := rfl
  documentType := rfl
  tags := by
    obtain ⟨tags, -, heq⟩ := (hvalid .tags).accepted
    have heq : document.tags = .list (tags.map .str) := heq
    refine ⟨_, rfl, spells_dumps ?_ ?_ (hvalid .tags).distinct ?_⟩
    · rw [heq]
      exact Json.finite_list_map_str tags
    · rw [heq]
      exact printable_list_map_str tags
    · rw [heq, Json.nesting_list_map_str]
      decide
  metadata :=
    have haccepted : AcceptableMetadata document.metadata := (hvalid .metadata).accepted
    ⟨_, rfl, spells_dumps haccepted.finite haccepted.printable (hvalid .metadata).distinct
      haccepted.shallow⟩
  file := ⟨_, rfl, rfl, rfl, rfl⟩

/-! ## The round trip -/

/-- A call under the key of a live document of its owner with the fingerprint of that document is
answered with it, and changes nothing. -/
theorem Upload.step_replays {w : World} (hk : KeysUnique w.db) {d : Document}
    (hd : w.db.documents.find d.id = some d) {u : Upload} {k : Str} (hpc : u.pc = .entered)
    (howner : d.owner = u.user.pk) (hkey : u.key = some k)
    (hvalid : validateIdempotencyKey (some k) = .ok (some k)) (hdkey : d.idempotencyKey = some k)
    (hfingerprint : d.requestFingerprint = u.fingerprint) :
    u.step env w.db w.store (.check false) =
      some (w.db, w.store, u.goto (.returned d.load false)) := by
  -- The world in which the call has entered.
  have hcontends : Contends (w.setUpload 0 u) 0 u d :=
    ⟨by simp [World.setUpload], hd, howner, k, hvalid, hkey, hdkey⟩
  have hreplay : replay w.db u.user u.key u.fingerprint = .ok (some d) := by
    have h := hcontends.replay (show KeysUnique (w.setUpload 0 u).db from hk)
    rw [if_neg (not_not.mpr hfingerprint)] at h
    exact h
  simp only [Upload.step, hpc, hreplay, Bool.false_eq_true, if_false]

/-- **A downloaded document can be uploaded again.** In every run in which no worker claims the
intent of a call that is still running and whose uploads and edits were accepted, whatever a user
sees and downloads of a document can be sent back as a form, with its tags and metadata in any JSON
text that nests no deeper than the scanner has levels for: it is accepted, with the same metadata,
the same file and the same digest. And when the revision is the first and the owner sends it under
the key of the document, it is the upload that made the document: the call is answered with the
document, at once, and nothing changes. -/
theorem downloaded_document_uploads_again {h : List Step} {w : World} (hr : History env h w)
    (hg : ∀ x ∈ h, Graceful x) (hinputs : ∀ x ∈ h, AcceptedInputs x)
    (hfiles : ∀ x ∈ h, FilesValidated unicode env maxUploadBytes x) {user : User} {id : Uuid}
    {document : DocumentObject} {attachment : Attachment}
    (hget : getObject w.db user id = .ok document)
    (hdownload : download w.db w.store user id = .ok attachment) {stack : CallStack} {form : Form}
    (hform : Resends stack form document.toDocumentColumns attachment) :
    ∃ data, validateUpload stack unicode env maxUploadBytes form = .ok data ∧
      MetadataOf document.toDocumentColumns data ∧ data.attachment = attachment ∧
      data.file.sha256 = document.sha256 ∧
      (document.revision = 1 → ∀ owner k requestId, owner.pk = document.owner →
        document.idempotencyKey = some k → validateIdempotencyKey (some k) = .ok (some k) →
        ∃ answer : DocumentObject, answer.toDocumentColumns = document.toDocumentColumns ∧
          (Upload.enter env owner data (some k) requestId).step env w.db w.store (.check false) =
            some (w.db, w.store, (Upload.enter env owner data (some k) requestId).goto
              (.returned answer false))) := by
  obtain ⟨row, hrow, hscope, rfl⟩ := getObject_eq_ok_iff.mp hget
  have hid : row.id = id := Db.document_id hrow
  obtain ⟨u, hcall, hunedited⟩ := callOf_of_history hr hrow
  have hfrom := hcall.source
  obtain ⟨c, ids, hu, hids, hdoc⟩ := hcall.call
  obtain ⟨x, hx, requestId, hevent⟩ := entered_of_history hr hu
  obtain ⟨upload, hupload⟩ := hfiles x hx c u.user u.data u.key requestId hevent
  -- The object is the file of the call.
  have hstore : w.store row.storageKey = some u.data.file.content := by
    obtain ⟨c', u', ids', hu', hids', hdoc', hstore⟩ :=
      ((safe_of_history hr hg).stored _ row hrow).object
    by_cases hc : c' = c
    · rw [hc, hu] at hu'
      cases hu'
      exact hstore
    · refine absurd ?_ ((provenance_of_history hr).2.apart c' c u' u ids' ids hu' hu hids' hids hc).1
      rw [hdoc', hdoc]
  have hattachment : u.data.attachment = attachment := by
    rw [download_of_find hrow hstore, if_pos hscope, hfrom.filename, hfrom.mimeType,
      hfrom.size] at hdownload
    exact Except.ok.inj hdownload
  subst hattachment
  refine ⟨_, validateUpload_of_resends (valid_of_history hr hinputs hrow) hform hupload rfl rfl rfl,
    ⟨rfl, rfl, rfl, rfl, rfl⟩, rfl, hfrom.sha256.symm, ?_⟩
  intro hfirst owner k requestId howner hkey hvalid
  obtain ⟨htitle, hdescription, htype, htags, hmetadata⟩ := hunedited.unedited hfirst
  have hdata : (⟨row.title, row.description, row.documentType, row.tags, row.metadata,
      u.data.file⟩ : UploadData) = u.data := by
    rw [← htitle, ← hdescription, ← htype, ← htags, ← hmetadata]
  have hfingerprint : fingerprint env u.data = some u.fingerprint := hcall.fingerprinted
  refine ⟨row.load, rfl, Upload.step_replays (keysUnique_of_history hr) (hid ▸ hrow) ?_ howner.symm
    rfl hvalid hkey ?_⟩
  · show (if (fingerprint env _).isSome then _ else _) = _
    rw [show (fingerprint env _) = _ from (congrArg _ hdata).trans hfingerprint]
    rfl
  · rw [hfrom.requestFingerprint]
    show _ = (fingerprint env _).getD []
    rw [show (fingerprint env _) = _ from (congrArg _ hdata).trans hfingerprint]
    rfl

/-- The state after the sample upload, with the digest of the sample file. -/
def sampleStoringWorld : World := (sampleStoring.get sampleStoring_isSome).2

/-- The state after the sample upload is reachable. -/
theorem sampleStoring_history :
    History deliveryEnv (sampleStoring.get sampleStoring_isSome).1 sampleStoringWorld :=
  Run.of_isSome rfl sampleStoring_isSome

/-- Every event of it is one of the upload. -/
theorem sampleStoring_event {x : Step} (hx : x ∈ (sampleStoring.get sampleStoring_isSome).1) :
    x.event ∈ sampleUpload := Run.event_mem_of_isSome rfl sampleStoring_isSome hx

/-- The only upload has the sample payload. -/
theorem data_of_mem_sampleUpload {call : Nat} {user : User} {data : UploadData} {key : Option Str}
    {requestId : Uuid} (h : Event.enterUpload call user data key requestId ∈ sampleUpload) :
    data = sampleData := by
  simp only [sampleUpload, List.mem_cons, List.not_mem_nil, or_false, reduceCtorEq] at h
  cases h
  rfl

/-- The inputs of the sample upload were accepted, and its file was validated. -/
theorem sampleStoring_inputs : ∀ x ∈ (sampleStoring.get sampleStoring_isSome).1,
    AcceptedInputs x ∧ FilesValidated sampleUnicode deliveryEnv 26214400 x := by
  intro x hx
  have hmem := sampleStoring_event hx
  refine ⟨⟨fun call user data key requestId hevent => ?_, fun request data draw hevent => ?_⟩,
    fun call user data key requestId hevent => ⟨namedUpload (lit "a.pdf"), ?_⟩⟩
  · rw [hevent] at hmem
    obtain rfl := data_of_mem_sampleUpload hmem
    exact ⟨_, sampleData_accepted⟩
  · rw [hevent] at hmem
    simp [sampleUpload] at hmem
  · rw [hevent] at hmem
    obtain rfl := data_of_mem_sampleUpload hmem
    have hname : cleanName sampleUnicode (lit "a.pdf") = lit "a.pdf" := by decide +kernel
    rw [@validateFile_named deliveryEnv (lit "a.pdf") (by decide +kernel) (by decide +kernel), hname]
    rfl

/-- No intent is claimed in it. -/
theorem sampleStoring_graceful : ∀ x ∈ (sampleStoring.get sampleStoring_isSome).1, Graceful x := by
  refine graceful_of_unclaimed fun x hx => ?_
  have hmem := sampleStoring_event hx
  revert hmem
  generalize x.event = e
  simp only [sampleUpload, List.mem_cons, List.not_mem_nil, or_false]
  rintro (rfl | rfl | rfl | rfl | rfl) <;> rfl

/-- The owner sends the sample document back under its key. -/
theorem downloaded_document_uploads_again_sample :
    ∃ row attachment data, sampleStoringWorld.db.documents.find 1 = some row ∧
      validateUpload sampleStack sampleUnicode deliveryEnv 26214400
        (resent row.toDocumentColumns attachment) = .ok data ∧
      data.attachment = attachment ∧ data.file.sha256 = row.sha256 ∧
      ∃ answer : DocumentObject, answer.id = 1 ∧
        (Upload.enter deliveryEnv sampleUser data (some (lit "k")) 101).step deliveryEnv
            sampleStoringWorld.db sampleStoringWorld.store (.check false) =
          some (sampleStoringWorld.db, sampleStoringWorld.store,
            (Upload.enter deliveryEnv sampleUser data (some (lit "k")) 101).goto
              (.returned answer false)) := by
  obtain ⟨row, hrow, hsample⟩ := (Option.any_eq_true ..).mp
    (show (sampleStoringWorld.db.documents.find 1).any (fun d =>
      scopedDocuments sampleUser d && decide (d.revision = 1) && decide (d.owner = sampleUser.pk) &&
        decide (d.idempotencyKey = some (lit "k")) &&
        (sampleStoringWorld.store d.storageKey).isSome) = true by decide +kernel)
  simp only [Bool.and_eq_true, decide_eq_true_eq] at hsample
  obtain ⟨⟨⟨⟨hscope, hfirst⟩, howner⟩, hkey⟩, hobject⟩ := hsample
  obtain ⟨content, hstore⟩ := Option.isSome_iff_exists.mp hobject
  have hinputs := fun x hx => (sampleStoring_inputs x hx).1
  have hget : getObject sampleStoringWorld.db sampleUser 1 = .ok row.defer :=
    getObject_eq_ok_iff.mpr ⟨row, hrow, hscope, rfl⟩
  have hdownload : download sampleStoringWorld.db sampleStoringWorld.store sampleUser 1 =
      .ok ⟨content, row.filename, row.mimeType, row.size⟩ := by
    rw [download_of_find hrow hstore, if_pos hscope]
  obtain ⟨data, haccepted, -, hattachment, hsha256, hreplay⟩ :=
    downloaded_document_uploads_again sampleStoring_history sampleStoring_graceful hinputs
      (fun x hx => (sampleStoring_inputs x hx).2) hget hdownload
      (resends_resent (valid_of_history sampleStoring_history hinputs hrow) _ sampleStack)
  obtain ⟨answer, hcolumns, hstep⟩ := hreplay hfirst sampleUser (lit "k") 101 howner.symm hkey
    (by decide)
  refine ⟨row, _, data, hrow, haccepted, hattachment, hsha256, answer, ?_, hstep⟩
  have hid : answer.id = row.id := congrArg DocumentColumns.id hcolumns
  exact hid.trans (Db.document_id hrow)

end MiniDms
