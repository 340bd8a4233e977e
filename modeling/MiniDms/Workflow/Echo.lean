import MiniDms.Validation.Fields
import MiniDms.Workflow.MetadataEdits
import MiniDms.Workflow.Uploaded

/-! # Echoing a document

Every value in the five editable columns has gone through the validators of an upload or of a PATCH.
They return such a value as it is, and it differs from nothing: sent back under the current revision
it is accepted and nothing is written. -/

namespace MiniDms

open Python Relational TransitionSystem

/-! ## The stored values -/

/-- The editable columns hold validated values. -/
def DocumentColumns.Valid (document : DocumentColumns) : Prop :=
  ∀ f : Field, f.Valid (document.getField f)

/-- The uploads and edits that enter have been accepted. -/
structure AcceptedInputs (x : Step) : Prop where
  upload : AcceptedUpload x
  edit : ∀ request data draw, x.event = .partialUpdate request (.ok data) draw →
    ∃ stack, data.Accepted stack

/-- The row of an accepted upload holds validated values. -/
theorem UploadData.Accepted.valid {stack : CallStack} {u : Upload} (h : u.data.Accepted stack)
    (ids : UploadIds) (actual : StorageKey) (now : Timestamp) :
    (u.document ids actual now).Valid := by
  intro f
  cases f with
  | title =>
      obtain ⟨text, htext⟩ := h.title
      exact ⟨(charField_eq_ok_iff.mp htext).2, rfl⟩
  | description =>
      obtain ⟨text, htext⟩ := h.description
      exact ⟨(charField_eq_ok_iff.mp htext).2, rfl⟩
  | documentType =>
      obtain ⟨text, htext⟩ := h.documentType
      exact ⟨(charField_eq_ok_iff.mp htext).2, rfl⟩
  | tags =>
      obtain ⟨value, tags, htags, hdata⟩ := h.tags
      have hdistinct : Json.distinct u.data.tags = true := by
        rw [hdata]
        exact Json.distinct_list_map_str tags
      exact ⟨⟨tags, keptTags_of_validateTags htags, hdata⟩, hdistinct⟩
  | metadata =>
      obtain ⟨value, hvalue⟩ := h.metadata
      obtain ⟨hacceptable, heq⟩ := validateMetadata_eq_ok_iff.mp hvalue
      have haccepted : AcceptableMetadata u.data.metadata := heq ▸ hacceptable
      exact ⟨haccepted, h.keys⟩

/-- An accepted edit of a row with validated values leaves one. -/
theorem Patch.Accepted.valid_edit {stack : CallStack} {data : Patch} (h : data.Accepted stack)
    {document : DocumentColumns} (hdocument : document.Valid) (now : Timestamp) :
    (data.edit now document).Valid := by
  intro f
  rw [Patch.getField_edit]
  split
  · cases hf : data f with
    | none => exact hdocument f
    | some value =>
        obtain ⟨given, hvalue, hgiven⟩ := h f value hf
        exact Field.valid_of_validateField hvalue hgiven
  · exact hdocument f

/-- **In every run whose uploads and edits were accepted** the rows hold validated values. -/
theorem valid_of_history {env : Env} {h : List Step} {w : World} (hr : History env h w)
    (hinputs : ∀ x ∈ h, AcceptedInputs x) {id : Uuid} {row : Document}
    (hrow : w.db.documents.find id = some row) : row.toDocumentColumns.Valid := by
  refine hr.induct_past (fun _ w => ∀ row, w.db.documents.find id = some row →
      row.toDocumentColumns.Valid) (fun _ hrow => nomatch hrow)
    (fun h x hr hpast hv hx ih row' hrow' => ?_) hinputs row hrow
  obtain ⟨hw, hp⟩ := provenance_of_history hr
  obtain ⟨row, hrow, -, hsame | ⟨request, data, draw, hevent, hcolumns⟩⟩ |
    ⟨c, u, ids, actual, draw, jobId, fault, ack, -, hu, -, rfl⟩ :=
    ((World.perform_effect hv).documentMove hw hp id).content hrow'
  · -- The columns are those of the row before.
    intro f
    rw [← hsame f]
    exact ih row hrow f
  · obtain ⟨stack, haccepted⟩ := hx.edit request data draw hevent
    rw [hcolumns]
    exact haccepted.valid_edit (ih row hrow) draw.now
  · -- The call entered with data that had been accepted.
    obtain ⟨stack, haccepted⟩ := accepted_of_history hr (fun y hy => (hpast y hy).upload) hu
    exact haccepted.valid ids actual draw.now

/-! ## The echo -/

/-- The body that sends the listed fields back as they were answered. -/
def echo (fields : List Field) (document : DocumentColumns) : Json :=
  .dict (fields.map fun f => (f.name, f.toJson (document.getField f)))

/-- The data it stands for. -/
def echoed (fields : List Field) (document : DocumentColumns) : Patch :=
  fun f => if f ∈ fields then some (document.getField f) else none

variable {document : DocumentColumns}

/-- Fields have different names. -/
theorem Field.name_injective {f g : Field} (h : f.name = g.name) : f = g := by
  cases f <;> cases g <;> revert h <;> decide

/-- Every field is writable. -/
theorem Field.name_mem_writable (f : Field) :
    f.name ∈ (metadataSerializer fun body => (.ok body : Except Detail _)).writable := by
  cases f <;> decide

/-- What an echo has under the name of a field. -/
theorem lookup_echo (fields : List Field) (document : DocumentColumns) (f : Field) :
    (fields.map fun g => (g.name, g.toJson (document.getField g))).lookup f.name =
      if f ∈ fields then some (f.toJson (document.getField f)) else none := by
  induction fields with
  | nil => rfl
  | cons g fields ih =>
      rw [List.map_cons, List.lookup_cons]
      by_cases hfg : f = g
      · subst hfg
        rw [beq_self_eq_true, if_pos List.mem_cons_self]
      · have hname : (f.name == g.name) = false := by
          rw [beq_eq_false_iff_ne]
          exact fun h => hfg (Field.name_injective h)
        have hmem : f ∈ g :: fields ↔ f ∈ fields := by simp [hfg]
        simp only [hname, ih, hmem]

/-- **An echo of validated values is accepted** as it is. -/
theorem validatePatch_echo (hdocument : document.Valid) (stack : CallStack) (fields : List Field) :
    validatePatch stack (echo fields document) = .ok (echoed fields document) := by
  have hwritable : ∀ item ∈ fields.map fun f => (f.name, f.toJson (document.getField f)),
      item.1 ∈ (metadataSerializer fun body => (.ok body : Except Detail _)).writable := by
    intro item hitem
    obtain ⟨f, -, rfl⟩ := List.mem_map.mp hitem
    exact f.name_mem_writable
  refine bind_eq_ok.mpr ⟨_, runValidation_of_writable hwritable, validateFields_eq_ok fun f => ?_⟩
  rw [suppliedField, lookup_echo, echoed]
  split
  next hlookup =>
    split at hlookup
    · cases hlookup
    next hmem => rw [if_neg hmem]
  next value hlookup =>
    split at hlookup
    next hmem =>
      cases hlookup
      rw [(hdocument f).accepted.validateField stack, if_pos hmem]
      rfl
    · cases hlookup

/-- The data of an echo has been validated. -/
theorem echoed_validated (hdocument : document.Valid) (stack : CallStack) (fields : List Field) :
    (echoed fields document).Validated stack := by
  have hvalue : ∀ f value, echoed fields document f = some value → value = document.getField f := by
    intro f value h
    unfold echoed at h
    split at h
    · exact (Option.some.inj h).symm
    · cases h
  constructor
  · intro value h
    obtain rfl := hvalue .metadata value h
    exact validateMetadata_eq_ok_iff.mpr ⟨(hdocument .metadata).accepted, rfl⟩
  · intro value h
    obtain rfl := hvalue .metadata value h
    exact (hdocument .metadata).distinct
  · intro value h
    obtain rfl := hvalue .tags value h
    obtain ⟨tags, hkept, heq⟩ := (hdocument .tags).accepted
    exact ⟨_, tags, hkept.validateTags, heq⟩

/-- An echo changes no field. -/
theorem changed_echoed (hdocument : document.Valid) (stack : CallStack) (fields : List Field) :
    (echoed fields document).changed document = [] := by
  have hvalidated := echoed_validated hdocument stack fields
  refine List.filter_eq_nil_iff.mpr fun f _ => ?_
  cases hf : echoed fields document f with
  | none => simp
  | some value =>
      have hself : value = document.getField f := by
        unfold echoed at hf
        split at hf
        · exact (Option.some.inj hf).symm
        · cases hf
      rw [Option.any_some, hvalidated.differs_eq hf, ← hself,
        f.same_counted (hvalidated.same_self hf)]
      exact Bool.false_ne_true

/-- **Echoing a document back is a no-op.** In every run whose uploads and edits were accepted, a
PATCH under the current revision with any of the fields as GET answers them is accepted, leaves the
database as it is and answers the same document; and whatever a validator returned it returns
again. -/
theorem echo_is_noop {env : Env} {h : List Step} {w : World} (hr : History env h w)
    (hinputs : ∀ x ∈ h, AcceptedInputs x) {request : Request} {document : DocumentObject}
    (hget : getObject w.db request.user request.pk = .ok document)
    (hmatch : request.ifMatch = some (etag document.revision)) (fields : List Field)
    (stack : CallStack) (draw : Draw) :
    (∃ data, validatePatch stack (echo fields document.toDocumentColumns) = .ok data) ∧
      partialUpdate env w.db draw request
        ((validatePatch stack (echo fields document.toDocumentColumns)).mapError
          Raised.toApiError) = .ok (w.db, document) ∧
      ∀ (stack' : CallStack) (f : Field) (given : Json) (value : f.Value),
        validateField stack' f given = .ok value →
          validateField stack f (f.toJson value) = .ok value := by
  obtain ⟨row, hrow, hscope, rfl⟩ := getObject_eq_ok_iff.mp hget
  have hvalid : row.toDocumentColumns.Valid := valid_of_history hr hinputs hrow
  have haccepted := validatePatch_echo hvalid stack fields
  have hchanged := changed_echoed hvalid stack fields
  refine ⟨⟨_, haccepted⟩, ?_, fun _ _ _ _ hvalue => validateField_idempotent hvalue⟩
  have hbody : (validatePatch stack (echo fields row.defer.toDocumentColumns)).mapError
      Raised.toApiError = .ok (echoed fields row.toDocumentColumns) := by
    rw [Document.defer, haccepted]
    rfl
  obtain ⟨document, hpatch⟩ : ∃ document, partialUpdate env w.db draw request
      (.ok (echoed fields row.toDocumentColumns)) =
        .ok (w.db.edit env draw request (echoed fields row.toDocumentColumns) row, document) :=
    partialUpdate_eq_ok_iff.mpr ⟨row, _, hrow, hscope, rfl, hmatch, rfl⟩
  rw [hbody, hpatch]
  obtain ⟨row', data, hrow', -, hdata, -, ⟨-, hdb, hdocument⟩ | ⟨hchanged', -⟩⟩ :=
    partialUpdate_cases hpatch
  · rw [hrow] at hrow'
    cases hrow'
    rw [hdb, hdocument]
  · rw [hrow] at hrow'
    cases hrow'
    cases hdata
    exact absurd hchanged hchanged'

/-- Describe the document as paid. -/
def describe : Patch
  | .description => some (lit "paid")
  | _ => none

/-- The sample upload, and an edit that describes the document. -/
def describedEvents : List Event :=
  sampleUpload ++ [.partialUpdate ⟨sampleUser, 1, some (etag 1), 101⟩ (.ok describe) ⟨1500, 9⟩]

/-- Its run, if every event of it is possible. -/
def sampleDescribed : Option (List Step × World) :=
  Run.execute (World.perform sampleEnv) ([], .init) describedEvents

/-- Every event of it is possible. -/
theorem sampleDescribed_isSome : sampleDescribed.isSome = true := by decide +kernel

/-- The edit passes its validator. -/
theorem describe_accepted : describe.Accepted sampleStack := by
  intro f value h
  cases f with
  | description =>
      cases h
      exact ⟨.str (lit "paid"), sampleTexts_valid.2.charField, rfl⟩
  | documentType | metadata | tags | title => cases h

/-- The edited document, as its owner gets it. -/
theorem sampleDescribed_found :
    (((sampleDescribed.get sampleDescribed_isSome).2.db.documents.find 1).any fun row =>
      scopedDocuments sampleUser row && row.revision = 2) = true := by decide +kernel

/-- The inputs of the run were accepted. -/
theorem sampleDescribed_inputs : ∀ x ∈ (sampleDescribed.get sampleDescribed_isSome).1,
    AcceptedInputs x := by
  intro x hx
  have hmem : x.event ∈ describedEvents :=
    Run.event_mem_of_isSome rfl sampleDescribed_isSome hx
  constructor
  · intro call user data key requestId hevent
    rw [hevent] at hmem
    obtain rfl : data = sampleData := by
      simp only [describedEvents, sampleUpload, List.cons_append, List.nil_append, List.mem_cons,
        List.not_mem_nil, or_false, reduceCtorEq] at hmem
      cases hmem
      rfl
    exact ⟨_, sampleData_accepted⟩
  · intro request data draw hevent
    rw [hevent] at hmem
    obtain rfl : data = describe := by
      simp only [describedEvents, sampleUpload, List.cons_append, List.nil_append, List.mem_cons,
        List.not_mem_nil, or_false, reduceCtorEq, false_or] at hmem
      cases hmem
      rfl
    exact ⟨_, describe_accepted⟩

/-- The described document is echoed with its title and its tags. -/
theorem echo_is_noop_sample : ∃ document : DocumentObject,
    partialUpdate sampleEnv (sampleDescribed.get sampleDescribed_isSome).2.db ⟨2500, 11⟩
        ⟨sampleUser, 1, some (etag 2), 102⟩
        ((validatePatch sampleStack (echo [.title, .tags] document.toDocumentColumns)).mapError
          Raised.toApiError) =
      .ok ((sampleDescribed.get sampleDescribed_isSome).2.db, document) := by
  obtain ⟨row, hrow, hfound⟩ := (Option.any_eq_true _ _).mp sampleDescribed_found
  rw [Bool.and_eq_true, decide_eq_true_eq] at hfound
  have hmatch : some (etag 2) = some (etag row.defer.revision) := by
    rw [Document.defer, hfound.2]
  have hget : getObject (sampleDescribed.get sampleDescribed_isSome).2.db sampleUser 1 =
      .ok row.defer := getObject_eq_ok_iff.mpr ⟨row, hrow, hfound.1, rfl⟩
  have hr : History sampleEnv (sampleDescribed.get sampleDescribed_isSome).1
      (sampleDescribed.get sampleDescribed_isSome).2 := Run.of_isSome rfl sampleDescribed_isSome
  exact ⟨row.defer, (@echo_is_noop sampleEnv _ _ hr sampleDescribed_inputs
    ⟨sampleUser, 1, some (etag 2), 102⟩ row.defer hget hmatch [.title, .tags] sampleStack
    ⟨2500, 11⟩).2.1⟩

end MiniDms
