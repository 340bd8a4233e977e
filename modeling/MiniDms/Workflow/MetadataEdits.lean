import MiniDms.Python.Identity
import MiniDms.Validation.Metadata
import MiniDms.Validation.Tags
import MiniDms.Workflow.Commutation

/-! # What a PATCH stores

A supplied field is written when Python's `!=` tells it from the stored one. For texts and tags that
is the difference a client sees; in metadata `!=` does not tell a boolean from the number it counts
as, so an edit that only replaces one by the other is answered and dropped. -/

namespace MiniDms

open Python Relational

/-! ## Values of a field -/

/-- Identity of two values of a field. -/
def Field.same : (f : Field) → f.Value → f.Value → Bool
  | .description, a, b | .documentType, a, b | .title, a, b => a = b
  | .metadata, a, b | .tags, a, b => Json.same a b

/-- A value of a field with every boolean counted as a number. -/
def Field.counted : (f : Field) → f.Value → f.Value
  | .description, a | .documentType, a | .title, a => a
  | .metadata, a | .tags, a => a.counted

/-- What the serializer hands to `update_document`: metadata that `validate_metadata` returned, tags
that `validate_tags` returned, and dictionaries with distinct keys. -/
structure Patch.Validated (stack : CallStack) (data : Patch) : Prop where
  metadata : ∀ value, data .metadata = some value → validateMetadata stack value = .ok value
  keys : ∀ value, data .metadata = some value → value.distinct = true
  tags : ∀ value, data .tags = some value →
    ∃ given kept, validateTags given = .ok kept ∧ value = .list (kept.map .str)

variable {stack : CallStack} {data : Patch}

/-- Against a validated value, `!=` is the difference of the counted values. -/
theorem Patch.Validated.differs_eq (hdata : data.Validated stack) {f : Field} {value : f.Value}
    (h : data f = some value) (stored : f.Value) :
    f.differs stored value = !f.same (f.counted stored) (f.counted value) := by
  cases f with
  | description | documentType | title => exact decide_not
  | metadata =>
      have hfinite : Json.finite value = true :=
        (ReachesEncoding.of_ok (hdata.metadata value h)).finite
      simp only [Field.differs, Field.same, Field.counted, Json.eq_eq_same_counted _ _ hfinite]
  | tags =>
      obtain ⟨_, kept, -, rfl⟩ := hdata.tags value h
      simp only [Field.differs, Field.same, Field.counted,
        Json.eq_eq_same_counted _ _ (Json.finite_list_map_str kept)]

/-- A validated value is the same as itself. -/
theorem Patch.Validated.same_self (hdata : data.Validated stack) {f : Field} {value : f.Value}
    (h : data f = some value) : f.same value value = true := by
  cases f with
  | description | documentType | title => exact decide_eq_true rfl
  | metadata => exact Json.same_refl value (hdata.keys value h)
  | tags =>
      obtain ⟨_, kept, -, rfl⟩ := hdata.tags value h
      exact Json.same_refl _ (Json.distinct_list_map_str kept)

/-- Values that are the same stay so when booleans are counted. -/
theorem Field.same_counted (f : Field) {a b : f.Value} (h : f.same a b = true) :
    f.same (f.counted a) (f.counted b) = true := by
  cases f with
  | description | documentType | title => exact h
  | metadata | tags => exact Json.same_counted a b h

/-! ## What an edit assigns -/

/-- Reading a field after an assignment. -/
theorem DocumentColumns.getField_setField (document : DocumentColumns) (f g : Field)
    (value : g.Value) : (document.setField g value).getField f =
      if h : g = f then h ▸ value else document.getField f := by
  cases f <;> cases g <;> rfl

/-- **Reading a field after the assignments of an edit**: the supplied value when the field is among
the assigned ones, and the stored value otherwise. -/
theorem Patch.getField_assign (data : Patch) (fields : List Field) (document : DocumentColumns)
    (f : Field) : (data.assign fields document).getField f =
      if f ∈ fields then (data f).getD (document.getField f) else document.getField f := by
  induction fields generalizing document with
  | nil => rfl
  | cons g fields ih =>
      have hcons : data.assign (g :: fields) document =
          data.assign fields ((data g).elim document (document.setField g)) := rfl
      rw [hcons, ih]
      by_cases hfg : g = f
      · subst hfg
        rw [if_pos List.mem_cons_self]
        cases hg : data g with
        | none => simp
        | some value => simp [DocumentColumns.getField_setField]
      · have hmem : f ∈ g :: fields ↔ f ∈ fields := by simp [Ne.symm hfg]
        have hget : ((data g).elim document (document.setField g)).getField f =
            document.getField f := by
          cases data g with
          | none => rfl
          | some value => simp [DocumentColumns.getField_setField, hfg]
        simp only [hmem, hget]

/-- A field is changed when a differing value is supplied for it. -/
theorem Patch.mem_changed_iff (data : Patch) (document : DocumentColumns) (f : Field) :
    f ∈ data.changed document ↔
      ∃ value, data f = some value ∧ f.differs (document.getField f) value = true := by
  have hall : f ∈ Field.all := by cases f <;> decide
  rw [Patch.changed, List.mem_filter, Option.any_eq_true]
  simp only [hall, true_and]

/-- **Reading a field of an edited row.** -/
theorem Patch.getField_edit (data : Patch) (now : Timestamp) (document : DocumentColumns)
    (f : Field) : (data.edit now document).getField f =
      if f ∈ data.changed document then (data f).getD (document.getField f)
      else document.getField f := by
  rw [← Patch.getField_assign]
  cases f <;> rfl

/-! ## What a PATCH is to store -/

/-- The supplied fields whose value differs from the stored one as a JSON value. -/
def Patch.differing (data : Patch) (document : DocumentColumns) : List Field :=
  Field.all.filter fun f => (data f).any fun value => !f.same (document.getField f) value

/-- The edit stored what was sent: every supplied field has the supplied value and every other field
its old one; the revision grows by one, with one event naming the differing fields, exactly when a
supplied value differs. -/
structure StoresWhatWasSent (db db' : Db) (row row' : Document) (data : Patch) : Prop where
  supplied : ∀ f value, data f = some value → f.same (row'.getField f) value = true
  unsupplied : ∀ f, data f = none → row'.getField f = row.getField f
  unchanged : data.differing row.toDocumentColumns = [] →
    row'.revision = row.revision ∧ db'.auditEvents = db.auditEvents
  changed : data.differing row.toDocumentColumns ≠ [] →
    row'.revision = row.revision + 1 ∧ ∃ event, db'.auditEvents = db.auditEvents ++ [event] ∧
      event.documentId = row.id ∧
      event.action = .metadataUpdated (data.differing row.toDocumentColumns) (row.revision + 1)

/-- No supplied value is told from the stored one by its booleans alone. -/
def BooleansDecided (data : Patch) (document : DocumentColumns) : Prop :=
  ∀ f value, data f = some value →
    f.same (f.counted (document.getField f)) (f.counted value) = true →
      f.same (document.getField f) value = true

/-- Where booleans are decided, the changed fields are the differing ones. -/
theorem BooleansDecided.changed_eq {document : DocumentColumns} (h : BooleansDecided data document)
    (hdata : data.Validated stack) : data.changed document = data.differing document := by
  refine List.filter_congr fun f _ => ?_
  cases hf : data f with
  | none => rfl
  | some value =>
      rw [Option.any_some, Option.any_some, hdata.differs_eq hf]
      -- Sameness of the counted values is sameness, in one direction by the hypothesis.
      have hiff : f.same (f.counted (document.getField f)) (f.counted value) = true ↔
          f.same (document.getField f) value = true := ⟨h f value hf, f.same_counted⟩
      rw [Bool.eq_iff_iff.mpr hiff]

/-- Reading a field of the row an edit leaves. -/
theorem Document.getField_edit (env : Env) (row : Document) (data : Patch) (now : Timestamp)
    (f : Field) : (row.edit env data now).getField f =
      if f ∈ data.changed row.toDocumentColumns then (data f).getD (row.getField f)
      else row.getField f := by
  rw [Document.edit]
  split
  next hch =>
    rw [hch]
    rfl
  next => exact data.getField_edit now row.toDocumentColumns f

/-- A supplied field holds the supplied value, unless `!=` does not tell that from the stored one. -/
theorem Patch.Validated.getField_edit (hdata : data.Validated stack) (env : Env) (row : Document)
    (now : Timestamp) {f : Field} {value : f.Value} (h : data f = some value) :
    (row.edit env data now).getField f =
      if f.same (f.counted (row.getField f)) (f.counted value) = true then row.getField f
      else value := by
  have hchanged : f ∈ data.changed row.toDocumentColumns ↔
      ¬ f.same (f.counted (row.getField f)) (f.counted value) = true := by
    rw [Patch.mem_changed_iff, h]
    simp only [Option.some.injEq, exists_eq_left', hdata.differs_eq h, Bool.not_eq_true',
      Bool.not_eq_true]
  rw [Document.getField_edit, h]
  by_cases hsame : f.same (f.counted (row.getField f)) (f.counted value) = true
  · rw [if_pos hsame, if_neg (fun hmem => hchanged.mp hmem hsame)]
  · rw [if_neg hsame, if_pos (hchanged.mpr hsame), Option.getD_some]

/-- The revision of the row an edit leaves. -/
theorem Document.revision_edit (env : Env) (row : Document) (data : Patch) (now : Timestamp) :
    (row.edit env data now).revision =
      if data.changed row.toDocumentColumns = [] then row.revision else row.revision + 1 := by
  rw [Document.edit]
  split
  · rfl
  · exact data.edit_revision now row.toDocumentColumns

/-- **When a successful PATCH stores what was sent**: exactly when no supplied value is told from the
stored one by its booleans alone. -/
theorem patch_stores_what_was_sent_iff {env : Env} {db : Db} {draw : Draw} {request : Request}
    {row : Document} (hrow : db.documents.find request.pk = some row)
    (hscope : scopedDocuments request.user row = true)
    (hmatch : request.ifMatch = some (etag row.revision)) (hdata : data.Validated stack) :
    ∃ db' document row', partialUpdate env db draw request (.ok data) = .ok (db', document) ∧
      db'.documents.find request.pk = some row' ∧
      (StoresWhatWasSent db db' row row' data ↔ BooleansDecided data row.toDocumentColumns) := by
  obtain ⟨document, hpatch⟩ : ∃ document, partialUpdate env db draw request (.ok data) =
      .ok (db.edit env draw request data row, document) :=
    partialUpdate_eq_ok_iff.mpr ⟨row, data, hrow, hscope, rfl, hmatch, rfl⟩
  have hid : row.id = request.pk := Db.document_id hrow
  have hfind : (db.edit env draw request data row).documents.find request.pk =
      some (row.edit env data draw.now) := by
    rw [Db.find_edit (by rw [hid]; exact hrow), if_pos hid.symm]
  refine ⟨_, document, _, hpatch, hfind, fun h f value hf hcounted => ?_, fun h => ?_⟩
  · have hstored := h.supplied f value hf
    rwa [hdata.getField_edit env row draw.now hf, if_pos hcounted] at hstored
  · have hchanged := h.changed_eq hdata
    refine ⟨fun f value hf => ?_, fun f hf => ?_, fun hnone => ?_, fun hsome => ?_⟩
    · rw [hdata.getField_edit env row draw.now hf]
      split
      next hcounted => exact h f value hf hcounted
      next => exact hdata.same_self hf
    · rw [Document.getField_edit, hf]
      split <;> rfl
    · rw [Document.revision_edit, Db.edit_auditEvents, Document.editEvents, hchanged, if_pos hnone,
        if_pos hnone]
      exact ⟨rfl, List.append_nil _⟩
    · rw [Document.revision_edit, Db.edit_auditEvents, Document.editEvents, hchanged, if_neg hsome,
        if_neg hsome]
      exact ⟨rfl, _, rfl, data.edit_id draw.now row.toDocumentColumns, rfl⟩

/-- Metadata that says whether an invoice is approved. -/
def approval (approved : Json) : Json := .dict [(lit "approved", approved)]

/-- A document whose approval was recorded as a number. -/
def approvedRow : Document where
  toDocumentColumns :=
    { (Upload.enter sampleEnv sampleUser sampleData none 100).document ⟨1, 2, 3⟩ (.requested 7 1 2)
        1000 with metadata := approval (.int 1) }
  extractedText := []
  searchText := lit "invoice   [] \x7b\"approved\": 1\x7d "
  searchVector := some [(lit "1", [3]), (lit "approved", [2]), (lit "invoice", [1])]

/-- The database that holds it. -/
def approvedDb : Db := Db.empty.putDocument approvedRow

/-- Search vectors of the document once it is recorded as paid. -/
def approvedEnv : Env :=
  { sampleEnv with
    toTsvector := fun _ =>
      [(lit "1", [5]), (lit "approved", [4]), (lit "invoice", [1]), (lit "paid", [2, 3, 6]),
        (lit "true", [7])] }

/-- The owner edits the document. -/
def approvedRequest : Request := ⟨sampleUser, 1, some (etag 1), 101⟩

/-- The request finds the document. -/
theorem find_approvedDb : approvedDb.documents.find approvedRequest.pk = some approvedRow := by
  rw [approvedDb, Db.putDocument_documents, Table.find_put]
  rfl

/-- Say `true` where the stored metadata says `1`. -/
def approve : Patch
  | .metadata => some (approval (.bool true))
  | _ => none

/-- Record the payment in every field but the title and the document type. -/
def pay : Patch
  | .description => some (lit "paid")
  | .tags => some (.list [.str (lit "paid")])
  | .metadata => some (.dict [(lit "approved", .int 1), (lit "paid", .bool true)])
  | _ => none

/-- The record of the payment passes the validators. -/
theorem pay_validated : pay.Validated sampleStack where
  metadata value h := by
    cases h
    exact validateMetadata_eq_ok_iff.mpr
      ⟨⟨⟨⟨⟨_, rfl⟩, by decide, by decide, by decide, by decide⟩, by decide, by decide +kernel⟩,
        by decide⟩, rfl⟩
  keys value h := by
    cases h
    decide
  tags value h := by
    cases h
    refine ⟨.list [.str (lit "paid")], [lit "paid"], validateTags_eq_ok_iff.mpr ?_, rfl⟩
    exact ⟨[lit "paid"], ⟨rfl, by decide,
      List.forall_mem_singleton.mpr ⟨by decide, by decide, by decide⟩⟩, by decide⟩

/-- So does the boolean approval. -/
theorem approve_validated : approve.Validated sampleStack where
  metadata value h := by
    cases h
    exact validateMetadata_eq_ok_iff.mpr
      ⟨⟨⟨⟨⟨_, rfl⟩, by decide, by decide, by decide, by decide⟩, by decide, by decide +kernel⟩,
        by decide⟩, rfl⟩
  keys value h := by
    cases h
    decide
  tags _ h := by cases h

/-- The payment is stored as it was sent. -/
theorem patch_stores_what_was_sent_iff_sample :
    ∃ db' document row', partialUpdate approvedEnv approvedDb ⟨2500, 9⟩ approvedRequest
        (.ok pay) = .ok (db', document) ∧
      db'.documents.find approvedRequest.pk = some row' ∧
      StoresWhatWasSent approvedDb db' approvedRow row' pay := by
  obtain ⟨db', document, row', hpatch, hfind, hiff⟩ :=
    @patch_stores_what_was_sent_iff sampleStack pay approvedEnv approvedDb ⟨2500, 9⟩
      approvedRequest approvedRow find_approvedDb (by decide) rfl pay_validated
  refine ⟨db', document, row', hpatch, hfind, hiff.mpr fun f value hf hcounted => ?_⟩
  cases f with
  | description => exact hcounted
  | metadata | tags =>
      -- The values differ even when booleans are counted.
      cases hf
      exact absurd hcounted (by decide +kernel)
  | documentType | title => cases hf

/-- The edit from `1` to `true` is answered and not stored. -/
theorem approval_not_stored : ¬ ∀ (stack : CallStack) (data : Patch) (env : Env) (db : Db)
    (draw : Draw) (request : Request) (row : Document),
    db.documents.find request.pk = some row → scopedDocuments request.user row = true →
    request.ifMatch = some (etag row.revision) → data.Validated stack →
    ∀ db' document, partialUpdate env db draw request (.ok data) = .ok (db', document) →
      ∃ row', db'.documents.find request.pk = some row' ∧
        StoresWhatWasSent db db' row row' data := by
  intro h
  have hchanged : approve.changed approvedRow.toDocumentColumns = [] := by decide +kernel
  obtain ⟨document, hpatch⟩ : ∃ document,
      partialUpdate approvedEnv approvedDb ⟨2500, 9⟩ approvedRequest (.ok approve) =
        .ok (approvedDb.edit approvedEnv ⟨2500, 9⟩ approvedRequest approve approvedRow, document) :=
    partialUpdate_eq_ok_iff.mpr
      ⟨approvedRow, approve, find_approvedDb, by decide, rfl, rfl, rfl⟩
  obtain ⟨row', hfind, hstores⟩ := h sampleStack approve approvedEnv approvedDb ⟨2500, 9⟩
    approvedRequest approvedRow find_approvedDb (by decide) rfl approve_validated _ document hpatch
  -- Nothing was changed, so the stored row is still the old one.
  rw [Db.edit, if_pos hchanged, find_approvedDb] at hfind
  cases hfind
  have hsame := hstores.supplied .metadata (approval (.bool true)) rfl
  exact absurd hsame (by decide)

end MiniDms
