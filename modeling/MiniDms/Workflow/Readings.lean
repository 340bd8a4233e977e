import MiniDms.Python.SideBySide
import MiniDms.Relations.Query
import MiniDms.Workflow.Idempotency
import MiniDms.Workflow.Requests
import MiniDms.Workflow.Slices

/-! # What a user can read

Two states that agree on the slice of a user who is not staff answer every query of this user
alike: a lookup finds the same row or none, a listing has the same rows in the same order and the
same count, and the search for a replay finds the same document. -/

namespace MiniDms

open Python Relational TransitionSystem

/-- The tables agree on what belongs to a user. -/
structure Db.AgreeOn (u : UserId) (db db' : Db) : Prop where
  documents : ∀ id, db.owned u id = db'.owned u id
  auditEvents : (db.logged u).Perm (db'.logged u)

/-- The states agree on what belongs to a user. -/
structure World.AgreeOn (u : UserId) (w w' : World) : Prop where
  db : Db.AgreeOn u w.db w'.db
  objects : ∀ id d, w.db.owned u id = some d → w.store d.storageKey = w'.store d.storageKey

/-- **Agreement is equality of the slices.** -/
theorem World.slice_eq_iff {u : UserId} {w w' : World} :
    w.slice u = w'.slice u ↔ World.AgreeOn u w w' := by
  constructor
  · intro h
    have hdocuments : w.db.owned u = w'.db.owned u := congrArg Slice.documents h
    refine ⟨⟨congrFun hdocuments, Multiset.coe_eq_coe.mp (congrArg Slice.auditEvents h)⟩,
      fun id d hd => ?_⟩
    have hobject : (w.db.owned u id).bind (fun d => w.store d.storageKey) =
        (w'.db.owned u id).bind fun d => w'.store d.storageKey :=
      congrFun (congrArg Slice.objects h) id
    rw [← congrFun hdocuments id, hd] at hobject
    exact hobject
  · intro h
    ext1
    · exact funext h.db.documents
    · exact Multiset.coe_eq_coe.mpr h.db.auditEvents
    · funext id
      show (w.db.owned u id).bind _ = (w'.db.owned u id).bind _
      rw [← h.db.documents id]
      cases hd : w.db.owned u id with
      | none => rfl
      | some d => exact h.objects id d hd

/-! ## One document -/

section Lookup

variable {user : User} {db db' : Db} (hstaff : user.isStaff = false)
  (h : Db.AgreeOn user.pk db db')

include hstaff

/-- A lookup of a user who is not staff finds an own document or nothing. -/
theorem getObject_of_owned (db : Db) (pk : Uuid) :
    getObject db user pk = match db.owned user.pk pk with
      | some row => .ok row.defer
      | none => .error .notFound := by
  unfold getObject
  cases hrow : db.documents.find pk with
  | none => rw [Db.owned, hrow]; rfl
  | some row =>
      rw [Db.owned, hrow, Option.filter_some]
      by_cases howner : row.owner = user.pk
      · simp [scopedDocuments, howner]
      · simp [scopedDocuments, hstaff, howner]

include h

/-- Both lookups load one row, or find nothing. -/
theorem getObject_sideBySide (pk : Uuid) :
    SideBySide (fun a a' => a = a' ∧ ∃ row, a = row.defer ∧ db.owned user.pk pk = some row ∧
      db.documents.find row.id = some row ∧ db'.documents.find row.id = some row)
      (getObject db user pk) (getObject db' user pk) := by
  rw [getObject_of_owned hstaff, getObject_of_owned hstaff, ← h.documents pk]
  cases hrow : db.owned user.pk pk with
  | none => exact .raised _
  | some row =>
      have hfind := (Db.owned_eq_some_iff.mp hrow).1
      have hfind' := (Db.owned_eq_some_iff.mp ((h.documents pk).symm.trans hrow)).1
      have hid := Db.document_id hfind
      exact .returned ⟨rfl, row, rfl, rfl, hid ▸ hfind, hid ▸ hfind'⟩

/-- A document is retrieved alike from both databases. -/
theorem retrieve_agree (pk : Uuid) : retrieve db user pk = retrieve db' user pk := by
  rw [retrieve, retrieve, getObject_of_owned hstaff, getObject_of_owned hstaff, h.documents]

/-- The status of the processing is read alike from both databases. -/
theorem processingStatus_agree (pk : Uuid) :
    processingStatus db user pk = processingStatus db' user pk := by
  rw [processingStatus, processingStatus, getObject_of_owned hstaff, getObject_of_owned hstaff,
    h.documents]

/-- The extracted text is read alike from both databases. -/
theorem readText_agree (pk : Uuid) : readText db user pk = readText db' user pk := by
  refine SideBySide.eq ((getObject_sideBySide hstaff h pk).bind ?_)
  rintro _ _ ⟨rfl, row, rfl, -, hfind, hfind'⟩
  -- The deferred text is read from the row, which is the same.
  have htext : row.defer.readExtractedText db = .ok row.extractedText := by
    simp only [DocumentObject.readExtractedText, Document.defer, hfind]
  have htext' : row.defer.readExtractedText db' = .ok row.extractedText := by
    simp only [DocumentObject.readExtractedText, Document.defer, hfind']
  rw [htext, htext']
  exact .same (fun _ => rfl) _

end Lookup

/-- Downloads serve one object. -/
theorem download_agree {user : User} (hstaff : user.isStaff = false) {w w' : World}
    (h : World.AgreeOn user.pk w w') (pk : Uuid) :
    MiniDms.download w.db w.store user pk = MiniDms.download w'.db w'.store user pk := by
  refine SideBySide.eq ((getObject_sideBySide hstaff h.db pk).bind ?_)
  rintro _ _ ⟨rfl, row, rfl, hrow, -⟩
  rw [show row.defer.storageKey = row.storageKey from rfl, h.objects pk row hrow]
  exact .same (fun _ => rfl) _

/-! ## Listings -/

section Order

/-- The key a listing is ordered by. -/
def listingKey (rank : Document → Rat) (d : Document) : Rat ×ₗ Timestamp ×ₗ Uuid :=
  toLex (rank d, toLex (d.createdAt, d.id))

/-- The order of the listing is the order of its keys. -/
theorem listedBefore_iff {rank : Document → Rat} {a b : Document} :
    listedBefore rank a b ↔ listingKey rank b ≤ listingKey rank a := by
  rw [listingKey, listingKey, Prod.Lex.le_iff, Prod.Lex.le_iff]
  simp only [listedBefore, ofLex_toLex, eq_comm]

/-- Of two documents one is listed first. -/
instance (rank : Document → Rat) : Std.Total (listedBefore rank) where
  total a b := by
    rw [listedBefore_iff, listedBefore_iff]
    exact le_total _ _

/-- The order of the listing is transitive. -/
instance (rank : Document → Rat) : IsTrans Document (listedBefore rank) where
  trans a b c hab hbc := by
    rw [listedBefore_iff] at *
    exact hbc.trans hab

/-- A listing tells documents apart. -/
theorem id_eq_of_listedBefore {rank : Document → Rat} {a b : Document}
    (hab : listedBefore rank a b) (hba : listedBefore rank b a) : a.id = b.id := by
  rw [listedBefore_iff] at hab hba
  have hkey : listingKey rank a = listingKey rank b := le_antisymm hba hab
  exact congrArg (fun k => (ofLex (ofLex k).2).2) hkey

/-- The key the audit log is ordered by. -/
def loggingKey (e : AuditEvent) : Timestamp ×ₗ Uuid := toLex (e.createdAt, e.id)

/-- The order of the log is the order of its keys. -/
theorem loggedBefore_iff {a b : AuditEvent} : loggedBefore a b ↔ loggingKey b ≤ loggingKey a := by
  rw [loggingKey, loggingKey, Prod.Lex.le_iff]
  simp only [loggedBefore, ofLex_toLex, eq_comm]

/-- Of two events one is listed first. -/
instance : Std.Total loggedBefore where
  total a b := by
    rw [loggedBefore_iff, loggedBefore_iff]
    exact le_total _ _

/-- The order of the log is transitive. -/
instance : IsTrans AuditEvent loggedBefore where
  trans a b c hab hbc := by
    rw [loggedBefore_iff] at *
    exact hbc.trans hab

end Order

/-- Restricting a lookup further than to the user's documents. -/
theorem Db.AgreeOn.filter {u : UserId} {db db' : Db} (h : Db.AgreeOn u db db') {p : Document → Bool}
    (hp : ∀ d, p d = true → d.owner = u) (id : Uuid) :
    (db.documents.find id).filter p = (db'.documents.find id).filter p := by
  have hsame : ∀ db : Db, (db.documents.find id).filter p = (db.owned u id).filter p := by
    intro db
    rw [Db.owned, Option.filter_filter]
    congr 1
    funext d
    cases hd : p d with
    | false => rw [Bool.and_false]
    | true => simp [hp d hd]
  rw [hsame, hsame, h.documents]

/-- **A listing** shows the same page. -/
theorem listDocuments_agree {user : User} (hstaff : user.isStaff = false) {db db' : Db}
    (h : Db.AgreeOn user.pk db db') (library : ViewLibrary) (env : Env) (params : ListParams) :
    listDocuments library env db user params = listDocuments library env db' user params := by
  have hrows : ∀ (rank : Document → Rat) (selected : Document → Bool),
      (db.documents.rows.filter fun row => scopedDocuments user row && selected row).insertionSort
        (listedBefore rank) =
      (db'.documents.rows.filter fun row => scopedDocuments user row && selected row).insertionSort
        (listedBefore rank) := by
    intro rank selected
    refine Table.ordered_filter_eq (h.filter fun d hd => ?_) fun a b => id_eq_of_listedBefore
    exact owner_of_scoped hstaff (Bool.and_eq_true_iff.mp hd).1
  simp only [listDocuments, hrows]

/-- **The audit log** shows the same page. -/
theorem auditLog_agree {user : User} (hstaff : user.isStaff = false) {w w' : World}
    (h : Db.AgreeOn user.pk w.db w'.db) (hkeys : AuditKeys w) (library : ViewLibrary)
    (documentId : Option Str) (params : PageParams) :
    auditLog library w.db user documentId params =
      auditLog library w'.db user documentId params := by
  have hown : ∀ (db : Db) (p : AuditEvent → Bool),
      (db.auditEvents.filter fun e => (user.isStaff || e.owner = user.pk) && p e) =
        (db.logged user.pk).filter p := by
    intro db p
    rw [Db.logged, List.filter_filter, hstaff]
    simp only [Bool.false_or, Bool.and_comm]
  have hrows : ∀ p, ((w.db.logged user.pk).filter p).insertionSort loggedBefore =
      ((w'.db.logged user.pk).filter p).insertionSort loggedBefore := by
    intro p
    refine insertionSort_eq_of_perm (h.auditEvents.filter p) fun a ha b hb hab hba => ?_
    rw [loggedBefore_iff] at hab hba
    have hkey : loggingKey a = loggingKey b := le_antisymm hba hab
    have hmem : ∀ {e}, e ∈ (w.db.logged user.pk).filter p → e ∈ w.db.auditEvents := fun he =>
      (List.mem_filter.mp (List.mem_filter.mp he).1).1
    exact List.inj_on_of_nodup_map hkeys.nodup (hmem ha) (hmem hb)
      (congrArg (fun k => (ofLex k).2) hkey)
  simp only [auditLog, hown, hrows]

end MiniDms
