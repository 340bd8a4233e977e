import MiniDms.Workflow.DocumentLifecycle

/-! # The search index never goes stale

Three mechanisms meet in a save: the overridden `save` reads the extracted text, deferred or not, and
recomputes `search_text`; Django writes the loaded columns only; and the trigger recomputes
`search_vector` on an insert and on an update that names `search_text`. The first part of this file
spells the SQL of a save out column by column and shows that `DocumentObject.save` is that SQL; the
second part follows the rows along every run. -/

namespace MiniDms

open Python Relational TransitionSystem

/-! ## The SQL of a save -/

/-- The columns the queryset of the views defers. Every other column is always loaded. -/
inductive DeferredColumn
  | extractedText
  | searchText
  | searchVector
  deriving DecidableEq, Repr

/-- The columns an object holds. A column an object holds is named by its `UPDATE`. -/
def DocumentObject.loaded (document : DocumentObject) : DeferredColumn → Bool
  | .extractedText => document.extractedText.isSome
  | .searchText => document.searchText.isSome
  | .searchVector => document.searchVector.isSome

/-- Some column is deferred, so that Django restricts the save to the loaded ones. -/
def DocumentObject.hasDeferred (document : DocumentObject) : Bool :=
  !(document.loaded .extractedText && document.loaded .searchText && document.loaded .searchVector)

/-- The row an `UPDATE` of the loaded columns makes of a stored row, before triggers. -/
def DocumentObject.assignTo (document : DocumentObject) (row : Document) : Document where
  toDocumentColumns := document.toDocumentColumns
  extractedText := document.extractedText.getD row.extractedText
  searchText := document.searchText.getD row.searchText
  searchVector := document.searchVector.getD row.searchVector

/-- The trigger `document_search_refresh`: before an insert, or an update that names `search_text`. -/
def documentSearchRefresh (env : Env) (namesSearchText : Bool) (row : Document) : Document :=
  if namesSearchText then documentsRefreshSearch env row else row

/-- `UPDATE documents_document SET … WHERE id = …`; `none` when it affects no row. -/
def Db.updateDocument (env : Env) (db : Db) (document : DocumentObject) : Option Db :=
  (db.documents.find document.id).map fun row =>
    db.putDocument (documentSearchRefresh env (document.loaded .searchText) (document.assignTo row))

/-- `Model.save_base`. With a deferred column the save must update a row; a fully loaded object is
inserted when the update finds none. -/
def DocumentObject.saveBase (env : Env) (db : Db) (document : DocumentObject) : Except DbError Db :=
  match db.updateDocument env document with
  | some db => .ok db
  | none =>
      if document.hasDeferred then .error .databaseError
      else
        match document.extractedText, document.searchText, document.searchVector with
        | some text, some searchText, some vector =>
            db.insertDocument env ⟨document.toDocumentColumns, text, searchText, vector⟩
        | _, _, _ => .error .databaseError

/-- `Document.save`, statement by statement: reading a deferred `extracted_text` loads it, the
assignment of `search_text` counts as loading it, and `updated_at` is set on the way. -/
def DocumentObject.saveStatements (env : Env) (db : Db) (now : Timestamp)
    (document : DocumentObject) : Except DbError (Db × DocumentObject) := do
  let extracted ← document.readExtractedText db
  let columns := { document.toDocumentColumns with updatedAt := now }
  let saved : DocumentObject :=
    { document with
      updatedAt := now
      extractedText := some extracted
      searchText := some (columns.searchable env extracted) }
  let db ← saved.saveBase env db
  return (db, saved)

/-- **A save is its SQL.** Whatever is deferred, `search_text` is among the columns the statement
names, so the trigger fires and the vector an object holds, stale or not, is never stored. -/
theorem DocumentObject.save_eq_saveStatements (env : Env) (db : Db) (now : Timestamp)
    (document : DocumentObject) :
    document.save env db now = document.saveStatements env db now := by
  unfold DocumentObject.save DocumentObject.saveStatements
  cases document.readExtractedText db with
  | error e => rfl
  | ok extracted =>
      obtain ⟨columns, text, searchText, vector⟩ := document
      have hbind : ∀ {α : Type} (f : Str → Except DbError α),
          (Except.ok extracted >>= f) = f extracted := fun _ => rfl
      rw [hbind, hbind]
      dsimp only [DocumentObject.saveBase, Db.updateDocument]
      cases hrow : db.documents.find columns.id with
      | none => cases vector <;> rfl
      | some row => cases vector <;> rfl

/-! ## Fresh rows -/

/-- The search columns of a row are those of its other columns. -/
structure Indexed (env : Env) (row : Document) : Prop where
  searchText : row.searchText = normalizeText env (join (lit " ")
    [row.title, row.description, row.documentType, row.tags.dumps, row.metadata.dumps,
      row.extractedText])
  searchVector : row.searchVector = some (env.toTsvector row.searchText)

/-- A row that has been saved is indexed. -/
theorem Document.indexed_fresh (env : Env) (columns : DocumentColumns) (text : Str) :
    Indexed env (.indexed env columns text) := ⟨rfl, rfl⟩

/-- **Every move leaves the row of the document indexed.** -/
theorem DocumentMove.indexed {env : Env} {w : World} {id : Uuid} {e : Event}
    {v v' : DocumentView} (hm : DocumentMove env w id e v v')
    (h : ∀ row, v.row = some row → Indexed env row) :
    ∀ row, v'.row = some row → Indexed env row := by
  intro row hrow
  cases hm with
  | same | orphaned => exact h row hrow
  | created | edited | reprocessed | started | finished | recovered =>
      cases hrow
      exact Document.indexed_fresh ..
  | deleted => cases hrow

/-- **The search index never goes stale.** In every reachable state the search text of every document
row is the normal form of the metadata and the extracted text of that same row, joined by single
spaces, and its search vector is that of the search text. -/
theorem search_index_never_stale {env : Env} {h : List Step} {w : World} (hr : History env h w) :
    ∀ row ∈ w.db.documents.rows, Indexed env row := by
  have hfind : ∀ id row, w.db.documents.find id = some row → Indexed env row := by
    intro id
    refine hr.induct (fun _ w => ∀ row, (w.db.view id).row = some row → Indexed env row)
      (fun row hrow => by cases hrow) (fun h x hr hv (_ : True) ih => ?_) fun _ _ => trivial
    obtain ⟨hw, hp⟩ := provenance_of_history hr
    exact ((World.perform_effect hv).documentMove hw hp id).indexed ih
  exact fun row hrow => hfind row.id row (Table.find_of_mem hrow)

/-- The row of the sample document has the search text of its title and its extracted text. -/
theorem search_index_never_stale_sample :
    (∃ row ∈ sampleWorld.db.documents.rows, row.searchText = lit "invoice   [] \x7b\x7d invoice 42") ∧
    ∀ row ∈ sampleWorld.db.documents.rows, Indexed sampleEnv row :=
  ⟨by decide +kernel, search_index_never_stale sample_history⟩

end MiniDms
