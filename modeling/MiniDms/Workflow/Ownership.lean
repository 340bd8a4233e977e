import MiniDms.Workflow.AuditTrail
import MiniDms.Workflow.StorageKeys

/-! # What belongs to a document

Rows and objects are tied to one document and to one owner: all audit events of a document name the
owner of its row, also after the row is gone; audit events have identifiers of their own; and
whatever refers to an object, a row, a job, a claimed job or a running call, refers to it for one
document. Nothing of this depends on how long a worker or a call takes. -/

namespace MiniDms

open Python Relational TransitionSystem

/-! ## One owner for each document -/

/-- The row and the audit events of a document name one owner. -/
def DocumentView.OneOwner (v : DocumentView) : Prop :=
  ∃ owner, (∀ d, v.row = some d → d.owner = owner) ∧ ∀ e ∈ v.trail, e.owner = owner

/-- An event for the owner of the row is logged, and the row is rewritten or deleted. -/
theorem DocumentView.OneOwner.record {v v' : DocumentView} (h : v.OneOwner) {row : Document}
    {event : AuditEvent} (hrow : v.row = some row) (htrail : v'.trail = v.trail ++ [event])
    (hevent : event.owner = row.owner) (hrow' : ∀ d, v'.row = some d → d.owner = row.owner) :
    v'.OneOwner := by
  obtain ⟨owner, hown, hlog⟩ := h
  have howner : row.owner = owner := hown row hrow
  refine ⟨owner, fun d hd => (hrow' d hd).trans howner, fun e he => ?_⟩
  rw [htrail, List.mem_append, List.mem_singleton] at he
  obtain he | rfl := he
  · exact hlog e he
  · exact hevent.trans howner

/-- Every move of a document keeps its owner. -/
theorem DocumentMove.oneOwner {env : Env} {w : World} {id : Uuid} {e : Event}
    {v v' : DocumentView} (hm : DocumentMove env w id e v v') (h : v.OneOwner) : v'.OneOwner := by
  cases hm with
  | same | orphaned => exact h
  | @created call u ids actual draw jobId fault ack _ _ _ _ _ _ htrail =>
      refine ⟨u.user.pk, fun d hd => by cases hd; rfl, fun e he => ?_⟩
      have hnew : e ∈ v.trail ++ [auditEvent draw (u.document ids actual draw.now) .created
        u.requestId (some u.user)] := he
      rw [htrail, List.nil_append, List.mem_singleton] at hnew
      rw [hnew]
      rfl
  | @edited request data draw row _ _ hrow =>
      obtain ⟨t, d, dt, tg, m, hedit⟩ := data.edit_frame draw.now row.toDocumentColumns
      refine h.record hrow rfl ?_ fun d' hd' => ?_
      · rw [auditEvent, hedit]
      · cases hd'
        rw [Document.indexed_columns, hedit]
  | reprocessed _ _ hrow => exact h.record hrow rfl rfl fun d hd => by cases hd; rfl
  | deleted _ hrow => exact h.record hrow rfl rfl fun d hd => by cases hd
  | started hrow => exact h.record hrow rfl rfl fun d hd => by cases hd; rfl
  | finished _ hrow => exact h.record hrow rfl rfl fun d hd => by cases hd; rfl
  | recovered hrow => exact h.record hrow rfl rfl fun d hd => by cases hd; rfl

/-- **In every reachable state** each document has one owner, in its row and in its log. -/
theorem oneOwner_of_history {env : Env} {h : List Step} {w : World} (hr : History env h w)
    (id : Uuid) : (w.db.view id).OneOwner := by
  refine hr.induct (fun _ w => (w.db.view id).OneOwner)
    ⟨0, fun _ hd => (nomatch hd), fun _ he => (nomatch he)⟩ (fun h x hr hv (_ : True) hI => ?_)
    fun _ _ => trivial
  obtain ⟨hw, hp⟩ := provenance_of_history hr
  exact ((World.perform_effect hv).documentMove hw hp id).oneOwner hI

/-! ## Audit events have identifiers of their own -/

/-- The primary keys of the audit events are drawn and distinct. -/
structure AuditKeys (w : World) : Prop where
  drawn : ∀ e ∈ w.db.auditEvents, e.id ∈ w.drawn
  nodup : (w.db.auditEvents.map fun e => e.id).Nodup

/-- One event logs under a new identifier. -/
theorem AuditKeys.step {env : Env} {w w' : World} {e : Event} (h : AuditKeys w)
    (he : Effect env w e w') : AuditKeys w' := by
  obtain hsame | ⟨event, hevent, hfresh, hdrawn⟩ := he.logs
  · refine ⟨fun a ha => ?_, hsame ▸ h.nodup⟩
    exact he.drawn_subset (h.drawn a (hsame ▸ ha))
  · refine ⟨fun a ha => ?_, ?_⟩
    · rw [hevent, List.mem_append, List.mem_singleton] at ha
      obtain ha | rfl := ha
      · exact he.drawn_subset (h.drawn a ha)
      · exact hdrawn
    · rw [hevent, List.map_append, List.map_singleton, List.nodup_append]
      refine ⟨h.nodup, List.nodup_singleton _, fun a ha b hb hab => hfresh ?_⟩
      obtain ⟨old, hold, rfl⟩ := List.mem_map.mp ha
      rw [List.mem_singleton.mp hb] at hab
      exact hab ▸ h.drawn old hold

/-- **In every reachable state** audit events are told apart by their primary keys. -/
theorem auditKeys_of_history {env : Env} {h : List Step} {w : World} (hr : History env h w) :
    AuditKeys w :=
  hr.preserved AuditKeys ⟨fun _ he => (nomatch he), List.nodup_nil⟩ fun _ hv hI =>
    hI.step (World.perform_effect hv)

/-! ## One document for each object -/

/-- The holder refers to an object under the mark `m`, for the document `D`. -/
def World.RefersFor (w : World) (m D : Uuid) : Holder → Prop
  | .document id => id = D ∧ w.Refers m (.document id)
  | .job id => ∃ j key, w.db.jobs.find id = some j ∧ j.storageKey = some key ∧ key.mark = m ∧
      j.documentId = D
  | .delivery n => ∃ x key, w.deliveries n = some x ∧ x.job.storageKey = some key ∧ key.mark = m ∧
      x.job.documentId = D
  | .call c => ∃ u ids, w.uploads c = some u ∧ u.pc.mark = some m ∧ u.pc.ids = some ids ∧
      ids.documentId = D

/-- Referring for a document is referring. -/
theorem World.RefersFor.refers {w : World} {m D : Uuid} {x : Holder} (h : w.RefersFor m D x) :
    w.Refers m x := by
  cases x with
  | document id => exact h.2
  | job id =>
      obtain ⟨j, key, hj, hkey, hm, -⟩ := h
      exact ⟨j, key, hj, hkey, hm⟩
  | delivery n =>
      obtain ⟨x, key, hx, hkey, hm, -⟩ := h
      exact ⟨x, key, hx, hkey, hm⟩
  | call c =>
      obtain ⟨u, ids, hu, hm, -⟩ := h
      exact ⟨u, hu, hm⟩

section Reference

variable {env : Env} {w w' : World} {e : Event} {m D : Uuid}

/-- Where a reference to `m` for `D` was before an event: it was there, or the event is a statement
of the call that creates `D`, which draws the mark. -/
def ReferenceBefore (w w' : World) (e : Event) (m D : Uuid) : Prop :=
  (∃ x, w.RefersFor m D x) ∨ ∃ c move u' ids, e = .upload c move ∧ m ∈ move.draws ∧
    w'.uploads c = some u' ∧ u'.ids = some ids ∧ ids.documentId = D

/-- What an event makes a job refer to. -/
theorem Effect.job_reference (hw : Known w) (hp : Provenance w) (he : Effect env w e w') {id : Uuid}
    {j' : Job} {key : StorageKey} (hj' : w'.db.jobs.find id = some j')
    (hkey : j'.storageKey = some key) (hdoc : j'.documentId = D) :
    ReferenceBefore w w' e key.mark D := by
  -- A job that is there before the event is a job for the same document.
  have hsame : ∀ {j}, w.db.jobs.find id = some j → j.documentId = D := by
    intro j hj
    obtain ⟨j₁, hj₁, -, hdoc₁⟩ := he.job_stays hw hj
    rw [hj'] at hj₁
    cases hj₁
    exact hdoc₁.symm.trans hdoc
  cases he.naming hj' hkey with
  | kept h =>
      obtain ⟨j, hj, hkey⟩ := h
      exact .inl ⟨.job id, j, key, hj, hkey, rfl, hsame hj⟩
  | @intended c u u' ids now ack heq hu' hids hid hjob =>
      subst hjob
      exact .inr ⟨c, _, u', ids, heq, List.mem_cons_of_mem _ List.mem_cons_self, hu', hids, hdoc⟩
  | @renamed c u ids _ now ack heq hu hpc hid =>
      subst hid
      have hids : u.pc.ids = some ids := by rw [hpc]; rfl
      -- The intent of the call is a job for the document of the call.
      obtain ⟨j, hj, -, hdoc₁⟩ := hp.intents c u ids hu hids
      exact .inl ⟨.call c, u, ids, hu, by rw [hpc]; rfl, hids, hdoc₁.symm.trans (hsame hj)⟩
  | @destroyed request jobId draw row hrow hgone hjob =>
      subst hjob
      exact .inl ⟨.document row.id, hdoc, row, hrow, rfl⟩

/-- **Where a reference was before an event.** -/
theorem Effect.reference (hw : Known w) (hp : Provenance w) (he : Effect env w e w') {x : Holder}
    (hx : w'.RefersFor m D x) : ReferenceBefore w w' e m D := by
  cases x with
  | document id =>
      obtain ⟨rfl, d', hd', rfl⟩ := hx
      obtain ⟨d, hd, hsame⟩ | ⟨c, u, ids, actual, draw, jobId, fault, ack, rfl, hu, hpc, hid, -, rfl⟩ :=
        (he.documentMove hw hp id).identity hd'
      · exact .inl ⟨.document id, rfl, d, hd, congrArg _ hsame.storageKey⟩
      · exact .inl ⟨.call c, u, ids, hu, by rw [hpc]; rfl, by rw [hpc]; rfl, hid⟩
  | job id =>
      obtain ⟨j', key, hj', hkey, rfl, hdoc⟩ := hx
      exact he.job_reference hw hp hj' hkey hdoc
  | delivery n =>
      obtain ⟨x', key, hx', hkey, rfl, hdoc⟩ := hx
      obtain ⟨x, hx, hjob, -⟩ | ⟨jobId, token, draw, -, -, -, job, hjob, -, rfl, -⟩ :=
        he.delivery_cases hx'
      · rw [hjob] at hkey hdoc
        exact .inl ⟨.delivery n, x, key, hx, hkey, rfl, hdoc⟩
      · exact .inl ⟨.job jobId, job, key, hjob, hkey, rfl, hdoc⟩
  | call c =>
      obtain ⟨u', ids, hu', hmark, hids, hdoc⟩ := hx
      obtain ⟨hu, -⟩ | ⟨-, _, _, _, _, -, rfl⟩ | ⟨move, u, rfl, -, hu, ha⟩ := he.upload_cases hu'
      · exact .inl ⟨.call c, u', ids, hu, hmark, hids, hdoc⟩
      · rw [Upload.pc_ids_enter] at hids
        cases hids
      · obtain hold | hnew := ha.pcMove.mark (hw.coherent c u hu) (he.honest hu).1 hmark
        · exact .inl ⟨.call c, u, ids, hu, hold, he.ids_of_mark hu hold hu' hids, hdoc⟩
        · exact .inr ⟨c, move, u', ids, rfl, hnew, hu', (hw.step he).coherent c u' hu' ids hids, hdoc⟩

end Reference

/-- All references to one object are for one document. -/
def OneDocument (w : World) : Prop :=
  ∀ m D D' x x', w.RefersFor m D x → w.RefersFor m D' x' → D = D'

/-- One event keeps every object with its document: a mark that was just drawn was nobody's. -/
theorem OneDocument.step {env : Env} {w w' : World} {e : Event} (hw : Known w) (hp : Provenance w)
    (hm : MarksDrawn w) (h : OneDocument w) (he : Effect env w e w') : OneDocument w' := by
  intro m D D' x x' hx hx'
  have hold : ∀ {y D₀ c move}, w.RefersFor m D₀ y → e = .upload c move → m ∉ move.draws := by
    rintro y D₀ c move hy rfl hdraw
    exact (he.draws hdraw).1 (hm m y hy.refers)
  obtain ⟨y, hy⟩ | ⟨c, move, u, ids, hevent, hdraw, hu, hids, hdoc⟩ := he.reference hw hp hx
  · obtain ⟨y', hy'⟩ | ⟨c', move', u', ids', hevent', hdraw', -⟩ := he.reference hw hp hx'
    · exact h m D D' y y' hy hy'
    · exact absurd hdraw' (hold hy hevent')
  · obtain ⟨y', hy'⟩ | ⟨c', move', u', ids', hevent', -, hu', hids', hdoc'⟩ := he.reference hw hp hx'
    · exact absurd hdraw (hold hy' hevent)
    · rw [hevent] at hevent'
      cases hevent'
      rw [hu] at hu'
      cases hu'
      rw [hids] at hids'
      cases hids'
      exact hdoc.symm.trans hdoc'

/-- **In every reachable state** marks are drawn, and every object is referred to for one document
only. -/
theorem oneDocument_of_history {env : Env} {h : List Step} {w : World} (hr : History env h w) :
    MarksDrawn w ∧ OneDocument w := by
  refine hr.induct (fun _ w => MarksDrawn w ∧ OneDocument w) ⟨?_, ?_⟩
    (fun h x hr hv (_ : True) hI => ?_) fun _ _ => trivial
  · rintro m (id | id | n | c) ⟨_, hx⟩
    · exact nomatch hx.1
    · obtain ⟨_, hj, -⟩ := hx
      exact nomatch hj
    · obtain ⟨_, hx, -⟩ := hx
      exact nomatch hx
    · exact nomatch hx.1
  · rintro m D D' (id | id | n | c) x' hx
    · obtain ⟨-, _, hd, -⟩ := hx
      exact nomatch hd
    · obtain ⟨_, _, hj, -⟩ := hx
      exact nomatch hj
    · obtain ⟨_, _, hx, -⟩ := hx
      exact nomatch hx
    · obtain ⟨_, _, hu, -⟩ := hx
      exact nomatch hu
  · obtain ⟨hw, hp⟩ := provenance_of_history hr
    have he := World.perform_effect hv
    exact ⟨hI.1.step hw hp he, hI.2.step hw hp hI.1 he⟩

/-- What a call is about to use, or has used, belongs to no live document. -/
theorem OneDocument.key_ne {w : World} (hone : OneDocument w) (hp : Provenance w) {c : Nat}
    {u : Upload} {ids : UploadIds} {m : Uuid} (hu : w.uploads c = some u)
    (hids : u.pc.uncommitted = some ids) (hmark : u.pc.mark = some m) {id : Uuid} {d : Document}
    (hd : w.db.documents.find id = some d) : d.storageKey.mark ≠ m := by
  intro hm
  have hcall : w.RefersFor m ids.documentId (.call c) :=
    ⟨u, ids, hu, hmark, u.pc.ids_of_uncommitted hids, rfl⟩
  have hid : id = ids.documentId := hone m id ids.documentId (.document id) _ ⟨rfl, d, hd, hm⟩ hcall
  have hnone := (hp.unborn c u ids hu hids).document
  rw [← hid, hd] at hnone
  cases hnone

end MiniDms
