import MiniDms.Workflow.Readings

/-! # One statement in two states

The same statement of a request, executed in two states that agree on the slice of the user who sent
the request, has the same answer in both and leaves states that agree again. -/

namespace MiniDms

open Python Relational TransitionSystem

/-! ## The same write in both states -/

namespace Db.AgreeOn

variable {u : UserId} {db db' : Db}

/-- Putting the same document into both databases keeps them in agreement. -/
theorem putDocument (h : Db.AgreeOn u db db') (row : Document) :
    Db.AgreeOn u (db.putDocument row) (db'.putDocument row) where
  documents id := by
    rw [Db.owned, Db.owned, Db.putDocument_documents, Db.putDocument_documents, Table.find_put,
      Table.find_put]
    split
    · rfl
    · exact h.documents id
  auditEvents := h.auditEvents

/-- Removing the same document from both databases keeps them in agreement. -/
theorem removeDocument (h : Db.AgreeOn u db db') (k : Uuid) :
    Db.AgreeOn u (db.removeDocument k) (db'.removeDocument k) where
  documents id := by
    rw [Db.owned, Db.owned, Db.removeDocument_documents, Db.removeDocument_documents,
      Table.find_erase, Table.find_erase]
    split
    · rfl
    · exact h.documents id
  auditEvents := h.auditEvents

/-- Recording the same event in both databases keeps them in agreement. -/
theorem audit (h : Db.AgreeOn u db db') (draw : Draw) (document : DocumentColumns)
    (action : AuditAction) (requestId : Uuid) (actor : Option User) :
    Db.AgreeOn u (MiniDms.audit db draw document action requestId actor)
      (MiniDms.audit db' draw document action requestId actor) where
  documents := h.documents
  auditEvents := by
    rw [Db.logged, Db.logged, audit_auditEvents, audit_auditEvents, List.filter_append,
      List.filter_append]
    exact h.auditEvents.append_right _

/-- Jobs belong to nobody. -/
theorem putJob (h : Db.AgreeOn u db db') (job job' : Job) :
    Db.AgreeOn u (db.putJob job) (db'.putJob job') := ⟨h.documents, h.auditEvents⟩

/-- Jobs are outside the slice, and any update of them keeps the agreement. -/
theorem updateJobs (h : Db.AgreeOn u db db') (p p' : Job → Bool) (f f' : Job → Job) :
    Db.AgreeOn u (db.updateJobs p f) (db'.updateJobs p' f') := ⟨h.documents, h.auditEvents⟩

/-- A document of the user is in both tables. -/
theorem mem (h : Db.AgreeOn u db db') {d : Document} (hd : d ∈ db.documents.rows)
    (howner : d.owner = u) : d ∈ db'.documents.rows := by
  have hfind : db.owned u d.id = some d :=
    Db.owned_eq_some_iff.mpr ⟨@Table.find_of_mem _ _ _ (fun d : Document => d.id) _ _ hd, howner⟩
  rw [h.documents d.id] at hfind
  exact (Table.find_eq_some_iff.mp (Db.owned_eq_some_iff.mp hfind).1).1

/-- Agreement is symmetric. -/
theorem symm (h : Db.AgreeOn u db db') : Db.AgreeOn u db' db :=
  ⟨fun id => (h.documents id).symm, h.auditEvents.symm⟩

end Db.AgreeOn

/-! ## The checks of an upload -/

/-- **The replay check** finds one document, since an owner uses a key once. -/
theorem replay_agree {user : User} {db db' : Db} (h : Db.AgreeOn user.pk db db')
    (hkeys : KeysUnique db) (key : Option Str) (fingerprint : Str) :
    replay db user key fingerprint = replay db' user key fingerprint := by
  have hown : ∀ {d}, sameUpload user key d = true → d.owner = user.pk ∧ d.idempotencyKey = key := by
    intro d hd
    simpa [sameUpload] using hd
  obtain ⟨hnone, hall⟩ | ⟨d, hd, htruthy, hsame, hreplay⟩ := replay_cases db user key fingerprint
  · obtain ⟨hnone', -⟩ | ⟨d', hd', htruthy, hsame', -⟩ := replay_cases db' user key fingerprint
    · rw [hnone, hnone']
    · have hmem := h.symm.mem hd' (hown hsame').1
      rw [hall htruthy d' hmem] at hsame'
      cases hsame'
  · obtain ⟨-, hall'⟩ | ⟨d', hd', -, hsame', hreplay'⟩ := replay_cases db' user key fingerprint
    · have hmem := h.mem hd (hown hsame).1
      rw [hall' htruthy d hmem] at hsame
      cases hsame
    · obtain ⟨howner, hkey⟩ := hown hsame
      obtain ⟨howner', hkey'⟩ := hown hsame'
      have hmem : d' ∈ db.documents.rows := h.symm.mem hd' howner'
      obtain ⟨k, rfl⟩ : ∃ k, key = some k := by
        cases key with
        | none => cases htruthy
        | some k => exact ⟨k, rfl⟩
      have hid : d.id = d'.id := hkeys d.id d'.id d d' k
        (@Table.find_of_mem _ _ _ (fun d : Document => d.id) _ _ hd)
        (@Table.find_of_mem _ _ _ (fun d : Document => d.id) _ _ hmem)
        (howner.trans howner'.symm) hkey hkey'
      rw [hreplay, hreplay', Table.eq_of_key_eq hd hmem hid]

/-- A row under a new primary key and a new name is admitted unless its owner has used its key. -/
theorem Db.admits_iff {db : Db} {row : Document}
    (hnew : ∀ d ∈ db.documents.rows, d.id ≠ row.id ∧ d.storageKey ≠ row.storageKey) :
    db.admits row = true ↔ 0 < row.size ∧ ∀ d ∈ db.documents.rows, d.owner = row.owner →
      row.idempotencyKey.isSome = true → d.idempotencyKey ≠ row.idempotencyKey := by
  rw [Db.admits, Bool.and_eq_true_iff, decide_eq_true_iff, List.all_eq_true]
  refine and_congr_right fun _ => forall₂_congr fun d hd => ?_
  obtain ⟨hid, hname⟩ := hnew d hd
  cases hkey : row.idempotencyKey with
  | none => simp [hid, hname]
  | some k =>
      by_cases howner : d.owner = row.owner
      · simp [hid, hname, howner]
      · simp [hid, hname, howner]

/-- **The constraints** refuse the row of a new document in both states or in neither. -/
theorem Db.AgreeOn.admits {db db' : Db} {row : Document} (h : Db.AgreeOn row.owner db db')
    (hnew : ∀ d ∈ db.documents.rows, d.id ≠ row.id ∧ d.storageKey ≠ row.storageKey)
    (hnew' : ∀ d ∈ db'.documents.rows, d.id ≠ row.id ∧ d.storageKey ≠ row.storageKey) :
    db.admits row = db'.admits row := by
  rw [Bool.eq_iff_iff, Db.admits_iff hnew, Db.admits_iff hnew']
  refine and_congr_right fun _ => ⟨fun hall d hd howner => ?_, fun hall d hd howner => ?_⟩
  · exact hall d (h.symm.mem hd howner) howner
  · exact hall d (h.mem hd howner) howner

/-! ## One transaction -/

/-- Two transactions did the same for a user, and gave the user no object but those before. -/
structure SameOutcome {α : Type} (u : UserId) (before : Db) (a a' : Db × α) : Prop where
  db : Db.AgreeOn u a.1 a'.1
  answer : a.2 = a'.2
  objects : ∀ id d, a.1.owned u id = some d →
    ∃ k d₀, before.owned u k = some d₀ ∧ d₀.storageKey = d.storageKey

/-- The answer is put into words alike. -/
theorem SameOutcome.render {α β : Type} {u : UserId} {before : Db} {a a' : Db × α}
    (h : SameOutcome u before a a') (f : α → β) :
    SameOutcome u before (a.1, f a.2) (a'.1, f a'.2) :=
  ⟨h.db, congrArg f h.answer, h.objects⟩

/-- Writing back a row with its name gives no new object. -/
theorem Db.objects_putDocument {u : UserId} {db : Db} {pk : Uuid} {row row' : Document}
    (hrow : db.owned u pk = some row) (hkey : row'.storageKey = row.storageKey) (id : Uuid)
    (d : Document) (hd : (db.putDocument row').owned u id = some d) :
    ∃ k d₀, db.owned u k = some d₀ ∧ d₀.storageKey = d.storageKey := by
  obtain ⟨hfind, howner⟩ := Db.owned_eq_some_iff.mp hd
  rw [Db.putDocument_documents, Table.find_put] at hfind
  split at hfind
  · cases hfind
    exact ⟨pk, row, hrow, hkey.symm⟩
  · exact ⟨id, d, Db.owned_eq_some_iff.mpr ⟨hfind, howner⟩, rfl⟩

section Transaction

variable (env : Env) {db db' : Db} (request : Request) (hstaff : request.user.isStaff = false)
  (h : Db.AgreeOn request.user.pk db db')

include hstaff h

/-- A PATCH has the same outcome in both databases. -/
theorem partialUpdate_agree (draw : Draw) (body : Except ApiError Patch) :
    SideBySide (SameOutcome request.user.pk db) (partialUpdate env db draw request body)
      (partialUpdate env db' draw request body) := by
  refine (getObject_sideBySide hstaff h request.pk).bind ?_
  rintro _ _ ⟨rfl, row, rfl, hrow, hfind, hfind'⟩
  refine (SideBySide.same (fun _ => rfl) body).bind ?_
  rintro data _ rfl
  refine (SideBySide.same (fun _ => rfl) (checkRevision row.defer.toDocumentColumns _)).bind ?_
  rintro _ _ -
  dsimp only
  split
  · exact .returned ⟨h, rfl, fun id d hd => ⟨id, d, hd, rfl⟩⟩
  · have hkey : (data.assign (data.changed row.toDocumentColumns)
        row.toDocumentColumns).bump.storageKey = row.storageKey :=
      data.edit_storageKey draw.now row.toDocumentColumns
    simp only [Document.defer]
    rw [DocumentObject.save_deferred (data.find_bump hfind),
      DocumentObject.save_deferred (data.find_bump hfind')]
    exact .returned ⟨(h.putDocument _).audit _ _ _ _ _, rfl, Db.objects_putDocument hrow hkey⟩

/-- A DELETE has the same outcome in both databases. -/
theorem destroy_agree (draw : Draw) (jobId : Uuid) :
    SideBySide (SameOutcome request.user.pk db)
      ((destroy db draw jobId request).map fun db => (db, Reply.done))
      ((destroy db' draw jobId request).map fun db => (db, Reply.done)) := by
  refine SideBySide.map (R := fun a a' => SameOutcome request.user.pk db (a, ()) (a', ())) ?_ ?_
  · refine (getObject_sideBySide hstaff h request.pk).bind ?_
    rintro _ _ ⟨rfl, row, rfl, hrow, hfind, hfind'⟩
    refine (SideBySide.same (fun _ => rfl) (checkRevision row.defer.toDocumentColumns _)).bind ?_
    rintro _ _ -
    refine .returned ⟨((h.audit _ _ _ _ _).putJob _ _).removeDocument _, rfl, fun id d hd => ?_⟩
    obtain ⟨hd, howner⟩ := Db.owned_eq_some_iff.mp hd
    rw [Db.removeDocument_documents, Table.find_erase] at hd
    split at hd
    · cases hd
    · exact ⟨id, d, Db.owned_eq_some_iff.mpr ⟨hd, howner⟩, rfl⟩
  · exact fun _ _ hsame => ⟨hsame.db, rfl, hsame.objects⟩

/-- A reprocess request has the same outcome in both databases. -/
theorem reprocess_agree (draw : Draw) (jobId : Uuid) :
    SideBySide (SameOutcome request.user.pk db) (reprocess env db draw jobId request)
      (reprocess env db' draw jobId request) := by
  refine (getObject_sideBySide hstaff h request.pk).bind ?_
  rintro _ _ ⟨rfl, row, rfl, hrow, hfind, hfind'⟩
  refine (SideBySide.same (fun _ => rfl) (checkRevision row.defer.toDocumentColumns _)).bind ?_
  rintro _ _ -
  dsimp only
  split
  · exact .raised _
  · have hreset : db.documents.find row.reset.id = some row := hfind
    have hreset' : db'.documents.find row.reset.id = some row := hfind'
    simp only [Document.defer]
    rw [DocumentObject.save_deferred hreset, DocumentObject.save_deferred hreset']
    exact .returned ⟨((h.putDocument _).audit _ _ _ _ _).putJob _ _, rfl,
      Db.objects_putDocument hrow rfl⟩

end Transaction

/-! ## One statement of an upload -/

namespace Upload

variable {env : Env} {db db' : Db} {store store' : Store} {u u₁ : Upload} {move : UploadMove}

/-- The document transaction decides alike: it raises one error, or commits writes that keep the
agreement, and answers one document. -/
theorem atomicBlock_agree (h : Db.AgreeOn u.user.pk db db')
    (hreplay : replay db u.user u.key u.fingerprint = replay db' u.user u.key u.fingerprint)
    {ids : UploadIds} {actual : StorageKey} {draw : Draw} (jobId : Uuid) (fault : Option Statement)
    (hadm : db.admits (.indexed env (u.document ids actual draw.now) []) =
      db'.admits (.indexed env (u.document ids actual draw.now) [])) :
    atomicBlock env db u ids actual draw jobId fault =
        atomicBlock env db' u ids actual draw jobId fault ∧
      ∀ outcome, atomicBlock env db u ids actual draw jobId fault = .ok outcome →
        Db.AgreeOn u.user.pk (outcome.writes db) (outcome.writes db') := by
  refine ⟨?_, fun outcome hok => ?_⟩
  · simp only [atomicBlock, hreplay, hadm]
  · obtain ⟨existing, -, rfl⟩ | ⟨-, -, rfl⟩ := atomicBlock_ok hok
    · exact h.updateJobs _ _ _ _
    · exact (((h.putDocument _).audit _ _ _ _ _).putJob _ _).updateJobs _ _ _ _

/-- A committed write of a call moves the call alike, and keeps the agreement. -/
theorem write_agree {owner : UserId} (h : Db.AgreeOn owner db db') {writes : Db → Db}
    (hwrites : Db.AgreeOn owner (writes db) (writes db')) {ack : Ack} {pc : UploadPc} {db₁ : Db}
    {store₁ : Store}
    (hstep : some ((write db u ack writes pc).1, store, (write db u ack writes pc).2) =
      some (db₁, store₁, u₁)) :
    ∃ db₁' store₁', some ((write db' u ack writes pc).1, store', (write db' u ack writes pc).2) =
        some (db₁', store₁', u₁) ∧
      Db.AgreeOn owner db₁ db₁' ∧ ∀ key, store key = store' key → store₁ key = store₁' key := by
  cases hstep
  unfold write
  cases ack.applied with
  | true => exact ⟨_, _, rfl, hwrites, fun _ hkey => hkey⟩
  | false => exact ⟨_, _, rfl, h, fun _ hkey => hkey⟩

/-- **A statement of a call** has the same outcome in both states. -/
theorem step_agree (h : Db.AgreeOn u.user.pk db db')
    (hreplay : replay db u.user u.key u.fingerprint = replay db' u.user u.key u.fingerprint)
    (hadm : ∀ ids actual now, u.pc = .named ids actual →
      db.admits (.indexed env (u.document ids actual now) []) =
        db'.admits (.indexed env (u.document ids actual now) []))
    (store' : Store) {db₁ : Db} {store₁ : Store}
    (hstep : u.step env db store move = some (db₁, store₁, u₁)) :
    ∃ db₁' store₁', u.step env db' store' move = some (db₁', store₁', u₁) ∧
      Db.AgreeOn u.user.pk db₁ db₁' ∧ ∀ key, store key = store' key → store₁ key = store₁' key := by
  unfold step at hstep
  split at hstep
  case h_1 fails hpc =>
    split at hstep
    · next hf =>
        cases hstep
        exact ⟨db', store', by simp only [step, hpc, hf, if_true], h, fun _ hkey => hkey⟩
    · next hf =>
        split at hstep
        all_goals
          next hr =>
            cases hstep
            rw [hreplay] at hr
            refine ⟨db', store', ?_, h, fun _ hkey => hkey⟩
            simp only [step, hpc, hf, if_false, hr, Bool.false_eq_true]
  case h_2 ids now ack hpc =>
    simp only [step, hpc]
    exact write_agree h (h.putJob _ _) hstep
  case h_3 ids actual ack hpc =>
    cases hstep
    refine ⟨db', _, by simp only [step, hpc]; rfl, h, fun key hkey => ?_⟩
    split
    · rw [Function.update_apply, Function.update_apply, hkey]
    · exact hkey
  case h_4 ids actual now ack hpc =>
    simp only [step, hpc]
    exact write_agree h (h.updateJobs _ _ _ _) hstep
  case h_5 ids actual draw jobId fault ack hpc =>
    obtain ⟨hblock, hwrites⟩ := atomicBlock_agree h hreplay jobId fault (hadm ids actual draw.now hpc)
    simp only [step, hpc]
    split at hstep
    · next hb =>
        cases hstep
        refine ⟨db', store', ?_, h, fun _ hkey => hkey⟩
        rw [← hblock, hb]
    · next e hne hb =>
        cases hstep
        refine ⟨db', store', ?_, h, fun _ hkey => hkey⟩
        rw [← hblock, hb]
        cases e with
        | conflict => exact absurd rfl hne
        | _ => rfl
    · next outcome hb =>
        rw [← hblock, hb]
        exact write_agree h (hwrites outcome hb) hstep
  case h_6 ids now ack hpc =>
    simp only [step, hpc]
    exact write_agree h (h.updateJobs _ _ _ _) hstep
  case h_7 ids now ack hpc =>
    simp only [step, hpc]
    exact write_agree h (h.updateJobs _ _ _ _) hstep
  case h_8 =>
    split at hstep
    · cases hstep
    · next hend =>
        cases hstep
        refine ⟨db', store', ?_, h, fun _ hkey => hkey⟩
        cases hpc : u.pc with
        | returned | raised | dead =>
            rw [hpc] at hend
            exact absurd rfl hend
        | _ => simp only [step, hpc, UploadPc.ended, Bool.false_eq_true, if_false]
  case h_9 => cases hstep

/-- A document after a statement was there before, or is filed under the object the call has
stored. -/
theorem Advance.document_key {u' : Upload} (ha : Advance env db store u move db' store' u')
    {id : Uuid} {d : Document} (hd : db'.documents.find id = some d) :
    db.documents.find id = some d ∨ u.pc.object = some d.storageKey := by
  cases ha with
  | @created ids actual draw jobId fault ack hpc =>
      rw [writeDocument, Db.updateJob_documents, Db.putJob_documents, audit_documents,
        Db.putDocument_documents, Table.find_put] at hd
      split at hd
      · cases hd
        rw [hpc]
        exact .inr rfl
      · exact .inl hd
  | _ => exact .inl hd

end Upload

/-! ## The invariants of reachable states -/

/-- What the comparison of two states needs to know about each of them. -/
structure Sound (w : World) : Prop where
  known : Known w
  provenance : Provenance w
  marksDrawn : MarksDrawn w
  oneDocument : OneDocument w
  keysUnique : KeysUnique w.db
  auditKeys : AuditKeys w

/-- **Every reachable state** is sound. -/
theorem sound_of_history {env : Env} {h : List Step} {w : World} (hr : History env h w) : Sound w :=
  have ⟨known, provenance⟩ := provenance_of_history hr
  have ⟨marksDrawn, oneDocument⟩ := oneDocument_of_history hr
  ⟨known, provenance, marksDrawn, oneDocument, keysUnique_of_history hr, auditKeys_of_history hr⟩

/-- The state after an event of a sound state is sound. -/
theorem Sound.step {env : Env} {w w' : World} {e : Event} (h : Sound w) (he : Effect env w e w') :
    Sound w' where
  known := h.known.step he
  provenance := h.provenance.step h.known he
  marksDrawn := h.marksDrawn.step h.known h.provenance he
  oneDocument := h.oneDocument.step h.known h.provenance h.marksDrawn he
  keysUnique := h.keysUnique.step h.known h.provenance he
  auditKeys := h.auditKeys.step he

/-- The document a call is about to commit has a new primary key and a new name. -/
theorem Sound.row_new {env : Env} {w : World} (h : Sound w) {c : Nat} {u : Upload} {ids : UploadIds}
    {actual : StorageKey} (hu : w.uploads c = some u) (hpc : u.pc = .named ids actual)
    (now : Timestamp) : ∀ d ∈ w.db.documents.rows,
      d.id ≠ (Document.indexed env (u.document ids actual now) []).id ∧
        d.storageKey ≠ (Document.indexed env (u.document ids actual now) []).storageKey := by
  intro d hd
  have hfind : w.db.documents.find d.id = some d :=
    @Table.find_of_mem _ _ _ (fun d : Document => d.id) _ _ hd
  have hids : u.pc.uncommitted = some ids := by rw [hpc]; rfl
  refine ⟨(h.provenance.unborn c u ids hu hids).ne_of_find hfind, fun hkey => ?_⟩
  exact h.oneDocument.key_ne h.provenance hu hids (by rw [hpc]; rfl) hfind
    (congrArg StorageKey.mark hkey)

/-! ## A call in two states -/

/-- The states agree on a user's slice, and a call of the user stands at one point in both. -/
structure World.Paired (c : Nat) (u : UserId) (w w' : World) : Prop where
  agree : World.AgreeOn u w w'
  call : ∃ up, w.uploads c = some up ∧ w'.uploads c = some up ∧ up.user.pk = u ∧
    ∀ key, up.pc.object = some key → w.store key = w'.store key

/-- **A statement keeps the pairing.** -/
theorem World.Paired.step {env : Env} {c : Nat} {u : UserId} {w w' w₁ : World} {move : UploadMove}
    {r : Reply} (hw : Sound w) (hw' : Sound w') (hpair : World.Paired c u w w')
    (hfresh : w'.Fresh move.draws) (hs : w.perform env (.upload c move) = some (w₁, r)) :
    ∃ w₁', w'.perform env (.upload c move) = some (w₁', r) ∧ World.Paired c u w₁ w₁' := by
  obtain ⟨hagree, up, hup, hup', rfl, hobject⟩ := hpair
  obtain ⟨up₀, hup₀, h₁⟩ := Option.bind_eq_some_iff.mp hs
  rw [hup] at hup₀
  cases hup₀
  obtain ⟨-, h₂⟩ := World.draw_bind h₁
  dsimp only at h₂
  split at h₂
  · next hhonest =>
      obtain ⟨⟨db₁, store₁, up₁⟩, hstep, h₃⟩ := Option.bind_eq_some_iff.mp h₂
      cases h₃
      have hadm : ∀ ids actual now, up.pc = .named ids actual →
          w.db.admits (.indexed env (up.document ids actual now) []) =
            w'.db.admits (.indexed env (up.document ids actual now) []) := fun ids actual now hpc =>
        Db.AgreeOn.admits hagree.db (hw.row_new hup hpc now) (hw'.row_new hup' hpc now)
      obtain ⟨db₁', store₁', hstep', hdb, hstore⟩ := Upload.step_agree hagree.db
        (replay_agree hagree.db hw.keysUnique _ _) hadm w'.store hstep
      have ha := Upload.step_advance hstep
      have ha' := Upload.step_advance hstep'
      refine ⟨{ (w'.drew move.draws).setUpload c up₁ with db := db₁', store := store₁' }, ?_, ?_⟩
      · simp only [World.perform, hup', Option.bind_eq_bind, Option.bind_some,
          World.draw_of_fresh hfresh, hhonest, if_true, World.drew_db, World.drew_store, hstep']
        rfl
      · refine ⟨⟨hdb, fun id d hd => ?_⟩, up₁, Function.update_self .., Function.update_self ..,
          congrArg User.pk ha.parameters.1, fun key hkey => ?_⟩
        · obtain ⟨hd, howner⟩ := Db.owned_eq_some_iff.mp hd
          obtain hold | hnew := ha.document_key hd
          · exact hstore _ (hagree.objects id d (Db.owned_eq_some_iff.mpr ⟨hold, howner⟩))
          · exact hstore _ (hobject _ hnew)
        -- The object was there before, or has just been stored with the content of the upload.
        · obtain ⟨-, hnew | ⟨hold, -⟩⟩ := ha.object hkey
          · obtain ⟨-, hnew' | ⟨hold, -⟩⟩ := ha'.object hkey
            · exact hnew.trans hnew'.symm
            · exact hstore _ (hobject _ hold)
          · exact hstore _ (hobject _ hold)
  · cases h₂

/-- A statement of a call draws its identifiers and nothing else. -/
theorem World.drawn_of_upload {env : Env} {w w₁ : World} {c : Nat} {move : UploadMove} {r : Reply}
    (hs : w.perform env (.upload c move) = some (w₁, r)) : w₁.drawn = move.draws ++ w.drawn := by
  obtain ⟨u, hu, -⟩ := Option.bind_eq_some_iff.mp hs
  exact ((World.perform_effect hs).honest hu).2.2

/-- **The statements of a call keep the pairing.** -/
theorem World.Paired.advance {env : Env} {c : Nat} {u : UserId} {moves : List UploadMove}
    {w w' w₁ : World} (hw : Sound w) (hw' : Sound w') (hpair : World.Paired c u w w')
    (hfresh : w'.Fresh (moves.flatMap UploadMove.draws)) (hs : w.advance env c moves = some w₁) :
    ∃ w₁', w'.advance env c moves = some w₁' ∧ World.Paired c u w₁ w₁' := by
  -- Each statement draws identifiers, and the ones left are still fresh.
  induction moves generalizing w w' with
  | nil =>
      cases hs
      exact ⟨w', rfl, hpair⟩
  | cons move moves ih =>
      obtain ⟨⟨w₂, r⟩, hs₂, hs⟩ := Option.bind_eq_some_iff.mp hs
      obtain ⟨hnodup, hnew⟩ := hfresh
      rw [List.flatMap_cons, List.nodup_append] at hnodup
      obtain ⟨hnodup₁, hnodup₂, hdisjoint⟩ := hnodup
      obtain ⟨w₂', hs₂', hpair₂⟩ := hpair.step hw hw'
        ⟨hnodup₁, fun id hid => hnew id (List.mem_append_left _ hid)⟩ hs₂
      have hleft : w₂'.Fresh (moves.flatMap UploadMove.draws) := by
        refine ⟨hnodup₂, fun id hid => ?_⟩
        rw [World.drawn_of_upload hs₂', List.mem_append]
        rintro (hdrawn | hdrawn)
        · exact hdisjoint id hdrawn id hid rfl
        · exact hnew id (List.mem_append_right _ hid) hdrawn
      obtain ⟨w₁', hs₁', hpair₁⟩ := ih (hw.step (World.perform_effect hs₂))
        (hw'.step (World.perform_effect hs₂')) hpair₂ hleft hs
      exact ⟨w₁', by rw [World.advance, hs₂']; exact hs₁', hpair₁⟩

/-! ## A request in two states -/

/-- Both states serve a request with one response and agree again, or neither can serve it. -/
inductive ServedAlike (u : UserId) : Option (World × Response) → Option (World × Response) → Prop
  | served {w w' : World} {r : Response} (h : World.AgreeOn u w w') :
      ServedAlike u (some (w, r)) (some (w', r))
  | impossible : ServedAlike u none none

/-- Agreement does not distinguish the states. -/
theorem World.AgreeOn.symm {u : UserId} {w w' : World} (h : World.AgreeOn u w w') :
    World.AgreeOn u w' w :=
  ⟨h.db.symm, fun id d hd => (h.objects id d ((h.db.documents id).trans hd)).symm⟩

/-- A pairing of worlds can be read the other way. -/
theorem World.Paired.symm {c : Nat} {u : UserId} {w w' : World} (h : World.Paired c u w w') :
    World.Paired c u w' w := by
  obtain ⟨hagree, up, hup, hup', huser, hobject⟩ := h
  exact ⟨hagree.symm, up, hup', hup, huser, fun key hkey => (hobject key hkey).symm⟩

/-- A view that runs as one transaction is answered alike. -/
theorem World.AgreeOn.respond {u : UserId} {w w' : World} (h : World.AgreeOn u w w')
    {x x' : Except ApiError (Db × Reply)} (hx : SideBySide (SameOutcome u w.db) x x')
    (ids : List Uuid) (status : Nat) :
    ServedAlike u
      (some (((w.drew ids).respond x).1, ((w.drew ids).respond x).2.response status))
      (some (((w'.drew ids).respond x').1, ((w'.drew ids).respond x').2.response status)) := by
  cases hx with
  | raised e => exact .served ⟨h.db, h.objects⟩
  | @returned a a' hsame =>
      obtain ⟨db, reply⟩ := a
      obtain ⟨db', reply'⟩ := a'
      obtain ⟨hdb, rfl, hobjects⟩ := hsame
      refine .served ⟨hdb, fun id d hd => ?_⟩
      obtain ⟨k, d₀, hd₀, hkey⟩ := hobjects id d hd
      show w.store d.storageKey = w'.store d.storageKey
      rw [← hkey]
      exact h.objects k d₀ hd₀

/-! ### A transaction with fresh identifiers -/

section Perform

variable {env : Env} {w : World} {request : Request} {draw : Draw} {jobId : Uuid}

/-- A PATCH can always happen, with a fresh identifier for its event. -/
theorem World.partialUpdate_eq {body : Except ApiError Patch} (hf : w.Fresh [draw.eventId]) :
    w.perform env (.partialUpdate request body draw) = some ((w.drew [draw.eventId]).respond
      ((MiniDms.partialUpdate env w.db draw request body).map
        fun r => (r.1, Reply.document r.2))) := by
  simp only [World.perform, World.draw_of_fresh hf]
  rfl

/-- A DELETE can always happen, with fresh identifiers for its job and its event. -/
theorem World.destroy_eq (hf : w.Fresh [jobId, draw.eventId]) :
    w.perform env (.destroy request jobId draw) = some ((w.drew [jobId, draw.eventId]).respond
      ((MiniDms.destroy w.db draw jobId request).map fun db => (db, Reply.done))) := by
  simp only [World.perform, World.draw_of_fresh hf]
  rfl

/-- A reprocess request can always happen, with fresh identifiers for its job and its event. -/
theorem World.reprocess_eq (hf : w.Fresh [jobId, draw.eventId]) :
    w.perform env (.reprocess request jobId draw) = some ((w.drew [jobId, draw.eventId]).respond
      ((MiniDms.reprocess env w.db draw jobId request).map
        fun r => (r.1, Reply.document r.2))) := by
  simp only [World.perform, World.draw_of_fresh hf]
  rfl

end Perform

/-- Some of the identifiers of a request are fresh. -/
theorem Chance.Fresh.sublist {chance : Chance} {w : World} (hf : chance.Fresh w) {ids : List Uuid}
    (h : ids.Sublist chance.draws) : w.Fresh ids :=
  ⟨hf.nodup.sublist h, fun id hid => hf.notDrawn id (h.subset hid)⟩

/-- The identifier of an audit event is one of those a request draws. -/
theorem Chance.event_sublist (chance : Chance) :
    [chance.draw.eventId].Sublist chance.draws := by
  simp [Chance.draws]

/-- The identifiers of a job and its event are among those drawn. -/
theorem Chance.job_sublist (chance : Chance) :
    [chance.jobId, chance.draw.eventId].Sublist chance.draws := by
  simp [Chance.draws]

section Request

variable {env : Env} {user : User} {w w' : World} {chance : Chance}
  (hstaff : user.isStaff = false) (h : World.AgreeOn user.pk w w') (hf : chance.Fresh w)
  (hf' : chance.Fresh w')

include hstaff h hf hf'

/-- **A request for one document** is answered alike. -/
theorem serveDocument_agree (pk : Uuid) (request : DocumentRequest) :
    ServedAlike user.pk (w.serveDocument env user chance pk request)
      (w'.serveDocument env user chance pk request) := by
  have hevent := hf.sublist chance.event_sublist
  have hevent' := hf'.sublist chance.event_sublist
  have hjob := hf.sublist chance.job_sublist
  have hjob' := hf'.sublist chance.job_sublist
  cases request with
  | retrieve =>
      simp only [World.serveDocument, retrieve_agree hstaff h.db]
      exact .served h
  | processingStatus =>
      simp only [World.serveDocument, processingStatus_agree hstaff h.db]
      exact .served h
  | text =>
      simp only [World.serveDocument, readText_agree hstaff h.db]
      exact .served h
  | download =>
      simp only [World.serveDocument, download_agree hstaff h]
      exact .served h
  | partialUpdate ifMatch body =>
      have hx := partialUpdate_agree env ⟨user, pk, ifMatch, chance.requestId⟩ hstaff h.db chance.draw
        body
      simp only [World.serveDocument, World.partialUpdate_eq hevent,
        World.partialUpdate_eq hevent', Option.map_some]
      exact h.respond (hx.map fun _ _ hsame => hsame.render Reply.document) _ 200
  | destroy ifMatch =>
      have hx := destroy_agree ⟨user, pk, ifMatch, chance.requestId⟩ hstaff h.db chance.draw
        chance.jobId
      simp only [World.serveDocument, World.destroy_eq hjob, World.destroy_eq hjob',
        Option.map_some]
      exact h.respond hx _ 204
  | reprocess ifMatch =>
      have hx := reprocess_agree env ⟨user, pk, ifMatch, chance.requestId⟩ hstaff h.db chance.draw
        chance.jobId
      simp only [World.serveDocument, World.reprocess_eq hjob, World.reprocess_eq hjob',
        Option.map_some]
      exact h.respond (hx.map fun _ _ hsame => hsame.render Reply.document) _ 202

omit hstaff in
/-- **An upload** is answered alike. -/
theorem serveUpload_agree (hw : Sound w) (hw' : Sound w') (data : UploadData) (key : Option Str) :
    ServedAlike user.pk (w.serveUpload env user chance data key)
      (w'.serveUpload env user chance data key) := by
  have henter : ∀ {v : World}, chance.Fresh v →
      v.perform env (.enterUpload chance.call user data key chance.requestId) =
        some (v.setUpload chance.call (.enter env user data key chance.requestId), .done) := by
    intro v hv
    simp only [World.perform, hv.call, Option.isSome_none, Bool.false_eq_true, if_false]
  have hmoves : ∀ {v : World}, chance.Fresh v →
      (v.setUpload chance.call (.enter env user data key chance.requestId)).Fresh
        (chance.moves.flatMap UploadMove.draws) := fun hv =>
    hv.sublist ((List.sublist_cons_self _ _).trans (List.sublist_cons_self _ _))
  have hobject : ∀ name, (Upload.enter env user data key chance.requestId).pc.object ≠ some name := by
    intro name hname
    obtain ⟨ids, hids⟩ := UploadPc.ids_of_mark (UploadPc.mark_of_object hname)
    rw [Upload.pc_ids_enter] at hids
    cases hids
  have hpair : World.Paired chance.call user.pk
      (w.setUpload chance.call (.enter env user data key chance.requestId))
      (w'.setUpload chance.call (.enter env user data key chance.requestId)) :=
    ⟨⟨h.db, h.objects⟩, _, Function.update_self .., Function.update_self .., rfl,
      fun name hname => absurd hname (hobject name)⟩
  have hsound := hw.step (World.perform_effect (henter hf))
  have hsound' := hw'.step (World.perform_effect (henter hf'))
  simp only [World.serveUpload, henter hf, henter hf', Option.bind_eq_bind, Option.bind_some]
  cases hs : World.advance env chance.call chance.moves
      (w.setUpload chance.call (.enter env user data key chance.requestId)) with
  | some w₁ =>
      obtain ⟨w₁', hs', hpair₁⟩ := hpair.advance hsound hsound' (hmoves hf') hs
      obtain ⟨hagree, up, hup, hup', -⟩ := hpair₁
      rw [hs', Option.bind_some, Option.bind_some, hup, hup']
      exact .served hagree
  | none =>
      cases hs' : World.advance env chance.call chance.moves
          (w'.setUpload chance.call (.enter env user data key chance.requestId)) with
      | none => exact .impossible
      | some w₁' =>
          obtain ⟨w₁, hs₁, -⟩ := hpair.symm.advance hsound' hsound (hmoves hf) hs'
          rw [hs] at hs₁
          cases hs₁

/-- **Every request is answered alike.** -/
theorem serve_agree (hw : Sound w) (hw' : Sound w') (library : ViewLibrary) (request : ApiRequest) :
    ServedAlike user.pk (w.serve library env user chance request)
      (w'.serve library env user chance request) := by
  cases request with
  | list params =>
      simp only [World.serve, listDocuments_agree hstaff h.db]
      exact .served h
  | create body key =>
      simp only [World.serve]
      split
      · exact .served h
      · exact .served h
      · exact serveUpload_agree h hf hf' hw hw' _ _
  | document pk request => exact serveDocument_agree hstaff h hf hf' pk request
  | auditEvents documentId params =>
      simp only [World.serve, auditLog_agree hstaff h.db hw.auditKeys]
      exact .served h

end Request

end MiniDms
