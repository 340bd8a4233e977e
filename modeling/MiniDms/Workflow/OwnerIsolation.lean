import MiniDms.Workflow.TwoRuns

/-! # Owners are isolated from each other

A request of a user who is not staff reads and writes the slice of this user, and apart from it only
the jobs, the call and the object that it creates itself. So nothing a client is answered depends on
what other users have stored, and nothing of another user's work shows in the slice. -/

namespace MiniDms

open Python Relational TransitionSystem

/-! ## What a request leaves alone -/

/-- Outside one user's slice, the jobs and the objects under the identifiers `ids` and one call,
nothing has changed. -/
structure Untouched (u : UserId) (ids : List Uuid) (call : Nat) (w w' : World) : Prop where
  slices : ∀ v, v ≠ u → w'.slice v = w.slice v
  jobs : ∀ id, id ∉ ids → w'.db.jobs.find id = w.db.jobs.find id
  objects : ∀ key : StorageKey, key.mark ∉ ids → w'.store key = w.store key
  calls : ∀ c, c ≠ call → w'.uploads c = w.uploads c
  deliveries : w'.deliveries = w.deliveries
  dispatchers : w'.dispatchers = w.dispatchers

namespace Untouched

variable {u : UserId} {ids : List Uuid} {call : Nat} {w w₁ w₂ : World}

/-- Nothing happening touches nothing. -/
theorem refl (u : UserId) (ids : List Uuid) (call : Nat) (w : World) : Untouched u ids call w w :=
  ⟨fun _ _ => rfl, fun _ _ => rfl, fun _ _ => rfl, fun _ _ => rfl, rfl, rfl⟩

/-- What is touched by neither of two steps is not touched by both. -/
theorem trans (h : Untouched u ids call w w₁) (h' : Untouched u ids call w₁ w₂) :
    Untouched u ids call w w₂ where
  slices v hv := (h'.slices v hv).trans (h.slices v hv)
  jobs id hid := (h'.jobs id hid).trans (h.jobs id hid)
  objects key hkey := (h'.objects key hkey).trans (h.objects key hkey)
  calls c hc := (h'.calls c hc).trans (h.calls c hc)
  deliveries := h'.deliveries.trans h.deliveries
  dispatchers := h'.dispatchers.trans h.dispatchers

end Untouched

section Effect

variable {env : Env} {w w' : World} {e : Event} {user : User} {ids : List Uuid} {call : Nat}

/-- A statement of a request is nobody's work on a document. -/
theorem World.workedDocument_of_requester (h : w.requester e = some user) :
    w.workedDocument e = none := by
  cases e with
  | partialUpdate | destroy | reprocess | enterUpload | upload => rfl
  | _ => cases h

/-- **A statement of a request** leaves the slice of every other user. -/
theorem Effect.other_slices (hs : Sound w) (he : Effect env w e w')
    (hreq : w.requester e = some user) (hstaff : user.isStaff = false) (v : UserId)
    (hv : v ≠ user.pk) : w'.slice v = w.slice v := by
  refine he.slice_elsewhere hs.known hs.provenance hs.marksDrawn hs.oneDocument ⟨?_, ?_⟩
  · intro user' huser'
    rw [hreq] at huser'
    cases huser'
    exact ⟨hstaff, hv.symm⟩
  · intro id hid
    rw [World.workedDocument_of_requester hreq] at hid
    cases hid

/-- A view that runs as one transaction touches the job it creates. -/
theorem Effect.untouched_request (hs : Sound w) (he : Effect env w e w') {request : Request}
    {jobId : Uuid} {draw : Draw} (hstaff : request.user.isStaff = false) (hjob : jobId ∈ ids)
    (hevent : (∃ body, e = .partialUpdate request body draw) ∨ e = .destroy request jobId draw ∨
      e = .reprocess request jobId draw) : Untouched request.user.pk ids call w w' := by
  have hreq : w.requester e = some request.user := by
    obtain ⟨body, rfl⟩ | rfl | rfl := hevent <;> rfl
  have hne : ∀ {id}, id ∉ ids → id ≠ jobId := by
    rintro id hid rfl
    exact hid hjob
  have hslices := he.other_slices hs hreq hstaff
  obtain ⟨body, rfl⟩ | rfl | rfl := hevent
  · cases he with
    | idle | edited => exact ⟨hslices, fun _ _ => rfl, fun _ _ => rfl, fun _ _ => rfl, rfl, rfl⟩
  · cases he with
    | idle => exact ⟨hslices, fun _ _ => rfl, fun _ _ => rfl, fun _ _ => rfl, rfl, rfl⟩
    | destroyed =>
        refine ⟨hslices, fun id hid => ?_, fun _ _ => rfl, fun _ _ => rfl, rfl, rfl⟩
        rw [Db.removeDocument_jobs, Db.putJob_jobs, Table.find_put]
        exact if_neg (hne hid)
  · cases he with
    | idle => exact ⟨hslices, fun _ _ => rfl, fun _ _ => rfl, fun _ _ => rfl, rfl, rfl⟩
    | reprocessed =>
        refine ⟨hslices, fun id hid => ?_, fun _ _ => rfl, fun _ _ => rfl, rfl, rfl⟩
        rw [Db.putJob_jobs, Table.find_put]
        exact if_neg (hne hid)

/-- A statement of a call rewrites the jobs it creates. -/
theorem Upload.Advance.jobs {db db' : Db} {store store' : Store} {u u' : Upload} {move : UploadMove}
    (ha : Advance env db store u move db' store' u') {id : Uuid} (hdraws : id ∉ move.draws)
    (hintent : ∀ i, u.pc.ids = some i → i.intentId ≠ id) :
    db'.jobs.find id = db.jobs.find id := by
  have hupdate : ∀ {i f} {db : Db}, u.pc.ids = some i →
      (db.updateJob i.intentId f).jobs.find id = db.jobs.find id := by
    intro i f db hi
    rw [Db.find_updateJob, if_neg (hintent i hi).symm]
  cases ha with
  | intended =>
      rw [Db.putJob_jobs, Table.find_put]
      refine if_neg ?_
      rintro rfl
      simp [UploadMove.draws, intent] at hdraws
  | renamed hpc | replayed hpc | conflictExpedited hpc | failureExpedited hpc =>
      exact hupdate (by rw [hpc]; rfl)
  | created hpc =>
      rw [writeDocument, hupdate (by rw [hpc]; rfl), Db.putJob_jobs, Table.find_put]
      refine if_neg ?_
      rintro rfl
      simp [UploadMove.draws] at hdraws
  | _ => rfl

/-- A statement of a call stores under the marks of the call. -/
theorem Upload.Advance.store_of_mark {db db' : Db} {store store' : Store} {u u' : Upload}
    {move : UploadMove} (ha : Advance env db store u move db' store' u') (hu : u.Coherent)
    (hhonest : move.honest u = true) {key : StorageKey} (hdraws : key.mark ∉ move.draws)
    (hnonce : ∀ i, u.ids = some i → i.nonce ≠ key.mark) : store' key = store key := by
  cases ha with
  | @saved i actual ack hpc =>
      refine Function.update_of_ne ?_ _ _
      rintro rfl
      have hi : u.ids = some i := hu i (by rw [hpc]; rfl)
      obtain hmark | hnew := mark_of_save hi hhonest
      · exact hnonce i hi hmark.symm
      · exact hdraws hnew
  | _ => rfl

/-- The identifiers a call has drawn are among `ids`. -/
def Upload.Draws (u : Upload) (ids : List Uuid) : Prop :=
  ∀ i, u.ids = some i → i.intentId ∈ ids ∧ i.nonce ∈ ids

/-- **A statement of a call** touches the jobs and the object of the call. -/
theorem Effect.untouched_upload (hs : Sound w) {u : Upload} {move : UploadMove}
    (he : Effect env w (.upload call move) w') (hu : w.uploads call = some u)
    (hstaff : u.user.isStaff = false) (hids : u.Draws ids) (hdraws : ∀ id ∈ move.draws, id ∈ ids) :
    Untouched u.user.pk ids call w w' ∧
      ∃ u', w'.uploads call = some u' ∧ u'.user = u.user ∧ u'.Draws ids := by
  have hreq : w.requester (.upload call move) = some u.user := by rw [World.requester, hu]; rfl
  have hslices := he.other_slices hs hreq hstaff
  cases he with
  | idle _ hupload => exact absurd rfl (hupload call move)
  | @advanced _ _ u₀ u' db' store' hf hu₀ hhonest ha =>
      rw [hu] at hu₀
      cases hu₀
      have hco := hs.known.coherent call u hu
      refine ⟨⟨hslices, fun id hid => ?_, fun key hkey => ?_, fun c hc => ?_, rfl, rfl⟩, u', ?_, ?_, ?_⟩
      · refine ha.jobs (fun h => hid (hdraws id h)) fun i hi hq => hid (hq ▸ ?_)
        exact (hids i (hco i hi)).1
      · refine ha.store_of_mark hco hhonest (fun h => hkey (hdraws _ h)) fun i hi hq => hkey (hq ▸ ?_)
        exact (hids i hi).2
      · exact Function.update_of_ne hc _ _
      · exact Function.update_self ..
      · exact ha.parameters.1
      · obtain hsame | ⟨ids', hids', hnew⟩ := ha.ids
        · intro i hi
          exact hids i (hsame ▸ hi)
        · intro i hi
          rw [hids'] at hi
          cases hi
          exact ⟨hdraws _ (hnew _ (by simp)), hdraws _ (hnew _ (by simp))⟩

/-- **The statements of a call** touch the jobs and the object of the call. -/
theorem World.advance_untouched {moves : List UploadMove} {u : Upload} (hs : Sound w)
    (hu : w.uploads call = some u) (hstaff : u.user.isStaff = false) (hids : u.Draws ids)
    (hdraws : ∀ id ∈ moves.flatMap UploadMove.draws, id ∈ ids)
    (h : w.advance env call moves = some w') : Untouched u.user.pk ids call w w' := by
  induction moves generalizing w u with
  | nil =>
      cases h
      exact .refl _ _ _ _
  | cons move moves ih =>
      obtain ⟨⟨w₁, r⟩, h₁, h₂⟩ := Option.bind_eq_some_iff.mp h
      have he := World.perform_effect h₁
      obtain ⟨hfirst, u₁, hu₁, huser, hids₁⟩ := he.untouched_upload hs hu hstaff hids fun id hid =>
        hdraws id (List.mem_append_left _ hid)
      refine hfirst.trans ?_
      rw [← huser] at hstaff ⊢
      exact ih (hs.step he) hu₁ hstaff hids₁ (fun id hid => hdraws id (List.mem_append_right _ hid)) h₂

end Effect

/-- **A request** touches the slice of its user, and the jobs, the object and the call it creates. -/
theorem Sound.serve_untouched {library : ViewLibrary} {env : Env} {user : User} {chance : Chance}
    {request : ApiRequest} {w w₁ : World} {r : Response} (hs : Sound w)
    (hstaff : user.isStaff = false)
    (h : w.serve library env user chance request = some (w₁, r)) :
    Untouched user.pk chance.draws chance.call w w₁ := by
  have hjob : chance.jobId ∈ chance.draws := List.mem_cons_self
  cases request with
  | list | auditEvents =>
      cases h
      exact .refl _ _ _ _
  | create body key =>
      simp only [World.serve] at h
      split at h
      · cases h
        exact .refl _ _ _ _
      · cases h
        exact .refl _ _ _ _
      · next data key _ =>
          obtain ⟨⟨w₀, reply⟩, h₀, h⟩ := Option.bind_eq_some_iff.mp h
          obtain ⟨w₂, h₂, h⟩ := Option.bind_eq_some_iff.mp h
          obtain ⟨u, -, h⟩ := Option.bind_eq_some_iff.mp h
          cases h
          have he := World.perform_effect h₀
          have hslices := he.other_slices hs rfl hstaff
          simp only [World.perform] at h₀
          split at h₀
          · cases h₀
          · cases h₀
            have henter : Untouched user.pk chance.draws chance.call w
                (w.setUpload chance.call (.enter env user data key chance.requestId)) :=
              ⟨hslices, fun _ _ => rfl, fun _ _ => rfl, fun c hc => Function.update_of_ne hc _ _, rfl,
                rfl⟩
            -- A call that has just been entered has drawn nothing.
            refine henter.trans (World.advance_untouched (hs.step he) (Function.update_self ..) hstaff
              (fun i hi => by cases hi) (fun id hid => ?_) h₂)
            exact List.mem_cons_of_mem _ (List.mem_cons_of_mem _ hid)
  | document pk request =>
      cases request with
      | retrieve | processingStatus | text | download =>
          cases h
          exact .refl _ _ _ _
      | partialUpdate ifMatch body =>
          obtain ⟨⟨w₂, reply⟩, hp, h⟩ := Option.map_eq_some_iff.mp h
          cases h
          exact (World.perform_effect hp).untouched_request hs hstaff hjob (.inl ⟨body, rfl⟩)
      | destroy ifMatch =>
          obtain ⟨⟨w₂, reply⟩, hp, h⟩ := Option.map_eq_some_iff.mp h
          cases h
          exact (World.perform_effect hp).untouched_request hs hstaff hjob (.inr (.inl rfl))
      | reprocess ifMatch =>
          obtain ⟨⟨w₂, reply⟩, hp, h⟩ := Option.map_eq_some_iff.mp h
          cases h
          exact (World.perform_effect hp).untouched_request hs hstaff hjob (.inr (.inr rfl))

/-! ## Documents of others -/

/-- The identifier is that of another user's document, or was until the document was deleted. -/
def World.OfAnother (w : World) (u : UserId) (id : Uuid) : Prop :=
  (∃ d, w.db.documents.find id = some d ∧ d.owner ≠ u) ∨
    ∃ e ∈ w.db.auditEvents, e.documentId = id ∧ e.owner ≠ u

/-- No document has the identifier, nor had one. -/
def World.Unused (w : World) (id : Uuid) : Prop :=
  w.db.documents.find id = none ∧ ∀ e ∈ w.db.auditEvents, e.documentId ≠ id

/-- The slice of the user knows nothing of the identifier. -/
structure World.Invisible (w : World) (u : UserId) (id : Uuid) : Prop where
  document : w.db.owned u id = none
  auditEvents : ∀ e ∈ w.db.logged u, e.documentId ≠ id

/-- A document of another user is invisible, its log included, since a document has one owner. -/
theorem World.OfAnother.invisible {w : World} {u : UserId} {id : Uuid} (h : w.OfAnother u id)
    (hone : (w.db.view id).OneOwner) : w.Invisible u id := by
  obtain ⟨owner, hrow, htrail⟩ := hone
  have hlog : ∀ e ∈ w.db.auditEvents, e.documentId = id → e.owner = owner := fun e he hid =>
    htrail e (List.mem_filter.mpr ⟨he, decide_eq_true hid⟩)
  have hne : owner ≠ u := by
    obtain ⟨d, hd, howner⟩ | ⟨e, he, hid, howner⟩ := h
    · exact hrow d hd ▸ howner
    · exact hlog e he hid ▸ howner
  refine ⟨Db.owned_eq_none_iff.mpr fun d hd => (hrow d hd).symm ▸ hne, fun e he hid => hne ?_⟩
  obtain ⟨he, howner⟩ := List.mem_filter.mp he
  exact (hlog e he hid).symm.trans (of_decide_eq_true howner)

/-- An identifier that is not used is visible to nobody. -/
theorem World.Unused.invisible {w : World} {id : Uuid} (h : w.Unused id) (u : UserId) :
    w.Invisible u id := by
  refine ⟨?_, fun e he => h.2 e (List.mem_filter.mp he).1⟩
  rw [Db.owned, h.1]
  rfl

/-- A request for an invisible document is answered 404. -/
theorem World.Invisible.serveDocument {w : World} {user : User} {pk : Uuid}
    (hstaff : user.isStaff = false) (h : w.Invisible user.pk pk) {env : Env} {chance : Chance}
    (hf : chance.Fresh w) (request : DocumentRequest) :
    (w.serveDocument env user chance pk request).map Prod.snd = some (.raised .notFound) := by
  have hget : getObject w.db user pk = .error .notFound := by
    rw [getObject_of_owned hstaff, h.document]
  have hevent := hf.sublist chance.event_sublist
  have hjob := hf.sublist chance.job_sublist
  cases request with
  | retrieve => simp only [World.serveDocument, retrieve, hget]; rfl
  | processingStatus => simp only [World.serveDocument, processingStatus, hget]; rfl
  | text => simp only [World.serveDocument, readText, hget]; rfl
  | download => simp only [World.serveDocument, MiniDms.download, hget]; rfl
  | partialUpdate =>
      simp only [World.serveDocument, World.partialUpdate_eq hevent, partialUpdate, hget]
      rfl
  | destroy =>
      simp only [World.serveDocument, World.destroy_eq hjob, destroy, hget]
      rfl
  | reprocess =>
      simp only [World.serveDocument, World.reprocess_eq hjob, reprocess, hget]
      rfl

/-- The audit log of an invisible document is empty. -/
theorem World.Invisible.auditLog {w : World} {user : User} {pk : Uuid}
    (hstaff : user.isStaff = false) (h : w.Invisible user.pk pk) {library : ViewLibrary} {text : Str}
    (hgiven : text ≠ []) (hparse : library.parseUuid text = some pk) (params : PageParams) :
    MiniDms.auditLog library w.db user (some text) params = paginate library params id [] := by
  have htext : given (some text) = some text := by simp [given, hgiven]
  have hrows : (w.db.auditEvents.filter fun event => (user.isStaff || event.owner = user.pk) &&
      (some pk).all (fun id => event.documentId = id)) = [] := by
    rw [List.filter_eq_nil_iff]
    intro e he hkeep
    rw [hstaff, Bool.false_or, Bool.and_eq_true_iff] at hkeep
    exact h.auditEvents e (List.mem_filter.mpr ⟨he, hkeep.1⟩) (of_decide_eq_true hkeep.2)
  simp only [MiniDms.auditLog, htext, hparse]
  show paginate library params id (List.insertionSort loggedBefore (w.db.auditEvents.filter _)) = _
  rw [hrows]
  rfl

/-! ## The law -/

/-- **Owner isolation.** For a user who is not staff:

two states that agree on the user's slice answer every request of the user alike, with the same
clock and the same fresh identifiers, and agree on the slice afterwards, and outside the slice the
request changes nothing but the jobs, the call and the object that it creates itself;

a request for another user's document, live or deleted, is answered like one for an identifier that
was never used, and so is a question to the audit log;

a statement of a request of another user who is not staff, and a step of a worker for a document the
user does not own, leave the slice, and so does a whole request of another such user. -/
theorem owner_isolation {env : Env} {user : User} (hstaff : user.isStaff = false) {h : List Step}
    {w : World} (hr : History env h w) (library : ViewLibrary) :
    (∀ h' w', History env h' w' → w.slice user.pk = w'.slice user.pk →
      ∀ chance : Chance, chance.Fresh w → chance.Fresh w' → ∀ request,
        (w.serve library env user chance request).map Prod.snd =
            (w'.serve library env user chance request).map Prod.snd ∧
          ∀ w₁ r w₁' r', w.serve library env user chance request = some (w₁, r) →
            w'.serve library env user chance request = some (w₁', r') →
              w₁.slice user.pk = w₁'.slice user.pk ∧
                Untouched user.pk chance.draws chance.call w w₁ ∧
                  Untouched user.pk chance.draws chance.call w' w₁') ∧
    (∀ id id', w.OfAnother user.pk id → w.Unused id' → ∀ chance : Chance, chance.Fresh w →
      (∀ request, (w.serve library env user chance (.document id request)).map Prod.snd =
        (w.serve library env user chance (.document id' request)).map Prod.snd) ∧
      ∀ text text' params, text ≠ [] → text' ≠ [] → library.parseUuid text = some id →
        library.parseUuid text' = some id' →
          (w.serve library env user chance (.auditEvents (some text) params)).map Prod.snd =
            (w.serve library env user chance (.auditEvents (some text') params)).map Prod.snd) ∧
    (∀ e w₁ r, w.perform env e = some (w₁, r) → w.Elsewhere user.pk e →
      w₁.slice user.pk = w.slice user.pk) ∧
    ∀ (other : User) chance request w₁ r, other.isStaff = false → other.pk ≠ user.pk →
      w.serve library env other chance request = some (w₁, r) →
        w₁.slice user.pk = w.slice user.pk := by
  have hs := sound_of_history hr
  refine ⟨fun h' w' hr' hslice chance hf hf' request => ?_,
    fun id id' hother hunused chance hf => ⟨fun request => ?_, ?_⟩, fun e w₁ r he helse => ?_,
    fun other chance request w₁ r hother hne hserve => ?_⟩
  · have hs' := sound_of_history hr'
    have halike : ServedAlike user.pk (w.serve library env user chance request)
        (w'.serve library env user chance request) :=
      serve_agree hstaff (World.slice_eq_iff.mp hslice) hf hf' hs hs' library request
    refine ⟨?_, fun w₁ r w₁' r' h₁ h₁' => ⟨?_, hs.serve_untouched hstaff h₁,
      hs'.serve_untouched hstaff h₁'⟩⟩
    · generalize w.serve library env user chance request = x,
        w'.serve library env user chance request = x' at halike
      cases halike <;> rfl
    · rw [h₁, h₁'] at halike
      cases halike with
      | served hagree => exact World.slice_eq_iff.mpr hagree
  · have hinvisible := hother.invisible (oneOwner_of_history hr id)
    exact (hinvisible.serveDocument hstaff hf request).trans
      ((hunused.invisible user.pk).serveDocument hstaff hf request).symm
  · intro text text' params hgiven hgiven' hparse hparse'
    have hinvisible := hother.invisible (oneOwner_of_history hr id)
    simp only [World.serve, hinvisible.auditLog hstaff hgiven hparse,
      (hunused.invisible user.pk).auditLog hstaff hgiven' hparse']
  · exact (World.perform_effect he).slice_elsewhere hs.known hs.provenance hs.marksDrawn
      hs.oneDocument helse
  · exact (hs.serve_untouched hother hserve).slices user.pk hne.symm

/-! ## A second user of the sample run -/

/-- A user who has stored nothing. -/
def sampleStranger : User := ⟨8, false⟩

/-- Search and paging on the few documents of the sample run. -/
def sampleLibrary : ViewLibrary where
  matchesQuery _ _ := false
  rank _ _ := 0
  window _ _ count := some ⟨0, min 20 count, none, none⟩
  parseUuid _ := none

/-- An upload of the stranger that runs through. -/
def sampleChance : Chance where
  requestId := 200
  draw := ⟨4000, 16⟩
  jobId := 17
  call := 1
  moves :=
    [.check false, .intend ⟨11, 12, 13⟩ 4000 .ok, .save (.requested 8 11 12) .ok,
      .commit ⟨4000, 14⟩ 15 none .ok]

/-- The file of the sample run, under the key that its owner has used. -/
def sampleCreate : ApiRequest := .create (.ok sampleData) (some (lit "k"))

/-- A user without documents and audit events has the slice of the empty system. -/
theorem World.slice_of_stranger {w : World} {u : UserId}
    (hdocuments : ∀ d ∈ w.db.documents.rows, d.owner ≠ u)
    (hlog : ∀ e ∈ w.db.auditEvents, e.owner ≠ u) : w.slice u = World.init.slice u := by
  have hnone : ∀ id, w.db.owned u id = none := fun id =>
    Db.owned_eq_none_iff.mpr fun d hd => hdocuments d (Table.find_eq_some_iff.mp hd).1
  have hempty : w.db.logged u = [] := List.filter_eq_nil_iff.mpr fun e he => by simpa using hlog e he
  refine World.slice_eq_iff.mpr ⟨⟨hnone, ?_⟩, fun id d hd => ?_⟩
  · rw [hempty]
    exact .nil
  · rw [hnone id] at hd
    cases hd

/-- The identifiers of the sample are fresh. -/
theorem sampleChance_fresh : sampleChance.Fresh sampleWorld where
  nodup := by decide
  notDrawn := by decide +kernel
  call := Option.isNone_iff_eq_none.mp (by decide +kernel)

/-- The stranger's upload is served in the sample state as in an empty system, and the document of
the other user is downloaded like one that never existed. -/
theorem owner_isolation_sample :
    (sampleWorld.serve sampleLibrary sampleEnv sampleStranger sampleChance
        sampleCreate).isSome = true ∧
      (sampleWorld.serve sampleLibrary sampleEnv sampleStranger sampleChance
          sampleCreate).map Prod.snd =
        (World.init.serve sampleLibrary sampleEnv sampleStranger sampleChance
          sampleCreate).map Prod.snd ∧
      (sampleWorld.serve sampleLibrary sampleEnv sampleStranger sampleChance
          (.document 1 .download)).map Prod.snd =
        (sampleWorld.serve sampleLibrary sampleEnv sampleStranger sampleChance
          (.document 99 .download)).map Prod.snd := by
  obtain ⟨halike, hothers, -⟩ :=
    @owner_isolation sampleEnv sampleStranger rfl _ _ sample_history sampleLibrary
  have hfresh : sampleChance.Fresh World.init := ⟨sampleChance_fresh.nodup, by simp [World.init], rfl⟩
  have hslice : sampleWorld.slice 8 = World.init.slice 8 :=
    World.slice_of_stranger (by decide +kernel) (by decide +kernel)
  have hother : sampleWorld.OfAnother 8 1 := by
    have hany : (sampleWorld.db.documents.find 1).any (fun d => d.owner ≠ 8) = true := by
      decide +kernel
    cases hd : sampleWorld.db.documents.find 1 with
    | none =>
        rw [hd] at hany
        cases hany
    | some d =>
        rw [hd] at hany
        exact .inl ⟨d, hd, of_decide_eq_true hany⟩
  have hunused : sampleWorld.Unused 99 :=
    ⟨Option.isNone_iff_eq_none.mp (by decide +kernel), by decide +kernel⟩
  refine ⟨by decide +kernel, ?_, ?_⟩
  · exact (halike _ _ .refl hslice sampleChance sampleChance_fresh hfresh sampleCreate).1
  · exact (hothers 1 99 hother hunused sampleChance sampleChance_fresh).1 .download

end MiniDms
