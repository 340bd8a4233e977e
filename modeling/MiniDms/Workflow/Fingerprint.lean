import MiniDms.Python.KeyOrder
import MiniDms.Python.Unambiguous
import MiniDms.Python.Utf8
import MiniDms.Validation.Fields
import MiniDms.Validation.Storable
import MiniDms.Workflow.Uploaded

/-! # The fingerprint identifies the payload

`create_document` hashes one text of the payload: the text of its representative with sorted keys. The
encoder is unambiguous and sorting forgets the order of keys alone, so without a collision of the hash
a call replays exactly its own payload. -/

namespace MiniDms

open Python Relational TransitionSystem

/-! ## One payload -/

/-- The payloads of two calls are the same, up to the order of the keys in the metadata. -/
structure SamePayload (a b : UploadData) : Prop where
  title : a.title = b.title
  description : a.description = b.description
  documentType : a.documentType = b.documentType
  tags : a.tags = b.tags
  metadata : Json.alike a.metadata b.metadata = true
  sha256 : a.file.sha256 = b.file.sha256
  filename : a.file.name = b.file.name

/-- What `create_document` hashes; `none` when building or encoding it raises. -/
def UploadData.hashed (data : UploadData) : Option Bytes := (fingerprintText data).bind encode

/-- The strings of the payload are well-formed Unicode. -/
def UploadData.WellFormed (data : UploadData) : Prop := ¬ HasSurrogate data.payload

/-- Whether data is well formed is decided on its texts. -/
instance decidableWellFormed (data : UploadData) : Decidable data.WellFormed :=
  inferInstanceAs (Decidable (¬ HasSurrogate data.payload))

/-- Payloads are equal when their parts are. -/
theorem alike_payload_iff (a b : UploadData) : Json.alike a.payload b.payload = true ↔
    a.title = b.title ∧ a.description = b.description ∧ a.documentType = b.documentType ∧
      Json.alike a.tags b.tags = true ∧ Json.alike a.metadata b.metadata = true ∧
        a.file.sha256 = b.file.sha256 ∧ a.file.name = b.file.name := by
  have hlookup : ∀ items, b.payload = .dict items →
      ∀ item ∈ items, items.lookup item.1 = some item.2 := by
    intro items hitems item hitem
    cases hitems
    exact Json.lookup_of_mem (show payloadKeys.Nodup by decide) hitem
  have hitems := hlookup _ rfl
  simp only [List.forall_mem_cons] at hitems
  obtain ⟨htitle, hdescription, htype, htags, hmetadata, hsha256, hname, -⟩ := hitems
  rw [UploadData.payload, UploadData.payload, Json.alike_dict_iff]
  simp only [List.forall_mem_cons, htitle, hdescription, htype, htags, hmetadata, hsha256, hname,
    Option.some.injEq, exists_eq_left', Json.alike_str]
  simp

section Accepted

variable {stack stack' : CallStack} {a b : UploadData}

/-- The payload of accepted data can be printed, and has distinct keys at every depth. -/
theorem UploadData.Accepted.payload (h : a.Accepted stack) :
    a.payload.finite = true ∧ a.payload.distinct = true ∧
      fingerprintText a = some a.payload.sorted.dumps := by
  obtain ⟨_, tags, -, htags⟩ := h.tags
  obtain ⟨_, hmetadata⟩ := h.metadata
  obtain ⟨hacceptable, heq⟩ := validateMetadata_eq_ok_iff.mp hmetadata
  have hfinite : a.payload.finite = true := by
    have htagsFinite : a.tags.finite = true := by
      rw [htags]
      exact Json.finite_list_map_str tags
    have hmetadataFinite : a.metadata.finite = true := heq ▸ hacceptable.finite
    simp [UploadData.payload, Json.finite, Json.finiteItems, htagsFinite, hmetadataFinite]
  refine ⟨hfinite, ?_, if_pos hfinite⟩
  have hkeys : payloadKeys.Nodup := by decide
  have htagsDistinct : a.tags.distinct = true := by
    rw [htags]
    exact Json.distinct_list_map_str tags
  rw [UploadData.payload, Json.distinct, Bool.and_eq_true, decide_eq_true_eq]
  refine ⟨hkeys, ?_⟩
  simp [Json.distinctItems, Json.distinct, htagsDistinct, h.keys]

/-- **The hashed text is the same exactly for the same payload.** -/
theorem fingerprintText_eq_iff (ha : a.Accepted stack) (hb : b.Accepted stack') :
    fingerprintText a = fingerprintText b ↔ SamePayload a b := by
  obtain ⟨hfinite, hdistinct, htext⟩ := ha.payload
  obtain ⟨hfinite', hdistinct', htext'⟩ := hb.payload
  have hsorted : a.payload.sorted.dumps = b.payload.sorted.dumps ↔
      Json.alike a.payload b.payload = true := by
    rw [← Json.sorted_eq_iff hdistinct hdistinct']
    exact ⟨Json.eq_of_dumps_eq (Json.finite_sorted _ hfinite) (Json.finite_sorted _ hfinite'),
      fun h => by rw [h]⟩
  rw [htext, htext', Option.some.injEq, hsorted, alike_payload_iff]
  obtain ⟨_, tags, -, htags⟩ := ha.tags
  obtain ⟨_, tags', -, htags'⟩ := hb.tags
  rw [htags, htags', Json.alike_list_map_str]
  constructor
  · rintro ⟨htitle, hdescription, htype, rfl, hmetadata, hsha256, hname⟩
    exact ⟨htitle, hdescription, htype, htags.trans htags'.symm, hmetadata, hsha256, hname⟩
  · intro h
    have hlist := h.tags
    rw [htags, htags'] at hlist
    have hstr : Function.Injective Json.str := fun _ _ h => Json.str.inj h
    exact ⟨h.title, h.description, h.documentType,
      List.map_injective_iff.mpr hstr (Json.list.inj hlist), h.metadata, h.sha256, h.filename⟩

/-- The hashed text of well-formed accepted data can be encoded. -/
theorem UploadData.Accepted.exists_hashed (h : a.Accepted stack) (hwell : a.WellFormed) :
    ∃ data, a.hashed = some data := by
  obtain ⟨-, -, htext⟩ := h.payload
  have hsorted : ¬ HasSurrogate a.payload.sorted := by
    rintro ⟨s, hs, hsurrogate⟩
    exact hwell ⟨s, (Json.mem_strings_sorted _).mp hs, hsurrogate⟩
  exact ⟨_, by rw [UploadData.hashed, htext, Option.bind_some, encode_dumps hsorted]⟩

/-- **What is hashed is the same exactly for the same payload**, whenever it is hashed at all. -/
theorem hashed_eq_iff (ha : a.Accepted stack) (hb : b.Accepted stack') {s t : Bytes}
    (hs : a.hashed = some s) (ht : b.hashed = some t) : s = t ↔ SamePayload a b := by
  rw [← fingerprintText_eq_iff ha hb]
  obtain ⟨text, htext, hencode⟩ := Option.bind_eq_some_iff.mp hs
  obtain ⟨text', htext', hencode'⟩ := Option.bind_eq_some_iff.mp ht
  rw [htext, htext', Option.some.injEq]
  constructor
  · rintro rfl
    exact eq_of_encode_eq hencode hencode'
  · rintro rfl
    exact Option.some.inj (hencode.symm.trans hencode')

end Accepted

/-! ## Replays -/

/-- The hash does not collide on what is hashed of two payloads. -/
def CollisionFree (env : Env) (a b : UploadData) : Prop :=
  ∀ s t, a.hashed = some s → b.hashed = some t → env.sha256 s = env.sha256 t → s = t

/-- The fingerprint is the hash of what is hashed. -/
theorem Upload.Fingerprinted.exists_hashed {env : Env} {u : Upload} (h : u.Fingerprinted env) :
    ∃ s, u.data.hashed = some s ∧ u.fingerprint = env.sha256 s := by
  obtain ⟨s, hs, hfingerprint⟩ := Option.map_eq_some_iff.mp h
  exact ⟨s, hs, hfingerprint.symm⟩

/-- **Fingerprints agree exactly for the same payload.** -/
theorem fingerprint_eq_iff {env : Env} {u v : Upload} {stack stack' : CallStack}
    (hu : u.Fingerprinted env) (hv : v.Fingerprinted env) (hacceptedU : u.data.Accepted stack)
    (hacceptedV : v.data.Accepted stack') (hfree : CollisionFree env u.data v.data) :
    u.fingerprint = v.fingerprint ↔ SamePayload u.data v.data := by
  obtain ⟨s, hs, hsu⟩ := hu.exists_hashed
  obtain ⟨t, ht, htv⟩ := hv.exists_hashed
  rw [hsu, htv, ← hashed_eq_iff hacceptedU hacceptedV hs ht]
  exact ⟨hfree s t hs ht, fun h => by rw [h]⟩

/-- The check of a call against a document tells by the payload of the call that created it. -/
structure Recognises (db : Db) (u v : Upload) (d : Document) : Prop where
  replayed : replay db u.user u.key u.fingerprint = .ok (some d) ↔ SamePayload u.data v.data
  refused : replay db u.user u.key u.fingerprint = .error .conflict ↔ ¬ SamePayload u.data v.data

/-- What a call comes to that has met the document: it returns the document or raises `Conflict`,
unless its process died or it failed with `ServiceUnavailable`. -/
def EndsAs (u v : Upload) (d : Document) (pc : UploadPc) : Prop :=
  pc.ended = true → pc ≠ .dead →
    (∀ e, pc = .raised e → exceptionHandler e ≠ .serviceUnavailable) →
      (SamePayload u.data v.data → pc = .returned d.load false) ∧
        (¬ SamePayload u.data v.data → pc = .raised .conflict)

/-- The payload was that of an upload of the run. -/
def Entered (h : List Step) (data : UploadData) : Prop :=
  ∃ x ∈ h, ∃ call user key requestId, x.event = .enterUpload call user data key requestId

/-- A call that runs a check has a fingerprint. -/
theorem fingerprinted_of_decides {env : Env} {h : List Step} {x : Step} (hr : History env h x.pre)
    (hv : x.Valid (World.perform env)) {c : Nat} {u : Upload} (hdecides : Decides x c)
    (hu : x.pre.uploads c = some u) : u.Fingerprinted env := by
  obtain hfingerprint | hraised := fingerprinted_of_history hr hu
  · exact hfingerprint
  · obtain ⟨-, hno⟩ | ⟨move, u', -, -, ha⟩ := (World.perform_effect hv).upload_stays hu
    · obtain ⟨_, hevent⟩ | ⟨_, _, _, _, hevent⟩ := hdecides <;> exact absurd hevent (hno _)
    · -- A call that has raised makes no further statement.
      have hnot := ha.pcMove.not_ended
      rw [hraised] at hnot
      cases hnot

/-- **The fingerprint identifies the payload.** What `create_document` hashes of two accepted payloads
with well-formed strings is the same exactly when the payloads are, up to the order of keys. So in
every run whose uploads were accepted and do not collide, a call that runs a check while a live
document of its owner holds its key replays that document exactly when its payload is that of the call
that created it, and raises `Conflict` otherwise. -/
theorem fingerprint_identifies_payload {env : Env} {h : List Step} {w : World}
    (hr : History env h w) (hinputs : ∀ x ∈ h, AcceptedUpload x)
    (hfree : ∀ a b, Entered h a → Entered h b → CollisionFree env a b) :
    (∀ (stack stack' : CallStack) (a b : UploadData), a.Accepted stack → b.Accepted stack' →
      a.WellFormed → b.WellFormed →
        ∃ s t, a.hashed = some s ∧ b.hashed = some t ∧ (s = t ↔ SamePayload a b)) ∧
      ∀ x ∈ h, ∀ c u d, Decides x c → Contends x.pre c u d →
        ∃ creator v, x.pre.uploads creator = some v ∧ FromUpload d v ∧ Recognises x.pre.db u v d ∧
          ∀ u', w.uploads c = some u' → EndsAs u v d u'.pc := by
  refine ⟨fun stack stack' a b ha hb hwa hwb => ?_, fun x hx c u d hdecides hc => ?_⟩
  · obtain ⟨s, hs⟩ := ha.exists_hashed hwa
    obtain ⟨t, ht⟩ := hb.exists_hashed hwb
    exact ⟨s, t, hs, ht, hashed_eq_iff ha hb hs ht⟩
  · obtain ⟨later, earlier, hsplit, hearlier, hv, -⟩ := hr.cut hx
    have hpast : ∀ y ∈ earlier, y ∈ h := by
      intro y hy
      rw [hsplit]
      exact List.mem_append_right _ (List.mem_cons_of_mem _ hy)
    obtain ⟨creator, v, hcreator, hfrom, hv'⟩ := uploaded_of_history hearlier hc.live
    have hu' := fingerprinted_of_decides hearlier hv hdecides hc.call
    obtain ⟨stack, hu⟩ := accepted_of_history hearlier (fun y hy => hinputs y (hpast y hy)) hc.call
    obtain ⟨stack', hv⟩ := accepted_of_history hearlier (fun y hy => hinputs y (hpast y hy)) hcreator
    have hentered : ∀ {c u}, x.pre.uploads c = some u → Entered h u.data := by
      intro c u hu
      obtain ⟨y, hy, requestId, hevent⟩ := entered_of_history hearlier hu
      exact ⟨y, hpast y hy, c, u.user, u.key, requestId, hevent⟩
    have hiff : d.requestFingerprint = u.fingerprint ↔ SamePayload u.data v.data := by
      rw [hfrom.requestFingerprint, eq_comm]
      exact fingerprint_eq_iff hu' hv' hu hv (hfree _ _ (hentered hc.call) (hentered hcreator))
    have hreplay := hc.replay (keysUnique_of_history hearlier)
    refine ⟨creator, v, hcreator, hfrom, ⟨?_, ?_⟩, fun u' hcall hended hdead hup => ?_⟩
    · rw [hreplay, ← hiff]
      split
      next hne => exact ⟨(fun h => nomatch h), fun h => absurd h hne⟩
      next heq => exact ⟨fun _ => not_not.mp heq, fun _ => rfl⟩
    · rw [hreplay, ← hiff]
      split
      next hne => exact ⟨fun _ => hne, fun _ => rfl⟩
      next heq => exact ⟨(fun h => nomatch h), fun h => absurd h heq⟩
    · obtain ⟨hpc, heq⟩ | ⟨hpc, hne⟩ :=
        (answers_of_history hr hx hdecides hc hcall).of_ended hended hdead hup
      · exact ⟨fun _ => hpc, fun hno => absurd (hiff.mp heq.symm) hno⟩
      · exact ⟨fun hsame => absurd (hiff.mpr hsame).symm hne, fun _ => hpc⟩

/-- The sample payload under another title. -/
def retitledData : UploadData := { sampleData with title := lit "Receipt" }

/-- The retitled data passes the validators. -/
theorem retitledData_accepted : retitledData.Accepted sampleStack :=
  { sampleData_accepted with
    title := ⟨_, (⟨by decide, (fun h => nomatch h), by decide, by decide, by decide⟩ :
      ValidText 255 false (lit "Receipt")).charField⟩ }

/-- The uploads of the race carry the sample payload. -/
theorem sampleRace_entered {a : UploadData} (h : Entered sampleRaceHistory a) : a = sampleData := by
  obtain ⟨x, hx, call, user, key, requestId, hevent⟩ := h
  have hmem := Run.event_mem_of_isSome rfl sampleRace_isSome hx
  rw [hevent] at hmem
  simp only [List.mem_cons, List.not_mem_nil, or_false, reduceCtorEq, false_or] at hmem
  rcases hmem with h | h <;> cases h <;> rfl

/-- Another title is another payload, and the second call of the race finds the first one's. -/
theorem fingerprint_identifies_payload_sample :
    (∃ s t, sampleData.hashed = some s ∧ retitledData.hashed = some t ∧ s ≠ t) ∧
      ∀ x ∈ sampleRaceHistory, ∀ c u d, Decides x c → Contends x.pre c u d →
        ∃ creator v, x.pre.uploads creator = some v ∧ FromUpload d v ∧
          Recognises x.pre.db u v d ∧
            ∀ u', sampleRaceWorld.uploads c = some u' → EndsAs u v d u'.pc := by
  obtain ⟨hhashed, hreplays⟩ := fingerprint_identifies_payload sampleRace_history
    (fun x hx call user data key requestId hevent => by
      have hdata : data = sampleData :=
        sampleRace_entered ⟨x, hx, call, user, key, requestId, hevent⟩
      exact ⟨_, hdata ▸ sampleData_accepted⟩)
    (fun a b ha hb s t hs ht _ => by
      rw [sampleRace_entered ha] at hs
      rw [sampleRace_entered hb] at ht
      exact Option.some.inj (hs.symm.trans ht))
  refine ⟨?_, hreplays⟩
  obtain ⟨s, t, hs, ht, hiff⟩ := hhashed sampleStack sampleStack sampleData retitledData
    sampleData_accepted retitledData_accepted (by decide) (by decide)
  exact ⟨s, t, hs, ht, fun h => absurd (hiff.mp h).title (by decide)⟩

end MiniDms
