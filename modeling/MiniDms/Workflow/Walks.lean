import MiniDms.Core.Observability
import MiniDms.Core.Pagination
import MiniDms.Documents.JobList
import MiniDms.Relations.Paging
import MiniDms.Workflow.Downloads
import MiniDms.Workflow.OwnerIsolation
import MiniDms.Workflow.Readings

/-! # Walking through a listing

A client reads a listing page by page, and the system goes on in between: every page is cut out of the
rows there are when it is asked for, its count and its rows being read from one state. Rows that come
in front of a row push it towards the pages to come, so it can be shown twice, but it cannot be missed;
only a row that leaves from in front of it can move it to a page that has been read. -/

namespace MiniDms

open Python Relational TransitionSystem

/-! ## Walks -/

/-- A client asks for a page, then for the page that each answer names, until one names none. The
system runs in between; the events of these runs are collected, the last first. -/
inductive Walk {β : Type} (env : Env) (view : Option Str → World → Except ViewError (Page β)) :
    Option Nat → World → List Step → List (World × Page β) → Prop
  | last {page : Option Nat} {w : World} {shown : Page β}
      (hshown : view (page.map natRepr) w = .ok shown) (hend : shown.next = none) :
      Walk env view page w [] [(w, shown)]
  | next {page : Option Nat} {w w' : World} {shown : Page β} {number : Nat} {path later : List Step}
      {pages : List (World × Page β)} (hshown : view (page.map natRepr) w = .ok shown)
      (hnext : shown.next = some number) (hrun : Run (World.perform env) w path w')
      (hrest : Walk env view (some number) w' later pages) :
      Walk env view page w (later ++ path) ((w, shown) :: pages)

section Shows

variable {α β : Type} {env : Env} {library : ViewLibrary} {decimal : CodePoint → Option Nat}
  {pageSize : Option Str} {serialize : α → β}

/-- A page that is shown is cut out of the rows. -/
theorem paginate_pageNumber (hlibrary : library.window = documentPagination decimal) {i : Nat}
    {rows : List α} {shown : Page β}
    (h : paginate library ⟨(pageNumber i).map natRepr, pageSize⟩ serialize rows = .ok shown) :
    shown.results = ((rows.drop (i * getPageSize decimal pageSize)).take
        (getPageSize decimal pageSize)).map serialize ∧
      shown.next = if (i + 1) * getPageSize decimal pageSize < rows.length then pageNumber (i + 1)
        else none := by
  unfold paginate at h
  rw [hlibrary] at h
  dsimp only at h
  cases hwindow : documentPagination decimal ((pageNumber i).map natRepr) pageSize rows.length with
  | none =>
      rw [hwindow] at h
      cases h
  | some window =>
      rw [hwindow] at h
      obtain ⟨hstart, hlength, hnext⟩ := window_of_pageNumber hwindow
      cases h
      rw [hstart, hlength, hnext]
      exact ⟨rfl, rfl⟩

/-- A page shows rows only. -/
theorem mem_of_paginate {params : PageParams} {rows : List α} {shown : Page β} {item : β}
    (h : paginate library params serialize rows = .ok shown) (hitem : item ∈ shown.results) :
    ∃ row ∈ rows, serialize row = item := by
  unfold paginate at h
  split at h
  · cases h
  · cases h
    obtain ⟨row, hrow, hserialize⟩ := List.mem_map.mp hitem
    exact ⟨row, List.mem_of_mem_drop (List.mem_of_mem_take hrow), hserialize⟩

variable {view : Option Str → World → Except ViewError (Page β)} {rows : World → List α}
  {Allowed : Step → Prop} {I : World → Prop} {position : World → Nat} {item : World → α}

/-- A walk comes to a row that stays among the rows and whose position never goes down: when a page
has been read without it, it is behind that page, and so it is when the next one is asked for. -/
theorem Walk.comes_to (hlibrary : library.window = documentPagination decimal)
    (hview : ∀ page w shown, view page w = .ok shown →
      paginate library ⟨page, pageSize⟩ serialize (rows w) = .ok shown)
    (hstep : ∀ x : Step, x.Valid (World.perform env) → Allowed x → I x.pre →
      I x.post ∧ position x.pre ≤ position x.post)
    (hrow : ∀ v, I v → (rows v)[position v]? = some (item v)) {page : Option Nat} {w : World}
    {path : List Step} {pages : List (World × Page β)} (hwalk : Walk env view page w path pages) :
    ∀ i, page = pageNumber i → (∀ x ∈ path, Allowed x) → I w →
      i * getPageSize decimal pageSize ≤ position w →
        ∃ v ∈ pages, I v.1 ∧ serialize (item v.1) ∈ v.2.results := by
  have hpage : ∀ {i w shown}, view ((pageNumber i).map natRepr) w = .ok shown → I w →
      i * getPageSize decimal pageSize ≤ position w →
      position w < i * getPageSize decimal pageSize + getPageSize decimal pageSize →
        serialize (item w) ∈ shown.results := by
    intro i w shown hshown hI hstart hend
    rw [(paginate_pageNumber hlibrary (hview _ _ _ hshown)).1]
    exact List.mem_map_of_mem (mem_page (hrow w hI) hstart hend)
  have hlast : ∀ {i w shown}, view ((pageNumber i).map natRepr) w = .ok shown → I w →
      ¬ position w < i * getPageSize decimal pageSize + getPageSize decimal pageSize →
        shown.next = pageNumber (i + 1) := by
    intro i w shown hshown hI hbehind
    have hlength := (List.getElem?_eq_some_iff.mp (hrow w hI)).1
    rw [(paginate_pageNumber hlibrary (hview _ _ _ hshown)).2, if_pos]
    calc (i + 1) * getPageSize decimal pageSize
        = i * getPageSize decimal pageSize + getPageSize decimal pageSize := Nat.succ_mul ..
      _ ≤ position w := not_lt.mp hbehind
      _ < (rows w).length := hlength
  induction hwalk with
  | @last page w shown hshown hend =>
      rintro i rfl - hI hstart
      refine ⟨(w, shown), List.mem_cons_self, hI, hpage hshown hI hstart ?_⟩
      by_contra hbehind
      rw [hlast hshown hI hbehind] at hend
      cases hend
  | @next page w w' shown number path later pages hshown hnext hrun hrest ih =>
      rintro i rfl hallowed hI hstart
      by_cases hon : position w < i * getPageSize decimal pageSize + getPageSize decimal pageSize
      · exact ⟨(w, shown), List.mem_cons_self, hI, hpage hshown hI hstart hon⟩
      · obtain ⟨hI', hposition⟩ := hrun.invariant (fun v => I v ∧ position w ≤ position v)
          ⟨hI, le_rfl⟩ (fun x hv hx ⟨hI, hle⟩ => (hstep x hv hx hI).imp_right hle.trans)
          fun x hx => hallowed x (List.mem_append_right _ hx)
        have hnumber : some number = pageNumber (i + 1) :=
          hnext.symm.trans (hlast hshown hI hon)
        obtain ⟨v, hv, hshows⟩ := ih (i + 1) hnumber
          (fun x hx => hallowed x (List.mem_append_left _ hx)) hI' (by
            calc (i + 1) * getPageSize decimal pageSize
                = i * getPageSize decimal pageSize + getPageSize decimal pageSize := Nat.succ_mul ..
              _ ≤ position w := not_lt.mp hon
              _ ≤ position w' := hposition)
        exact ⟨v, List.mem_cons_of_mem _ hv, hshows⟩

variable {κ : Type} [LinearOrder κ] {key : α → κ} {r : α → α → Prop} [DecidableRel r]
  [Std.Total r] [IsTrans α r] {selected : World → List α} {Reached : World → Prop}

/-- **A walk shows a row** of an ordered selection when neither the row nor any in front of it leaves
the selection. -/
theorem Walk.shows (hlibrary : library.window = documentPagination decimal)
    (hview : ∀ page w shown, view page w = .ok shown →
      paginate library ⟨page, pageSize⟩ serialize ((selected w).insertionSort r) = .ok shown)
    (horder : ∀ a b, r a b ↔ key b ≤ key a)
    (hkeys : ∀ v, Reached v → ((selected v).map key).Nodup)
    (hreached : ∀ x : Step, x.Valid (World.perform env) → Reached x.pre → Reached x.post) {row : α}
    (hstays : ∀ x : Step, x.Valid (World.perform env) → Allowed x → Reached x.pre →
      ∀ a ∈ selected x.pre, key row ≤ key a → ∃ b ∈ selected x.post, key b = key a)
    {w : World} {path : List Step} {pages : List (World × Page β)}
    (hwalk : Walk env view none w path pages) (hallowed : ∀ x ∈ path, Allowed x) (hw : Reached w)
    (hrow : row ∈ selected w) :
    ∃ v ∈ pages, Reached v.1 ∧ ∃ row' ∈ selected v.1, key row' = key row ∧
      serialize row' ∈ v.2.results := by
  classical
  let I : World → Prop := fun v => Reached v ∧ ∃ row' ∈ selected v, key row' = key row
  let position : World → Nat := fun v => place key (key row) (selected v)
  let item : World → α := fun v => (((selected v).insertionSort r)[position v]?).getD row
  have hitem : ∀ v, I v → ((selected v).insertionSort r)[position v]? = some (item v) ∧
      item v ∈ selected v ∧ key (item v) = key row := by
    rintro v ⟨hv, row', hrow', hkey⟩
    have hplace := getElem?_place horder (hkeys v hv) hrow'
    rw [hkey] at hplace
    have hself : item v = row' := congrArg (Option.getD · row) hplace
    exact ⟨hself ▸ hplace, hself ▸ hrow', hself ▸ hkey⟩
  have hstep : ∀ x : Step, x.Valid (World.perform env) → Allowed x → I x.pre →
      I x.post ∧ position x.pre ≤ position x.post := by
    rintro x hv hx ⟨hpre, row', hrow', hkey⟩
    constructor
    · obtain ⟨row'', hrow'', hkey'⟩ := hstays x hv hx hpre row' hrow' hkey.ge
      exact ⟨hreached x hv hpre, row'', hrow'', hkey'.trans hkey⟩
    · refine place_le_place (hkeys _ hpre) fun a ha hlt => ?_
      obtain ⟨b, hb, hsame⟩ := hstays x hv hx hpre a ha hlt.le
      exact ⟨b, hb, hsame, hsame ▸ hlt⟩
  obtain ⟨v, hv, hI, hshows⟩ := hwalk.comes_to hlibrary hview hstep (fun v hv => (hitem v hv).1)
    0 rfl hallowed ⟨hw, row, hrow, rfl⟩ ((Nat.zero_mul _).trans_le (Nat.zero_le _))
  exact ⟨v, hv, hI.1, item v.1, (hitem v.1 hI).2.1, (hitem v.1 hI).2.2, hshows⟩

/-- Every page of a walk was shown. -/
theorem Walk.shown {page : Option Nat} {w : World} {path : List Step}
    {pages : List (World × Page β)} (hwalk : Walk env view page w path pages) :
    ∀ v ∈ pages, ∃ page, view page v.1 = .ok v.2 := by
  induction hwalk with
  | last hshown =>
      intro v hv
      rw [List.mem_singleton.mp hv]
      exact ⟨_, hshown⟩
  | next hshown _ _ _ ih =>
      intro v hv
      obtain rfl | hv := List.mem_cons.mp hv
      · exact ⟨_, hshown⟩
      · exact ih v hv

end Shows

/-! ## Documents -/

section Documents

variable {env : Env} {library : ViewLibrary} {decimal : CodePoint → Option Nat} {user : User}

/-- The place of a document in a listing never changes: its identifier, its owner and when it was
created. -/
theorem DocumentMove.listed {w : World} {id : Uuid} {e : Event} {v v' : DocumentView}
    (hm : DocumentMove env w id e v v') {d d' : Document} (hd : v.row = some d)
    (hd' : v'.row = some d') :
    d'.id = d.id ∧ d'.owner = d.owner ∧ d'.createdAt = d.createdAt := by
  cases hm with
  | same | orphaned =>
      have heq : v.row = some d' := hd'
      rw [hd] at heq
      cases heq
      exact ⟨rfl, rfl, rfl⟩
  | created _ _ _ _ hrow =>
      rw [hd] at hrow
      cases hrow
  | deleted => cases hd'
  | @edited request data draw row _ _ hrow =>
      rw [hd] at hrow
      cases hrow
      cases hd'
      obtain ⟨t, ds, dt, tg, m, hedit⟩ := data.edit_frame draw.now d.toDocumentColumns
      refine ⟨?_, ?_, ?_⟩ <;> rw [Document.indexed_columns, hedit]
  | reprocessed _ _ hrow | started hrow | finished _ hrow | recovered hrow =>
      rw [hd] at hrow
      cases hrow
      cases hd'
      exact ⟨rfl, rfl, rfl⟩

/-- The documents a user can list. -/
def Db.visible (db : Db) (user : User) : List Document :=
  db.documents.rows.filter fun row => scopedDocuments user row

/-- A listed document is a row within the scope of the user. -/
theorem Db.mem_visible {db : Db} {d : Document} :
    d ∈ db.visible user ↔ db.documents.find d.id = some d ∧ scopedDocuments user d = true := by
  rw [Db.visible, List.mem_filter, Relational.Table.find_eq_some_iff]
  simp

/-- Without a query and without filters, a listing has every document the user can see. -/
theorem listDocuments_visible (db : Db) (params : PageParams) :
    listDocuments library env db user ⟨params, none, none, none, none⟩ =
      paginate library params (fun row => row.toDocumentColumns.listData)
        ((db.visible user).insertionSort (listedBefore fun _ => 0)) := by
  have hfilters : listFilters library env ⟨params, none, none, none, none⟩ =
      .ok (fun _ => 0, fun _ => true) := rfl
  rw [listDocuments, hfilters]
  show paginate library params _ ((db.documents.rows.filter fun row =>
    scopedDocuments user row && true).insertionSort _) = _
  simp only [Bool.and_true, Db.visible]

/-- The keys of a listing tell the documents apart. -/
theorem Db.listingKeys_nodup (db : Db) :
    ((db.visible user).map (listingKey fun _ => 0)).Nodup := by
  refine List.Nodup.of_map (fun k => (ofLex (ofLex k).2).2) ?_
  rw [List.map_map]
  exact (List.filter_sublist.map _).nodup db.documents.nodup

/-- A visible document stays visible, with the same key, until a DELETE removes it. -/
theorem visible_stays {h : List Step} {x : Step} (hr : History env h x.pre)
    (hv : x.Valid (World.perform env)) {d : Document} (hd : d ∈ x.pre.db.visible user)
    (hkept : ¬ Removes x d.id) :
    ∃ d' ∈ x.post.db.visible user, listingKey (fun _ => 0) d' = listingKey (fun _ => 0) d := by
  obtain ⟨hrow, hscope⟩ := Db.mem_visible.mp hd
  have he := World.perform_effect hv
  obtain ⟨hw, hp⟩ := provenance_of_history hr
  cases hrow' : x.post.db.documents.find d.id with
  | none =>
      obtain ⟨request, jobId, draw, hevent, hpk, hscope', hmatch⟩ := he.row_stays hrow hrow'
      exact absurd ⟨request, jobId, draw, d, hevent, hpk, hrow, hscope', hmatch⟩ hkept
  | some d' =>
      obtain ⟨hid, howner, hcreated⟩ := (he.documentMove hw hp d.id).listed hrow hrow'
      refine ⟨d', Db.mem_visible.mpr ⟨hid.symm ▸ hrow', ?_⟩, ?_⟩
      · simpa only [scopedDocuments, howner] using hscope
      · rw [listingKey, listingKey, hid, hcreated]

/-- **A walk through the listing misses nothing.** A client reads the documents it can see page by
page, in pages of any size, while uploads, edits, processing and the deletion of others go on. A
document that is there at the beginning is shown on one of the pages, unless a DELETE removes it, or
one that the listing shows before it. -/
theorem listing_walk_misses_nothing {pageSize : Option Str} {h path : List Step} {w : World}
    {pages : List (World × Page DocumentListData)} (hr : History env h w)
    (hlibrary : library.window = documentPagination decimal)
    (hwalk : Walk env (fun page w => listDocuments library env w.db user
      ⟨⟨page, pageSize⟩, none, none, none, none⟩) none w path pages)
    {id : Uuid} {d : Document} (hd : w.db.documents.find id = some d)
    (hscope : scopedDocuments user d = true)
    (hkept : ∀ x ∈ path, ∀ k row, Removes x k → x.pre.db.documents.find k = some row →
      scopedDocuments user row = true → ¬ listedBefore (fun _ => 0) row d) :
    ∃ v ∈ pages, ∃ item ∈ v.2.results, item.id = id := by
  let Reached : World → Prop := fun v => ∃ h, History env h v
  have hreached : ∀ x : Step, x.Valid (World.perform env) → Reached x.pre → Reached x.post :=
    fun x hv ⟨h, hr⟩ => ⟨_, hr.step hv⟩
  -- What the listing shows up to the document is not removed.
  have hstays : ∀ x : Step, x.Valid (World.perform env) → (∀ k row, Removes x k →
      x.pre.db.documents.find k = some row → scopedDocuments user row = true →
        ¬ listedBefore (fun _ => 0) row d) → Reached x.pre →
      ∀ a ∈ x.pre.db.visible user, listingKey (fun _ => 0) d ≤ listingKey (fun _ => 0) a →
        ∃ b ∈ x.post.db.visible user, listingKey (fun _ => 0) b = listingKey (fun _ => 0) a := by
    rintro x hv hx ⟨h, hr⟩ a ha hle
    refine visible_stays hr hv ha fun hremoves => ?_
    obtain ⟨hfind, hscope⟩ := Db.mem_visible.mp ha
    exact hx a.id a hremoves hfind hscope (listedBefore_iff.mpr hle)
  have hvisible : d ∈ w.db.visible user :=
    Db.mem_visible.mpr ⟨(Db.document_id hd).symm ▸ hd, hscope⟩
  obtain ⟨v, hv, -, d', -, hkey, hshows⟩ := hwalk.shows hlibrary
    (fun _ _ _ hshown => (listDocuments_visible ..).symm.trans hshown)
    (fun _ _ => listedBefore_iff) (fun v _ => v.db.listingKeys_nodup) hreached hstays hkept ⟨h, hr⟩
    hvisible
  refine ⟨v, hv, _, hshows, ?_⟩
  have hid : d'.id = d.id := congrArg (fun k => (ofLex (ofLex k).2).2) hkey
  exact hid.trans (Db.document_id hd)

end Documents

/-! ## Jobs -/

section Jobs

variable {env : Env} {library : ViewLibrary} {decimal : CodePoint → Option Nat}

/-- The key the job list is ordered by. -/
def enqueuedKey (job : Job) : Timestamp ×ₗ Uuid := toLex (job.createdAt, job.id)

/-- The order of the job list is the order of its keys. -/
theorem enqueuedAfter_iff {a b : Job} : enqueuedAfter a b ↔ enqueuedKey b ≤ enqueuedKey a := by
  rw [enqueuedKey, enqueuedKey, Prod.Lex.le_iff]
  simp only [enqueuedAfter, ofLex_toLex, eq_comm]

/-- Of two jobs one is listed first. -/
instance : Std.Total enqueuedAfter where
  total a b := by
    rw [enqueuedAfter_iff, enqueuedAfter_iff]
    exact le_total _ _

/-- The order of the job list is transitive. -/
instance : IsTrans Job enqueuedAfter where
  trans a b c hab hbc := by
    rw [enqueuedAfter_iff] at *
    exact hbc.trans hab

/-- The place of a job in the list never changes, nor does its request. -/
theorem JobMove.listed {w : World} {id : Uuid} {e : Event} {job : Job} {row' : Option Job}
    (hm : JobMove w id e (some job) row') :
    ∃ job', row' = some job' ∧ job'.requestId = job.requestId ∧
      enqueuedKey job' = enqueuedKey job := by
  cases hm with
  | @settled delivery call =>
      refine ⟨_, rfl, ?_⟩
      cases call.failed <;> exact ⟨rfl, rfl⟩
  | recovered => exact ⟨_, rfl, rfl, rfl⟩
  | rewritten _ _ _ hf => exact ⟨_, rfl, by cases hf <;> exact ⟨rfl, rfl⟩⟩
  | _ => exact ⟨_, rfl, rfl, rfl⟩

/-- The jobs of a request. -/
def Db.jobsOf (db : Db) (requestId : Uuid) : List Job :=
  db.jobs.rows.filter fun job => job.requestId = requestId

/-- A listed job is a row that carries the identifier. -/
theorem Db.mem_jobsOf {db : Db} {requestId : Uuid} {job : Job} :
    job ∈ db.jobsOf requestId ↔ db.jobs.find job.id = some job ∧ job.requestId = requestId := by
  rw [Db.jobsOf, List.mem_filter, Relational.Table.find_eq_some_iff]
  simp

/-- The keys of the list tell the jobs apart. -/
theorem Db.enqueuedKeys_nodup (db : Db) (requestId : Uuid) :
    ((db.jobsOf requestId).map enqueuedKey).Nodup := by
  refine List.Nodup.of_map (fun k => (ofLex k).2) ?_
  rw [List.map_map]
  exact (List.filter_sublist.map _).nodup db.jobs.nodup

/-- A job of a request stays one, with the same key. -/
theorem jobsOf_stays {h : List Step} {x : Step} (hr : History env h x.pre)
    (hv : x.Valid (World.perform env)) {requestId : Uuid} {job : Job}
    (hjob : job ∈ x.pre.db.jobsOf requestId) :
    ∃ job' ∈ x.post.db.jobsOf requestId, enqueuedKey job' = enqueuedKey job := by
  obtain ⟨hrow, hrequest⟩ := Db.mem_jobsOf.mp hjob
  have hm := (World.perform_effect hv).jobMove (known_of_history hr) job.id
  rw [hrow] at hm
  obtain ⟨job', hrow', hrequest', hkey⟩ := hm.listed
  have hid : job'.id = job.id := Table.key_of_find hrow'
  exact ⟨job', Db.mem_jobsOf.mpr ⟨hid.symm ▸ hrow', hrequest'.trans hrequest⟩, hkey⟩

/-- **The jobs of a request are found by the header it was answered with.** An administrator asks for
them with the `X-Request-ID` of a response and reads the list page by page, while the jobs are worked
on and new ones come in: every job enqueued under this identifier is shown, and none under another. -/
theorem request_jobs_are_listed {pageSize header : Option Str} {drawn : Nat}
    (hdrawn : drawn < 2 ^ 128) {h path : List Step} {w : World}
    {pages : List (World × Page JobData)} (hr : History env h w)
    (hlibrary : library.window = documentPagination decimal)
    (hwalk : Walk env (fun page w => jobList library decimal w.db none
      (some (correlation decimal header drawn)) ⟨page, pageSize⟩) none w path pages) :
    (∀ k job, w.db.jobs.find k = some job →
      job.requestId = requestIdentifier decimal header drawn →
        ∃ v ∈ pages, ∃ item ∈ v.2.results, item.id = k) ∧
    ∀ v ∈ pages, ∀ item ∈ v.2.results,
      item.requestId = requestIdentifier decimal header drawn := by
  let requestId := requestIdentifier decimal header drawn
  have hview : ∀ page (w : World) shown, jobList library decimal w.db none
      (some (correlation decimal header drawn)) ⟨page, pageSize⟩ = .ok shown →
        paginate library ⟨page, pageSize⟩ Job.data
          ((w.db.jobsOf requestId).insertionSort enqueuedAfter) = .ok shown := by
    intro page w shown hshown
    rw [jobList, correlation, jobFilters_uuidText (requestIdentifier_lt hdrawn)] at hshown
    exact hshown
  constructor
  · intro k job hjob hrequest
    have hk : job.id = k := Table.key_of_find hjob
    let Reached : World → Prop := fun v => ∃ h, History env h v
    have hreached : ∀ x : Step, x.Valid (World.perform env) → Reached x.pre → Reached x.post :=
      fun x hv ⟨h, hr⟩ => ⟨_, hr.step hv⟩
    have hstays : ∀ x : Step, x.Valid (World.perform env) → True → Reached x.pre →
        ∀ a ∈ x.pre.db.jobsOf requestId, enqueuedKey job ≤ enqueuedKey a →
          ∃ b ∈ x.post.db.jobsOf requestId, enqueuedKey b = enqueuedKey a :=
      fun x hv _ ⟨h, hr⟩ a ha _ => jobsOf_stays hr hv ha
    have hlisted : job ∈ w.db.jobsOf requestId :=
      Db.mem_jobsOf.mpr ⟨hk.symm ▸ hjob, hrequest⟩
    obtain ⟨v, hv, -, job', -, hkey, hshows⟩ := hwalk.shows hlibrary hview
      (fun _ _ => enqueuedAfter_iff) (fun v _ => v.db.enqueuedKeys_nodup requestId) hreached hstays
      (fun _ _ => trivial) ⟨h, hr⟩ hlisted
    refine ⟨v, hv, _, hshows, ?_⟩
    have hid : job'.id = job.id := congrArg (fun k => (ofLex k).2) hkey
    exact hid.trans hk
  · intro v hv item hitem
    obtain ⟨page, hshown⟩ := hwalk.shown v hv
    obtain ⟨job, hjob, rfl⟩ := mem_of_paginate (hview page v.1 v.2 hshown) hitem
    exact (Db.mem_jobsOf.mp ((List.mem_insertionSort _).mp hjob)).2

end Jobs

/-! ## The audit log -/

section Audit

variable {env : Env} {library : ViewLibrary} {decimal : CodePoint → Option Nat} {user : User}

/-- The events a user can read, of all documents or of the one that is named. -/
def Db.readable (library : ViewLibrary) (db : Db) (user : User) (documentId : Option Str) :
    List AuditEvent :=
  db.auditEvents.filter fun event => (user.isStaff || event.owner = user.pk) &&
    (given documentId).all fun text => library.parseUuid text = some event.documentId

/-- A readable event is one of the log, within the scope of the user and of the document asked for.
-/
theorem Db.mem_readable {db : Db} {documentId : Option Str} {event : AuditEvent} :
    event ∈ db.readable library user documentId ↔ event ∈ db.auditEvents ∧
      (user.isStaff = true ∨ event.owner = user.pk) ∧
        ∀ text, given documentId = some text → library.parseUuid text = some event.documentId := by
  simp [Db.readable, Option.all_eq_true]

/-- A page of the audit log is cut out of the events the user can read. -/
theorem paginate_of_auditLog {db : Db} {documentId : Option Str} {params : PageParams}
    {shown : Page AuditEvent} (h : auditLog library db user documentId params = .ok shown) :
    paginate library params id ((db.readable library user documentId).insertionSort loggedBefore) =
      .ok shown := by
  unfold auditLog at h
  unfold Db.readable
  cases hgiven : given documentId with
  | none =>
      rw [hgiven] at h
      exact h
  | some text =>
      rw [hgiven] at h
      dsimp only at h
      cases hparse : library.parseUuid text with
      | none =>
          rw [hparse] at h
          cases h
      | some id =>
          rw [hparse] at h
          simp only [Option.all_some, hparse, Option.some.injEq, @eq_comm _ id]
          exact h

/-- An event stays in the log as it is. -/
theorem readable_stays {x : Step} (hv : x.Valid (World.perform env)) {documentId : Option Str}
    {event : AuditEvent} (hevent : event ∈ x.pre.db.readable library user documentId) :
    event ∈ x.post.db.readable library user documentId := by
  obtain ⟨hmem, hread⟩ := List.mem_filter.mp hevent
  refine List.mem_filter.mpr ⟨?_, hread⟩
  obtain hsame | ⟨_, happend⟩ := (World.perform_effect hv).auditEvents
  · rw [hsame]
    exact hmem
  · rw [happend]
    exact List.mem_append_left _ hmem

/-- The keys of the log tell the events apart. -/
theorem loggingKeys_nodup {h : List Step} {w : World} (hr : History env h w)
    (documentId : Option Str) : ((w.db.readable library user documentId).map loggingKey).Nodup := by
  refine List.Nodup.of_map (fun k => (ofLex k).2) ?_
  rw [List.map_map]
  exact (List.filter_sublist.map _).nodup (auditKeys_of_history hr).nodup

/-- **A walk through the audit log shows every event** that the user could read at the beginning,
whatever is logged in the meantime; and it shows no event of another owner to a user who is not staff,
and none of another document when one is asked for. -/
theorem audit_walk_misses_nothing {pageSize documentId : Option Str} {h path : List Step}
    {w : World} {pages : List (World × Page AuditEvent)} (hr : History env h w)
    (hlibrary : library.window = documentPagination decimal)
    (hwalk : Walk env (fun page w => auditLog library w.db user documentId ⟨page, pageSize⟩)
      none w path pages) :
    (∀ event ∈ w.db.auditEvents, (user.isStaff = true ∨ event.owner = user.pk) →
      (∀ text, given documentId = some text → library.parseUuid text = some event.documentId) →
        ∃ v ∈ pages, event ∈ v.2.results) ∧
    ∀ v ∈ pages, ∀ event ∈ v.2.results, event ∈ v.1.db.auditEvents ∧
      (user.isStaff = true ∨ event.owner = user.pk) ∧
        ∀ text, given documentId = some text → library.parseUuid text = some event.documentId := by
  have hview : ∀ page (w : World) shown, auditLog library w.db user documentId ⟨page, pageSize⟩ =
      .ok shown → paginate library ⟨page, pageSize⟩ id
        ((w.db.readable library user documentId).insertionSort loggedBefore) = .ok shown :=
    fun _ _ _ => paginate_of_auditLog
  constructor
  · intro event hevent howner hdocument
    have hreadable : event ∈ w.db.readable library user documentId :=
      Db.mem_readable.mpr ⟨hevent, howner, hdocument⟩
    -- The event itself is in the log in every state that a page is read in.
    let Reached : World → Prop := fun v =>
      (∃ h, History env h v) ∧ event ∈ v.db.readable library user documentId
    have hreached : ∀ x : Step, x.Valid (World.perform env) → Reached x.pre → Reached x.post :=
      fun x hv ⟨⟨h, hr⟩, hmem⟩ => ⟨⟨_, hr.step hv⟩, readable_stays hv hmem⟩
    have hkeys : ∀ v, Reached v →
        ((v.db.readable library user documentId).map loggingKey).Nodup :=
      fun v ⟨⟨h, hr⟩, _⟩ => loggingKeys_nodup hr documentId
    have hstays : ∀ x : Step, x.Valid (World.perform env) → True → Reached x.pre →
        ∀ a ∈ x.pre.db.readable library user documentId, loggingKey event ≤ loggingKey a →
          ∃ b ∈ x.post.db.readable library user documentId, loggingKey b = loggingKey a :=
      fun x hv _ _ a ha _ => ⟨a, readable_stays hv ha, rfl⟩
    obtain ⟨v, hv, hv', event', hevent', hkey, hshows⟩ := hwalk.shows hlibrary hview
      (fun _ _ => loggedBefore_iff) hkeys hreached hstays (fun _ _ => trivial)
      ⟨⟨h, hr⟩, hreadable⟩ hreadable
    have hself : event' = event := List.inj_on_of_nodup_map (hkeys v.1 hv') hevent' hv'.2 hkey
    exact ⟨v, hv, hself ▸ hshows⟩
  · intro v hv event hevent
    obtain ⟨page, hshown⟩ := hwalk.shown v hv
    obtain ⟨event', hevent', rfl⟩ := mem_of_paginate (hview page v.1 v.2 hshown) hevent
    exact Db.mem_readable.mp ((List.mem_insertionSort _).mp hevent')

end Audit

/-- Paging and identifiers as they are, on texts in ASCII. -/
def sampleViews : ViewLibrary :=
  { sampleLibrary with
    window := documentPagination fun _ => none
    parseUuid := parseUuid fun _ => none }

/-- An upload without a key, as the call `n`, that runs through. -/
def sampleListed (n : Nat) : List Event :=
  [.enterUpload n sampleUser sampleData none 100, .upload n (.check false),
    .upload n (.intend ⟨10 * n + 1, 10 * n + 2, 10 * n + 3⟩ 0 .ok),
    .upload n (.save (.requested 7 (10 * n + 1) (10 * n + 2)) .ok),
    .upload n (.commit ⟨1000 * n, 10 * n + 4⟩ (10 * n + 5) none .ok)]

/-- Two documents are uploaded. -/
def sampleTwo : Option (List Step × World) :=
  Run.execute (World.perform sampleEnv) ([], .init) (sampleListed 1 ++ sampleListed 2)

/-- Both uploads go through. -/
theorem sampleTwo_isSome : sampleTwo.isSome = true := by decide +kernel

/-- The state with two documents. -/
def sampleTwoWorld : World := (sampleTwo.get sampleTwo_isSome).2

/-- The state with two documents is reachable. -/
theorem sampleTwo_history :
    History sampleEnv (sampleTwo.get sampleTwo_isSome).1 sampleTwoWorld :=
  Run.of_isSome rfl sampleTwo_isSome

/-- A third document is uploaded. -/
def sampleThird : Option (List Step × World) :=
  Run.execute (World.perform sampleEnv) ([], sampleTwoWorld) (sampleListed 3)

/-- So does the third. -/
theorem sampleThird_isSome : sampleThird.isSome = true := by decide +kernel

/-- The state with three documents. -/
def sampleThirdWorld : World := (sampleThird.get sampleThird_isSome).2

/-- The third upload is a run from there. -/
theorem sampleThird_run : Run (World.perform sampleEnv) sampleTwoWorld
    (sampleThird.get sampleThird_isSome).1 sampleThirdWorld :=
  Run.of_isSome rfl sampleThird_isSome

/-- The run has the events of the third upload only. -/
theorem sampleThird_event {x : Step} (hx : x ∈ (sampleThird.get sampleThird_isSome).1) :
    x.event ∈ sampleListed 3 := Run.event_mem_of_isSome rfl sampleThird_isSome hx

/-- A walk over three pages, during the first of which the third document is uploaded. -/
theorem sampleThird_walk {β : Type} (view : Option Str → World → Except ViewError (Page β))
    (hfirst : (view none sampleTwoWorld).toOption.any (·.next = some 2) = true)
    (hsecond : (view (some (natRepr 2)) sampleThirdWorld).toOption.any (·.next = some 3) = true)
    (hthird : (view (some (natRepr 3)) sampleThirdWorld).toOption.any (·.next = none) = true) :
    ∃ pages, pages.length = 3 ∧
      Walk sampleEnv view none sampleTwoWorld (sampleThird.get sampleThird_isSome).1 pages := by
  have hshown : ∀ {page : Option Str} {w : World} {next : Option Nat},
      (view page w).toOption.any (·.next = next) = true →
        ∃ shown, view page w = .ok shown ∧ shown.next = next := by
    intro page w next h
    cases hshown : view page w with
    | ok shown =>
        rw [hshown] at h
        exact ⟨shown, rfl, of_decide_eq_true h⟩
    | error e =>
        rw [hshown] at h
        cases h
  obtain ⟨first, hfirst, hnext⟩ := hshown hfirst
  obtain ⟨second, hsecond, hnext'⟩ := hshown hsecond
  obtain ⟨third, hthird, hend⟩ := hshown hthird
  have hrest : Walk sampleEnv view (some 2) sampleThirdWorld []
      [(sampleThirdWorld, second), (sampleThirdWorld, third)] :=
    .next hsecond hnext' .refl (.last hthird hend)
  have hwalk : Walk sampleEnv view none sampleTwoWorld
      ([] ++ (sampleThird.get sampleThird_isSome).1) ((sampleTwoWorld, first) :: _) :=
    .next hfirst hnext sampleThird_run hrest
  rw [List.nil_append] at hwalk
  exact ⟨_, rfl, hwalk⟩

/-- The first document is shown, although it has moved to another page. -/
theorem listing_walk_misses_nothing_sample : ∃ pages : List (World × Page DocumentListData),
    pages.length = 3 ∧ ∃ v ∈ pages, ∃ item ∈ v.2.results, item.id = 11 := by
  obtain ⟨pages, hlength, hwalk⟩ := sampleThird_walk (fun page w =>
    listDocuments sampleViews sampleEnv w.db sampleUser
      ⟨⟨page, some (lit "1")⟩, none, none, none, none⟩)
    (by decide +kernel) (by decide +kernel) (by decide +kernel)
  obtain ⟨d, hd, hs⟩ := (Option.any_eq_true ..).mp
    (show (sampleTwoWorld.db.documents.find 11).any (scopedDocuments sampleUser) = true by
      decide +kernel)
  refine ⟨pages, hlength, listing_walk_misses_nothing sampleTwo_history rfl hwalk hd hs ?_⟩
  -- Nothing is deleted.
  rintro x hx k row ⟨request, jobId, draw, -, hevent, -⟩
  have hmem := sampleThird_event hx
  rw [hevent] at hmem
  simp [sampleListed] at hmem

/-- So are the four jobs of the two uploads that carry one request identifier. -/
theorem request_jobs_are_listed_sample : ∃ pages : List (World × Page JobData), pages.length = 3 ∧
    ∀ k ∈ [13, 15, 23, 25], ∃ v ∈ pages, ∃ item ∈ v.2.results, item.id = k := by
  obtain ⟨pages, hlength, hwalk⟩ := sampleThird_walk (fun page w =>
    jobList sampleViews (fun _ => none) w.db none
      (some (correlation (fun _ => none) (some (uuidText 100)) 0)) ⟨page, some (lit "2")⟩)
    (by decide +kernel) (by decide +kernel) (by decide +kernel)
  refine ⟨pages, hlength, fun k hk => ?_⟩
  have hjobs : [13, 15, 23, 25].all (fun k => (sampleTwoWorld.db.jobs.find k).any fun job =>
      job.requestId = requestIdentifier (fun _ => none) (some (uuidText 100)) 0) = true := by
    decide +kernel
  obtain ⟨job, hjob, hrequest⟩ := (Option.any_eq_true ..).mp (List.all_eq_true.mp hjobs k hk)
  exact (request_jobs_are_listed (by decide) sampleTwo_history rfl hwalk).1 k job hjob
    (of_decide_eq_true hrequest)

/-- And the events of the log. -/
theorem audit_walk_misses_nothing_sample : ∃ pages : List (World × Page AuditEvent),
    pages.length = 3 ∧
      ∀ event ∈ sampleTwoWorld.db.auditEvents, ∃ v ∈ pages, event ∈ v.2.results := by
  obtain ⟨pages, hlength, hwalk⟩ := sampleThird_walk (fun page w =>
    auditLog sampleViews w.db sampleUser none ⟨page, some (lit "1")⟩)
    (by decide +kernel) (by decide +kernel) (by decide +kernel)
  refine ⟨pages, hlength, fun event hevent => ?_⟩
  have howner : sampleTwoWorld.db.auditEvents.all (·.owner = sampleUser.pk) = true := by
    decide +kernel
  exact (audit_walk_misses_nothing sampleTwo_history rfl hwalk).1 event hevent
    (.inr (of_decide_eq_true (List.all_eq_true.mp howner event hevent))) fun _ h => nomatch h

end MiniDms
