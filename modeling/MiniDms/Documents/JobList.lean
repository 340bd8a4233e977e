import MiniDms.Documents.Views
import MiniDms.Python.Uuids

/-! # The job list

`JobListView`, for administrators: all jobs, or those in some state, or those of some request. -/

namespace MiniDms

open Python Relational

/-- `JobSerializer`. -/
structure JobData where
  id : Uuid
  documentId : Uuid
  kind : JobKind
  state : JobState
  attempts : Nat
  maxAttempts : Nat
  availableAt : Timestamp
  leaseUntil : Option Timestamp
  requestId : Uuid
  errorCode : Option ErrorCode
  createdAt : Timestamp
  updatedAt : Timestamp

/-- `JobSerializer(job).data`. -/
def Job.data (job : Job) : JobData where
  id := job.id
  documentId := job.documentId
  kind := job.kind
  state := job.state
  attempts := job.attempts
  maxAttempts := job.maxAttempts
  availableAt := job.availableAt
  leaseUntil := job.leaseUntil
  requestId := job.requestId
  errorCode := job.errorCode
  createdAt := job.createdAt
  updatedAt := job.updatedAt

/-- `Job.State(value)`. -/
def JobState.ofValue (value : Str) : Option JobState :=
  if value = lit "pending" then some .pending
  else if value = lit "running" then some .running
  else if value = lit "succeeded" then some .succeeded
  else if value = lit "failed" then some .failed
  else none

/-- `order_by("-created_at", "-id")`. -/
def enqueuedAfter (a b : Job) : Prop :=
  b.createdAt < a.createdAt ∨ a.createdAt = b.createdAt ∧ b.id ≤ a.id

/-- The order of the job list is decided by the columns of the two rows. -/
instance : DecidableRel enqueuedAfter := fun _ _ => inferInstanceAs (Decidable (_ ∨ _ ∧ _))

/-- `re.fullmatch(r"[0-9a-fA-F-]\x7b36\x7d", text)`. -/
def isCorrelation (text : Str) : Bool :=
  text.length = 36 && text.all fun c => isHex c || c = codePoint '-'

/-- The filters of the list, checked one after the other. -/
def jobFilters (decimal : CodePoint → Option Nat) (state requestId : Option Str) :
    Except ViewError (Job → Bool) := do
  let state ← match given state with
    | none => pure none
    | some value =>
        match JobState.ofValue value with
        | none => throw (.invalid "state" "Unknown job state.")
        | some state => pure (some state)
  let requestId ← match given requestId with
    | none => pure none
    | some text =>
        if isCorrelation text then
          match parseUuid decimal text with
          | none => throw (.invalid "request_id" "Use a valid UUID.")
          | some id => pure (some id)
        else throw (.invalid "request_id" "Use a valid UUID.")
  return fun job => state.all (fun state => job.state = state) &&
    requestId.all fun id => job.requestId = id

/-- `JobListView`, of an administrator. -/
def jobList (library : ViewLibrary) (decimal : CodePoint → Option Nat) (db : Db)
    (state requestId : Option Str) (params : PageParams) : Except ViewError (Page JobData) := do
  let selected ← jobFilters decimal state requestId
  paginate library params Job.data ((db.jobs.rows.filter selected).insertionSort enqueuedAfter)

/-- The text of an identifier is accepted and names it. -/
theorem jobFilters_uuidText {decimal : CodePoint → Option Nat} {id : Uuid} (hid : id < 2 ^ 128) :
    jobFilters decimal none (some (uuidText id)) = .ok fun job => job.requestId = id := by
  have hne : uuidText id ≠ [] := by
    intro hnil
    have hlength := length_uuidText id
    rw [hnil] at hlength
    cases hlength
  have hgiven : given (some (uuidText id)) = some (uuidText id) := by
    rw [given, Option.filter_some, if_pos (decide_eq_true hne)]
  have hmatch : isCorrelation (uuidText id) = true := by
    rw [isCorrelation, length_uuidText, Bool.and_eq_true, List.all_eq_true]
    refine ⟨rfl, fun c hc => ?_⟩
    rw [Bool.or_eq_true, decide_eq_true_iff]
    exact uuidText_plain id c hc
  simp only [jobFilters, hgiven, hmatch, if_true, parseUuid_uuidText decimal hid]
  rfl

end MiniDms
