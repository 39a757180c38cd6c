import FCord.Data.Table
import Mathlib.Data.Int.Notation
import Mathlib.Data.Nat.Notation

/-!
# Rows of the upload queue

The table `local_upload_queue` holds one row per upload.  Its `status` drives everything: only
`pending` rows and `retrying` rows whose `nextRetryAt` has come may take an upload slot
(`isQueueItemReady`).  Times are milliseconds since the epoch.
-/

namespace FCord

/-- Record ids of `local_upload_queue`. -/
abbrev RowId := String

/-- The status column of a queue row. -/
inductive UploadQueueStatus where
  | pending | uploading | completing | done | failed | retrying | cancelled
  deriving DecidableEq, Repr

/-- A row of `local_upload_queue`. -/
structure UploadQueueItem where
  recordingId : String
  uploadSessionId : Option String
  bytesTotal : ℕ
  bytesUploaded : ℕ
  attempts : ℕ
  lastError : Option String
  nextRetryAt : Option ℕ
  status : UploadQueueStatus
  createdAt : ℕ
  updatedAt : ℕ
  deriving DecidableEq, Repr

/-- A row of `local_recordings`. -/
structure LocalRecording where
  title : String
  filePath : String
  fileSizeBytes : ℕ
  checksumSha256 : String
  serverRecordingId : Option String
  deriving DecidableEq, Repr

/-- The string that a JavaScript truth test lets through: neither `null` nor empty. -/
def truthy (s : Option String) : Option String := s.filter fun x => x ≠ ""

theorem truthy_eq_some {s : Option String} {x : String} :
    truthy s = some x ↔ s = some x ∧ x ≠ "" := by
  cases s with
  | none => simp [truthy]
  | some y =>
    simp only [truthy, Option.filter_some, decide_eq_true_eq]
    split_ifs with h
    · simp only [Option.some.injEq]
      exact ⟨fun e => ⟨e, e ▸ h⟩, And.left⟩
    · simp only [Option.some.injEq, false_iff, not_and, not_not]
      rintro rfl; exact not_not.1 h

/-! ### Retry schedule -/

/-- The waiting times between attempts. -/
def BACKOFF_DELAYS_MS : List ℕ := [1000, 3000, 10000, 30000, 120000]

/-- The table index that `calcNextRetryAt` uses. -/
def backoffIndex (attempts : ℤ) : ℤ :=
  min (max 1 attempts - 1) (BACKOFF_DELAYS_MS.length - 1)

/-- The index lies inside the table, whatever the number of attempts. -/
theorem backoffIndex_bounds (attempts : ℤ) :
    0 ≤ backoffIndex attempts ∧ backoffIndex attempts < BACKOFF_DELAYS_MS.length := by
  simp only [backoffIndex, BACKOFF_DELAYS_MS, List.length_cons, List.length_nil]
  omega

/-- When the next attempt is due, after `attempts` failed ones. -/
def calcNextRetryAt (now : ℕ) (attempts : ℤ) : ℕ :=
  now + BACKOFF_DELAYS_MS.get ⟨(backoffIndex attempts).toNat, by
    have := backoffIndex_bounds attempts
    omega⟩

theorem lt_calcNextRetryAt (now : ℕ) (attempts : ℤ) : now < calcNextRetryAt now attempts := by
  have hpos : ∀ d ∈ BACKOFF_DELAYS_MS, 0 < d := by decide
  have := hpos _ (List.get_mem BACKOFF_DELAYS_MS ⟨(backoffIndex attempts).toNat, by
    have := backoffIndex_bounds attempts
    omega⟩)
  unfold calcNextRetryAt
  omega

/-- Whether the waiting time is over. -/
def isRetryReady (now : ℕ) (nextRetryAt : Option ℕ) : Bool :=
  match nextRetryAt with
  | none => true
  | some t => decide (t ≤ now)

/-- Whether a row may take an upload slot. -/
def isQueueItemReady (now : ℕ) (status : UploadQueueStatus) (nextRetryAt : Option ℕ) : Bool :=
  match status with
  | .pending => true
  | .retrying => isRetryReady now nextRetryAt
  | _ => false

theorem isRetryReady_mono {now now' : ℕ} (h : now ≤ now') {t : Option ℕ}
    (ht : isRetryReady now t = true) : isRetryReady now' t = true := by
  cases t with
  | none => rfl
  | some t =>
    simp only [isRetryReady, decide_eq_true_eq] at ht ⊢
    omega

theorem isQueueItemReady_mono {now now' : ℕ} (h : now ≤ now') {st : UploadQueueStatus}
    {t : Option ℕ} (hr : isQueueItemReady now st t = true) :
    isQueueItemReady now' st t = true := by
  cases st with
  | retrying => exact isRetryReady_mono h hr
  | _ => exact hr

/-- A ready row has one of the two statuses that the candidate query selects. -/
theorem status_of_isQueueItemReady {now : ℕ} {st : UploadQueueStatus} {t : Option ℕ}
    (hr : isQueueItemReady now st t = true) : st = .pending ∨ st = .retrying := by
  cases st <;> simp [isQueueItemReady] at hr ⊢

/-! ### Writes -/

/-- What an `update` closure of the upload service does to its row. -/
inductive Update where
  /-- `_processItem` stores the session it uploads to. -/
  | session (sessionId : String)
  /-- `_processItem` starts the transfer. -/
  | uploading
  /-- `_markFailed`. -/
  | failed (error : String)
  /-- `_processItem` schedules another attempt. -/
  | retrying (attempts : ℕ) (error : String)
  /-- `_processItem`: the transfer has ended. -/
  | completing
  /-- `_handleCompleting`. -/
  | done
  /-- A progress event of the transfer. -/
  | bytesUploaded (loaded : ℕ)
  /-- `retryUpload`. -/
  | reset
  deriving DecidableEq, Repr

/-- The row after the closure has run at time `now`. -/
def Update.apply (now : ℕ) : Update → UploadQueueItem → UploadQueueItem
  | .session sessionId, r => { r with uploadSessionId := some sessionId, updatedAt := now }
  | .uploading, r => { r with status := .uploading, updatedAt := now }
  | .failed error, r => { r with status := .failed, lastError := some error, updatedAt := now }
  | .retrying attempts error, r =>
    { r with
      status := .retrying
      attempts := attempts
      lastError := some error
      nextRetryAt := some (calcNextRetryAt now attempts)
      updatedAt := now }
  | .completing, r => { r with status := .completing, updatedAt := now }
  | .done, r => { r with status := .done, updatedAt := now }
  | .bytesUploaded loaded, r => { r with bytesUploaded := loaded }
  | .reset, r =>
    { r with
      status := .pending
      attempts := 0
      lastError := none
      nextRetryAt := none
      updatedAt := now }

/-- The row that `enqueueUpload` creates. -/
def newItem (now : ℕ) (localRecordingId : String) (bytesTotal : ℕ) : UploadQueueItem where
  recordingId := localRecordingId
  uploadSessionId := none
  bytesTotal := bytesTotal
  bytesUploaded := 0
  attempts := 0
  lastError := none
  nextRetryAt := none
  status := .pending
  createdAt := now
  updatedAt := now

/-- The status a write leaves behind, if it writes one. -/
def Update.status? : Update → Option UploadQueueStatus
  | .session _ => none
  | .uploading => some .uploading
  | .failed _ => some .failed
  | .retrying _ _ => some .retrying
  | .completing => some .completing
  | .done => some .done
  | .bytesUploaded _ => none
  | .reset => some .pending

/-- The session a write stores, if it stores one. -/
def Update.session? : Update → Option String
  | .session sessionId => some sessionId
  | _ => none

@[simp] theorem Update.apply_recordingId (now : ℕ) (u : Update) (r : UploadQueueItem) :
    (u.apply now r).recordingId = r.recordingId := by cases u <;> rfl

theorem Update.apply_status (now : ℕ) (u : Update) (r : UploadQueueItem) :
    (u.apply now r).status = u.status?.getD r.status := by cases u <;> rfl

theorem Update.apply_uploadSessionId (now : ℕ) (u : Update) (r : UploadQueueItem) :
    (u.apply now r).uploadSessionId = u.session?.or r.uploadSessionId := by cases u <;> rfl

end FCord
