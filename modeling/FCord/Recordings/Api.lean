import FCord.Recordings.Detail
import Mathlib.Tactic.SplitIfs

/-!
# The meetings of the server

Two requests tell the client about meetings: the list, whose entries have no status code, and the
detail of one meeting, which has one.  Each is turned into a `ServerRecordingCache` by a mapping
of its own.  `getTime` is the instant that a date string denotes.
-/

namespace FCord

/-- An entry of `/api/meetings`. -/
structure FaicordMeetingItem where
  confId : String
  subject : String
  createDt : String
  deriving DecidableEq, Repr

/-- The answer of `/api/meetings/{id}`. -/
structure FaicordMeetingDetail where
  meetingId : String
  title : String
  date : String
  time : String
  memo : Option String
  summary : Option String
  statusCode : Option String
  deriving DecidableEq, Repr

/-- The envelope of that answer. -/
structure MeetingResponse where
  success : Bool
  meeting : Option FaicordMeetingDetail
  deriving DecidableEq, Repr

def mapStatusCode (code : Option String) : TranscriptionState :=
  if code = some "000" then .completed
  else
    match code with
    | none => .notRequested
    | some code =>
      if code = "" then .notRequested
      else if "9".toList.isPrefixOf code.toList then .failed
      else .processing

theorem mapStatusCode_eq_completed {code : Option String} :
    mapStatusCode code = .completed ↔ code = some "000" := by
  unfold mapStatusCode
  split_ifs with h
  · simp [h]
  · cases code with
    | none => simp
    | some code =>
      simp only
      split_ifs <;> simp [h]

theorem mapStatusCode_eq_notRequested {code : Option String} :
    mapStatusCode code = .notRequested ↔ code = none ∨ code = some "" := by
  unfold mapStatusCode
  split_ifs with h
  · simp [h]
  · cases code with
    | none => simp
    | some code =>
      simp only
      split_ifs with he <;> simp [he]

/-- The states that a status code maps to. -/
theorem mapStatusCode_cases (code : Option String) :
    mapStatusCode code = .completed ∨ mapStatusCode code = .failed ∨
      mapStatusCode code = .processing ∨ mapStatusCode code = .notRequested := by
  unfold mapStatusCode
  split_ifs
  · exact .inl rfl
  · cases code with
    | none => simp
    | some code =>
      simp only
      split_ifs <;> simp

section Mappings

variable (getTime : String → ℕ) (now : ℕ)

/-- What the list shows for an entry: listed meetings are taken to be converted. -/
def toCache (item : FaicordMeetingItem) : ServerRecordingCache where
  id := item.confId
  title := item.subject
  uploadState := .uploaded
  transcriptionState := .completed
  recordingState := .savedLocal
  createdAt := getTime item.createDt
  updatedAt := getTime item.createDt
  cachedAt := now

/-- `getRecordingList`: the items and the next cursor. -/
def getRecordingList (raw : Option (List FaicordMeetingItem)) :
    List ServerRecordingCache × Option String :=
  ((raw.getD []).map (toCache getTime now), none)

/-- `getMeetingDetail`. -/
def getMeetingDetail (res : Option MeetingResponse) : Option ServerRecordingCache :=
  match res with
  | some ⟨true, some m⟩ =>
    some
      { id := m.meetingId
        title := m.title
        note := m.memo
        uploadState := .uploaded
        transcriptionState := mapStatusCode m.statusCode
        recordingState := .savedLocal
        createdAt := getTime (m.date ++ "T" ++ m.time)
        updatedAt := getTime (m.date ++ "T" ++ m.time)
        cachedAt := now
        transcriptPreview := m.summary }
  | _ => none

variable {getTime now}

/-- The state that a detail answer reports. -/
theorem state_of_getMeetingDetail {res : Option MeetingResponse} {detail : ServerRecordingCache}
    (h : getMeetingDetail getTime now res = some detail) :
    ∃ m, res = some ⟨true, some m⟩ ∧ detail.transcriptionState = mapStatusCode m.statusCode := by
  unfold getMeetingDetail at h
  split at h
  · cases h
    exact ⟨_, rfl, rfl⟩
  · cases h

end Mappings

/-- The instant of a date that is the beginning of the epoch. -/
def epoch (_ : String) : ℕ := 0

/-- A meeting of that time, as the list has it. -/
def meetingItem (id : String) : FaicordMeetingItem := ⟨id, id, "1970-01-01T00:00:00Z"⟩

/-- The same meeting, as its detail has it. -/
def meetingDetail (id : String) (statusCode : Option String) : FaicordMeetingDetail :=
  ⟨id, id, "1970-01-01", "00:00:00Z", none, none, statusCode⟩

end FCord
