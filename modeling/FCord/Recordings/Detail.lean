import Mathlib.Data.Nat.Notation

/-!
# Recordings and the actions of the detail screen

`ServerRecordingCache` is the record of a meeting that the screens show, with its three
independent status tracks, and `resolveDetailActions` decides from them which buttons the
detail screen offers.
-/

namespace FCord

/-- The life of the recording itself. -/
inductive RecordingState where
  | draft | recording | paused | savedLocal | archived | deleted
  deriving DecidableEq, Repr

/-- The state of its upload. -/
inductive UploadState where
  | notStarted | queued | uploading | uploaded | failed | retrying
  deriving DecidableEq, Repr

/-- The state of its conversion to text. -/
inductive TranscriptionState where
  | notRequested | queued | processing | completed | failed | cancelled
  deriving DecidableEq, Repr

/-- A recording as the screens hold it. -/
structure ServerRecordingCache where
  id : String
  transcriptionId : Option String := none
  title : String
  note : Option String := none
  tags : List String := []
  /-- Only known to the client. -/
  isStarred : Option Bool := none
  languageHint : Option String := none
  durationMs : Option ℕ := none
  fileSizeBytes : Option ℕ := none
  uploadState : UploadState
  transcriptionState : TranscriptionState
  recordingState : RecordingState
  createdAt : ℕ
  updatedAt : ℕ
  transcriptPreview : Option String := none
  cachedAt : ℕ
  deriving DecidableEq, Repr

/-- The actions offered on the detail screen. -/
structure DetailActions where
  showRetryUpload : Bool
  showRetryTranscription : Bool
  showRequestTranscription : Bool
  showViewTranscript : Bool
  deriving DecidableEq, Repr

/-- Which actions a recording offers. -/
def resolveDetailActions (r : ServerRecordingCache) : DetailActions where
  showRetryUpload := r.uploadState = .failed
  showRetryTranscription := r.transcriptionState = .failed
  showRequestTranscription := r.uploadState = .uploaded ∧ r.transcriptionState = .notRequested
  showViewTranscript := r.transcriptionState = .completed

end FCord
