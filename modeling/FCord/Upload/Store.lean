import Mathlib.Data.Nat.Notation
import Mathlib.Logic.Function.Basic

/-!
# The in-memory store of the upload service

Presigned URLs and upload progress are kept in memory only, next to the flag that keeps a
second drain from starting and the list of recordings that occupy an upload slot.  A
JavaScript record is a function from keys to optional values.
-/

namespace FCord

/-- A transfer is tried this many times before its row is `failed`. -/
def MAX_UPLOAD_ATTEMPTS : ℕ := 5

/-- The number of upload slots. -/
def MAX_CONCURRENT_UPLOADS : ℕ := 2

/-- A presigned URL together with the session it belongs to. -/
structure PresignedUrlCache where
  uploadSessionId : String
  presignedUrl : String
  /-- In milliseconds. -/
  expiresAt : ℕ
  deriving DecidableEq, Repr

/-- The progress shown for one recording. -/
structure UploadProgress where
  bytesUploaded : ℕ
  bytesTotal : ℕ
  deriving DecidableEq, Repr

/-- The state of `useUploadQueueStore`. -/
structure UploadQueueStore where
  /-- Keyed by upload session. -/
  presignedUrlCache : String → Option PresignedUrlCache
  /-- Keyed by server recording. -/
  progressMap : String → Option UploadProgress
  isProcessing : Bool
  activeUploadIds : List String

namespace UploadQueueStore

/-- The store of a fresh process. -/
def initial : UploadQueueStore where
  presignedUrlCache := fun _ => none
  progressMap := fun _ => none
  isProcessing := false
  activeUploadIds := []

variable (s : UploadQueueStore)

def setPresignedUrl (sessionId : String) (cache : PresignedUrlCache) : UploadQueueStore :=
  { s with presignedUrlCache := Function.update s.presignedUrlCache sessionId (some cache) }

def clearPresignedUrl (sessionId : String) : UploadQueueStore :=
  { s with presignedUrlCache := Function.update s.presignedUrlCache sessionId none }

def getPresignedUrl (sessionId : String) : Option PresignedUrlCache :=
  s.presignedUrlCache sessionId

/-- A URL that expires within a minute counts as expired. -/
def isPresignedUrlValid (now : ℕ) (sessionId : String) : Bool :=
  match s.presignedUrlCache sessionId with
  | none => false
  | some cache => decide (now + 60000 < cache.expiresAt)

def setProgress (recordingId : String) (bytesUploaded bytesTotal : ℕ) : UploadQueueStore :=
  { s with
    progressMap := Function.update s.progressMap recordingId (some ⟨bytesUploaded, bytesTotal⟩) }

def clearProgress (recordingId : String) : UploadQueueStore :=
  { s with progressMap := Function.update s.progressMap recordingId none }

def setIsProcessing (v : Bool) : UploadQueueStore := { s with isProcessing := v }

def addActiveUpload (recordingId : String) : UploadQueueStore :=
  { s with activeUploadIds := s.activeUploadIds ++ [recordingId] }

def removeActiveUpload (recordingId : String) : UploadQueueStore :=
  { s with activeUploadIds := s.activeUploadIds.filter fun id => id ≠ recordingId }

def hasAvailableSlot : Bool := decide (s.activeUploadIds.length < MAX_CONCURRENT_UPLOADS)

theorem hasAvailableSlot_iff :
    s.hasAvailableSlot = true ↔ s.activeUploadIds.length < MAX_CONCURRENT_UPLOADS :=
  decide_eq_true_iff

end UploadQueueStore

end FCord
