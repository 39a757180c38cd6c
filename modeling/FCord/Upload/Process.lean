import FCord.Upload.Consent
import FCord.Upload.Queue
import FCord.Upload.Store

/-!
# The asynchronous functions of the upload service

An `async` function is a program counter together with what it does when an awaited call
settles.  Between two awaits nothing else runs, so one such *turn* is atomic: it reads the
row, the store, the clock and the consent entry as they are at that moment, and performs a
list of `Effect`s before it waits again.

* `handleCompleting` : `_handleCompleting` with `_requestSTTIfConsented`,
* `processItem` : `_processItem` with `_doUpload` and `_markFailed`,
* `nativeEvent` : the listeners that `_doUpload` registers.

A database write is requested in one turn and lands later; the function waits for a
`Promise`.  Only the writes of the progress listener are not waited for.
-/

namespace FCord

/-- Identifies a running call; never used twice. -/
abbrev Pid := ℕ

/-- A running call: a `_drainQueue`, a `_processItem`, or an `enqueueUpload` or `retryUpload`. -/
inductive Owner where
  | drain (p : Pid)
  | task (p : Pid)
  | call (p : Pid)
  deriving DecidableEq, Repr

/-- The promise of a database write. -/
inductive Promise where
  | pending | resolved | rejected
  deriving DecidableEq, Repr

/-- How an awaited call other than a database write settles. -/
inductive Outcome where
  | ok
  /-- `find` on `local_recordings`; `none` when the `catch` makes it `null`. -/
  | found (recording : Option LocalRecording)
  /-- The answer of `requestPresignedUrl`, with `expires_at` in seconds. -/
  | presigned (sessionId url : String) (expiresAt : ℕ)
  /-- It throws an `ApiError`. -/
  | apiError (status : ℕ)
  /-- It throws anything else. -/
  | error
  deriving DecidableEq, Repr

/-- An event of `react-native-background-upload` for one transfer. -/
inductive NativeEvent where
  | progress (loaded total : ℕ)
  | error (error : String)
  | completed (responseCode : ℕ)
  | cancelled
  deriving DecidableEq, Repr

/-- The arguments of `Upload.startUpload`. -/
structure UploadOptions where
  url : String
  path : String
  method : String
  type : String
  contentType : String
  notificationEnabled : Bool
  onProgressTitle : String
  onProgressMessage : String
  onCompleteTitle : String
  onCompleteMessage : String
  onErrorTitle : String
  onErrorMessage : String
  deriving DecidableEq, Repr

/-- An operation that may ask for a transcription. -/
inductive Operation where
  /-- `_handleCompleting` run by `who` on `row`. -/
  | completion (who : Owner) (row : RowId)
  /-- The request button of the detail screen. -/
  | detailScreen
  deriving DecidableEq, Repr

/-- What the service does besides changing its own state, in the order it happens. -/
inductive Event where
  /-- `requestPresignedUrl` returned this URL for this session. -/
  | issued (sessionId url : String)
  /-- `Upload.startUpload` is called. -/
  | startUpload (row : RowId) (options : UploadOptions)
  /-- The transfer to `url` ended with the library's `completed` event. -/
  | putCompleted (row : RowId) (url : String) (responseCode : ℕ)
  /-- `completeUploadSession` is called. -/
  | completeCall (who : Owner) (row : RowId) (sessionId checksum : String) (bytesUploaded : ℕ)
  /-- `completeUploadSession` returned, or threw an `ApiError` with status 409. -/
  | completeDone (who : Owner) (row : RowId) (sessionId : String)
  /-- `hasCrossBorderConsent` found this entry. -/
  | consentRead (op : Operation) (entry : ConsentEntry)
  /-- `requestTranscription` is called. -/
  | requestTranscription (op : Operation) (serverRecordingId : String)
  deriving DecidableEq, Repr

/-- What a database write does. -/
inductive Action where
  /-- Create a row. -/
  | create (recordingId : String) (bytesTotal : ℕ)
  /-- Run an `update` closure. -/
  | update (row : RowId) (u : Update)
  deriving DecidableEq, Repr

/-- The table after a write at time `now`; a created row gets the id `newId`. -/
def Action.run (now : ℕ) (newId : RowId) (rows : Table RowId UploadQueueItem) :
    Action → Table RowId UploadQueueItem
  | .create recordingId bytesTotal => rows.push newId (newItem now recordingId bytesTotal)
  | .update row u => rows.modify row (u.apply now)

/-- A row keeps its recording when the database performs a write. -/
theorem Action.get?_run {now : ℕ} {newId : RowId} {rows : Table RowId UploadQueueItem}
    {action : Action} {row : RowId} {item : UploadQueueItem} (hnew : newId ∉ rows.keys)
    (h : rows.get? row = some item) :
    ∃ item', (action.run now newId rows).get? row = some item' ∧
      item'.recordingId = item.recordingId := by
  cases action with
  | create recordingId bytesTotal =>
    refine ⟨item, ?_, rfl⟩
    have hne : row ≠ newId := fun he => hnew (he ▸ Table.mem_keys_of_get? h)
    simp [run, Table.get?_push hnew, hne, h]
  | update row' u =>
    simp only [run, Table.get?_modify, h]
    split_ifs
    · exact ⟨_, rfl, Update.apply_recordingId _ _ _⟩
    · exact ⟨_, rfl, rfl⟩

/-- An effect of one turn. -/
inductive Effect where
  /-- Request a database write and wait for it. -/
  | write (action : Action)
  /-- Request a database write without waiting. -/
  | writeDetached (action : Action)
  | setPresignedUrl (sessionId : String) (cache : PresignedUrlCache)
  | clearPresignedUrl (sessionId : String)
  | setProgress (recordingId : String) (bytesUploaded bytesTotal : ℕ)
  | clearProgress (recordingId : String)
  | record (event : Event)
  deriving DecidableEq, Repr

/-- The property name that a nullable string is converted to. -/
def propertyKey (s : Option String) : String := s.getD "null"

/-- The recording together with its server id, if it has one. -/
def withServerId (recording : Option LocalRecording) : Option (LocalRecording × String) :=
  recording.bind fun r => (truthy r.serverRecordingId).map fun serverId => (r, serverId)

/-! ### Completing an upload -/

/-- Where `_handleCompleting` waits. -/
inductive HandlerPc where
  /-- For the recording. -/
  | findRecording
  /-- For `completeUploadSession`. -/
  | completing (serverId sessionId : String)
  /-- For the `done` write; `conflict` in the branch for an upload completed already. -/
  | writingDone (conflict : Bool) (serverId : String) (write : Promise)
  /-- For the consent entry. -/
  | readingConsent (serverId : String)
  /-- For `requestTranscription`. -/
  | requesting (serverId : String)
  deriving DecidableEq, Repr

/-- A turn of `_handleCompleting` ends by waiting again, by returning or by throwing. -/
inductive HandlerNext where
  | await (pc : HandlerPc)
  | returned
  | threw
  deriving DecidableEq, Repr

/-- `_handleCompleting`, run by `who` on `row` whose record is `item`. -/
def handleCompleting (who : Owner) (row : RowId) (item : UploadQueueItem)
    (consent : ConsentEntry) : HandlerPc → Outcome → Option (HandlerNext × List Effect)
  | .findRecording, .found recording =>
    match withServerId recording, truthy item.uploadSessionId with
    | some (recording, serverId), some sessionId =>
      some (.await (.completing serverId sessionId),
        [.record (.completeCall who row sessionId recording.checksumSha256 item.bytesUploaded)])
    | _, _ => some (.returned, [])
  | .completing serverId sessionId, .ok =>
    some (.await (.writingDone false serverId .pending),
      [.record (.completeDone who row sessionId), .write (.update row .done)])
  | .completing serverId sessionId, .apiError status =>
    -- `isAlreadyCompleted`; every other error leaves the row for the next drain
    if status = 409 then
      some (.await (.writingDone true serverId .pending),
        [.record (.completeDone who row sessionId), .write (.update row .done)])
    else some (.returned, [])
  | .completing _ _, .error => some (.returned, [])
  | .writingDone _ serverId .resolved, .ok =>
    some (.await (.readingConsent serverId),
      [.clearPresignedUrl (propertyKey item.uploadSessionId)])
  -- the `catch` swallows a failed write of the first branch, nothing catches the second one's
  | .writingDone conflict _ .rejected, .error => some (if conflict then .threw else .returned, [])
  | .readingConsent serverId, .ok =>
    if hasCrossBorderConsent consent then
      some (.await (.requesting serverId),
        [.record (.consentRead (.completion who row) consent),
          .record (.requestTranscription (.completion who row) serverId)])
    else some (.returned, [.record (.consentRead (.completion who row) consent)])
  | .requesting _, .ok => some (.returned, [])
  | .requesting _, .apiError _ => some (.returned, [])
  | .requesting _, .error => some (.returned, [])
  | _, _ => none

/-! ### Uploading -/

/-- The error that a transfer is rejected with. -/
inductive UploadError where
  | api (status : ℕ)
  | other (message : String)
  deriving DecidableEq, Repr

/-- What `_processItem` stores in `lastError`. -/
def safeError : UploadError → String
  | .api status => "HTTP_" ++ toString status
  | .other _ => "NETWORK_ERROR"

/-- The row write that `_processItem` waits for. -/
inductive TaskWrite where
  /-- Store the session whose URL is `url`. -/
  | session (sessionId url : String)
  /-- Before the transfer to `url`. -/
  | uploading (url : String)
  /-- `_markFailed`. -/
  | failed (error : String)
  | retrying (attempts : ℕ) (error : String)
  | completing
  deriving DecidableEq, Repr

/-- The closure of a write. -/
def TaskWrite.update : TaskWrite → Update
  | .session sessionId _ => .session sessionId
  | .uploading _ => .uploading
  | .failed error => .failed error
  | .retrying attempts error => .retrying attempts error
  | .completing => .completing

/-- Where `_processItem` waits. -/
inductive TaskPc where
  /-- For the recording. -/
  | findRecording
  /-- For `requestPresignedUrl`; the row's session was `sessionId`. -/
  | presigning (recording : LocalRecording) (sessionId : Option String)
  /-- For a row write. -/
  | writing (recording : LocalRecording) (w : TaskWrite) (write : Promise)
  /-- For `Upload.startUpload`. -/
  | starting (recording : LocalRecording) (url : String)
  /-- For an event that ends the transfer. -/
  | transferring (recording : LocalRecording) (url : String)
  /-- The promise of `_doUpload` has settled. -/
  | settled (recording : LocalRecording) (url : String) (error : Option UploadError)
  /-- For `_handleCompleting`. -/
  | handling (pc : HandlerPc)
  /-- The function has ended, the `finally` callback has not run. -/
  | finishing
  deriving DecidableEq, Repr

/-- The path without its `file://` scheme. -/
def stripFileScheme (path : String) : String :=
  if "file://".toList.isPrefixOf path.toList then String.ofList (path.toList.drop 7) else path

/-- The options `_doUpload` starts a transfer with. -/
def uploadOptions (recording : LocalRecording) (url : String) : UploadOptions where
  url := url
  path := stripFileScheme recording.filePath
  method := "PUT"
  type := "raw"
  contentType := "audio/m4a"
  notificationEnabled := true
  onProgressTitle := "업로드 중"
  onProgressMessage := recording.title ++ " 업로드 중..."
  onCompleteTitle := "업로드 완료"
  onCompleteMessage := recording.title
  onErrorTitle := "업로드 실패"
  onErrorMessage := recording.title

/-- Progress is kept under the server id of the recording. -/
def progressKey (recording : LocalRecording) : String := propertyKey recording.serverRecordingId

/-- The URL in the cache, if the row has a session whose URL is valid. -/
def cachedUrl (now : ℕ) (store : UploadQueueStore) (sessionId : Option String) :
    Option String :=
  match truthy sessionId with
  | none => none
  | some sid =>
    if store.isPresignedUrlValid now sid then
      (store.getPresignedUrl sid).map PresignedUrlCache.presignedUrl
    else none

/-- Request the write `w` to `row` and wait for it. -/
def beginWrite (row : RowId) (recording : LocalRecording) (w : TaskWrite) :
    TaskPc × List Effect :=
  (.writing recording w .pending, [.write (.update row w.update)])

/-- The promise of `_doUpload` settles; the listeners are removed. -/
def settleTransfer (recording : LocalRecording) (url : String) (error : Option UploadError) :
    TaskPc × List Effect :=
  (.settled recording url error, [.clearProgress (progressKey recording)])

/-- `_processItem`, run by `who` on `row` whose record is `item`. -/
def processItem (who : Owner) (row : RowId) (item : UploadQueueItem) (now : ℕ)
    (store : UploadQueueStore) (consent : ConsentEntry) :
    TaskPc → Outcome → Option (TaskPc × List Effect)
  | .findRecording, .found recording =>
    match withServerId recording with
    | none => some (.finishing, [])
    | some (recording, _) =>
      if recording.checksumSha256 = "" then
        some (beginWrite row recording (.failed "SHA-256 체크섬 누락 — 녹음 저장 시 계산 필요"))
      else
        match cachedUrl now store item.uploadSessionId with
        | some url => some (beginWrite row recording (.uploading url))
        | none => some (.presigning recording item.uploadSessionId, [])
  | .presigning recording oldSession, .presigned sessionId url expiresAt =>
    let (pc, effects) :=
      if some sessionId = oldSession then beginWrite row recording (.uploading url)
      else beginWrite row recording (.session sessionId url)
    some (pc, .record (.issued sessionId url) ::
      .setPresignedUrl sessionId ⟨sessionId, url, expiresAt * 1000⟩ :: effects)
  | .presigning recording _, .apiError _ =>
    some (beginWrite row recording (.failed "presigned URL 발급 실패"))
  | .presigning recording _, .error =>
    some (beginWrite row recording (.failed "presigned URL 발급 실패"))
  | .writing recording (.session _ url) .resolved, .ok =>
    some (beginWrite row recording (.uploading url))
  | .writing recording (.session _ _) .rejected, .error =>
    -- this write is inside the `try` of `requestPresignedUrl`
    some (beginWrite row recording (.failed "presigned URL 발급 실패"))
  | .writing recording (.uploading url) .resolved, .ok =>
    some (.starting recording url, [.record (.startUpload row (uploadOptions recording url))])
  | .writing _ .completing .resolved, .ok => some (.handling .findRecording, [])
  | .writing _ (.failed _) .resolved, .ok => some (.finishing, [])
  | .writing _ (.retrying _ _) .resolved, .ok => some (.finishing, [])
  -- every other failed write makes the function throw
  | .writing _ _ .rejected, .error => some (.finishing, [])
  | .starting recording url, .ok => some (.transferring recording url, [])
  | .starting recording url, .apiError status =>
    some (settleTransfer recording url (some (.api status)))
  | .starting recording url, .error => some (settleTransfer recording url (some (.other "")))
  | .settled recording _ (some error), .ok =>
    let attempts := item.attempts + 1
    if MAX_UPLOAD_ATTEMPTS ≤ attempts then
      some (beginWrite row recording (.failed (safeError error)))
    else some (beginWrite row recording (.retrying attempts (safeError error)))
  | .settled recording _ none, .ok => some (beginWrite row recording .completing)
  | .handling pc, outcome =>
    match handleCompleting who row item consent pc outcome with
    | none => none
    | some (.await pc, effects) => some (.handling pc, effects)
    -- a `catch` around the call swallows what it throws
    | some (.returned, effects) => some (.finishing, effects)
    | some (.threw, effects) => some (.finishing, effects)
  | _, _ => none

/-- The listeners of a transfer in flight. -/
def nativeEvent (row : RowId) : TaskPc → NativeEvent → Option (TaskPc × List Effect)
  | .transferring recording url, .progress loaded total =>
    some (.transferring recording url,
      [.setProgress (progressKey recording) loaded total,
        .writeDetached (.update row (.bytesUploaded loaded))])
  | .transferring recording url, .error error =>
    some (settleTransfer recording url (some (.other error)))
  | .transferring recording url, .completed responseCode =>
    let (pc, effects) := settleTransfer recording url none
    some (pc, .record (.putCompleted row url responseCode) :: effects)
  | .transferring recording url, .cancelled =>
    some (settleTransfer recording url (some (.other "UPLOAD_CANCELLED")))
  | _, _ => none

/-! ### Settling a write -/

def HandlerPc.settle (promise : Promise) : HandlerPc → HandlerPc
  | .writingDone conflict serverId .pending => .writingDone conflict serverId promise
  | pc => pc

def TaskPc.settle (promise : Promise) : TaskPc → TaskPc
  | .writing recording w .pending => .writing recording w promise
  | .handling pc => .handling (pc.settle promise)
  | pc => pc

end FCord
