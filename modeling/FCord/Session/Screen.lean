import FCord.Api.Client
import FCord.LTS.Basic
import FCord.Search.Store
import FCord.Transcript.Timestamp

/-!
# The recording screen

The screen starts to record when it appears.  Stopping gives a file, which a modal offers to save;
saving uploads it, and a failed upload may be tried again.  Every handler is split at its await, and
what it awaits settles in any order with the other events, also after the screen has been left.  The
screen writes what it does to a log.

## Main definitions

* `RecordingScreen` : the state of the screen, with what its handlers wait for.
* `RecordingScreen.step` : what a user action or a settled call does.
* `recordingSession` : the transition system; a run starts when the screen appears.
-/

namespace FCord

/-! ### Uploads -/

/-- The local time of a `Date`, as far as it is written into requests. -/
structure LocalTime where
  year : ℕ
  month : ℕ
  day : ℕ
  hours : ℕ
  minutes : ℕ
  deriving DecidableEq, Repr

/-- `startDateTime` -/
def startDateTime (t : LocalTime) : String :=
  toString t.year ++ "-" ++ padStart 2 (toString t.month) ++ "-" ++ padStart 2 (toString t.day) ++
    " " ++ padStart 2 (toString t.hours) ++ ":" ++ padStart 2 (toString t.minutes)

/-- The request of `uploadRecording`. -/
def uploadRecording (fileUri fileName mimeType : String) (now : LocalTime) (title : Option String) :
    ApiCall :=
  .upload "/api/meetings/upload"
    ([("audioFile", .file fileUri fileName mimeType),
      ("startDateTime", .text (startDateTime now))] ++
    match title with
    | some title => if trim title = "" then [] else [("title", .text (trim title))]
    | none => [])

/-- The answer to an upload. -/
structure UploadResponse where
  success : Bool
  meetingId : Option String
  deriving DecidableEq, Repr

/-- What `uploadRecording` returns; `none` is its exception. -/
def UploadResponse.confId (res : UploadResponse) : Option String :=
  if res.success then res.meetingId.filter fun id => id ≠ "" else none

/-! ### Durations -/

/-- The timer of the recording screen. -/
def formatTimer (seconds : ℕ) : String :=
  padStart 2 (toString (seconds / 60)) ++ ":" ++ padStart 2 (toString (seconds % 60))

/-- The duration on a card. -/
def formatDuration (ms : Option ℕ) : String :=
  match ms with
  | none => "--:--"
  | some 0 => "--:--"
  | some ms => toString (ms / 1000 / 60) ++ ":" ++ padStart 2 (toString (ms / 1000 % 60))

/-- The duration on the detail screen. -/
def durationStr (ms : Option ℕ) : Option String :=
  match ms with
  | none => none
  | some 0 => none
  | some ms => some (toString (ms / 60000) ++ "분 " ++ toString (ms % 60000 / 1000) ++ "초")

/-! ### The screen -/

/-- What `onSave` uploads, with the time that the timer showed. -/
structure Saving where
  fileUri : String
  fileName : String
  mimeType : String
  title : String
  now : LocalTime
  elapsed : ℕ
  deriving DecidableEq, Repr

/-- The request. -/
def Saving.call (x : Saving) : ApiCall :=
  uploadRecording x.fileUri x.fileName x.mimeType x.now (some x.title)

/-- What the screen has done. -/
inductive SessionEvent where
  /-- The recorder has stopped and returned a file. -/
  | stopped (uri : String)
  /-- An upload has been started. -/
  | upload (x : Saving)
  /-- It has failed. -/
  | failed (x : Saving)
  /-- It has succeeded, and its recording is put in front of the list. -/
  | inserted (confId : String) (x : Saving)
  /-- The user has agreed to lose the recording. -/
  | discarded
  | goBack
  deriving DecidableEq, Repr

structure RecordingScreen where
  /-- The screen has not been left. -/
  active : Bool
  elapsed : ℕ
  isPaused : Bool
  isRecording : Bool
  saveModalVisible : Bool
  isSaving : Bool
  title : String
  fileUri : Option String
  uploadError : Option String
  /-- The listener for the position is registered. -/
  listening : Bool
  /-- The dialog of `onCancelSave` is open. -/
  asking : Bool
  /-- `startRecorder` has not settled. -/
  starting : Bool
  /-- The dialog for a recorder that did not start is open. -/
  micError : Bool
  /-- `onTogglePause` waits; each entry tells whether it found the recording paused. -/
  toggling : List Bool
  /-- The number of `onStop` that wait. -/
  stopping : ℕ
  /-- `onSave` waits for this upload. -/
  saving : Option Saving
  log : List SessionEvent

/-- What can happen. -/
inductive SessionLabel where
  /-- `startRecorder` settles. -/
  | started (ok : Bool)
  /-- The dialog for a recorder that did not start is closed. -/
  | closeMicError
  /-- The listener is told the position of the recorder. -/
  | position (ms : ℕ)
  | onTogglePause
  /-- The recorder has been paused or resumed, or refuses to. -/
  | toggled (wasPaused ok : Bool)
  | onStop
  /-- `stopRecorder` settles, with a file if it succeeds. -/
  | stopped (uri : Option String)
  | setTitle (title : String)
  | onSave (now : LocalTime)
  /-- The upload settles (`none`: `apiUpload` throws). -/
  | answered (res : Option UploadResponse)
  /-- The modal asks whether to lose the recording. -/
  | onCancelSave
  /-- The answer of the user. -/
  | decide (discard : Bool)
  /-- The screen is left. -/
  | unmount
  deriving DecidableEq, Repr

namespace RecordingScreen

variable (s : RecordingScreen)

/-- A screen that has just appeared. -/
def init : RecordingScreen where
  active := true
  elapsed := 0
  isPaused := false
  isRecording := false
  saveModalVisible := false
  isSaving := false
  title := ""
  fileUri := none
  uploadError := none
  listening := false
  asking := false
  starting := true
  micError := false
  toggling := []
  stopping := 0
  saving := none
  log := []

/-- Write to the log. -/
def record (events : List SessionEvent) : RecordingScreen := { s with log := s.log ++ events }

/-- Set state variables; after the screen has been left this does nothing. -/
def setState (update : RecordingScreen → RecordingScreen) : RecordingScreen :=
  if s.active then update s else s

/-- What `onSave` uploads; `toLocaleDateString` writes a date. -/
def savingOf (toLocaleDateString : LocalTime → String) (now : LocalTime) (fileUri : String) :
    Saving :=
  let trimmed := trim s.title
  let resolvedTitle := if trimmed = "" then "녹음 " ++ toLocaleDateString now else trimmed
  { fileUri := fileUri
    fileName := resolvedTitle ++ ".m4a"
    mimeType := "audio/mp4"
    title := resolvedTitle
    now := now
    elapsed := s.elapsed }

/-- `onSave`, up to its await. -/
def onSave (toLocaleDateString : LocalTime → String) (now : LocalTime) : RecordingScreen :=
  match s.fileUri with
  | none => s
  | some fileUri =>
    if s.isSaving || fileUri = "" then s
    else
      let x := s.savingOf toLocaleDateString now fileUri
      { s with isSaving := true, uploadError := none, saving := some x }.record [.upload x]

/-- The upload `x` has succeeded. -/
def saved (confId : String) (x : Saving) : RecordingScreen :=
  ({ s with saving := none }.setState fun s => { s with saveModalVisible := false }).record
    [.inserted confId x, .goBack]

/-- The upload `x` has failed. -/
def notSaved (x : Saving) : RecordingScreen :=
  ({ s with saving := none }.setState fun s =>
    { s with uploadError := some "업로드에 실패했습니다. 다시 시도해주세요.", isSaving := false }).record
    [.failed x]

/-- The rest of `onSave`. -/
def onAnswer (x : Saving) (res : Option UploadResponse) : RecordingScreen :=
  match res.bind UploadResponse.confId with
  | some confId => s.saved confId x
  | none => s.notSaved x

/-- The step function of the screen. -/
def step (toLocaleDateString : LocalTime → String) (s : RecordingScreen) :
    SessionLabel → Option RecordingScreen
  | .started ok =>
    if s.starting then
      let s := { s with starting := false }
      some
        (if ok then
          -- a screen that has been left does not listen
          if s.active then { s with isRecording := true, listening := true } else s
        else { s with micError := true })
    else none
  | .closeMicError =>
    if s.micError then some ({ s with micError := false }.record [.goBack]) else none
  | .position ms =>
    if s.listening then some (s.setState fun s => { s with elapsed := ms / 1000 }) else none
  | .onTogglePause =>
    if s.active then some { s with toggling := s.isPaused :: s.toggling } else none
  | .toggled wasPaused ok =>
    if wasPaused ∈ s.toggling then
      some ({ s with toggling := s.toggling.erase wasPaused }.setState fun s =>
        -- where pausing is not supported, only the screen changes
        { s with isPaused := if ok then !wasPaused else !s.isPaused })
    else none
  | .onStop => if s.active then some { s with stopping := s.stopping + 1 } else none
  | .stopped uri =>
    if s.stopping = 0 then none
    else
      let s := { s with stopping := s.stopping - 1 }
      match uri with
      | some uri =>
        some (({ s with listening := false }.setState fun s =>
          { s with isRecording := false, fileUri := some uri, saveModalVisible := true }).record
          [.stopped uri])
      | none => some s
  | .setTitle title => if s.active then some { s with title := title } else none
  | .onSave now =>
    if s.active && s.saveModalVisible then some (s.onSave toLocaleDateString now) else none
  | .answered res => s.saving.map fun x => s.onAnswer x res
  | .onCancelSave => if s.active && s.saveModalVisible then some { s with asking := true } else none
  | .decide discard =>
    if s.asking then
      let s := { s with asking := false }
      some
        (if discard then
          (s.setState fun s => { s with fileUri := none, saveModalVisible := false }).record
            [.discarded, .goBack]
        else s)
    else none
  | .unmount => if s.active then some { s with active := false, listening := false } else none

end RecordingScreen

open RecordingScreen in
/-- The recording screen. -/
def recordingSession (toLocaleDateString : LocalTime → String) :
    LTS RecordingScreen SessionLabel :=
  LTS.ofFn (· = init) (step toLocaleDateString)

end FCord
