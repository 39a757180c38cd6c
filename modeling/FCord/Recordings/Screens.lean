import FCord.Data.Table
import FCord.Data.Trim
import FCord.Recordings.Api
import FCord.Recordings.Store

/-!
# The screens that use the recording list

The list screen loads, polls and deletes recordings, the detail screen changes and deletes one, and
the recording screen inserts the one it has uploaded.  All of them await the server: a handler is
split at its await, and the rest of it is a `Call` that waits for an `Answer`.  Any number of calls
may wait at the same time, and their answers come in any order.

## Main definitions

* `Screens` : the store together with the calls that wait.
* `Screens.step` : what a user action, a timer or an answer does.
* `recordingScreens` : the transition system; a run starts with an empty list.
-/

namespace FCord

/-! ### Polling -/

/-- `ids.join(',')`. -/
def joinIds (ids : List String) : String :=
  String.ofList (List.intercalate [','] (ids.map String.toList))

/-- `key.split(',')`. -/
def splitKey (key : String) : List String := (key.toList.splitOn ',').map String.ofList

/-- `processingKey`: the ids of the items that are being converted. -/
def processingKey (items : List ServerRecordingCache) : String :=
  joinIds ((items.filter fun i => i.transcriptionState = .processing).map ServerRecordingCache.id)

/-- The ids that a cycle of the poll asks for. -/
def pollIds (items : List ServerRecordingCache) : List String :=
  (splitKey (processingKey items)).filter fun id => id ≠ ""

/-- What `onSave` does with the item of its upload: `items` is the list it was rendered with. -/
def RecordingListStore.insertSaved (s : RecordingListStore) (items : List ServerRecordingCache)
    (new : ServerRecordingCache) : RecordingListStore :=
  s.setItems (new :: items) none

/-! ### The screens -/

/-- What an `async` handler waits for, with the variables that it goes on with. -/
inductive Call where
  /-- `loadList`: for `getRecordingList`. -/
  | loadList (cursor : Option String)
  /-- `poll`: for `getMeetingDetail` of the first id. -/
  | poll (id : String) (rest : List String)
  /-- `onDeleteConfirm`: for `softDeleteRecording`. -/
  | delete (target : ServerRecordingCache)
  /-- `onSaveTitle`: for `updateRecordingMeta`. -/
  | saveTitle (id title : String)
  /-- `onRetryUpload`: for `retryUpload`. -/
  | retryUpload (id : String)
  /-- `onRetryTranscription`: for `retryTranscription`. -/
  | retryTranscription (id : String)
  /-- `onRequestTranscription`: for `requestTranscription`. -/
  | requestTranscription (id : String)
  /-- `onSave`: for `uploadRecording`; `items` is the list that was rendered last before. -/
  | upload (title : String) (elapsed : ℕ) (items : List ServerRecordingCache)
  deriving DecidableEq, Repr

/-- How an awaited call settles. -/
inductive Answer where
  | list (raw : Option (List FaicordMeetingItem))
  | detail (res : Option MeetingResponse)
  | uploaded (confId : String)
  | ok
  | error
  deriving DecidableEq, Repr

structure Screens where
  store : RecordingListStore
  now : ℕ
  /-- The item of the open delete modal of the list screen. -/
  deleteTarget : Option ServerRecordingCache
  calls : Table ℕ Call
  nextPid : ℕ

namespace Screens

variable (s : Screens)

/-- Start to wait. -/
def await (call : Call) : Screens :=
  { s with calls := s.calls.push s.nextPid call, nextPid := s.nextPid + 1 }

/-- `loadList`, up to its await. -/
def loadList (cursor : Option String) : Screens :=
  { s with store := if cursor.isSome then s.store.setLoading true else s.store }.await
    (.loadList cursor)

/-- The effect of the list screen that follows its filter and its sort order. -/
def loadEffect : Screens := { s with store := s.store.setLoading true }.loadList none

/-- `onRefresh`. -/
def onRefresh : Screens :=
  if s.store.isRefreshing then s
  else { s with store := s.store.setRefreshing true }.loadList none

/-- `onEndReached`. -/
def onEndReached : Screens :=
  if s.store.hasMore && !s.store.isLoading && !s.store.isRefreshing then
    match s.store.nextCursor with
    | some cursor => if cursor = "" then s else s.loadList (some cursor)
    | none => s
  else s

/-- The recording that the detail screen of `id` shows. -/
def recording (id : String) : Option ServerRecordingCache := s.store.items.find? fun r => r.id = id

/-- Ask for the next id of a cycle of the poll. -/
def pollNext (p : ℕ) : List String → Screens
  | [] => { s with calls := s.calls.erase p }
  | id :: rest => { s with calls := s.calls.set p (.poll id rest) }

/-- What a cycle of the poll does with the answer for `id`. -/
def pollAnswer (getTime : String → ℕ) (id : String) (res : Option MeetingResponse) :
    RecordingListStore :=
  match getMeetingDetail getTime s.now res with
  | none => s.store
  | some detail =>
    if detail.transcriptionState ≠ .processing then
      s.store.updateItem id { transcriptionState := some detail.transcriptionState }
    else s.store

/-- The item that `onSave` puts in front. -/
def savedItem (confId title : String) (elapsed : ℕ) : ServerRecordingCache where
  id := confId
  title := title
  uploadState := .uploaded
  transcriptionState := .processing
  recordingState := .savedLocal
  createdAt := s.now
  updatedAt := s.now
  cachedAt := s.now
  durationMs := some (elapsed * 1000)

/-- What an answer does to the store (`none`: it does not answer this call). -/
def onAnswer (getTime : String → ℕ) : Call → Answer → Option RecordingListStore
  | .loadList cursor, .list raw =>
    let (items, nextCursor) := getRecordingList getTime s.now raw
    let store :=
      if cursor.isSome then s.store.appendItems items nextCursor
      else s.store.setItems items nextCursor
    some ((store.setLoading false).setRefreshing false)
  -- the list is kept
  | .loadList _, .error => some ((s.store.setLoading false).setRefreshing false)
  | .poll id _, .detail res => some (s.pollAnswer getTime id res)
  | .poll _ _, .error => some s.store
  | .delete _, .ok => some s.store
  | .delete target, .error => some (s.store.restoreItem target)
  | .saveTitle id title, .ok => some (s.store.updateItem id { title := some title })
  | .saveTitle _ _, .error => some s.store
  | .retryUpload id, .ok => some (s.store.updateItem id { uploadState := some .queued })
  | .retryUpload _, .error => some s.store
  | .retryTranscription id, .ok =>
    some (s.store.updateItem id { transcriptionState := some .queued })
  | .retryTranscription _, .error => some s.store
  | .requestTranscription id, .ok =>
    some (s.store.updateItem id { transcriptionState := some .queued })
  | .requestTranscription _, .error => some s.store
  | .upload title elapsed items, .uploaded confId =>
    some (s.store.insertSaved items (s.savedItem confId title elapsed))
  | .upload _ _ _, .error => some s.store
  | _, _ => none

/-- The call goes on after its answer: only a cycle of the poll asks again. -/
def goOn (p : ℕ) : Call → Screens
  | .poll _ rest => s.pollNext p rest
  | _ => { s with calls := s.calls.erase p }

end Screens

/-- What can happen. -/
inductive ScreenLabel where
  /-- The list screen appears. -/
  | mount
  | setFilter (filter : FilterType)
  | onToggleSort
  | setSearchQuery (q : String)
  /-- The app returns to the foreground. -/
  | active
  | onRefresh
  | onEndReached
  /-- The timer of the poll. -/
  | poll
  | toggleStar (id : String)
  /-- Open the delete modal of the list screen for an item. -/
  | openDelete (item : ServerRecordingCache)
  /-- `onDeleteConfirm` of the list screen. -/
  | confirmDelete
  /-- `onDeleteConfirm` of the detail screen. -/
  | deleteRecording (id : String)
  | onSaveTitle (id editedTitle : String)
  | onRetryUpload (id : String)
  | onRetryTranscription (id : String)
  | onRequestTranscription (id : String)
  /-- `onSave` of the recording screen. -/
  | onSave (title : String) (elapsed : ℕ)
  /-- The call `p` is answered. -/
  | answer (p : ℕ) (a : Answer)
  | tick (ms : ℕ)
  deriving DecidableEq, Repr

/-- The event is an answer. -/
def ScreenLabel.isAnswer : ScreenLabel → Bool
  | .answer _ _ => true
  | _ => false

namespace Screens

/-- Whether an edited title is not blank and differs from the shown one. -/
def shouldSaveTitle (editedTitle currentTitle : String) : Bool :=
  let trimmed := trim editedTitle
  trimmed ≠ "" && trimmed ≠ currentTitle

/-- The step function of the screens. -/
def step (getTime : String → ℕ) (s : Screens) : ScreenLabel → Option Screens
  | .mount => some s.loadEffect
  | .setFilter filter =>
    let s' := { s with store := s.store.setFilter filter }
    -- the effect runs again if the filter has changed
    some (if filter = s.store.filter then s' else s'.loadEffect)
  | .onToggleSort =>
    let sort := if s.store.sort = .recent then .duration else .recent
    some { s with store := s.store.setSort sort }.loadEffect
  | .setSearchQuery q => some { s with store := s.store.setSearchQuery q }
  | .active => some (s.loadList none)
  | .onRefresh => some s.onRefresh
  | .onEndReached => some s.onEndReached
  | .poll =>
    -- there is no timer while the key is empty
    if processingKey s.store.items = "" then none
    else
      match pollIds s.store.items with
      | [] => some s
      | id :: rest => some (s.await (.poll id rest))
  -- the star of an item that is shown
  | .toggleStar id =>
    if id ∈ s.store.items.map ServerRecordingCache.id then
      some { s with store := s.store.toggleStar id }
    else none
  | .openDelete item =>
    if item ∈ s.store.items then some { s with deleteTarget := some item } else none
  | .confirmDelete =>
    s.deleteTarget.map fun target =>
      { s with store := s.store.removeItem target.id, deleteTarget := none }.await (.delete target)
  | .deleteRecording id =>
    (s.recording id).map fun recording =>
      { s with store := s.store.removeItem id }.await (.delete recording)
  | .onSaveTitle id editedTitle =>
    (s.recording id).map fun recording =>
      if shouldSaveTitle editedTitle recording.title then
        s.await (.saveTitle id (trim editedTitle))
      else s
  | .onRetryUpload id =>
    (s.recording id).bind fun recording =>
      if (resolveDetailActions recording).showRetryUpload then some (s.await (.retryUpload id))
      else none
  | .onRetryTranscription id =>
    (s.recording id).bind fun recording =>
      if (resolveDetailActions recording).showRetryTranscription then
        -- without an identifier there is only an alert
        some (if recording.transcriptionId.any fun t => t ≠ "" then s.await (.retryTranscription id)
          else s)
      else none
  | .onRequestTranscription id =>
    (s.recording id).bind fun recording =>
      if (resolveDetailActions recording).showRequestTranscription then
        some (s.await (.requestTranscription id))
      else none
  | .onSave title elapsed => some (s.await (.upload title elapsed s.store.items))
  | .answer p a =>
    (s.calls.get? p).bind fun call =>
      (s.onAnswer getTime call a).map fun store => { s with store := store }.goOn p call
  | .tick ms => some { s with now := s.now + ms }

/-- The screens of a fresh process. -/
def init (now : ℕ) : Screens where
  store := .initial
  now := now
  deleteTarget := none
  calls := .empty
  nextPid := 0

end Screens

open Screens in
/-- The screens. -/
def recordingScreens (getTime : String → ℕ) : LTS Screens ScreenLabel :=
  LTS.ofFn (fun s => ∃ now, s = init now) (step getTime)

end FCord
