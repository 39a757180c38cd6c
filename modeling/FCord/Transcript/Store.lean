import FCord.Data.Table
import FCord.LTS.Basic
import Mathlib.Data.Int.Notation
import Mathlib.Data.Rat.Init

/-!
# The transcript store as a transition system

`useTranscriptStore` shows one recording at a time.  `loadTranscript` and `saveEdits` wait for the
server and then write the store, whatever it shows by then.  `Move` says once what a step can do.

A segment carries the recording that `getTranscript` was called with when it was fetched
(`Segment.fetchedFor`), which the program does not know.
-/

namespace FCord

/-- `TranscriptSegment`.  An instant is `none` where it is no finite number. -/
structure TranscriptSegment where
  startMs : Option ℚ
  endMs : Option ℚ
  speakerLabel : String
  text : String
  confidenceAvg : ℤ
  deriving DecidableEq, Repr

/-- A segment in the store. -/
structure Segment extends TranscriptSegment where
  id : String
  /-- The recording it was fetched for. -/
  fetchedFor : String
  deriving DecidableEq, Repr

/-- The segments of a reply, with their ids. -/
def numbered (recordingId : String) (raw : List TranscriptSegment) : List Segment :=
  raw.mapIdx fun i seg =>
    { seg with id := "seg-" ++ toString i, fetchedFor := recordingId }

/-- The ids of `n` segments. -/
def segmentIds (n : ℕ) : List String := (List.range n).map fun i => "seg-" ++ toString i

/-- The segments with the pending edits applied. -/
def applyEdits (pendingEdits : Table String String) (segments : List Segment) : List Segment :=
  segments.map fun seg =>
    match pendingEdits.get? seg.id with
    | some text => { seg with text := text }
    | none => seg

theorem fetchedFor_numbered {recordingId : String} {raw : List TranscriptSegment} {seg : Segment}
    (h : seg ∈ numbered recordingId raw) : seg.fetchedFor = recordingId := by
  obtain ⟨i, hi, rfl⟩ := List.mem_mapIdx.1 h
  rfl

theorem nodup_segmentIds (n : ℕ) : (segmentIds n).Nodup := by
  refine List.Nodup.map (fun i j hij => ?_) List.nodup_range
  have hlist := congrArg String.toList hij
  simp only [String.toList_append] at hlist
  have hvalue := congrArg (fun ds => Nat.ofDigitChars 10 ds 0) (List.append_cancel_left hlist)
  simpa [Nat.toString_eq_ofList_toDigits] using hvalue

@[simp] theorem map_id_numbered (recordingId : String) (raw : List TranscriptSegment) :
    (numbered recordingId raw).map (·.id) = segmentIds raw.length := by
  refine List.ext_getElem? fun i => ?_
  rw [numbered, segmentIds, List.getElem?_map, List.getElem?_mapIdx, List.getElem?_map]
  cases hseg : raw[i]? with
  | none => simp [List.getElem?_eq_none_iff.1 hseg]
  | some seg => simp [(List.getElem?_eq_some_iff.1 hseg).1]

@[simp] theorem map_text_numbered (recordingId : String) (raw : List TranscriptSegment) :
    (numbered recordingId raw).map (·.text) = raw.map (·.text) := by
  refine List.ext_getElem? fun i => ?_
  rw [numbered, List.getElem?_map, List.getElem?_mapIdx, List.getElem?_map]
  cases raw[i]? with
  | none => rfl
  | some seg => rfl

/-- An edit changes the text only. -/
theorem fetchedFor_applyEdits {edits : Table String String} {segments : List Segment}
    {seg : Segment} (h : seg ∈ applyEdits edits segments) :
    ∃ old ∈ segments, seg.fetchedFor = old.fetchedFor := by
  obtain ⟨old, hm, rfl⟩ := List.mem_map.1 h
  refine ⟨old, hm, ?_⟩
  split <;> rfl

@[simp] theorem applyEdits_empty (segments : List Segment) :
    applyEdits .empty segments = segments := by
  simp [applyEdits]

/-- An edit keeps the ids. -/
@[simp] theorem map_id_applyEdits (edits : Table String String) (segments : List Segment) :
    (applyEdits edits segments).map (·.id) = segments.map (·.id) := by
  rw [applyEdits, List.map_map]
  refine List.map_congr_left fun seg _ => ?_
  simp only [Function.comp_apply]
  split <;> rfl

namespace Transcript

/-- Identifies a call to the server. -/
abbrev CallId := ℕ

/-- A call that waits for the server. -/
inductive Call where
  /-- `loadTranscript`, for `getTranscript`. -/
  | loading (recordingId : String)
  /-- `saveEdits`, for `saveTranscriptEdits`. -/
  | saving (recordingId : String) (updated : List Segment)
  deriving DecidableEq, Repr

/-- The store, the calls in flight, and what was sent to the server. -/
structure State where
  recordingId : Option String
  segments : List Segment
  editMode : Bool
  pendingEdits : Table String String
  isLoading : Bool
  error : Option String
  calls : Table CallId Call
  nextId : CallId
  /-- The calls of `saveTranscriptEdits`, the latest first. -/
  sent : List (String × List Segment)

/-- How a call to the server settles. -/
inductive Reply where
  | transcript (raw : List TranscriptSegment)
  | saved
  | failed
  deriving DecidableEq, Repr

inductive Label where
  | loadTranscript (recordingId : String)
  | toggleEditMode
  | editSegment (segmentId text : String)
  | saveEdits
  | reset
  /-- A call settles. -/
  | settle (p : CallId) (reply : Reply)
  deriving DecidableEq, Repr

namespace State

variable (s : State)

/-- `loadTranscript`, up to its `await`. -/
def loadTranscript (recordingId : String) : State :=
  { s with
    isLoading := true
    error := none
    recordingId := some recordingId
    calls := s.calls.push s.nextId (.loading recordingId)
    nextId := s.nextId + 1 }

def editSegment (segmentId text : String) : State :=
  { s with pendingEdits := s.pendingEdits.insert segmentId text }

/-- `saveEdits`, up to its `await`. -/
def saveEdits : State :=
  match s.recordingId with
  | none => s
  | some recordingId =>
    if recordingId = "" ∨ s.pendingEdits.keys = [] then s
    else
      let updated := applyEdits s.pendingEdits s.segments
      { s with
        isLoading := true
        calls := s.calls.push s.nextId (.saving recordingId updated)
        nextId := s.nextId + 1
        sent := (recordingId, updated) :: s.sent }

/-- A save is sent off. -/
def send (recordingId : String) : State :=
  { s with
    isLoading := true
    calls := s.calls.push s.nextId (.saving recordingId (applyEdits s.pendingEdits s.segments))
    nextId := s.nextId + 1
    sent := (recordingId, applyEdits s.pendingEdits s.segments) :: s.sent }

def reset : State :=
  { s with
    recordingId := none
    segments := []
    editMode := false
    pendingEdits := .empty
    isLoading := false
    error := none }

/-- The rest of a call, when the server has answered. -/
def settle (p : CallId) (call : Call) (reply : Reply) : Option State :=
  let s := { s with calls := s.calls.erase p }
  match call, reply with
  | .loading recordingId, .transcript raw =>
    some { s with segments := numbered recordingId raw, isLoading := false }
  | .loading _, .failed =>
    some { s with error := some "전사 결과를 불러오지 못했습니다", isLoading := false }
  | .saving _ updated, .saved =>
    some { s with
      segments := updated, pendingEdits := .empty, editMode := false, isLoading := false }
  | .saving _ _, .failed => some { s with error := some "저장에 실패했습니다", isLoading := false }
  | _, _ => none

variable {s}

/-- `saveEdits` sends what is pending, or does nothing. -/
theorem saveEdits_cases :
    s.saveEdits = s ∨ ∃ recordingId, s.recordingId = some recordingId ∧
      s.saveEdits = s.send recordingId := by
  unfold saveEdits
  split
  · exact .inl rfl
  · rename_i recordingId hid
    split_ifs
    · exact .inl rfl
    · exact .inr ⟨recordingId, hid, rfl⟩

theorem saveEdits_eq_send {recordingId : String} (hid : s.recordingId = some recordingId)
    (hne : recordingId ≠ "") (hpending : s.pendingEdits.keys ≠ []) :
    s.saveEdits = s.send recordingId := by
  have hskip : ¬ (recordingId = "" ∨ s.pendingEdits.keys = []) := by simp [hne, hpending]
  unfold saveEdits
  split
  · rename_i hnone
    cases hnone.symm.trans hid
  · rename_i loaded hloaded
    cases hloaded.symm.trans hid
    exact if_neg hskip

end State

/-- The step function.  Between loads of different recordings the screen resets the store. -/
def step (s : State) : Label → Option State
  | .loadTranscript recordingId =>
    if s.recordingId = none ∨ s.recordingId = some recordingId then
      some (s.loadTranscript recordingId)
    else none
  | .toggleEditMode => some { s with editMode := !s.editMode }
  | .editSegment segmentId text => some (s.editSegment segmentId text)
  | .saveEdits => some s.saveEdits
  | .reset => some s.reset
  | .settle p reply => (s.calls.get? p).bind fun call => s.settle p call reply

def init : State where
  recordingId := none
  segments := []
  editMode := false
  pendingEdits := .empty
  isLoading := false
  error := none
  calls := .empty
  nextId := 0
  sent := []

end Transcript

open Transcript in
/-- The transcript store, used as its screen uses it. -/
def transcriptStore : LTS State Label := LTS.ofFn (· = init) step

namespace Transcript

variable {s s' : State} {l : Label}

/-- What a step can do. -/
inductive Move (s : State) : Label → State → Prop
  | loadTranscript {recordingId : String}
      (hguard : s.recordingId = none ∨ s.recordingId = some recordingId) :
      Move s (.loadTranscript recordingId) (s.loadTranscript recordingId)
  | toggleEditMode : Move s .toggleEditMode { s with editMode := !s.editMode }
  | editSegment (segmentId text : String) :
      Move s (.editSegment segmentId text) (s.editSegment segmentId text)
  /-- There is nothing to save. -/
  | skip (hskip : s.saveEdits = s) : Move s .saveEdits s
  | send {recordingId : String} (hid : s.recordingId = some recordingId)
      (hsend : s.saveEdits = s.send recordingId) : Move s .saveEdits (s.send recordingId)
  | reset : Move s .reset s.reset
  /-- The transcript arrives. -/
  | fetched {p : CallId} {recordingId : String} (raw : List TranscriptSegment)
      (hp : s.calls.get? p = some (.loading recordingId)) :
      Move s (.settle p (.transcript raw))
        { s with
          calls := s.calls.erase p
          segments := numbered recordingId raw
          isLoading := false }
  | saved {p : CallId} {recordingId : String} {updated : List Segment}
      (hp : s.calls.get? p = some (.saving recordingId updated)) :
      Move s (.settle p .saved)
        { s with
          calls := s.calls.erase p
          segments := updated
          pendingEdits := .empty
          editMode := false
          isLoading := false }
  | notFetched {p : CallId} {recordingId : String}
      (hp : s.calls.get? p = some (.loading recordingId)) :
      Move s (.settle p .failed)
        { s with
          calls := s.calls.erase p
          error := some "전사 결과를 불러오지 못했습니다"
          isLoading := false }
  | notSaved {p : CallId} {recordingId : String} {updated : List Segment}
      (hp : s.calls.get? p = some (.saving recordingId updated)) :
      Move s (.settle p .failed)
        { s with
          calls := s.calls.erase p
          error := some "저장에 실패했습니다"
          isLoading := false }

theorem Move.of_step (h : step s l = some s') : Move s l s' := by
  cases l with
  | loadTranscript recordingId =>
    obtain ⟨hguard, he⟩ := Option.ite_none_right_eq_some.1 h
    cases he
    exact .loadTranscript hguard
  | toggleEditMode => cases h; exact .toggleEditMode
  | editSegment segmentId text => cases h; exact .editSegment segmentId text
  | saveEdits =>
    cases h
    rcases s.saveEdits_cases with he | ⟨recordingId, hid, he⟩
    · rw [he]
      exact .skip he
    · rw [he]
      exact .send hid he
  | reset => cases h; exact .reset
  | settle p reply =>
    obtain ⟨call, hp, h⟩ := Option.bind_eq_some_iff.1 h
    cases call with
    | loading recordingId =>
      cases reply with
      | transcript raw => cases h; exact .fetched raw hp
      | saved => cases h
      | failed => cases h; exact .notFetched hp
    | saving recordingId updated =>
      cases reply with
      | transcript raw => cases h
      | saved => cases h; exact .saved hp
      | failed => cases h; exact .notSaved hp

/-- A call that settles was in flight, and is not any more. -/
theorem Move.settle_calls {p : CallId} {reply : Reply} (h : Move s (.settle p reply) s') :
    p ∈ s.calls.keys ∧ s'.calls = s.calls.erase p := by
  cases h with
  | fetched raw hp => exact ⟨Table.mem_keys_of_get? hp, rfl⟩
  | saved hp => exact ⟨Table.mem_keys_of_get? hp, rfl⟩
  | notFetched hp => exact ⟨Table.mem_keys_of_get? hp, rfl⟩
  | notSaved hp => exact ⟨Table.mem_keys_of_get? hp, rfl⟩

/-- The ids of the calls are given out in order. -/
theorem lt_nextId (h : transcriptStore.Reachable s) : ∀ p ∈ s.calls.keys, p < s.nextId := by
  refine h.invariant (I := fun s => ∀ p ∈ s.calls.keys, p < s.nextId) ?_ fun s l s' hs hst => ?_
  · rintro s rfl p hp
    cases hp
  · cases Move.of_step hst with
    | loadTranscript hguard => exact fun p hp => Table.lt_of_mem_push hs hp
    | toggleEditMode => exact hs
    | editSegment segmentId text => exact hs
    | skip hskip => exact hs
    | send hid hsend => exact fun p hp => Table.lt_of_mem_push hs hp
    | reset => exact hs
    | fetched raw hp => exact fun q hq => hs q (Table.mem_keys_of_erase hq)
    | saved hp => exact fun q hq => hs q (Table.mem_keys_of_erase hq)
    | notFetched hp => exact fun q hq => hs q (Table.mem_keys_of_erase hq)
    | notSaved hp => exact fun q hq => hs q (Table.mem_keys_of_erase hq)

end Transcript

end FCord
