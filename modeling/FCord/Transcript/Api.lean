import FCord.Data.Number
import FCord.Transcript.Store
import Mathlib.Data.Rat.Floor

/-!
# The transcript of the server

`getTranscript` turns the segments of the server into those of the app: it reads their timestamps
with `timeToMs` and gives each an id made of its `sequence_index`.  `loadTranscript` gives them ids
again, made of their positions.  The segments keep their identity exactly if the server has numbered
them by their positions, from zero on (`segment_identity_iff`).
-/

namespace FCord

/-! ### Timestamps -/

/-- `text.split(separator)` -/
def splitText (separator : Char) (text : String) : List String :=
  (text.toList.splitOn separator).map String.ofList

/-- `Math.round` -/
def mathRound (x : ℚ) : ℤ := ⌊x + 1 / 2⌋

/-- `Number(text)`, where it is finite. -/
def numberOf (text : String) : Option ℚ := (Number.ofString text).toRat?

/-- `timeToMs`: `HH:MM:SS.ss` in milliseconds.  Its value is finite exactly if all the numbers that
it reads are. -/
def timeToMs (t : String) : Option ℚ := do
  let parts := splitText '.' t
  let hms := parts.headD ""
  let frac := parts[1]?.getD "0"
  let numbers := (splitText ':' hms).map numberOf
  let h ← numbers[0]?.join
  let m ← numbers[1]?.join
  let s ← numbers[2]?.join
  let fraction ← numberOf ("0." ++ frac)
  return (h * 3600 + m * 60 + s) * 1000 + mathRound (fraction * 1000)

example : timeToMs "1:02:03.45" = some 3723450 := by decide +kernel

example : timeToMs "0:00:59.9995" = some 60000 := by decide +kernel

example : timeToMs "1:02" = none := by decide +kernel

/-! ### Segments -/

/-- An entry of `/api/meetings/transcript/{id}`. -/
structure FaicordTranscriptSegment where
  speaker : String
  text : String
  start : String
  end_ : String
  sequenceIndex : ℤ
  deriving DecidableEq, Repr

/-- `TranscriptSegment & { id?: string }` -/
structure FetchedSegment extends TranscriptSegment where
  id : String
  deriving DecidableEq, Repr

/-- The id that the server's number of a segment makes. -/
def FaicordTranscriptSegment.id (seg : FaicordTranscriptSegment) : String :=
  "seg-" ++ toString seg.sequenceIndex

def getTranscript (raw : Option (List FaicordTranscriptSegment)) : List FetchedSegment :=
  (raw.getD []).map fun seg =>
    { id := seg.id
      speakerLabel := seg.speaker
      text := seg.text
      startMs := timeToMs seg.start
      endMs := timeToMs seg.end_
      confidenceAvg := 0 }

/-- The answer of the server, as `loadTranscript` reads it. -/
def Transcript.Reply.ofServer (raw : Option (List FaicordTranscriptSegment)) : Transcript.Reply :=
  .transcript ((getTranscript raw).map FetchedSegment.toTranscriptSegment)

/-- The ids of a store are distinct, and each is the one that the server's number makes. -/
def IdentityKept (raw : List FaicordTranscriptSegment) (segments : List Segment) : Prop :=
  (segments.map (·.id)).Nodup ∧ segments.map (·.id) = raw.map FaicordTranscriptSegment.id

/-- The server numbers its segments by their positions. -/
def NumberedByPosition (raw : List FaicordTranscriptSegment) : Prop :=
  ∀ (i : ℕ) (seg : FaicordTranscriptSegment), raw[i]? = some seg → seg.sequenceIndex = i

/-- A number and a position make the same id only if they are the same. -/
theorem FaicordTranscriptSegment.id_eq_iff {seg : FaicordTranscriptSegment} {i : ℕ} :
    seg.id = "seg-" ++ toString i ↔ seg.sequenceIndex = i := by
  constructor
  · intro h
    have hlist := congrArg String.toList h
    simp only [FaicordTranscriptSegment.id, String.toList_append] at hlist
    have hdigits := List.append_cancel_left hlist
    rw [Nat.toString_eq_ofList_toDigits, String.toList_ofList] at hdigits
    cases hk : seg.sequenceIndex with
    | ofNat n =>
      have hn : (toString seg.sequenceIndex).toList = Nat.toDigits 10 n := by
        rw [hk, ← String.toList_ofList (l := Nat.toDigits 10 n), ← Nat.toString_eq_ofList_toDigits]
        rfl
      have hvalue := congrArg (fun ds => Nat.ofDigitChars 10 ds 0) (hn.symm.trans hdigits)
      simp only [Nat.ofDigitChars_ten_toDigits] at hvalue
      rw [hvalue]
      rfl
    | negSucc n =>
      -- the id of a negative number has one more dash
      have hdash : '-' ∈ Nat.toDigits 10 i := by
        rw [← hdigits, hk]
        simp [toString, Int.repr]
      have hdigit : '-'.isDigit = true :=
        Nat.isDigit_of_mem_toDigits (by decide) (by decide) hdash
      exact absurd hdigit (by decide)
  · intro h
    rw [FaicordTranscriptSegment.id, h]
    rfl

/-- The positions make the ids that the numbers make exactly if they are the same. -/
theorem segmentIds_eq_iff {raw : List FaicordTranscriptSegment} :
    segmentIds raw.length = raw.map FaicordTranscriptSegment.id ↔ NumberedByPosition raw := by
  rw [List.ext_getElem?_iff, NumberedByPosition]
  refine forall_congr' fun i => ?_
  rw [segmentIds, List.getElem?_map, List.getElem?_map]
  cases hseg : raw[i]? with
  | none => simp [List.getElem?_eq_none_iff.1 hseg]
  | some seg =>
    simp [(List.getElem?_eq_some_iff.1 hseg).1, eq_comm, ← FaicordTranscriptSegment.id_eq_iff]

variable {s s' : Transcript.State} {p : Transcript.CallId}
  {raw : Option (List FaicordTranscriptSegment)}

/-- The ids after a load. -/
theorem map_id_of_load (h : Transcript.step s (.settle p (.ofServer raw)) = some s') :
    s'.segments.map (·.id) = segmentIds (raw.getD []).length := by
  cases Transcript.Move.of_step h with
  | fetched raw' hp =>
    rw [map_id_numbered]
    simp [getTranscript]

/-- **When segments keep their identity.**  The ids in the store after a load, and those of any
edits of it that are saved, are distinct and the ones that the server's numbers make exactly if the
server numbers its segments by their positions. -/
theorem segment_identity_iff (h : Transcript.step s (.settle p (.ofServer raw)) = some s') :
    (IdentityKept (raw.getD []) s'.segments ∧
        ∀ edits, IdentityKept (raw.getD []) (applyEdits edits s'.segments)) ↔
      NumberedByPosition (raw.getD []) := by
  simp only [IdentityKept, map_id_applyEdits, map_id_of_load h, nodup_segmentIds, true_and,
    forall_const, and_self]
  exact segmentIds_eq_iff

/-- What is said in a meeting, with the number that the server gives it. -/
def spoken (sequenceIndex : ℤ) (text : String) : FaicordTranscriptSegment :=
  ⟨"A", text, "00:00:00.00", "00:00:01.00", sequenceIndex⟩

theorem segment_identity_iff_fromZero :
    ∃ s s', Transcript.step s
        (.settle 0 (.ofServer (some [spoken 0 "hello", spoken 1 "good morning"]))) = some s' ∧
      ((IdentityKept [spoken 0 "hello", spoken 1 "good morning"] s'.segments ∧
          ∀ edits, IdentityKept [spoken 0 "hello", spoken 1 "good morning"]
            (applyEdits edits s'.segments)) ↔
        NumberedByPosition [spoken 0 "hello", spoken 1 "good morning"]) := by
  have h : Transcript.step (Transcript.init.loadTranscript "a")
      (.settle 0 (.ofServer (some [spoken 0 "hello", spoken 1 "good morning"]))) = some _ := rfl
  exact ⟨_, _, h, segment_identity_iff h⟩

/-- The server numbers its segments from one on: the first one gets the id of none, the second one
that of the first. -/
theorem identity_shifted :
    ¬ ∀ s s' p raw, transcriptStore.Reachable s →
      Transcript.step s (.settle p (.ofServer (some raw))) = some s' →
      (raw.map FaicordTranscriptSegment.sequenceIndex).Nodup → IdentityKept raw s'.segments := by
  intro h
  have hload : LTS.exec Transcript.step Transcript.init [.loadTranscript "a"] = some _ := rfl
  have hids := (h _ _ 0 [spoken 1 "hello", spoken 2 "good morning"]
    (LTS.reachable_of_exec (.start rfl) hload) rfl (by decide)).2
  revert hids
  decide +kernel

end FCord
