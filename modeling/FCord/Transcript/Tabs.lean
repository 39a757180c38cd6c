import FCord.Transcript.Edits
import FCord.Transcript.Timestamp

/-!
# The tabs of the transcript screen

The screen shows the segments of the store on two tabs: as they are on the original tab, with the
pending edits on the edit tab.  A save builds the list that it sends with an overlay of its own; it
is what the edit tab shows, whatever was edited (`saved_as_shown`).
-/

namespace FCord

inductive TranscriptTab where
  | original | edited
  deriving DecidableEq, Repr

/-- A segment on the screen. -/
structure Row where
  speakerLabel : String
  timestamp : Option String
  text : String
  deriving DecidableEq, Repr

namespace Transcript

/-- How a tab shows a segment. -/
def row (tab : TranscriptTab) (pendingEdits : Table String String) (seg : Segment) : Row where
  speakerLabel := seg.speakerLabel
  timestamp := seg.startMs.map formatMs
  text :=
    match tab with
    | .original => seg.text
    | .edited => (pendingEdits.get? seg.id).getD seg.text

/-- What a tab shows. -/
def State.rows (s : State) (tab : TranscriptTab) : List Row :=
  s.segments.map (row tab s.pendingEdits)

variable {s s' : State} {l : Label}

theorem map_text_original (s : State) :
    (s.rows .original).map Row.text = s.segments.map (·.text) := by
  rw [State.rows, List.map_map]
  rfl

/-- The overlay of the edit tab is that of a save. -/
theorem rows_edited (s : State) : s.rows .edited = s.shown.map (row .original .empty) := by
  rw [State.rows, State.shown, applyEdits, List.map_map]
  refine List.map_congr_left fun seg _ => ?_
  simp only [row, Function.comp_apply]
  cases s.pendingEdits.get? seg.id with
  | none => rfl
  | some text => rfl

/-! ### What is saved -/

/-- The text of the last edit of a segment. -/
def lastEdit (edits : List (String × String)) (segmentId : String) : Option String :=
  edits.reverse.lookup segmentId

/-- The events of some edits. -/
def typed (edits : List (String × String)) : List Label :=
  edits.map fun e => .editSegment e.1 e.2

/-- The pending edits after some more. -/
def insertAll (pendingEdits : Table String String) (edits : List (String × String)) :
    Table String String :=
  edits.foldl (fun pending e => pending.insert e.1 e.2) pendingEdits

theorem get?_insertAll (pendingEdits : Table String String) (edits : List (String × String))
    (segmentId : String) :
    (insertAll pendingEdits edits).get? segmentId =
      (lastEdit edits segmentId).or (pendingEdits.get? segmentId) := by
  induction edits generalizing pendingEdits with
  | nil => rfl
  | cons e edits ih =>
    have hlast : lastEdit (e :: edits) segmentId =
        (lastEdit edits segmentId).or (List.lookup segmentId [e]) := by
      rw [lastEdit, List.reverse_cons, List.lookup_append, lastEdit]
    have hinsert : insertAll pendingEdits (e :: edits) =
        insertAll (pendingEdits.insert e.1 e.2) edits := rfl
    rw [hinsert, ih, hlast, Table.get?_insert, Option.or_assoc]
    congr 1
    obtain ⟨id, text⟩ := e
    by_cases hid : segmentId = id
    · simp [hid]
    · have hne : (segmentId == id) = false := by simpa using hid
      simp [hid, hne, List.lookup_cons]

theorem exec_typed (s : State) (edits : List (String × String)) :
    LTS.exec step s (typed edits) =
      some { s with pendingEdits := insertAll s.pendingEdits edits } := by
  induction edits generalizing s with
  | nil => rfl
  | cons e edits ih => exact ih (s.editSegment e.1 e.2)

/-- The segments as they are shown and saved after some edits. -/
def edited (s : State) (edits : List (String × String)) : List Segment :=
  s.segments.map fun seg =>
    { seg with
      text := ((lastEdit edits seg.id).or (s.pendingEdits.get? seg.id)).getD seg.text }

theorem applyEdits_insertAll (s : State) (edits : List (String × String)) :
    applyEdits (insertAll s.pendingEdits edits) s.segments = edited s edits := by
  refine List.map_congr_left fun seg _ => ?_
  rw [get?_insertAll]
  cases (lastEdit edits seg.id).or (s.pendingEdits.get? seg.id) with
  | none => rfl
  | some text => rfl

/-- An edit is pending. -/
theorem keys_insertAll {pendingEdits : Table String String} {edits : List (String × String)}
    (h : edits ≠ []) : (insertAll pendingEdits edits).keys ≠ [] := by
  obtain ⟨⟨id, text⟩, hlast⟩ := Option.ne_none_iff_exists'.1 (mt List.getLast?_eq_none_iff.1 h)
  have hget : (insertAll pendingEdits edits).get? id = some text := by
    obtain ⟨init, rfl⟩ := List.getLast?_eq_some_iff.1 hlast
    simp [get?_insertAll, lastEdit]
  exact List.ne_nil_of_mem (Table.mem_keys_of_get? hget)

/-- **What is shown is what is saved.**  After any edits of a recording that is loaded, a save sends
one list: the segments in their order, each with the text of its last edit (an edit that was pending
before counts as one) or its own, and with its other fields.  It is what the edit tab shows.  If the
server accepts it, it replaces the segments and nothing is pending; if not, the segments, the
pending edits and the edit mode are kept. -/
theorem saved_as_shown {recordingId : String} (h : transcriptStore.Reachable s)
    (hid : s.recordingId = some recordingId) (hne : recordingId ≠ "")
    (edits : List (String × String)) (hedits : edits ≠ []) :
    ∃ s₁ s₂, LTS.exec step s (typed edits) = some s₁ ∧ step s₁ .saveEdits = some s₂ ∧
      s₂.sent = (recordingId, edited s edits) :: s.sent ∧
      s₁.rows .edited = (edited s edits).map (row .original .empty) ∧
      (∃ s₃, step s₂ (.settle s.nextId .saved) = some s₃ ∧ s₃.segments = edited s edits ∧
        s₃.pendingEdits = .empty) ∧
      ∃ s₃, step s₂ (.settle s.nextId .failed) = some s₃ ∧ s₃.segments = s₁.segments ∧
        s₃.pendingEdits = s₁.pendingEdits ∧ s₃.editMode = s₁.editMode := by
  have hfresh : s.nextId ∉ s.calls.keys := Table.not_mem_of_lt (lt_nextId h)
  have hpending : (insertAll s.pendingEdits edits).keys ≠ [] := keys_insertAll hedits
  generalize hs₁ : { s with pendingEdits := insertAll s.pendingEdits edits } = s₁
  have hsend : s₁.saveEdits = s₁.send recordingId := by
    subst hs₁
    exact State.saveEdits_eq_send hid hne hpending
  have hupdated : applyEdits s₁.pendingEdits s₁.segments = edited s edits := by
    subst hs₁
    exact applyEdits_insertAll s edits
  have hcall : (s₁.send recordingId).calls.get? s.nextId =
      some (.saving recordingId (edited s edits)) := by
    rw [← hupdated]
    subst hs₁
    exact (Table.get?_push hfresh).trans (if_pos rfl)
  refine ⟨s₁, s₁.send recordingId, hs₁ ▸ exec_typed s edits, congrArg some hsend, ?_, ?_, ?_, ?_⟩
  · rw [← hupdated]
    subst hs₁
    rfl
  · rw [← hupdated]
    exact rows_edited s₁
  · exact ⟨_, Option.bind_eq_some_iff.2 ⟨_, hcall, rfl⟩, rfl, rfl⟩
  · exact ⟨_, Option.bind_eq_some_iff.2 ⟨_, hcall, rfl⟩, rfl, rfl, rfl⟩

theorem saved_as_shown_erasedText :
    ∃ s s₁ s₂, transcriptStore.Reachable s ∧
      LTS.exec step s (typed [("seg-0", "hi"), ("seg-7", "?"), ("seg-0", "")]) = some s₁ ∧
      step s₁ .saveEdits = some s₂ ∧
      (s₁.rows .edited).map Row.text = [""] ∧ s₂.sent.map (fun x => x.2.map (·.text)) = [[""]] := by
  have hload : LTS.exec step init [.loadTranscript "a", .settle 0 (.transcript hello)] =
      some (loaded "a" hello) := rfl
  have hr : transcriptStore.Reachable (loaded "a" hello) :=
    LTS.reachable_of_exec (.start rfl) hload
  have hid : (loaded "a" hello).recordingId = some "a" := rfl
  obtain ⟨s₁, s₂, hs₁, hs₂, hsent, hrows, -⟩ := saved_as_shown hr hid (by decide)
    [("seg-0", "hi"), ("seg-7", "?"), ("seg-0", "")] (List.cons_ne_nil _ _)
  refine ⟨_, s₁, s₂, hr, hs₁, hs₂, ?_, ?_⟩
  · rw [hrows]
    decide +kernel
  · rw [hsent]
    decide +kernel

end Transcript

end FCord
