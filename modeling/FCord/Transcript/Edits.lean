import FCord.Transcript.Store

/-!
# Edits of a transcript

`saveEdits` takes the segments and the pending edits when it starts, and writes the ones and drops
the others when the server has answered; meanwhile the inputs can be used.  `EditsKept` says that
the edit tab shows the last edits and that no edit is dropped before it is saved.  It holds in every
run whose successful saves all find what they carry (`edits_kept`); an edit that is made while a
save is in flight is lost (`edit_lost_by_save`).
-/

namespace FCord

namespace Transcript

/-! ### Texts -/

/-- Write a text into the segments with an id. -/
def setText (segmentId text : String) (segments : List Segment) : List Segment :=
  segments.map fun seg => if seg.id = segmentId then { seg with text := text } else seg

/-- One more edit writes its text. -/
theorem applyEdits_insert (edits : Table String String) (segmentId text : String)
    (segments : List Segment) :
    applyEdits (edits.insert segmentId text) segments =
      setText segmentId text (applyEdits edits segments) := by
  rw [setText, applyEdits, applyEdits, List.map_map]
  refine List.map_congr_left fun seg _ => ?_
  simp only [Function.comp_apply, Table.get?_insert]
  by_cases hid : seg.id = segmentId
  · rw [if_pos hid]
    cases edits.get? seg.id <;> simp [hid]
  · rw [if_neg hid]
    cases edits.get? seg.id <;> simp [hid]

/-- A text is part of a payload. -/
def InPayload (payload : List Segment) (segmentId text : String) : Prop :=
  ∃ seg ∈ payload, seg.id = segmentId ∧ seg.text = text

instance (payload : List Segment) (segmentId text : String) :
    Decidable (InPayload payload segmentId text) := by
  unfold InPayload
  infer_instance

/-- What is pending for a segment that exists is part of the payload. -/
theorem inPayload_applyEdits {edits : Table String String} {segments : List Segment}
    {segmentId text : String} (h : edits.get? segmentId = some text)
    (hid : segmentId ∈ segments.map (·.id)) :
    InPayload (applyEdits edits segments) segmentId text := by
  obtain ⟨seg, hm, rfl⟩ := List.mem_map.1 hid
  refine ⟨_, List.mem_map_of_mem hm, ?_⟩
  simp [h]

/-! ### The edits of a recording -/

/-- The edits so far. -/
structure Edited where
  /-- The text of the last edit of each segment. -/
  last : Table String String
  /-- The payloads of the saves that succeeded. -/
  stored : List (List Segment)

/-- A recording has been loaded. -/
def loaded (recordingId : String) (raw : List TranscriptSegment) : State :=
  { init with
    recordingId := some recordingId
    segments := numbered recordingId raw
    nextId := 1 }

/-- The user edits and saves, and the server answers. -/
def Label.edits : Label → Bool
  | .editSegment _ _ => true
  | .saveEdits => true
  | .toggleEditMode => true
  | .settle _ _ => true
  | _ => false

def Edited.update (g : Edited) (s : State) : Label → Edited
  | .editSegment segmentId text => { g with last := g.last.insert segmentId text }
  | .settle p .saved =>
    match s.calls.get? p with
    | some (.saving _ updated) => { g with stored := updated :: g.stored }
    | _ => g
  | _ => g

/-- A step of the user or of the server, as long as the recording stays loaded. -/
def edit (s : State) (l : Label) : Option State := if l.edits then step s l else none

end Transcript

open Transcript in
/-- The transcript store from a load to the next, with the edits so far. -/
def transcriptEdits (recordingId : String) (raw : List TranscriptSegment) :
    LTS (State × Edited) Label :=
  LTS.ofFn (· = (loaded recordingId raw, ⟨.empty, []⟩)) (LTS.recorded edit Edited.update)

namespace Transcript

/-- The states of these runs are states of the store. -/
theorem reachable_of_edits {recordingId : String} {raw : List TranscriptSegment}
    {x : State × Edited} (h : (transcriptEdits recordingId raw).Reachable x) :
    transcriptStore.Reachable x.1 := by
  refine h.of_recorded ?_ fun s l s' hst => (Option.ite_none_right_eq_some.1 hst).2
  rintro x rfl
  exact LTS.reachable_of_exec (.start rfl)
    (rfl : LTS.exec step init [.loadTranscript recordingId, .settle 0 (.transcript raw)] = _)

/-- The segments as the edit tab shows them. -/
def State.shown (s : State) : List Segment := applyEdits s.pendingEdits s.segments

/-- The edit tab shows the last edit of every segment, and an edit that was not saved is pending. -/
structure EditsKept (original : List Segment) (x : State × Edited) : Prop where
  shown : x.1.shown = applyEdits x.2.last original
  pending : ∀ id text, x.2.last.get? id = some text →
    (∀ payload ∈ x.2.stored, ¬ InPayload payload id text) → x.1.pendingEdits.get? id = some text

/-- A save that succeeds carries what the edit tab shows, and nothing is pending for a segment
that does not exist. -/
def Carries (s : State) : Label → Prop
  | .settle p .saved => ∀ recordingId updated, s.calls.get? p = some (.saving recordingId updated) →
      updated = s.shown ∧ ∀ id ∈ s.pendingEdits.keys, id ∈ s.segments.map (·.id)
  | _ => True

/-- No save is in flight. -/
def Quiet (s : State) : Prop := s.calls.keys = []

variable {original : List Segment} {s s' : State} {x x' : State × Edited} {l : Label}

/-- What an edit or a save can do. -/
inductive EditMove (s : State) : Label → State → Prop
  | editSegment (segmentId text : String) : EditMove s (.editSegment segmentId text)
      (s.editSegment segmentId text)
  /-- Nothing is saved. -/
  | skip : EditMove s .saveEdits s
  /-- A save starts. -/
  | send (recordingId : String) : EditMove s .saveEdits
      { s with
        isLoading := true
        calls := s.calls.push s.nextId (.saving recordingId s.shown)
        nextId := s.nextId + 1
        sent := (recordingId, s.shown) :: s.sent }
  | toggle : EditMove s .toggleEditMode { s with editMode := !s.editMode }
  | saved {p : CallId} {recordingId : String} {updated : List Segment}
      (hp : s.calls.get? p = some (.saving recordingId updated)) :
      EditMove s (.settle p .saved)
        { s with
          calls := s.calls.erase p
          segments := updated
          pendingEdits := .empty
          editMode := false
          isLoading := false }
  | failed {p : CallId} {recordingId : String} {updated : List Segment}
      (hp : s.calls.get? p = some (.saving recordingId updated)) :
      EditMove s (.settle p .failed)
        { s with
          calls := s.calls.erase p
          error := some "저장에 실패했습니다"
          isLoading := false }

/-- The calls in flight are saves of the segments with these ids. -/
def OnlySaves (ids : List String) (s : State) : Prop :=
  ∀ p, ∀ call ∈ s.calls.get? p, ∃ recordingId updated,
    call = .saving recordingId updated ∧ updated.map (·.id) = ids

theorem EditMove.of_edit {ids : List String} (hsaves : OnlySaves ids s)
    (h : edit s l = some s') : EditMove s l s' := by
  obtain ⟨hl, h⟩ := Option.ite_none_right_eq_some.1 h
  cases Move.of_step h with
  | loadTranscript hguard => cases hl
  | toggleEditMode => exact .toggle
  | editSegment segmentId text => exact .editSegment segmentId text
  | skip hskip => exact .skip
  | @send recordingId hid hsend => exact .send recordingId
  | reset => cases hl
  | fetched raw hp =>
    obtain ⟨recordingId, updated, he, -⟩ := hsaves _ _ hp
    cases he
  | saved hp => exact .saved hp
  | notFetched hp =>
    obtain ⟨recordingId, updated, he, -⟩ := hsaves _ _ hp
    cases he
  | notSaved hp => exact .failed hp

/-- The invariant of the runs whose successful saves find what they carry. -/
structure Editing (original : List Segment) (x : State × Edited) : Prop where
  kept : EditsKept original x
  saves : OnlySaves (original.map (·.id)) x.1
  last : ∀ id text, x.1.pendingEdits.get? id = some text → x.2.last.get? id = some text
  stored : ∀ payload ∈ x.2.stored, payload.map (·.id) = original.map (·.id)

namespace Editing

theorem loaded (recordingId : String) (raw : List TranscriptSegment) :
    Editing (numbered recordingId raw) (loaded recordingId raw, ⟨.empty, []⟩) where
  kept := ⟨rfl, fun _ _ h => by cases h⟩
  saves _ _ h := by cases h
  last _ _ h := by cases h
  stored _ h := absurd h List.not_mem_nil

theorem segments_ids (h : Editing original x) :
    x.1.segments.map (·.id) = original.map (·.id) := by
  have hids := congrArg (List.map (·.id)) h.kept.shown
  simpa only [State.shown, map_id_applyEdits] using hids

/-- A save that carries what is shown. -/
theorem saved {p : CallId} {updated : List Segment} {g : Edited} (h : Editing original (s, g))
    (hshown : updated = s.shown) (hids : ∀ id ∈ s.pendingEdits.keys, id ∈ s.segments.map (·.id)) :
    EditsKept original ({ s with
      calls := s.calls.erase p
      segments := updated
      pendingEdits := .empty
      editMode := false
      isLoading := false }, { g with stored := updated :: g.stored }) where
  shown := by
    rw [State.shown, applyEdits_empty, hshown]
    exact h.kept.shown
  pending id text hlast hnew := by
    -- an edit that was pending is part of the payload
    have hpending := h.kept.pending id text hlast fun payload hm =>
      hnew payload (List.mem_cons_of_mem _ hm)
    have hid := hids id (Table.mem_keys_of_get? hpending)
    refine absurd ?_ (hnew updated List.mem_cons_self)
    rw [hshown]
    exact inPayload_applyEdits hpending hid

/-- **What one step does to the edits.** -/
theorem step (h : Editing original x)
    (hst : LTS.recorded edit Edited.update x l = some x') (hok : Carries x.1 l) :
    Editing original x' := by
  obtain ⟨s, g⟩ := x
  obtain ⟨s', hs', rfl⟩ := Option.map_eq_some_iff.1 hst
  cases EditMove.of_edit h.saves hs' with
  | editSegment segmentId text =>
    refine { h with kept := ⟨?_, fun id t hlast hnew => ?_⟩, last := fun id t hpending => ?_ }
    · have hshown := congrArg (setText segmentId text) h.kept.shown
      rwa [State.shown, ← applyEdits_insert, ← applyEdits_insert] at hshown
    · simp only [Edited.update, State.editSegment, Table.get?_insert] at hlast ⊢
      split_ifs with hid
      · rwa [if_pos hid] at hlast
      · rw [if_neg hid] at hlast
        exact h.kept.pending id t hlast hnew
    · simp only [Edited.update, State.editSegment, Table.get?_insert] at hpending ⊢
      split_ifs with hid
      · rwa [if_pos hid] at hpending
      · rw [if_neg hid] at hpending
        exact h.last id t hpending
  | skip => exact h
  | send recordingId =>
    refine { h with kept := ⟨h.kept.shown, h.kept.pending⟩, saves := fun p call hp => ?_ }
    have hids : s.shown.map (·.id) = original.map (·.id) := by
      rw [State.shown, map_id_applyEdits]
      exact h.segments_ids
    by_cases hk : s.nextId ∈ s.calls.keys
    · have hsame : s.calls.push s.nextId (.saving recordingId s.shown) = s.calls := dif_pos hk
      exact h.saves p call (hsame ▸ hp)
    · rcases Table.of_get?_push hk hp with ⟨-, rfl⟩ | ⟨-, hp⟩
      · exact ⟨recordingId, s.shown, rfl, hids⟩
      · exact h.saves p call hp
  | toggle => exact { h with kept := ⟨h.kept.shown, h.kept.pending⟩ }
  | @saved p recordingId updated hp =>
    obtain ⟨hshown, hids⟩ := hok recordingId updated hp
    have hg : g.update s (.settle p .saved) = { g with stored := updated :: g.stored } := by
      simp [Edited.update, hp]
    obtain ⟨_, _, he, hpayload⟩ := h.saves p _ hp
    cases he
    rw [hg]
    refine ⟨h.saved hshown hids, fun q call hq => ?_, fun id t hpending => ?_,
      fun payload hm => ?_⟩
    · exact h.saves q call (Table.of_get?_erase hq).2
    · cases hpending
    · rcases List.mem_cons.1 hm with rfl | hm
      · exact hpayload
      · exact h.stored payload hm
  | failed hp =>
    exact { h with
      kept := ⟨h.kept.shown, h.kept.pending⟩
      saves := fun q call hq => h.saves q call (Table.of_get?_erase hq).2 }

/-- A save that succeeds with something else than what is shown loses an edit. -/
theorem carries (h : Editing original x)
    (hst : LTS.recorded edit Edited.update x l = some x') (hkept : EditsKept original x') :
    Carries x.1 l := by
  obtain ⟨s, g⟩ := x
  obtain ⟨s', hs', rfl⟩ := Option.map_eq_some_iff.1 hst
  rcases l with _ | _ | _ | _ | _ | ⟨p, _ | _ | _⟩ <;> try trivial
  intro recordingId updated hp
  have hg : g.update s (.settle p .saved) = { g with stored := updated :: g.stored } := by
    simp [Edited.update, hp]
  rw [hg] at hkept
  obtain ⟨_, _, he, hpayload⟩ := h.saves p _ hp
  cases he
  cases EditMove.of_edit h.saves hs' with
  | saved hp' =>
    cases hp'.symm.trans hp
    refine ⟨?_, fun id hid => ?_⟩
    · have hshown := hkept.shown
      rw [State.shown, applyEdits_empty] at hshown
      exact hshown.trans h.kept.shown.symm
    · by_contra hno
      obtain ⟨text, ht⟩ := Option.ne_none_iff_exists'.1 fun hn => Table.get?_eq_none_iff.1 hn hid
      rw [h.segments_ids] at hno
      -- no payload has the segment
      have hnew : ∀ payload ∈ updated :: g.stored, ¬ InPayload payload id text := by
        rintro payload hm ⟨seg, hseg, rfl, -⟩
        refine hno ?_
        rcases List.mem_cons.1 hm with rfl | hm
        · exact hpayload ▸ List.mem_map_of_mem hseg
        · exact h.stored payload hm ▸ List.mem_map_of_mem hseg
      cases hkept.pending id text (h.last id text ht) hnew

end Editing

/-! ### Runs -/

/-- The only save in flight settles. -/
theorem quiet_of_settle {p : CallId} {reply : Reply} (hone : s.calls.keys.length ≤ 1)
    (hst : step s (.settle p reply) = some s') : Quiet s' := by
  obtain ⟨hmem, hcalls⟩ := (Move.of_step hst).settle_calls
  obtain ⟨q, hq⟩ := List.length_eq_one_iff.1
    (Nat.le_antisymm hone (List.length_pos_of_mem hmem))
  rw [hq, List.mem_singleton] at hmem
  rw [Quiet, hcalls, Table.keys_erase, hq, hmem]
  simp

variable {recordingId : String} {raw : List TranscriptSegment}
  {tr : List ((State × Edited) × Label)}

/-- **When saves lose no edit.**  The edits are kept all along a run, also while saves are in
flight, exactly if every save that succeeds carries what the edit tab shows at that time.  In a run
without overlapping saves they are kept whenever no save is in flight exactly if the saves do. -/
theorem edits_kept (h : (transcriptEdits recordingId raw).Run tr x) :
    (((∀ y ∈ tr, EditsKept (numbered recordingId raw) y.1) ∧
        EditsKept (numbered recordingId raw) x) ↔ ∀ y ∈ tr, Carries y.1.1 y.2) ∧
    ((∀ y ∈ tr, y.1.1.calls.keys.length ≤ 1) →
      (((∀ y ∈ tr, Quiet y.1.1 → EditsKept (numbered recordingId raw) y.1) ∧
        (Quiet x.1 → EditsKept (numbered recordingId raw) x)) ↔ ∀ y ∈ tr, Carries y.1.1 y.2)) := by
  have hstart : ∀ y, (transcriptEdits recordingId raw).start y →
      Editing (numbered recordingId raw) y := by
    rintro y rfl
    exact .loaded recordingId raw
  constructor
  · exact h.visited_iff hstart (fun y hy => hy.kept) (fun y l y' hy hst hok => hy.step hst hok)
      fun y l y' hy hst hkept => hy.carries hst hkept
  · intro hone
    refine (h.guarded (fun y _ => y.1.calls.keys.length ≤ 1) hone).visited_iff
      (I := Editing (numbered recordingId raw))
      (P := fun y => Quiet y.1 → EditsKept (numbered recordingId raw) y)
      hstart (fun y hy _ => hy.kept) (fun y l y' hy hst hok => hy.step hst.2 hok) ?_
    intro y l y' hy hst hkept
    rcases l with _ | _ | _ | _ | _ | ⟨p, _ | _ | _⟩ <;> try trivial
    -- no save is in flight after this one
    obtain ⟨s', hs', rfl⟩ := Option.map_eq_some_iff.1 hst.2
    exact hy.carries hst.2 (hkept (quiet_of_settle hst.1 hs'))

/-- What is said in the meeting. -/
def hello : List TranscriptSegment := [⟨some 0, some 1000, "A", "hello", 0⟩]

/-- An edit, a save that fails and one that succeeds. -/
def retrySave : List Label :=
  [.editSegment "seg-0" "good morning", .saveEdits, .settle 1 .failed, .saveEdits, .settle 2 .saved]

theorem edits_kept_retrySave :
    ∃ tr x, (transcriptEdits "a" hello).Run tr x ∧ tr.map Prod.snd = retrySave ∧
      x.1.segments.map (·.text) = ["good morning"] ∧
      (((∀ y ∈ tr, Quiet y.1.1 → EditsKept (numbered "a" hello) y.1) ∧
        (Quiet x.1 → EditsKept (numbered "a" hello) x)) ↔ ∀ y ∈ tr, Carries y.1.1 y.2) := by
  have hrun : (LTS.exec (fun x l => if decide (x.1.calls.keys.length ≤ 1) then
      LTS.recorded edit Edited.update x l else none) (loaded "a" hello, ⟨.empty, []⟩)
      retrySave).map (fun x => x.1.segments.map (·.text)) = some ["good morning"] := by
    decide +kernel
  obtain ⟨x, hx, htext⟩ := Option.map_eq_some_iff.1 hrun
  obtain ⟨tr, htr, hls⟩ := LTS.run_of_exec
    (LTS.Run.start (A := LTS.ofFn (· = (loaded "a" hello, (⟨.empty, []⟩ : Edited))) _) rfl) hx
  obtain ⟨htr, hone⟩ := LTS.Run.of_checked htr
  exact ⟨tr, x, htr, hls, htext, (edits_kept htr).2 fun y hy => of_decide_eq_true (hone y hy)⟩

/-- A segment is edited, and again while the first edit is being saved. -/
def editDuringSave : List Label :=
  [.editSegment "seg-0" "good morning", .saveEdits, .editSegment "seg-0" "good evening",
    .settle 1 .saved]

/-- The second edit is neither shown nor pending. -/
theorem edit_lost_by_save :
    ¬ ∀ recordingId raw tr x, (transcriptEdits recordingId raw).Run tr x → Quiet x.1 →
      EditsKept (numbered recordingId raw) x := by
  intro h
  have hrun : (LTS.exec (LTS.recorded edit Edited.update) (loaded "a" hello, ⟨.empty, []⟩)
      editDuringSave).map (fun x => (x.1.calls.keys, x.1.shown.map (·.text),
        (applyEdits x.2.last (numbered "a" hello)).map (·.text))) =
      some ([], ["good morning"], ["good evening"]) := by
    decide +kernel
  obtain ⟨x, hx, he⟩ := Option.map_eq_some_iff.1 hrun
  obtain ⟨tr, htr, -⟩ := LTS.run_of_exec (LTS.Run.start (A := transcriptEdits "a" hello) rfl) hx
  simp only [Prod.mk.injEq] at he
  obtain ⟨hquiet, hshown, hlast⟩ := he
  rw [(h "a" hello tr x htr hquiet).shown, hlast] at hshown
  exact absurd hshown (by decide)

end Transcript

end FCord
