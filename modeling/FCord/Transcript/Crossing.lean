import FCord.Transcript.Store

/-!
# Transcript text and recordings

`TextStays` says that the store shows and saves a recording's own segments only.  It holds all along
a run exactly if every reply that brings segments finds the recording it belongs to still loaded
(`text_stays_iff`).  The store does not check that, so a late reply shows the text of another
recording, and the next save writes it there (`text_crosses`).
-/

namespace FCord

namespace Transcript

/-- Every segment in the store was fetched for the current recording. -/
def SegmentsCurrent (s : State) : Prop :=
  ∀ seg ∈ s.segments, s.recordingId = some seg.fetchedFor

/-- What was saved to a recording was fetched for it. -/
def SavesOwn (s : State) : Prop := ∀ x ∈ s.sent, ∀ seg ∈ x.2, seg.fetchedFor = x.1

/-- No transcript text is at another recording. -/
def TextStays (s : State) : Prop := SegmentsCurrent s ∧ SavesOwn s

instance (s : State) : Decidable (SegmentsCurrent s) := by
  unfold SegmentsCurrent
  infer_instance

instance (s : State) : Decidable (SavesOwn s) := by
  unfold SavesOwn
  infer_instance

/-- The recording a call is about. -/
def Call.recordingId : Call → String
  | .loading recordingId => recordingId
  | .saving recordingId _ => recordingId

/-- The segments that a call writes into the store when it settles. -/
def Call.brings : Call → Reply → List Segment
  | .loading recordingId, .transcript raw => numbered recordingId raw
  | .saving _ updated, .saved => updated
  | _, _ => []

/-- A call that settles with segments finds its recording loaded. -/
def AtHome (s : State) : Label → Prop
  | .settle p reply => ∀ call ∈ s.calls.get? p, call.brings reply ≠ [] →
      s.recordingId = some call.recordingId
  | _ => True

instance (s : State) (l : Label) : Decidable (AtHome s l) := by
  unfold AtHome
  split <;> infer_instance

/-- A call brings segments of its own recording only. -/
def Call.Own (call : Call) : Prop :=
  ∀ reply, ∀ seg ∈ call.brings reply, seg.fetchedFor = call.recordingId

/-- The invariant of the runs all of whose replies are at home. -/
structure Kept (s : State) : Prop where
  text : TextStays s
  calls : ∀ p, ∀ call ∈ s.calls.get? p, call.Own
  /-- The ids are given out in order. -/
  fresh : ∀ p ∈ s.calls.keys, p < s.nextId

variable {s s' : State} {l : Label}

theorem Call.own_loading {recordingId : String} : (loading recordingId).Own := by
  rintro (raw | _ | _) seg hseg
  · exact fetchedFor_numbered hseg
  · exact absurd hseg List.not_mem_nil
  · exact absurd hseg List.not_mem_nil

theorem Call.own_saving {recordingId : String} {updated : List Segment}
    (h : ∀ seg ∈ updated, seg.fetchedFor = recordingId) : (saving recordingId updated).Own := by
  rintro (raw | _ | _) seg hseg
  · exact absurd hseg List.not_mem_nil
  · exact h seg hseg
  · exact absurd hseg List.not_mem_nil

/-- What the end of a call does: the store shows what the call brings, or what it showed. -/
theorem Move.settle_cases {p : CallId} {reply : Reply} (h : Move s (.settle p reply) s') :
    ∃ call, s.calls.get? p = some call ∧ s'.calls = s.calls.erase p ∧ s'.nextId = s.nextId ∧
      s'.sent = s.sent ∧ s'.recordingId = s.recordingId ∧ (s'.segments = call.brings reply ∨
        call.brings reply = [] ∧ s'.segments = s.segments) := by
  cases h with
  | fetched raw hp => exact ⟨_, hp, rfl, rfl, rfl, rfl, .inl rfl⟩
  | saved hp => exact ⟨_, hp, rfl, rfl, rfl, rfl, .inl rfl⟩
  | notFetched hp => exact ⟨_, hp, rfl, rfl, rfl, rfl, .inr ⟨rfl, rfl⟩⟩
  | notSaved hp => exact ⟨_, hp, rfl, rfl, rfl, rfl, .inr ⟨rfl, rfl⟩⟩

/-! ### The steps -/

namespace Kept

theorem init : Kept init where
  text := ⟨fun _ hseg => absurd hseg List.not_mem_nil, fun _ hx => absurd hx List.not_mem_nil⟩
  calls _ _ hp := nomatch hp
  fresh _ hp := absurd hp List.not_mem_nil

/-- A call for the server is sent off. -/
theorem send {call : Call} (h : Kept s) (hown : call.Own) (htext : TextStays s')
    (hcalls : s'.calls = s.calls.push s.nextId call) (hnext : s'.nextId = s.nextId + 1) :
    Kept s' where
  text := htext
  calls p c hp := by
    rw [hcalls] at hp
    rcases Table.of_get?_push (Table.not_mem_of_lt h.fresh) hp with ⟨-, rfl⟩ | ⟨-, hp⟩
    · exact hown
    · exact h.calls p c hp
  fresh p hp := by
    rw [hcalls] at hp
    rw [hnext]
    exact Table.lt_of_mem_push h.fresh hp

theorem loadTranscript {recordingId : String} (h : Kept s)
    (hguard : s.recordingId = none ∨ s.recordingId = some recordingId) :
    Kept (s.loadTranscript recordingId) := by
  refine h.send Call.own_loading ⟨fun seg hseg => ?_, h.text.2⟩ rfl rfl
  have hcur := h.text.1 seg hseg
  -- after a reset there are no segments, and otherwise they are of the same recording
  rcases hguard with hnone | hsame
  · rw [hnone] at hcur
    cases hcur
  · exact hsame.symm.trans hcur

/-- A save is sent with the segments of the recording that is loaded. -/
theorem save {recordingId : String} (h : Kept s) (hid : s.recordingId = some recordingId) :
    Kept (s.send recordingId) := by
  have hown : ∀ seg ∈ applyEdits s.pendingEdits s.segments, seg.fetchedFor = recordingId := by
    intro seg hseg
    obtain ⟨old, hold, he⟩ := fetchedFor_applyEdits hseg
    have hcur := h.text.1 old hold
    rw [hid, Option.some.injEq] at hcur
    rw [he, hcur]
  refine h.send (Call.own_saving hown) ⟨h.text.1, fun x hx => ?_⟩ rfl rfl
  rcases List.mem_cons.1 hx with rfl | hx
  · exact hown
  · exact h.text.2 x hx

theorem reset (h : Kept s) : Kept s.reset where
  text := ⟨fun _ hseg => absurd hseg List.not_mem_nil, h.text.2⟩
  calls := h.calls
  fresh := h.fresh

theorem settle {p : CallId} {reply : Reply} (h : Kept s) (hm : Move s (.settle p reply) s')
    (hok : AtHome s (.settle p reply)) : Kept s' := by
  obtain ⟨call, hp, hcalls, hnext, hsent, hid, hseg⟩ := hm.settle_cases
  refine ⟨⟨fun seg hm => ?_, fun x hx => h.text.2 x (hsent ▸ hx)⟩, fun q c hq => ?_, fun q hq => ?_⟩
  · rcases hseg with hbrings | ⟨-, hsame⟩
    · rw [hbrings] at hm
      rw [hid, h.calls p call hp reply seg hm]
      exact hok call hp (List.ne_nil_of_mem hm)
    · rw [hid]
      exact h.text.1 seg (hsame ▸ hm)
  · rw [hcalls] at hq
    exact h.calls q c (Table.of_get?_erase hq).2
  · rw [hcalls] at hq
    rw [hnext]
    exact h.fresh q (Table.mem_keys_of_erase hq)

theorem step (h : Kept s) (hst : step s l = some s') (hok : AtHome s l) : Kept s' := by
  cases Move.of_step hst with
  | loadTranscript hguard => exact h.loadTranscript hguard
  | toggleEditMode => exact { h with }
  | editSegment segmentId text => exact { h with }
  | skip hskip => exact h
  | send hid hsend => exact h.save hid
  | reset => exact h.reset
  | fetched raw hp => exact h.settle (.fetched raw hp) hok
  | saved hp => exact h.settle (.saved hp) hok
  | notFetched hp => exact h.settle (.notFetched hp) hok
  | notSaved hp => exact h.settle (.notSaved hp) hok

/-- A call that does not settle at home leaves segments of another recording. -/
theorem atHome (h : Kept s) (hst : Transcript.step s l = some s') (hcur : SegmentsCurrent s') :
    AtHome s l := by
  rcases l with _ | _ | _ | _ | _ | ⟨p, reply⟩ <;> try trivial
  intro call hp hne
  obtain ⟨call', hp', -, -, -, hid, hseg⟩ := (Move.of_step hst).settle_cases
  cases hp'.symm.trans hp
  obtain ⟨seg, hm⟩ := List.exists_mem_of_ne_nil _ hne
  rcases hseg with hbrings | ⟨hnil, -⟩
  · rw [← hid, ← h.calls p call hp reply seg hm]
    exact hcur seg (hbrings ▸ hm)
  · exact absurd hnil hne

end Kept

/-! ### The runs -/

/-- **The text of a recording stays with it all along a run exactly if every call that settles with
segments finds its recording loaded.** -/
theorem text_stays_iff {tr : List (State × Label)} (h : transcriptStore.Run tr s) :
    ((∀ x ∈ tr, TextStays x.1) ∧ TextStays s) ↔ ∀ x ∈ tr, AtHome x.1 x.2 := by
  refine h.visited_iff (I := Kept) ?_ (fun s hs => hs.text)
    (fun s l s' hs hst hok => hs.step hst hok) fun s l s' hs hst htext => hs.atHome hst htext.1
  rintro s rfl
  exact .init

/-- What is said in a meeting. -/
def transcript (text : String) : List TranscriptSegment := [⟨some 0, some 1000, "A", text, 0⟩]

/-- A recording is loaded, edited and saved. -/
def editAndSave : List Label :=
  [.loadTranscript "a", .settle 0 (.transcript (transcript "hello")), .toggleEditMode,
    .editSegment "seg-0" "good morning", .saveEdits, .settle 1 .saved]

theorem text_stays_iff_editAndSave :
    ∃ tr s, transcriptStore.Run tr s ∧ tr.map Prod.snd = editAndSave ∧
      s.segments.map (fun seg => seg.text) = ["good morning"] ∧
        (∀ x ∈ tr, TextStays x.1) ∧ TextStays s := by
  have hrun : (LTS.exec (fun s l => if decide (AtHome s l) then step s l else none) init
      editAndSave).map (fun s => s.segments.map fun seg => seg.text) = some ["good morning"] := by
    decide +kernel
  obtain ⟨s, hs, htext⟩ := Option.map_eq_some_iff.1 hrun
  obtain ⟨tr, hrun, hls⟩ := LTS.run_of_exec (LTS.Run.start (A := LTS.ofFn (· = init) _) rfl) hs
  obtain ⟨hrun, hok⟩ := LTS.Run.of_checked hrun
  exact ⟨tr, s, hrun, hls, htext,
    (text_stays_iff hrun).2 fun x hx => of_decide_eq_true (hok x hx)⟩

/-- A recording is opened and left, another one is opened, its transcript arrives, and then that of
the first; the user corrects a word and saves. -/
def lateReply : List Label :=
  [.loadTranscript "a", .reset, .loadTranscript "b", .settle 1 (.transcript (transcript "salary")),
    .settle 0 (.transcript (transcript "hello")), .editSegment "seg-0" "hi", .saveEdits]

/-- The second recording is loaded, the store shows the text of the first, and the save sent it. -/
theorem text_crosses : ∃ s, transcriptStore.Reachable s ∧ s.recordingId = some "b" ∧
    ¬ SegmentsCurrent s ∧ ¬ SavesOwn s := by
  have hrun : (LTS.exec step init lateReply).map (fun s =>
      (s.recordingId, decide (SegmentsCurrent s), decide (SavesOwn s))) =
      some (some "b", false, false) := by decide +kernel
  obtain ⟨s, hs, he⟩ := Option.map_eq_some_iff.1 hrun
  simp only [Prod.mk.injEq, decide_eq_false_iff_not] at he
  exact ⟨s, LTS.reachable_of_exec (.start rfl) hs, he⟩

end Transcript

end FCord
