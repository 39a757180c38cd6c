import FCord.Transcript.Tabs

/-!
# The original transcript

The original tab shows the segments of the store, and a save that succeeds replaces them by the
edited ones: from then on both tabs show the edited texts (`original_lost_by_save`).  All along a
run the original tab shows the texts that `getTranscript` has returned exactly if no save that
succeeds carries an edit that changes one of them (`original_shown_iff`).
-/

namespace FCord

namespace Transcript

/-- What was loaded last, and what was saved since. -/
structure Fetched where
  /-- What `getTranscript` returned for the recording, until the store is reset. -/
  original : Option (List TranscriptSegment)
  /-- The edits that were pending when each save since then was sent, under the id of its call. -/
  carried : Table CallId (Table String String)

def Fetched.update (g : Fetched) (s : State) : Label → Fetched
  | .settle _ (.transcript raw) => ⟨some raw, .empty⟩
  | .reset => ⟨none, .empty⟩
  | .saveEdits =>
    -- without a call nothing was sent
    if s.saveEdits.nextId = s.nextId then g
    else { g with carried := g.carried.insert s.nextId s.pendingEdits }
  | _ => g

end Transcript

open Transcript in
/-- The transcript store with what was loaded and saved. -/
def fetchedTranscripts : LTS (State × Fetched) Label :=
  LTS.ofFn (· = (init, ⟨none, .empty⟩)) (LTS.recorded step Fetched.update)

namespace Transcript

/-- The original tab shows the texts that `getTranscript` returned. -/
def OriginalShown (x : State × Fetched) : Prop :=
  ∀ raw, x.2.original = some raw → (x.1.rows .original).map Row.text = raw.map (·.text)

/-- The edits change no text. -/
def LeaveTexts (edits : Table String String) (raw : List TranscriptSegment) : Prop :=
  ∀ (i : ℕ) (seg : TranscriptSegment) (text : String), raw[i]? = some seg →
    edits.get? ("seg-" ++ toString i) = some text → text = seg.text

/-- A save that succeeds carries no edit that changes a text; one that was sent before the
transcript was loaded brings the same texts. -/
def CarriesOriginal (x : State × Fetched) : Label → Prop
  | .settle p .saved => ∀ raw recordingId updated, x.2.original = some raw →
      x.1.calls.get? p = some (.saving recordingId updated) →
      (∀ edits, x.2.carried.get? p = some edits → LeaveTexts edits raw) ∧
        (x.2.carried.get? p = none → updated.map (·.text) = raw.map (·.text))
  | _ => True

/-- The texts with some edits. -/
def overlay (edits : Table String String) (raw : List TranscriptSegment) : List String :=
  raw.mapIdx fun i seg => (edits.get? ("seg-" ++ toString i)).getD seg.text

variable {s s' : State} {l : Label} {x x' : State × Fetched} {raw : List TranscriptSegment}
  {edits : Table String String} {segments : List Segment}

theorem overlay_eq_iff : overlay edits raw = raw.map (·.text) ↔ LeaveTexts edits raw := by
  rw [List.ext_getElem?_iff]
  refine forall_congr' fun i => ?_
  rw [overlay, List.getElem?_mapIdx, List.getElem?_map]
  cases raw[i]? with
  | none => simp
  | some seg =>
    cases edits.get? ("seg-" ++ toString i) with
    | none => simp
    | some text => simp

/-- The edits of segments that are numbered by their positions and have the texts of `raw`. -/
theorem map_text_applyEdits (hids : segments.map (·.id) = segmentIds segments.length)
    (htexts : segments.map (·.text) = raw.map (·.text)) :
    (applyEdits edits segments).map (·.text) = overlay edits raw := by
  have hlen : segments.length = raw.length := by
    simpa using congrArg List.length htexts
  refine List.ext_getElem? fun i => ?_
  have hid := congrArg (·[i]?) hids
  have htext := congrArg (·[i]?) htexts
  simp only [segmentIds, List.getElem?_map] at hid htext
  rw [overlay, List.getElem?_mapIdx, applyEdits, List.getElem?_map, List.getElem?_map]
  cases hseg : segments[i]? with
  | none =>
    rw [List.getElem?_eq_none_iff, hlen] at hseg
    rw [List.getElem?_eq_none_iff.2 hseg]
    rfl
  | some seg =>
    obtain ⟨hi, -⟩ := List.getElem?_eq_some_iff.1 hseg
    rw [hseg, List.getElem?_range hi] at hid
    rw [hseg] at htext
    have hid : seg.id = "seg-" ++ toString i := Option.some.inj hid
    obtain ⟨server, hserver, he⟩ := Option.map_eq_some_iff.1 htext.symm
    rw [hserver, Option.map_some, Option.map_some, Option.map_some, ← hid, he]
    cases edits.get? seg.id with
    | none => rfl
    | some text => rfl

theorem originalShown_iff {g : Fetched} : OriginalShown (s, g) ↔
    ∀ raw, g.original = some raw → s.segments.map (·.text) = raw.map (·.text) := by
  simp only [OriginalShown, map_text_original]

/-- The invariant of the runs whose successful saves carry the original texts. -/
structure Preserved (x : State × Fetched) : Prop where
  shown : OriginalShown x
  ids : x.1.segments.map (·.id) = segmentIds x.1.segments.length
  fresh : ∀ p ∈ x.1.calls.keys, p < x.1.nextId
  payload : ∀ p recordingId updated, x.1.calls.get? p = some (.saving recordingId updated) →
    updated.map (·.id) = segmentIds updated.length
  /-- A save brings the original texts with the edits that it carries. -/
  brings : ∀ p recordingId updated edits raw,
    x.1.calls.get? p = some (.saving recordingId updated) → x.2.carried.get? p = some edits →
    x.2.original = some raw → updated.map (·.text) = overlay edits raw

/-! ### Steps -/

namespace Preserved

variable {g : Fetched}

theorem init : Preserved (init, ⟨none, .empty⟩) where
  shown _ h := by cases h
  ids := rfl
  fresh _ h := absurd h List.not_mem_nil
  payload _ _ _ h := by cases h
  brings _ _ _ _ _ h := by cases h

/-- The segments are kept, and no save is sent. -/
theorem kept (h : Preserved (s, g)) (hsegments : s'.segments = s.segments)
    (hfresh : ∀ p ∈ s'.calls.keys, p < s'.nextId)
    (hcalls : ∀ p recordingId updated, s'.calls.get? p = some (.saving recordingId updated) →
      s.calls.get? p = some (.saving recordingId updated)) : Preserved (s', g) where
  shown := originalShown_iff.2 (hsegments ▸ originalShown_iff.1 h.shown)
  ids := hsegments ▸ h.ids
  fresh := hfresh
  payload p recordingId updated hp := h.payload p recordingId updated (hcalls _ _ _ hp)
  brings p recordingId updated edits raw hp :=
    h.brings p recordingId updated edits raw (hcalls _ _ _ hp)

theorem loadTranscript (h : Preserved (s, g)) (recordingId : String) :
    Preserved (s.loadTranscript recordingId, g) := by
  refine h.kept rfl (fun p hp => Table.lt_of_mem_push h.fresh hp) fun p id updated hp => ?_
  rcases Table.of_get?_push (Table.not_mem_of_lt h.fresh) hp with ⟨-, he⟩ | ⟨-, hp⟩
  · cases he
  · exact hp

/-- A save is sent with the edits that are pending. -/
theorem send (h : Preserved (s, g)) (recordingId : String) : Preserved
    (s.send recordingId, { g with carried := g.carried.insert s.nextId s.pendingEdits }) := by
  have hnew : s.nextId ∉ s.calls.keys := Table.not_mem_of_lt h.fresh
  refine ⟨h.shown, h.ids, fun p hp => Table.lt_of_mem_push h.fresh hp, ?_, ?_⟩
  · intro p id updated hp
    rcases Table.of_get?_push hnew hp with ⟨-, he⟩ | ⟨-, hp⟩
    · cases he
      rw [map_id_applyEdits, h.ids, applyEdits, List.length_map]
    · exact h.payload p id updated hp
  · intro p id updated edits raw hp hedits horiginal
    simp only [Table.get?_insert] at hedits
    rcases Table.of_get?_push hnew hp with ⟨rfl, he⟩ | ⟨hne, hp⟩
    · cases he
      rw [if_pos rfl] at hedits
      cases hedits
      exact map_text_applyEdits h.ids (originalShown_iff.1 h.shown raw horiginal)
    · rw [if_neg hne] at hedits
      exact h.brings p id updated edits raw hp hedits horiginal

/-- The store is reset. -/
theorem reset (h : Preserved (s, g)) : Preserved (s.reset, ⟨none, .empty⟩) where
  shown _ h := by cases h
  ids := rfl
  fresh := h.fresh
  payload := h.payload
  brings _ _ _ _ _ _ h := by cases h

variable {p : CallId}

/-- The transcript arrives. -/
theorem fetched (h : Preserved (s, g)) (recordingId : String) (raw : List TranscriptSegment) :
    Preserved ({ s with
      calls := s.calls.erase p
      segments := numbered recordingId raw
      isLoading := false }, ⟨some raw, .empty⟩) where
  shown := by
    rw [originalShown_iff]
    rintro _ ⟨⟩
    exact map_text_numbered recordingId raw
  ids := by rw [map_id_numbered, numbered, List.length_mapIdx]
  fresh q hq := h.fresh q (Table.mem_keys_of_erase hq)
  payload q id updated hq := h.payload q id updated (Table.of_get?_erase hq).2
  brings _ _ _ _ _ _ h := by cases h

/-- A save fails, or a load does. -/
theorem failed (h : Preserved (s, g)) (error : String) : Preserved ({ s with
    calls := s.calls.erase p
    error := some error
    isLoading := false }, g) :=
  h.kept rfl (fun q hq => h.fresh q (Table.mem_keys_of_erase hq))
    fun _ _ _ hq => (Table.of_get?_erase hq).2

/-- A save succeeds. -/
theorem saved (h : Preserved (s, g)) {recordingId : String} {updated : List Segment}
    (hp : s.calls.get? p = some (.saving recordingId updated))
    (hok : CarriesOriginal (s, g) (.settle p .saved)) : Preserved ({ s with
      calls := s.calls.erase p
      segments := updated
      pendingEdits := .empty
      editMode := false
      isLoading := false }, g) where
  shown := by
    rw [originalShown_iff]
    intro raw horiginal
    obtain ⟨hedits, hnone⟩ := hok raw recordingId updated horiginal hp
    cases hcarried : g.carried.get? p with
    | none => exact hnone hcarried
    | some edits =>
      rw [h.brings p recordingId updated edits raw hp hcarried horiginal]
      exact overlay_eq_iff.2 (hedits edits hcarried)
  ids := h.payload p recordingId updated hp
  fresh q hq := h.fresh q (Table.mem_keys_of_erase hq)
  payload q id updated hq := h.payload q id updated (Table.of_get?_erase hq).2
  brings q id updated edits raw hq :=
    h.brings q id updated edits raw (Table.of_get?_erase hq).2

/-- **What one step preserves.** -/
theorem step (h : Preserved x) (hst : LTS.recorded step Fetched.update x l = some x')
    (hok : CarriesOriginal x l) : Preserved x' := by
  obtain ⟨s, g⟩ := x
  obtain ⟨s', hs', rfl⟩ := Option.map_eq_some_iff.1 hst
  cases Move.of_step hs' with
  | @loadTranscript recordingId hguard => exact h.loadTranscript recordingId
  | toggleEditMode => exact h.kept rfl h.fresh fun _ _ _ hp => hp
  | editSegment segmentId text => exact h.kept rfl h.fresh fun _ _ _ hp => hp
  | skip hskip => simpa only [Fetched.update, hskip, if_true] using h
  | @send recordingId hid hsend =>
    have hnext : (s.send recordingId).nextId ≠ s.nextId := Nat.succ_ne_self _
    simp only [Fetched.update, hsend, if_neg hnext]
    exact h.send recordingId
  | reset => exact h.reset
  | fetched raw hp => exact h.fetched _ raw
  | saved hp => exact h.saved hp hok
  | notFetched hp => exact h.failed _
  | notSaved hp => exact h.failed _

/-- A save that brings other texts shows them on the original tab. -/
theorem carriesOriginal (h : Preserved x)
    (hst : LTS.recorded Transcript.step Fetched.update x l = some x')
    (hshown : OriginalShown x') : CarriesOriginal x l := by
  obtain ⟨s, g⟩ := x
  obtain ⟨s', hs', rfl⟩ := Option.map_eq_some_iff.1 hst
  rcases l with _ | _ | _ | _ | _ | ⟨p, _ | _ | _⟩ <;> try trivial
  intro raw recordingId updated horiginal hp
  cases Move.of_step hs' with
  | saved hp' =>
    cases hp'.symm.trans hp
    have htexts : updated.map (·.text) = raw.map (·.text) :=
      originalShown_iff.1 hshown raw horiginal
    refine ⟨fun edits hedits => ?_, fun _ => htexts⟩
    rw [h.brings p recordingId updated edits raw hp hedits horiginal] at htexts
    exact overlay_eq_iff.1 htexts

end Preserved

/-! ### Runs -/

/-- **When the original is preserved.**  All along a run of loads, edits and saves the original tab
shows the texts that `getTranscript` returned exactly if every save that succeeds carries only edits
that change none of them. -/
theorem original_shown_iff {tr : List ((State × Fetched) × Label)}
    (h : fetchedTranscripts.Run tr x) :
    ((∀ y ∈ tr, OriginalShown y.1) ∧ OriginalShown x) ↔ ∀ y ∈ tr, CarriesOriginal y.1 y.2 := by
  refine h.visited_iff (I := Preserved) ?_ (fun y hy => hy.shown)
    (fun y l y' hy hst hok => hy.step hst hok)
    fun y l y' hy hst hshown => hy.carriesOriginal hst hshown
  rintro y rfl
  exact .init

/-- A text is edited back before it is saved. -/
def editBack : List Label :=
  [.loadTranscript "a", .settle 0 (.transcript hello), .editSegment "seg-0" "good morning",
    .editSegment "seg-0" "hello", .saveEdits, .settle 1 .saved]

theorem original_shown_iff_editBack :
    ∃ tr x, fetchedTranscripts.Run tr x ∧ tr.map Prod.snd = editBack ∧
      x.1.sent.map Prod.fst = ["a"] ∧
      (((∀ y ∈ tr, OriginalShown y.1) ∧ OriginalShown x) ↔
        ∀ y ∈ tr, CarriesOriginal y.1 y.2) := by
  have hrun : (LTS.exec (LTS.recorded step Fetched.update) (Transcript.init, ⟨none, .empty⟩)
      editBack).map (fun x => x.1.sent.map Prod.fst) = some ["a"] := by
    decide +kernel
  obtain ⟨x, hx, hsent⟩ := Option.map_eq_some_iff.1 hrun
  obtain ⟨tr, htr, hls⟩ := LTS.run_of_exec (LTS.Run.start (A := fetchedTranscripts) rfl) hx
  exact ⟨tr, x, htr, hls, hsent, original_shown_iff htr⟩

/-- An edit is saved, and the original tab shows it. -/
theorem original_lost_by_save :
    ¬ ∀ tr x, fetchedTranscripts.Run tr x → OriginalShown x := by
  intro h
  have hrun : (LTS.exec (LTS.recorded step Fetched.update) (Transcript.init, ⟨none, .empty⟩)
      [.loadTranscript "a", .settle 0 (.transcript hello), .editSegment "seg-0" "good morning",
        .saveEdits, .settle 1 .saved]).map (fun x =>
          (x.2.original, (x.1.rows .original).map Row.text)) =
      some (some hello, ["good morning"]) := by
    decide +kernel
  obtain ⟨x, hx, he⟩ := Option.map_eq_some_iff.1 hrun
  obtain ⟨tr, htr, -⟩ := LTS.run_of_exec (LTS.Run.start (A := fetchedTranscripts) rfl) hx
  obtain ⟨horiginal, hrows⟩ := Prod.mk.inj he
  have hshown := h tr x htr hello horiginal
  rw [hrows] at hshown
  exact absurd hshown (by decide)

end Transcript

end FCord
