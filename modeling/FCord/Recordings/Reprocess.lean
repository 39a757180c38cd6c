import FCord.Recordings.Moves

/-!
# The offer to reprocess a recording

The detail screen offers to reprocess a recording whose conversion has failed, and needs the
`transcriptionId` of the recording to do it.  Nothing that puts a recording into the list fills this
field in, and no patch sets it (`identifier_missing`): whenever the button is offered, it ends in
the alert for a missing identifier (`retry_only_alerts`).  So what is offered can be carried out
exactly in the runs in which nothing is offered, because no poll reports a failed conversion
(`reprocess_possible_iff`).
-/

namespace FCord

namespace Screens

variable {getTime : String → ℕ} {s s' : Screens} {l : ScreenLabel}

/-- A recording that is offered for reprocessing has the identifier, and the button requests it. -/
structure ReprocessPossible (getTime : String → ℕ) (s : Screens) : Prop where
  identified : ∀ item ∈ s.store.items, (resolveDetailActions item).showRetryTranscription = true →
    item.transcriptionId.any (· ≠ "") = true
  requested : ∀ id s', step getTime s (.onRetryTranscription id) = some s' →
    s' = s.await (.retryTranscription id)

/-- A poll answer for a recording in the list does not report that its conversion has failed. -/
def ReportsNoFailure (s : Screens) : ScreenLabel → Prop
  | .answer p (.detail res) => ∀ id rest m, s.calls.get? p = some (.poll id rest) →
      id ∈ s.store.items.map ServerRecordingCache.id → res = some ⟨true, some m⟩ →
      mapStatusCode m.statusCode ≠ .failed
  | _ => True

/-- No recording that the screens hold has an identifier. -/
def Unidentified (s : Screens) : Prop := ∀ item, Holds s item → item.transcriptionId = none

/-- No recording that the screens hold has failed to be converted. -/
def NoneFailed (s : Screens) : Prop := ∀ item, Holds s item → item.transcriptionState ≠ .failed

/-! ### The identifier -/

theorem unidentified_step (h : Unidentified s) (hst : step getTime s l = some s') :
    Unidentified s' := by
  intro item hi
  rcases hi.of_step hst with hm | hold
  · cases (ItemMove.of_step hst).itemFrom hm with
    | kept hold => exact h item (.listed hold)
    | @starred old hold => exact h old (.listed hold)
    | listed hp hm => rfl
    | @polled p rest res detail old hold hp hd hne => exact h old (.listed hold)
    | patched hold hpatch =>
      simpa only [RecordingPatch.apply, hpatch, Option.getD_none] using h _ (.listed hold)
    | @queued p call old hold hp hcall => exact h old (.listed hold)
    | restored hp => exact h item (.deleted hp)
    | captured hp hm => exact h item (.captured hp hm)
    | saved hp => rfl
  · exact h item hold

/-- **No recording of the list has an identifier.** -/
theorem identifier_missing (h : (recordingScreens getTime).Reachable s) : Unidentified s := by
  refine h.invariant ?_ fun s l s' hs hst => unidentified_step hs hst
  rintro s ⟨now, rfl⟩ item hi
  exact absurd hi (not_holds_init now item)

/-- **The button only shows the alert.** -/
theorem retry_only_alerts (h : (recordingScreens getTime).Reachable s) {id : String}
    (hst : step getTime s (.onRetryTranscription id) = some s') : s' = s := by
  obtain ⟨recording, hr, hst⟩ := Option.bind_eq_some_iff.1 hst
  obtain ⟨-, he⟩ := Option.ite_none_right_eq_some.1 hst
  have hnone := identifier_missing h recording (.listed (List.mem_of_find?_eq_some hr))
  rw [hnone] at he
  exact (Option.some.inj he).symm

/-! ### The offer -/

/-- Where nothing has failed, nothing is offered. -/
theorem NoneFailed.reprocessPossible (h : NoneFailed s) : ReprocessPossible getTime s where
  identified item hm hoffer := absurd (of_decide_eq_true hoffer) (h item (.listed hm))
  requested id s' hst := by
    obtain ⟨recording, hr, hst⟩ := Option.bind_eq_some_iff.1 hst
    obtain ⟨hoffer, -⟩ := Option.ite_none_right_eq_some.1 hst
    exact absurd (of_decide_eq_true hoffer) (h recording (.listed (List.mem_of_find?_eq_some hr)))

theorem noneFailed_step (h : NoneFailed s) (hst : step getTime s l = some s')
    (hok : ReportsNoFailure s l) : NoneFailed s' := by
  intro item hi
  rcases hi.of_step hst with hm | hold
  · cases (ItemMove.of_step hst).itemFrom hm with
    | kept hold => exact h item (.listed hold)
    | @starred old hold => exact h old (.listed hold)
    | listed hp hm => simp [toCache]
    | polled hold hp hd hne =>
      obtain ⟨m, rfl, hstate⟩ := state_of_getMeetingDetail hd
      have hcode := hok _ _ m hp (List.mem_map_of_mem hold) rfl
      rwa [← hstate] at hcode
    | patched hold hpatch =>
      simpa only [RecordingPatch.apply, hpatch, Option.getD_none] using h _ (.listed hold)
    | queued hold hp hcall => simp [RecordingPatch.apply]
    | restored hp => exact h item (.deleted hp)
    | captured hp hm => exact h item (.captured hp hm)
    | saved hp => simp [savedItem]
  · exact h item hold

/-- A reported failure is offered for reprocessing, without an identifier. -/
theorem reportsNoFailure_of_possible (h : Unidentified s) (hst : step getTime s l = some s')
    (hpossible : ReprocessPossible getTime s') : ReportsNoFailure s l := by
  cases l with
  | answer p a =>
    cases a with
    | detail res =>
      rintro id rest m hp hid rfl hfailed
      obtain ⟨old, hold, rfl⟩ := List.mem_map.1 hid
      have hanswer := onAnswer_of_step hp hst
      have hstore : s'.store =
          s.store.updateItem old.id { transcriptionState := some .failed } := by
        simp only [onAnswer, pollAnswer, getMeetingDetail, hfailed] at hanswer
        exact (Option.some.inj hanswer).symm
      have hm : RecordingPatch.apply { transcriptionState := some .failed } old ∈
          s'.store.items := by
        rw [hstore]
        exact Keyed.mem_update.2 (.inl ⟨old, hold, rfl, rfl⟩)
      have hmissing := hpossible.identified _ hm rfl
      have hnone := h old (.listed hold)
      simp [RecordingPatch.apply, hnone] at hmissing
    | _ => trivial
  | _ => trivial

/-! ### Runs -/

/-- **When the offer can be carried out.**  All along a run every recording that is offered for
reprocessing can be reprocessed exactly if no poll of the run reports a failed conversion for a
recording in the list. -/
theorem reprocess_possible_iff {tr : List (Screens × ScreenLabel)}
    (h : (recordingScreens getTime).Run tr s) :
    ((∀ x ∈ tr, ReprocessPossible getTime x.1) ∧ ReprocessPossible getTime s) ↔
      ∀ x ∈ tr, ReportsNoFailure x.1 x.2 := by
  refine h.visited_iff (I := fun s => Unidentified s ∧ NoneFailed s)
    (P := ReprocessPossible getTime) ?_ (fun s hs => hs.2.reprocessPossible)
    (fun s l s' hs hst hok => ⟨unidentified_step hs.1 hst, noneFailed_step hs.2 hst hok⟩)
    (fun s l s' hs hst hpossible => reportsNoFailure_of_possible hs.1 hst hpossible)
  rintro s ⟨now, rfl⟩
  exact ⟨fun item hi => absurd hi (not_holds_init now item),
    fun item hi => absurd hi (not_holds_init now item)⟩

/-- A recording is saved, and a poll hears the status code of its conversion. -/
def saveAndHear (code : String) : List ScreenLabel :=
  [.onSave "a" 60, .answer 0 (.uploaded "a"), .poll,
    .answer 1 (.detail (some ⟨true, some (meetingDetail "a" (some code))⟩))]

theorem reprocess_possible_iff_completed :
    ∃ tr s, (recordingScreens epoch).Run tr s ∧ tr.map Prod.snd = saveAndHear "000" ∧
      s.store.items.map ServerRecordingCache.transcriptionState = [.completed] ∧
      (((∀ x ∈ tr, ReprocessPossible epoch x.1) ∧ ReprocessPossible epoch s) ↔
        ∀ x ∈ tr, ReportsNoFailure x.1 x.2) := by
  have hrun : (LTS.exec (step epoch) (init 0) (saveAndHear "000")).map (fun s =>
      s.store.items.map ServerRecordingCache.transcriptionState) = some [.completed] := by
    decide +kernel
  obtain ⟨s, hs, hstates⟩ := Option.map_eq_some_iff.1 hrun
  obtain ⟨tr, htr, hls⟩ := LTS.run_of_exec
    (LTS.Run.start (A := recordingScreens epoch) ⟨0, rfl⟩) hs
  exact ⟨tr, s, htr, hls, hstates, reprocess_possible_iff htr⟩

/-- A conversion fails, its recording is offered, and the button does nothing. -/
theorem offer_without_identifier :
    ¬ ∀ getTime s, (recordingScreens getTime).Reachable s → ReprocessPossible getTime s := by
  intro h
  have hrun : (LTS.exec (step epoch) (init 0) (saveAndHear "900")).map (fun s =>
      s.store.items.map fun item =>
        ((resolveDetailActions item).showRetryTranscription,
          item.transcriptionId.any (· ≠ ""))) = some [(true, false)] := by
    decide +kernel
  obtain ⟨s, hs, he⟩ := Option.map_eq_some_iff.1 hrun
  have hmem : (true, false) ∈ s.store.items.map fun item =>
      ((resolveDetailActions item).showRetryTranscription,
        item.transcriptionId.any (· ≠ "")) := he ▸ List.mem_cons_self
  obtain ⟨item, hm, hpair⟩ := List.mem_map.1 hmem
  obtain ⟨hoffer, hmissing⟩ := Prod.mk.inj hpair
  have hreach : (recordingScreens epoch).Reachable s :=
    LTS.reachable_of_exec (.start ⟨0, rfl⟩) hs
  rw [(h epoch s hreach).identified item hm hoffer] at hmissing
  cases hmissing

end Screens

end FCord
