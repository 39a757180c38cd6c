import FCord.Recordings.Moves

/-!
# What the list knows about a conversion

The status of a conversion reaches the list in two ways.  A list answer has no status code: a listed
meeting is taken to be converted.  A poll answer has one.  The two agree exactly on the code `000`,
and a list can say more than the server does (`listed_while_processing`).  What remains true of
every run is that an item is shown as completed only after a list answer has listed it or a poll
answer has said so (`completed_was_told`, `completed_listed_or_polled`).
-/

namespace FCord

namespace Screens

variable {getTime : String → ℕ}

/-- The meetings that a step says are converted: a list answer lists them, or a poll answer has
the code `000`. -/
def saysCompleted (s : Screens) : ScreenLabel → List String
  | .answer p (.list raw) =>
    match s.calls.get? p with
    | some (.loadList _) => (raw.getD []).map FaicordMeetingItem.confId
    | _ => []
  | .answer p (.detail (some ⟨true, some m⟩)) =>
    match s.calls.get? p with
    | some (.poll id _) => if m.statusCode = some "000" then [id] else []
    | _ => []
  | _ => []

/-- The meetings that a run has heard to be converted. -/
def heardCompleted (tr : List (Screens × ScreenLabel)) : List String :=
  LTS.history [] (fun heard s l => heard ++ s.saysCompleted l) tr

/-- Whatever the screens hold as completed was heard to be so. -/
def CompletedHeard (s : Screens) (heard : List String) : Prop :=
  ∀ item, Holds s item → item.transcriptionState = .completed → item.id ∈ heard

/-- **Where a completed item comes from.**  It was completed before, or the step says so, or a
snapshot of it is put back by a failed delete or by a save. -/
theorem completed_cases {s s' : Screens} {l : ScreenLabel} (hst : step getTime s l = some s')
    {item : ServerRecordingCache} (hm : item ∈ s'.store.items)
    (hc : item.transcriptionState = .completed) :
    (∃ old ∈ s.store.items, old.id = item.id ∧ old.transcriptionState = .completed) ∨
    item.id ∈ s.saysCompleted l ∨
    (∃ p, l = .answer p .error ∧ s.calls.get? p = some (.delete item)) ∨
    ∃ p confId title elapsed items, l = .answer p (.uploaded confId) ∧
      s.calls.get? p = some (.upload title elapsed items) ∧ item ∈ items := by
  cases (ItemMove.of_step hst).itemFrom hm with
  | kept hold => exact .inl ⟨item, hold, rfl, hc⟩
  | starred hold => exact .inl ⟨_, hold, rfl, hc⟩
  | listed hp hm' =>
    refine .inr (.inl ?_)
    simp only [saysCompleted, hp]
    exact List.mem_map_of_mem hm'
  | @polled p rest res detail old hold hp hd hne =>
    obtain ⟨m, rfl, hstate⟩ := state_of_getMeetingDetail hd
    have hcode := mapStatusCode_eq_completed.1 (hstate.symm.trans hc)
    refine .inr (.inl ?_)
    simp only [saysCompleted, hp, if_pos hcode, List.mem_singleton]
    rfl
  | patched hold hpatch =>
    simp only [RecordingPatch.apply, hpatch, Option.getD_none] at hc ⊢
    exact .inl ⟨_, hold, rfl, hc⟩
  | queued hold hp hcall => cases hc
  | @restored p target hp => exact .inr (.inr (.inl ⟨p, rfl, hp⟩))
  | @captured p title confId elapsed items _ hp hmem =>
    exact .inr (.inr (.inr ⟨p, confId, title, elapsed, items, rfl, hp, hmem⟩))
  | saved hp => cases hc

/-- What one step preserves. -/
theorem completedHeard_step {s s' : Screens} {l : ScreenLabel} {heard : List String}
    (h : CompletedHeard s heard) (hst : step getTime s l = some s') :
    CompletedHeard s' (heard ++ s.saysCompleted l) := by
  intro item hi hc
  rcases hi.of_step hst with hm | hold
  · rcases completed_cases hst hm hc with ⟨old, hold, hid, hc'⟩ | hs | ⟨p, -, hp⟩ |
      ⟨p, confId, title, elapsed, items, -, hp, hmem⟩
    · exact List.mem_append_left _ (hid ▸ h old (.listed hold) hc')
    · exact List.mem_append_right _ hs
    · exact List.mem_append_left _ (h item (.deleted hp) hc)
    · exact List.mem_append_left _ (h item (.captured hp hmem) hc)
  · exact List.mem_append_left _ (h item hold hc)

/-- What is shown as completed was heard to be so, in every run. -/
theorem completed_was_told {tr : List (Screens × ScreenLabel)} {s : Screens}
    (h : (recordingScreens getTime).Run tr s) {item : ServerRecordingCache}
    (hm : item ∈ s.store.items) (hc : item.transcriptionState = .completed) :
    item.id ∈ heardCompleted tr := by
  have hinv : CompletedHeard s (heardCompleted tr) := by
    refine h.history_invariant ?_ fun s heard l s' _ hi hst => completedHeard_step hi hst
    rintro s ⟨now, rfl⟩ item hi
    exact absurd hi (not_holds_init now item)
  exact hinv item (.listed hm) hc

/-- A refresh shows all that it lists as completed. -/
theorem completed_of_refresh {s s' : Screens} {p : ℕ} {raw : Option (List FaicordMeetingItem)}
    (hp : s.calls.get? p = some (.loadList none))
    (hst : step getTime s (.answer p (.list raw)) = some s') :
    s'.store.items = (raw.getD []).map (toCache getTime s.now) := by
  have hmove := ItemMove.of_step hst
  generalize s'.store.items = items at hmove
  cases hmove with
  | quiet hl => cases hl
  | delete id hl => rcases hl with hl | hl <;> cases hl
  | refresh hp' => rfl
  | page hp' => cases hp.symm.trans hp'
  | settled hp' ha => rcases ha with ⟨he, -⟩ | ⟨he, -⟩ <;> cases he

/-- **What the list knows about a conversion.**  A refresh stores every meeting that it lists as
completed; that is what the detail of the meeting says exactly if its status code is `000`.  In
every run an item is shown as completed only if a list answer has listed it or a poll answer for
it had the code `000`; and an item becomes completed in a step only by such an answer, or when a
snapshot of it that was completed is put back. -/
theorem completed_listed_or_polled {tr : List (Screens × ScreenLabel)} {s s' : Screens}
    {l : ScreenLabel} (h : (recordingScreens getTime).Run tr s)
    (hst : step getTime s l = some s') :
    (∀ p raw, l = .answer p (.list raw) → s.calls.get? p = some (.loadList none) →
      s'.store.items.map ServerRecordingCache.id =
          (raw.getD []).map FaicordMeetingItem.confId ∧
        ∀ item ∈ s'.store.items, ∀ m now detail,
          getMeetingDetail getTime now (some ⟨true, some m⟩) = some detail →
          item.transcriptionState = .completed ∧
            (item.transcriptionState = detail.transcriptionState ↔ m.statusCode = some "000")) ∧
    (∀ item ∈ s.store.items, item.transcriptionState = .completed →
      item.id ∈ heardCompleted tr) ∧
    ∀ item ∈ s'.store.items, item.transcriptionState = .completed →
      (∃ old ∈ s.store.items, old.id = item.id ∧ old.transcriptionState = .completed) ∨
      item.id ∈ s.saysCompleted l ∨
      (∃ p, l = .answer p .error ∧ s.calls.get? p = some (.delete item)) ∨
      ∃ p confId title elapsed items, l = .answer p (.uploaded confId) ∧
        s.calls.get? p = some (.upload title elapsed items) ∧ item ∈ items := by
  refine ⟨?_, fun item hm hc => completed_was_told h hm hc,
    fun item hm hc => completed_cases hst hm hc⟩
  rintro p raw rfl hp
  rw [completed_of_refresh hp hst]
  refine ⟨by rw [List.map_map]; rfl, fun item hm m now detail hd => ?_⟩
  obtain ⟨e, -, rfl⟩ := List.mem_map.1 hm
  obtain ⟨m', hm', hstate⟩ := state_of_getMeetingDetail hd
  cases hm'
  refine ⟨rfl, ?_⟩
  rw [hstate, ← mapStatusCode_eq_completed]
  exact eq_comm

/-- A recording is saved, and a refresh lists it. -/
def saveAndRefresh : List ScreenLabel :=
  [.onSave "a" 60, .answer 0 (.uploaded "a"), .active]

theorem completed_listed_or_polled_saveAndRefresh :
    ∃ tr s s', (recordingScreens epoch).Run tr s ∧ tr.map Prod.snd = saveAndRefresh ∧
      step epoch s (.answer 1 (.list (some [meetingItem "a"]))) = some s' ∧
      s.store.items.map ServerRecordingCache.transcriptionState = [.processing] ∧
      s'.store.items.map ServerRecordingCache.id = ["a"] := by
  have hrun : (LTS.exec (step epoch) (init 0) saveAndRefresh).bind (fun s =>
      (step epoch s (.answer 1 (.list (some [meetingItem "a"])))).map fun _ =>
        (s.calls.get? 1, s.store.items.map ServerRecordingCache.transcriptionState)) =
      some (some (.loadList none), [.processing]) := by decide +kernel
  obtain ⟨s, hs, hrun⟩ := Option.bind_eq_some_iff.1 hrun
  obtain ⟨s', hst, he⟩ := Option.map_eq_some_iff.1 hrun
  obtain ⟨hp, hstates⟩ := Prod.mk.inj he
  obtain ⟨tr, htr, hls⟩ := LTS.run_of_exec
    (LTS.Run.start (A := recordingScreens epoch) ⟨0, rfl⟩) hs
  have hmain := (completed_listed_or_polled htr hst).1 1 _ rfl hp
  exact ⟨tr, s, s', htr, hls, hst, hstates, hmain.1⟩

/-- The list says that this recording is converted, whatever code its detail has. -/
theorem listed_while_processing :
    ¬ ∀ getTime tr s s' p raw, (recordingScreens getTime).Run tr s →
      s.calls.get? p = some (.loadList none) → step getTime s (.answer p (.list raw)) = some s' →
      ∀ item ∈ s'.store.items, ∀ m now detail,
        getMeetingDetail getTime now (some ⟨true, some m⟩) = some detail → m.meetingId = item.id →
        item.transcriptionState = detail.transcriptionState := by
  intro h
  have hrun : (LTS.exec (step epoch) (init 0) saveAndRefresh).bind (fun s =>
      (step epoch s (.answer 1 (.list (some [meetingItem "a"])))).map fun s' =>
        (s.calls.get? 1, s'.store.items)) =
      some (some (.loadList none), [toCache epoch 0 (meetingItem "a")]) := by decide +kernel
  obtain ⟨s, hs, hrun⟩ := Option.bind_eq_some_iff.1 hrun
  obtain ⟨s', hst, he⟩ := Option.map_eq_some_iff.1 hrun
  obtain ⟨hp, hitems⟩ := Prod.mk.inj he
  obtain ⟨tr, htr, -⟩ := LTS.run_of_exec (LTS.Run.start (A := recordingScreens epoch) ⟨0, rfl⟩) hs
  have := h epoch tr s s' 1 _ htr hp hst _ (hitems ▸ List.mem_cons_self)
    (meetingDetail "a" (some "100")) 0 _ rfl rfl
  exact absurd this (by decide)

end Screens

end FCord
