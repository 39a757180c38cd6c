import FCord.Transcript.Edits

/-!
# The alert after a save

`onSave` awaits `saveEdits` and then shows an alert if the store has an error.  The error is set by
a load or a save that fails and cleared when a load begins or the store is reset, but not by a save:
a save that succeeds after one that failed is reported as failed (`alert_after_success`).  The
alerts tell the truth exactly in the runs in which the errors since the last load are those of the
saves that they report (`alerts_true_iff`).
-/

namespace FCord

namespace Transcript

/-- How a save that is awaited ends. -/
inductive SaveOutcome where
  /-- There was nothing to save. -/
  | skipped
  | succeeded
  | failed
  deriving DecidableEq, Repr

/-- The transcript screen. -/
structure Screen where
  store : State
  /-- The saves that have ended and whose `onSave` has not gone on, in order. -/
  ended : List SaveOutcome
  /-- The saves whose `onSave` has gone on, with whether it showed the alert. -/
  alerts : List (SaveOutcome × Bool)
  /-- The error after each save that succeeded. -/
  errorsAfter : List (Option String)

/-- What can happen on the screen. -/
inductive ScreenEvent where
  | act (l : Label)
  | onSave
  /-- `onSave`, after its await. -/
  | goOn
  deriving DecidableEq, Repr

/-- The end of a save. -/
def savesEnded (s : State) : Label → List SaveOutcome
  | .settle p reply =>
    match s.calls.get? p, reply with
    | some (.saving _ _), .saved => [.succeeded]
    | some (.saving _ _), .failed => [.failed]
    | _, _ => []
  | _ => []

/-- `!!error` -/
def State.hasError (s : State) : Bool := s.error.any fun e => e ≠ ""

namespace Screen

def init : Screen := ⟨Transcript.init, [], [], []⟩

def step (s : Screen) : ScreenEvent → Option Screen
  -- only `onSave` calls it
  | .act .saveEdits => none
  | .act l =>
    (Transcript.step s.store l).map fun store =>
      { s with
        store := store
        ended := s.ended ++ savesEnded s.store l
        errorsAfter :=
          if .succeeded ∈ savesEnded s.store l then store.error :: s.errorsAfter
          else s.errorsAfter }
  | .onSave =>
    some { s with
      store := s.store.saveEdits
      -- without a call `saveEdits` has returned
      ended :=
        if s.store.saveEdits.nextId = s.store.nextId then s.ended ++ [.skipped] else s.ended }
  | .goOn =>
    match s.ended with
    | [] => none
    | outcome :: rest =>
      some { s with ended := rest, alerts := (outcome, s.store.hasError) :: s.alerts }

end Screen

/-- A load or a save has failed since the last load began or the store was reset. -/
def hasFailed (failed : Bool) (_ : Screen) : ScreenEvent → Bool
  | .act (.loadTranscript _) => false
  | .act .reset => false
  | .act (.settle _ .failed) => true
  | _ => failed

end Transcript

open Transcript in
/-- The transcript screen, with whether something has failed. -/
def transcriptScreen : LTS (Screen × Bool) ScreenEvent :=
  LTS.ofFn (· = (.init, false)) (LTS.recorded Screen.step hasFailed)

namespace Transcript

/-- The alert was shown exactly after the saves that failed, and no error was left by one that
succeeded. -/
structure AlertsTrue (s : Screen) : Prop where
  alerts : ∀ a ∈ s.alerts, a.2 = true ↔ a.1 = .failed
  errors : ∀ e ∈ s.errorsAfter, e = none

/-- Nothing has failed since the last load when a save succeeds; and when `onSave` goes on,
something has failed exactly if its save has. -/
def OwnFailures (x : Screen × Bool) : ScreenEvent → Prop
  | .act (.settle _ .saved) => x.2 = false
  | .goOn => ∀ outcome rest, x.1.ended = outcome :: rest → (x.2 = true ↔ outcome = .failed)
  | _ => True

/-- The error tells whether something has failed. -/
structure ErrorTold (x : Screen × Bool) : Prop where
  told : x.1.store.hasError = x.2
  nonempty : x.1.store.error ≠ some ""

variable {s s' : Screen} {x x' : Screen × Bool} {e : ScreenEvent}

theorem ErrorTold.error_eq_none (h : ErrorTold x) : x.1.store.error = none ↔ x.2 = false := by
  rw [← h.told, State.hasError]
  cases he : x.1.store.error with
  | none => simp
  | some error =>
    have hne : error ≠ "" := fun hempty => h.nonempty (by rw [he, hempty])
    simp [hne]

/-- `saveEdits` leaves the error alone until it has awaited. -/
theorem error_saveEdits (s : State) : s.saveEdits.error = s.error := by
  rcases s.saveEdits_cases with h | ⟨recordingId, -, h⟩
  · rw [h]
  · rw [h]
    rfl

/-- What a step of the store does to its error. -/
theorem error_cases {s s' : State} {l : Label} (h : step s l = some s') :
    (s'.error = none ∧ ∀ failed t, hasFailed failed t (.act l) = false) ∨
    ((∃ error, error ≠ "" ∧ s'.error = some error) ∧
      ∀ failed t, hasFailed failed t (.act l) = true) ∨
    s'.error = s.error ∧ ∀ failed t, hasFailed failed t (.act l) = failed := by
  cases Move.of_step h with
  | loadTranscript hguard => exact .inl ⟨rfl, fun _ _ => rfl⟩
  | toggleEditMode => exact .inr (.inr ⟨rfl, fun _ _ => rfl⟩)
  | editSegment segmentId text => exact .inr (.inr ⟨rfl, fun _ _ => rfl⟩)
  | skip hskip => exact .inr (.inr ⟨rfl, fun _ _ => rfl⟩)
  | send hid hsend => exact .inr (.inr ⟨rfl, fun _ _ => rfl⟩)
  | reset => exact .inl ⟨rfl, fun _ _ => rfl⟩
  | fetched raw hp => exact .inr (.inr ⟨rfl, fun _ _ => rfl⟩)
  | saved hp => exact .inr (.inr ⟨rfl, fun _ _ => rfl⟩)
  | notFetched hp => exact .inr (.inl ⟨⟨_, by decide, rfl⟩, fun _ _ => rfl⟩)
  | notSaved hp => exact .inr (.inl ⟨⟨_, by decide, rfl⟩, fun _ _ => rfl⟩)

/-- The end of a save that succeeded. -/
theorem of_succeeded_mem {s : State} {l : Label} (h : .succeeded ∈ savesEnded s l) :
    ∃ p, l = .settle p .saved := by
  unfold savesEnded at h
  split at h
  · rename_i p reply
    split at h
    · exact ⟨p, rfl⟩
    · simp at h
    · simp at h
  · simp at h

theorem error_saved {s s' : State} {p : CallId} (h : step s (.settle p .saved) = some s') :
    s'.error = s.error ∧ .succeeded ∈ savesEnded s (.settle p .saved) := by
  cases Move.of_step h with
  | saved hp => simp [savesEnded, hp]

/-! ### Steps -/

/-- An event of the store. -/
theorem Screen.of_step_act {l : Label} (h : Screen.step s (.act l) = some s') :
    ∃ store, Transcript.step s.store l = some store ∧ s' = { s with
      store := store
      ended := s.ended ++ savesEnded s.store l
      errorsAfter :=
        if .succeeded ∈ savesEnded s.store l then store.error :: s.errorsAfter
        else s.errorsAfter } := by
  cases l with
  | saveEdits => cases h
  | _ =>
    simp only [Screen.step] at h
    obtain ⟨store, hstore, he⟩ := Option.map_eq_some_iff.1 h
    exact ⟨store, hstore, he.symm⟩

/-- `onSave`, after its await, leaves the store alone. -/
theorem Screen.of_step_goOn (h : Screen.step s .goOn = some s') :
    ∃ outcome rest, s.ended = outcome :: rest ∧
      s' = { s with ended := rest, alerts := (outcome, s.store.hasError) :: s.alerts } := by
  simp only [Screen.step] at h
  split at h
  · cases h
  · rename_i outcome rest hended
    cases h
    exact ⟨outcome, rest, hended, rfl⟩

theorem ErrorTold.of_error {failed failed' : Bool} (h : ErrorTold (s, failed))
    (herror : s'.store.error = s.store.error) (hfailed : failed' = failed) :
    ErrorTold (s', failed') where
  told := by
    rw [hfailed, ← h.told, State.hasError, herror, State.hasError]
  nonempty := herror ▸ h.nonempty

/-- **What one step preserves of the error.** -/
theorem ErrorTold.step (h : ErrorTold x)
    (hst : LTS.recorded Screen.step hasFailed x e = some x') : ErrorTold x' := by
  obtain ⟨s, failed⟩ := x
  obtain ⟨s', hs', rfl⟩ := Option.map_eq_some_iff.1 hst
  cases e with
  | act l =>
    obtain ⟨store, hstore, rfl⟩ := Screen.of_step_act hs'
    rcases error_cases hstore with ⟨herror, hf⟩ | ⟨⟨error, hne, herror⟩, hf⟩ | ⟨herror, hf⟩
    · simp only [hf]
      exact ⟨by rw [State.hasError, herror]; rfl, by rw [herror]; simp⟩
    · simp only [hf]
      exact ⟨by simp [State.hasError, herror, hne], by simp [herror, hne]⟩
    · exact h.of_error herror (hf _ _)
  | onSave =>
    cases hs'
    exact h.of_error (error_saveEdits _) rfl
  | goOn =>
    obtain ⟨outcome, rest, -, rfl⟩ := Screen.of_step_goOn hs'
    exact h.of_error rfl rfl

/-- **What one step preserves.** -/
theorem AlertsTrue.step (h : AlertsTrue x.1) (htold : ErrorTold x)
    (hst : LTS.recorded Screen.step hasFailed x e = some x') (hok : OwnFailures x e) :
    AlertsTrue x'.1 := by
  obtain ⟨s', hs', rfl⟩ := Option.map_eq_some_iff.1 hst
  cases e with
  | act l =>
    obtain ⟨store, hstore, rfl⟩ := Screen.of_step_act hs'
    refine ⟨h.alerts, ?_⟩
    by_cases hsucceeded : .succeeded ∈ savesEnded x.1.store l
    · obtain ⟨p, rfl⟩ := of_succeeded_mem hsucceeded
      have herror : store.error = none := by
        rw [(error_saved hstore).1, htold.error_eq_none]
        exact hok
      simp only [if_pos hsucceeded, List.forall_mem_cons]
      exact ⟨herror, h.errors⟩
    · simp only [if_neg hsucceeded]
      exact h.errors
  | onSave => cases hs'; exact ⟨h.alerts, h.errors⟩
  | goOn =>
    obtain ⟨outcome, rest, hended, rfl⟩ := Screen.of_step_goOn hs'
    refine ⟨List.forall_mem_cons.2 ⟨?_, h.alerts⟩, h.errors⟩
    rw [htold.told]
    exact hok outcome rest hended

/-- A step that fails the condition makes an alert false, or leaves an error after a save that
succeeded. -/
theorem AlertsTrue.ownFailures (h : AlertsTrue x'.1) (htold : ErrorTold x)
    (hst : LTS.recorded Screen.step hasFailed x e = some x') : OwnFailures x e := by
  obtain ⟨s', hs', rfl⟩ := Option.map_eq_some_iff.1 hst
  rcases e with (_ | _ | _ | _ | _ | ⟨p, _ | _ | _⟩) | _ | _ <;> try trivial
  · obtain ⟨store, hstore, rfl⟩ := Screen.of_step_act hs'
    obtain ⟨herror, hsucceeded⟩ := error_saved hstore
    have hnone := h.errors
    simp only [if_pos hsucceeded, List.forall_mem_cons] at hnone
    exact htold.error_eq_none.1 (herror ▸ hnone.1)
  · intro outcome rest hended
    obtain ⟨outcome', rest', hended', rfl⟩ := Screen.of_step_goOn hs'
    cases hended.symm.trans hended'
    rw [← htold.told]
    exact h.alerts _ List.mem_cons_self

/-! ### Runs -/

/-- The store of the screen is the transcript store. -/
theorem Screen.store_reachable (h : transcriptScreen.Reachable x) :
    transcriptStore.Reachable x.1.store := by
  refine h.invariant (I := fun x => transcriptStore.Reachable x.1.store) ?_
    fun x e x' hx hst => ?_
  · rintro x rfl
    exact .start rfl
  · obtain ⟨s', hs', rfl⟩ := Option.map_eq_some_iff.1 hst
    cases e with
    | act l =>
      obtain ⟨store, hstore, rfl⟩ := Screen.of_step_act hs'
      exact hx.step hstore
    | onSave => cases hs'; exact hx.step (l := .saveEdits) rfl
    | goOn =>
      obtain ⟨outcome, rest, -, rfl⟩ := Screen.of_step_goOn hs'
      exact hx

/-- **When the save alert tells the truth.**  All along a run of loads, edits and saves the alert is
shown exactly after the saves that failed, and no error is left by one that succeeded, exactly if
nothing has failed since the last load when a save succeeds, and something has failed since then
when `onSave` goes on exactly if its own save has. -/
theorem alerts_true_iff {tr : List ((Screen × Bool) × ScreenEvent)}
    (h : transcriptScreen.Run tr x) :
    ((∀ y ∈ tr, AlertsTrue y.1.1) ∧ AlertsTrue x.1) ↔ ∀ y ∈ tr, OwnFailures y.1 y.2 := by
  refine h.visited_iff (I := fun y => AlertsTrue y.1 ∧ ErrorTold y) (P := fun y => AlertsTrue y.1)
    ?_ (fun y hy => hy.1) (fun y e y' hy hst hok => ⟨hy.1.step hy.2 hst hok, hy.2.step hst⟩)
    fun y e y' hy hst halerts => halerts.ownFailures hy.2 hst
  rintro y rfl
  exact ⟨⟨fun a ha => by simp [Screen.init] at ha, fun e he => by simp [Screen.init] at he⟩,
    rfl, by simp [Screen.init, init]⟩

/-- A save that fails and is not tried again. -/
def saveFails : List ScreenEvent :=
  [.act (.loadTranscript "a"), .act (.settle 0 (.transcript hello)),
    .act (.editSegment "seg-0" "good morning"), .onSave, .act (.settle 1 .failed), .goOn]

theorem alerts_true_iff_saveFails :
    ∃ tr x, transcriptScreen.Run tr x ∧ tr.map Prod.snd = saveFails ∧
      x.1.alerts = [(.failed, true)] ∧
      (((∀ y ∈ tr, AlertsTrue y.1.1) ∧ AlertsTrue x.1) ↔ ∀ y ∈ tr, OwnFailures y.1 y.2) := by
  have hrun : (LTS.exec (LTS.recorded Screen.step hasFailed) (.init, false) saveFails).map
      (fun x => x.1.alerts) = some [(.failed, true)] := by
    decide +kernel
  obtain ⟨x, hx, halerts⟩ := Option.map_eq_some_iff.1 hrun
  obtain ⟨tr, htr, hls⟩ := LTS.run_of_exec (LTS.Run.start (A := transcriptScreen) rfl) hx
  exact ⟨tr, x, htr, hls, halerts, alerts_true_iff htr⟩

/-- The save that failed is tried again and succeeds, and the alert is shown. -/
theorem alert_after_success :
    ¬ ∀ tr x, transcriptScreen.Run tr x → AlertsTrue x.1 := by
  intro h
  have hrun : (LTS.exec (LTS.recorded Screen.step hasFailed) (.init, false)
      (saveFails ++ [.onSave, .act (.settle 2 .saved), .goOn])).map (fun x => x.1.alerts) =
      some [(.succeeded, true), (.failed, true)] := by
    decide +kernel
  obtain ⟨x, hx, he⟩ := Option.map_eq_some_iff.1 hrun
  obtain ⟨tr, htr, -⟩ := LTS.run_of_exec (LTS.Run.start (A := transcriptScreen) rfl) hx
  have hlast : (SaveOutcome.succeeded, true) ∈ x.1.alerts := he ▸ List.mem_cons_self
  exact absurd ((h tr x htr).alerts _ hlast) (by simp)

end Transcript

end FCord
