import FCord.Upload.Stranding

/-!
# The state machine of the queue rows

`QueueMove` lists the status changes that the upload queue is meant to make, with the two repeats
that leave a status as it is.  Status is written from seven places, several of which test it before
an await and write afterwards; whatever they interleave, every write is a move of the machine
(`rows_follow_state_machine`), so the service refines it (`refines_queueMachine`).
-/

namespace FCord

/-- The moves of the state machine, and its two repeats. -/
inductive QueueMove : UploadQueueStatus → UploadQueueStatus → Prop
  | start {st : UploadQueueStatus} (h : st = .pending ∨ st = .retrying) : QueueMove st .uploading
  | giveUp {st : UploadQueueStatus} (h : st = .pending ∨ st = .retrying ∨ st = .uploading) :
      QueueMove st .failed
  | retry : QueueMove .uploading .retrying
  | complete : QueueMove .uploading .completing
  | finish : QueueMove .completing .done
  | reset : QueueMove .failed .pending
  | pendingAgain : QueueMove .pending .pending
  | doneAgain : QueueMove .done .done

theorem QueueMove.of_uploading {st : UploadQueueStatus} (h : QueueMove .uploading st) :
    st = .completing ∨ st = .retrying ∨ st = .failed := by
  cases h with
  | start h => simp at h
  | giveUp h => exact .inr (.inr rfl)
  | retry => exact .inr (.inl rfl)
  | complete => exact .inl rfl

theorem QueueMove.of_done {st : UploadQueueStatus} (h : QueueMove .done st) : st = .done := by
  cases h with
  | start h => simp at h
  | giveUp h => simp at h
  | doneAgain => rfl

namespace UploadService

/-- The status that a step writes, and the row it writes it to. -/
def statusWrite (s : State) : Label → Option (RowId × UploadQueueStatus)
  | .commit _ =>
    match s.writer with
    | ⟨_, .update row u⟩ :: _ => u.status?.map fun st => (row, st)
    | _ => none
  | _ => none

/-- The call whose write the database performs next. -/
def nextWriter (s : State) : Option Owner := s.writer.head?.bind PromiseQueue.Job.owner

section Writes

variable {s s' : State} {l : Label} {row : RowId} {st st' : UploadQueueStatus}

theorem statusWrite_eq_some (h : statusWrite s l = some (row, st')) :
    ∃ newId owner u jobs, l = .commit newId ∧ s.writer = ⟨owner, .update row u⟩ :: jobs ∧
      u.status? = some st' := by
  unfold statusWrite at h
  split at h
  · split at h
    · rename_i newId _ owner r u jobs hw
      obtain ⟨x, hu, he⟩ := Option.map_eq_some_iff.1 h
      cases he
      exact ⟨newId, owner, u, jobs, rfl, hw, hu⟩
    · cases h
  · cases h

/-- **Every job that writes a status makes a move of the machine.** -/
theorem Ownership.queueMove (h : Ownership s) {job : Job} (hm : job ∈ s.writer)
    (hj : JobOf s job) {u : Update} (ha : job.action = .update row u) (hu : u.status? = some st')
    (hst : statusOf s.rows row = some st) : QueueMove st st' := by
  cases hj with
  | progress r loaded =>
    cases ha
    cases hu
  | create hp => cases ha
  | reset hp =>
    -- the test of `retryUpload` still holds, or another one has reset the row already
    cases ha
    cases hu
    rcases h.resets _ hm _ rfl with hr | hr
    · cases hst.symm.trans hr
      exact .reset
    · cases hst.symm.trans hr
      exact .pendingAgain
  | @task p r id recording w hp =>
    cases ha
    have hfits := h.tasks p _ st hp hst
    cases w with
    | session sessionId url => cases hu
    | uploading url => cases hu; exact .start hfits
    | failed error => cases hu; exact .giveUp hfits
    | retrying attempts error => cases hu; cases hfits; exact .retry
    | completing => cases hu; cases hfits; exact .complete
  | taskDone hp =>
    cases ha
    cases hu
    obtain rfl | rfl := h.tasks _ _ st hp hst
    · exact .finish
    · exact .doneAgain
  | drainDone hp =>
    -- the drain works on a snapshot, but the row has at most become `done` since
    cases ha
    cases hu
    rcases h.transferred hp with hr | hr
    · cases hst.symm.trans hr
      exact .finish
    · cases hst.symm.trans hr
      exact .doneAgain

/-- Only the task of an `uploading` row writes its status. -/
theorem Ownership.uploading_writer (h : Ownership s) {job : Job} (hm : job ∈ s.writer)
    (hj : JobOf s job) {u : Update} (ha : job.action = .update row u) (hu : u.status? = some st')
    (hst : statusOf s.rows row = some .uploading) :
    ∃ p t, job.owner = some (.task p) ∧ s.tasks.get? p = some t ∧ t.row = row := by
  cases hj with
  | progress r loaded =>
    cases ha
    cases hu
  | create hp => cases ha
  | reset hp =>
    cases ha
    have := h.resets _ hm _ rfl
    simp [hst] at this
  | task hp =>
    cases ha
    exact ⟨_, _, rfl, hp, rfl⟩
  | taskDone hp =>
    cases ha
    exact ⟨_, _, rfl, hp, rfl⟩
  | drainDone hp =>
    cases ha
    have := h.transferred hp
    simp [Transferred, hst] at this

/-- What a write does to the status of a row. -/
theorem statusOf_run {now : ℕ} {newId : RowId} {rows : Table RowId UploadQueueItem}
    {action : Action} (hnew : newId ∉ rows.keys) (hst : statusOf rows row = some st) :
    statusOf (action.run now newId rows) row =
      some (match action with
        | .create _ _ => st
        | .update r u => if row = r then u.status?.getD st else st) := by
  cases action with
  | create recordingId bytesTotal => exact statusOf_push_of_some hnew hst
  | update r u =>
    simp only [Action.run, statusOf_modify, hst]
    split_ifs <;> rfl

theorem Move.rows_eq (hm : Move s l s') : (∃ newId, l = .commit newId) ∨ s'.rows = s.rows := by
  cases hm with
  | wake listening => exact .inr (by simp)
  | finish hp hpc => exact .inr (by simp [State.finishTask])
  | wakeCall hp hpc => exact .inr (by simp [State.endCall])
  | commit hw hnew => exact .inl ⟨_, rfl⟩
  | reject hw => exact .inr (by simp)
  | kill => exact .inr (by simp [State.kill, State.initQueue, State.die])
  | _ => exact .inr rfl

/-- A step performs the next write, or it changes no row. -/
theorem step_rows (hst : step s l = some s') :
    (∃ newId job jobs, l = .commit newId ∧ s.writer = job :: jobs ∧ newId ∉ s.rows.keys ∧
      s'.rows = job.action.run s.now newId s.rows) ∨
    statusWrite s l = none ∧ s'.rows = s.rows := by
  cases l with
  | commit newId =>
    left
    simp only [step, State.commit] at hst
    split at hst
    · cases hst
    · rename_i job jobs hw
      split_ifs at hst with hnew
      cases hst
      exact ⟨newId, job, jobs, rfl, hw, hnew, by simp⟩
  | _ =>
    refine .inr ⟨rfl, ?_⟩
    rcases (Move.of_step hst).rows_eq with ⟨newId, he⟩ | he
    · cases he
    · exact he

/-- A written status is a move of the machine, and the row has it afterwards. -/
theorem status_written (hr : uploadService.Reachable s) (hst : step s l = some s')
    (hold : statusOf s.rows row = some st) (hw : statusWrite s l = some (row, st')) :
    QueueMove st st' ∧ statusOf s'.rows row = some st' := by
  obtain ⟨newId, owner, u, jobs, rfl, hwriter, hu⟩ := statusWrite_eq_some hw
  have hm : ⟨owner, .update row u⟩ ∈ s.writer := hwriter ▸ List.mem_cons_self
  refine ⟨(Ownership.of_reachable hr).queueMove hm ((Writer.of_reachable hr).jobOf hm) rfl hu hold,
    ?_⟩
  rcases step_rows hst with ⟨_, job, _, he, hwriter', hnew, hrows⟩ | ⟨hnone, -⟩
  · cases he
    cases hwriter.symm.trans hwriter'
    rw [hrows, statusOf_run hnew hold]
    simp [hu]
  · rw [hw] at hnone
    cases hnone

/-- Without such a write the status of a row stays. -/
theorem status_kept (hst : step s l = some s') (hold : statusOf s.rows row = some st)
    (hw : ∀ st', statusWrite s l ≠ some (row, st')) : statusOf s'.rows row = some st := by
  rcases step_rows hst with ⟨newId, ⟨owner, action⟩, jobs, rfl, hwriter, hnew, hrows⟩ | ⟨-, hrows⟩
  · rw [hrows, statusOf_run hnew hold]
    cases action with
    | create recordingId bytesTotal => rfl
    | update r u =>
      simp only
      split_ifs with he
      · cases hu : u.status? with
        | none => rfl
        | some st' => exact absurd (by simp [statusWrite, hwriter, hu, he]) (hw st')
      · rfl
  · rw [hrows]
    exact hold

/-- A new row is `pending`. -/
theorem status_created (hst : step s l = some s') (hold : statusOf s.rows row = none) :
    statusOf s'.rows row = none ∨ statusOf s'.rows row = some .pending := by
  rcases step_rows hst with ⟨newId, ⟨owner, action⟩, jobs, rfl, hwriter, hnew, hrows⟩ | ⟨-, hrows⟩
  · rw [hrows]
    cases action with
    | create recordingId bytesTotal =>
      simp only [Action.run, statusOf_push hnew]
      split_ifs
      · exact .inr rfl
      · exact .inl hold
    | update r u =>
      simp only [Action.run, statusOf_modify, hold]
      split_ifs <;> exact .inl rfl
  · rw [hrows]
    exact .inl hold

/-- The two ways in which the status of a row goes on. -/
theorem status_cases (hr : uploadService.Reachable s) (hst : step s l = some s')
    (hold : statusOf s.rows row = some st) :
    statusOf s'.rows row = some st ∨
      ∃ st', statusWrite s l = some (row, st') ∧ QueueMove st st' ∧
        statusOf s'.rows row = some st' := by
  by_cases hw : ∃ st', statusWrite s l = some (row, st')
  · obtain ⟨st', hw⟩ := hw
    exact .inr ⟨st', hw, status_written hr hst hold hw⟩
  · exact .inl (status_kept hst hold (not_exists.1 hw))

end Writes

/-- **Queue rows follow the state machine.**  In every reachable state and for every step: a write
of a status is a move of the machine, and the status of a row changes by such a write only; `done`
stays; an `uploading` row is moved by the task that works on it only, to `completing`, `retrying` or
`failed`; and a new row is `pending`. -/
theorem rows_follow_state_machine {s s' : State} {l : Label} (hr : uploadService.Reachable s)
    (hst : step s l = some s') (row : RowId) :
    (∀ st st', statusOf s.rows row = some st → statusWrite s l = some (row, st') →
      QueueMove st st' ∧ statusOf s'.rows row = some st') ∧
    (∀ st, statusOf s.rows row = some st → (∀ st', statusWrite s l ≠ some (row, st')) →
      statusOf s'.rows row = some st) ∧
    (statusOf s.rows row = some .done → statusOf s'.rows row = some .done) ∧
    (statusOf s.rows row = some .uploading → statusOf s'.rows row ≠ some .uploading →
      (∃ p t, nextWriter s = some (.task p) ∧ s.tasks.get? p = some t ∧ t.row = row) ∧
        (statusOf s'.rows row = some .completing ∨ statusOf s'.rows row = some .retrying ∨
          statusOf s'.rows row = some .failed)) ∧
    (statusOf s.rows row = none → statusOf s'.rows row = none ∨
      statusOf s'.rows row = some .pending) := by
  refine ⟨fun st st' hold hw => status_written hr hst hold hw,
    fun st hold hw => status_kept hst hold hw, fun hold => ?_, fun hold hmoved => ?_,
    status_created hst⟩
  · rcases status_cases hr hst hold with he | ⟨st', -, hmove, he⟩
    · exact he
    · rw [he, hmove.of_done]
  · rcases status_cases hr hst hold with he | ⟨st', hw, hmove, he⟩
    · exact absurd he hmoved
    · obtain ⟨newId, owner, u, jobs, rfl, hwriter, hu⟩ := statusWrite_eq_some hw
      have hm : ⟨owner, .update row u⟩ ∈ s.writer := hwriter ▸ List.mem_cons_self
      obtain ⟨p, t, howner, hp, hrow⟩ := (Ownership.of_reachable hr).uploading_writer hm
        ((Writer.of_reachable hr).jobOf hm) rfl hu hold
      refine ⟨⟨p, t, ?_, hp, hrow⟩, ?_⟩
      · simpa [nextWriter, hwriter] using howner
      · rw [he]
        simpa using hmove.of_uploading

/-- A transfer ends, and the task waits for its `completing` write. -/
def transferEnds : List Label :=
  transferUnderWay ++ [.native 2 (.completed 200), .resume (.task 2) .ok]

theorem rows_follow_state_machine_transferEnds :
    ∃ s ∈ LTS.exec step (init .missing 0) transferEnds, ∃ s' ∈ step s (.commit "q2"),
      statusOf s.rows "q1" = some .uploading ∧
        statusWrite s (.commit "q2") = some ("q1", .completing) ∧
        statusOf s'.rows "q1" = some .completing := by
  have hrun : (LTS.exec step (init .missing 0) transferEnds).bind (fun s =>
      (step s (.commit "q2")).map fun _ =>
        (statusOf s.rows "q1", statusWrite s (.commit "q2"))) =
      some (some .uploading, some ("q1", .completing)) := by decide +kernel
  obtain ⟨s, hs, hrun⟩ := Option.bind_eq_some_iff.1 hrun
  obtain ⟨s', hst, he⟩ := Option.map_eq_some_iff.1 hrun
  obtain ⟨hold, hw⟩ := Prod.mk.inj he
  have hmove :=
    (rows_follow_state_machine (reachable_of_exec transferEnds hs) hst "q1").1 _ _ hold hw
  exact ⟨s, hs, s', hst, hold, hw, hmove.2⟩

/-! ### Refinement -/

/-- The queue as its documentation describes it: rows are created `pending` and make moves. -/
def queueMachine : LTS (RowId → Option UploadQueueStatus) (RowId × UploadQueueStatus) where
  start status := status = fun _ => none
  step status l status' := status' = Function.update status l.1 (some l.2) ∧
    ((status l.1 = none ∧ l.2 = .pending) ∨ ∃ st, status l.1 = some st ∧ QueueMove st l.2)

/-- **The service refines the state machine of its rows.** -/
theorem refines_queueMachine :
    uploadService.Refines queueMachine fun s => statusOf s.rows where
  start := by
    rintro s ⟨consent, now, rfl⟩
    funext row
    rfl
  step s l s' hr hst := by
    rcases step_rows hst with ⟨newId, ⟨owner, action⟩, jobs, rfl, hwriter, hnew, hrows⟩ | ⟨-, hrows⟩
    · have hm : ⟨owner, action⟩ ∈ s.writer := hwriter ▸ List.mem_cons_self
      have hnone : statusOf s.rows newId = none := by
        rw [statusOf, Table.get?_eq_none_iff.2 hnew]
        rfl
      cases action with
      | create recordingId bytesTotal =>
        refine .inr ⟨(newId, .pending), funext fun row => ?_, .inl ⟨hnone, rfl⟩⟩
        rw [hrows, Action.run, statusOf_push hnew, Function.update_apply]
        rfl
      | update r u =>
        -- a write without a status, or to no row, is no step of the machine
        by_cases hwrite : ∃ st st', statusOf s.rows r = some st ∧ u.status? = some st'
        · obtain ⟨st, st', hold, hu⟩ := hwrite
          have hmove := (Ownership.of_reachable hr).queueMove hm
            ((Writer.of_reachable hr).jobOf hm) rfl hu hold
          refine .inr ⟨(r, st'), funext fun row => ?_, .inr ⟨st, hold, hmove⟩⟩
          rw [hrows, Action.run, statusOf_modify, Function.update_apply]
          split_ifs with he
          · simp [he, hold, hu]
          · rfl
        · refine .inl (funext fun row => ?_)
          rw [hrows, Action.run, statusOf_modify]
          split_ifs with he
          · subst he
            cases hold : statusOf s.rows row with
            | none => rfl
            | some st =>
              cases hu : u.status? with
              | none => rfl
              | some st' => exact absurd ⟨st, st', hold, hu⟩ hwrite
          · rfl
    · exact .inl (by rw [hrows])

end UploadService

end FCord
