import FCord.Upload.Ownership

/-!
# Rows that nobody will ever look at again

The recovery queries of `_drainQueue` select `completing`, `pending` and `retrying` rows.  A row
in status `uploading` is therefore looked after by its task only: a process that dies during a
transfer strands it (`stranded_by_kill`).  As long as no process dies, and no
write fails, while a row is `uploading`, no row is ever stranded
(`not_stranded_of_keepsUploading`).
-/

namespace FCord

/-- Where a task is while its row is `uploading`. -/
def TaskPc.sending : TaskPc → Bool
  | .writing _ (.uploading _) .resolved => true
  | .writing _ (.failed _) .pending => true
  | .writing _ (.retrying _ _) .pending => true
  | .writing _ .completing .pending => true
  | .starting _ _ => true
  | .transferring _ _ => true
  | .settled _ _ _ => true
  | _ => false

namespace UploadService

/-- A running `_processItem` or `_handleCompleting` works on the row. -/
def Owned (s : State) (row : RowId) : Prop :=
  (∃ p t, s.tasks.get? p = some t ∧ t.row = row ∧ t.pc ≠ .finishing) ∨
    ∃ p pc rest, s.drains.get? p = some (.handling row pc rest)

/-- Every row is finished, owned, or selected by a query of `_drainQueue`. -/
def NotStranded (s : State) : Prop :=
  ∀ row st, statusOf s.rows row = some st →
    (st = .done ∨ st = .failed ∨ st = .cancelled) ∨ Owned s row ∨
      (st = .completing ∨ st = .pending ∨ st = .retrying)

/-- The process does not die, and no awaited write fails, while the row concerned is
`uploading`. -/
def KeepsUploading (s : State) : Label → Prop
  | .kill => ∀ row, statusOf s.rows row ≠ some .uploading
  | .reject => ∀ who row u jobs, s.writer = ⟨some who, .update row u⟩ :: jobs →
      statusOf s.rows row ≠ some .uploading
  | _ => True

theorem TaskTurn.sending {who : Owner} {row : RowId} {item : UploadQueueItem} {now : ℕ}
    {store : UploadQueueStore} {consent : ConsentEntry} {effects : List Effect}
    {pc pc' : TaskPc} (h : TaskTurn who row item now store consent pc pc' effects)
    (hpc : pc.sending = true) : pc'.sending = true := by
  cases h with
  | written hw => obtain ⟨error, rfl⟩ | ⟨attempts, error, rfl⟩ := hw <;> cases hpc
  | @writeFailed recording w => cases w <;> cases hpc
  | _ => first | rfl | cases hpc

/-- Every `uploading` row has its task. -/
def UploadingOwned (s : State) : Prop :=
  ∀ row, statusOf s.rows row = some .uploading →
    ∃ p t, s.tasks.get? p = some t ∧ t.row = row ∧ t.pc.sending = true

theorem UploadingOwned.notStranded {s : State} (h : UploadingOwned s) : NotStranded s := by
  intro row st hst
  cases st with
  | uploading =>
    obtain ⟨p, t, hp, hrow, hpc⟩ := h row hst
    refine .inr (.inl (.inl ⟨p, t, hp, hrow, ?_⟩))
    rintro he
    simp [he, TaskPc.sending] at hpc
  | _ => simp

namespace UploadingOwned

variable {s s' : State}

theorem processQueue (h : UploadingOwned s) : UploadingOwned s.processQueue := by
  unfold State.processQueue
  split_ifs
  · exact h
  · exact h

theorem setTask (h : UploadingOwned s) {p : Pid} {t t' : Task} (hp : s.tasks.get? p = some t)
    (hrow : t'.row = t.row) (hpc : t.pc.sending = true → t'.pc.sending = true) :
    UploadingOwned { s with tasks := s.tasks.set p t' } := by
  intro row hst
  obtain ⟨q, u, hq, rfl, hu⟩ := h row hst
  by_cases he : q = p
  · subst he
    rw [hp] at hq
    cases hq
    exact ⟨q, t', Table.get?_set_self hp, hrow, hpc hu⟩
  · exact ⟨q, u, (Table.get?_set_of_ne he).trans hq, rfl, hu⟩

theorem eraseTask (h : UploadingOwned s) {p : Pid} {t : Task} (hp : s.tasks.get? p = some t)
    (hpc : t.pc.sending = false) : UploadingOwned { s with tasks := s.tasks.erase p } := by
  intro row hst
  obtain ⟨q, u, hq, rfl, hu⟩ := h row hst
  refine ⟨q, u, ?_, rfl, hu⟩
  have hne : q ≠ p := by
    rintro rfl
    rw [hp] at hq
    cases hq
    simp [hpc] at hu
  simp [Table.get?_erase, hne, hq]

/-- A write by somebody else than the task on `row`. -/
theorem other (h : UploadingOwned s) {row : RowId} {owner : Option Owner} (promise : Promise)
    (hst : statusOf s.rows row = some .uploading)
    (howner : ∀ p t, owner = some (.task p) → s.tasks.get? p = some t → t.row ≠ row) :
    ∃ p t, (s.settle promise owner).tasks.get? p = some t ∧ t.row = row ∧
      t.pc.sending = true := by
  obtain ⟨q, u, hq, rfl, hu⟩ := h row hst
  refine ⟨q, u, ?_, rfl, hu⟩
  have hne : owner ≠ some (.task q) := fun he => howner q u he hq rfl
  rw [State.get?_settle_tasks, if_neg hne, hq]

theorem commit (h : UploadingOwned s) (ho : Ownership s) {job : Job} (hj : JobOf s job)
    {newId : RowId} (hnew : newId ∉ s.rows.keys) {r : RowId}
    (hst : statusOf (job.action.run s.now newId s.rows) r = some .uploading) :
    ∃ p t, (s.settle .resolved job.owner).tasks.get? p = some t ∧ t.row = r ∧
      t.pc.sending = true := by
  cases hj with
  | progress row loaded =>
    rw [Action.run, statusOf_modify_of_none rfl] at hst
    exact h.other _ hst (by simp)
  | create hp =>
    rcases of_statusOf_push hnew hst with he | hst
    · cases he
    · exact h.other _ hst (by simp)
  | reset hp =>
    rcases of_statusOf_modify hst with ⟨old, -, -, he⟩ | ⟨-, hst⟩
    · cases he
    · exact h.other _ hst (by simp)
  | @task p row id recording w hp =>
    rcases of_statusOf_modify hst with ⟨old, rfl, hold, he⟩ | ⟨hr, hst⟩
    · -- the task makes its row `uploading`, or the row is `uploading` already
      have hfits := ho.tasks p _ old hp hold
      refine ⟨p, Task.settle .resolved ⟨_, id, .writing recording w .pending⟩, ?_, rfl, ?_⟩
      · rw [State.get?_settle_tasks, if_pos rfl, hp]
        rfl
      · cases w with
        | uploading url => rfl
        | session sessionId url =>
          cases he
          simp [TaskPc.Fits] at hfits
        | _ => cases he
    · refine h.other _ hst fun q t hq ht => ?_
      cases hq
      cases hp.symm.trans ht
      exact fun he => hr he.symm
  | @taskDone p row id conflict serverId hp =>
    rcases of_statusOf_modify hst with ⟨old, -, -, he⟩ | ⟨hr, hst⟩
    · cases he
    · refine h.other _ hst fun q t hq ht => ?_
      cases hq
      cases hp.symm.trans ht
      exact fun he => hr he.symm
  | drainDone hp =>
    rcases of_statusOf_modify hst with ⟨old, -, -, he⟩ | ⟨-, hst⟩
    · cases he
    · exact h.other _ hst (by simp)

theorem reject (h : UploadingOwned s) {job : Job} {jobs : List Job}
    (hw : s.writer = job :: jobs) (hj : JobOf s job) (hok : KeepsUploading s .reject) :
    UploadingOwned ({ s with writer := jobs }.settle .rejected job.owner) := by
  intro r hst
  rw [State.settle_rows] at hst
  have hkeep : ∀ p t, job.owner = some (.task p) → s.tasks.get? p = some t → t.row ≠ r := by
    rintro p t howner ht rfl
    cases hj with
    | task hp =>
      cases howner
      cases hp.symm.trans ht
      exact hok _ _ _ _ hw hst
    | taskDone hp =>
      cases howner
      cases hp.symm.trans ht
      exact hok _ _ _ _ hw hst
    | _ => cases howner
  have := h.other .rejected hst hkeep
  simpa only [State.get?_settle_tasks] using this

theorem move (h : UploadingOwned s) (hs : Slots s) (hwriter : Writer s) (ho : Ownership s)
    {l : Label} (hok : KeepsUploading s l) (hm : Move s l s') : UploadingOwned s' := by
  cases hm with
  | wake listening => exact processQueue (s := { s with listening := listening }) h
  | @start o p row item hp hrow =>
    intro r hst
    obtain ⟨q, u, hq, hu⟩ := h r hst
    have hne : q ≠ s.nextPid := fun he => hs.nextPid_fresh_task (he ▸ Table.mem_keys_of_get? hq)
    refine ⟨q, u, ?_, hu⟩
    simp [State.testSlots, State.startTask, Table.get?_push hs.nextPid_fresh_task, hne, hq]
  | @task l p t pc effects hp ht =>
    obtain ⟨item, hrow, -⟩ := hs.taskRows p t hp
    exact setTask (s := s.perform (.task p) effects) h hp rfl (ht item hrow).sending
  | @finish p t hp hpc =>
    exact processQueue (s := { s with
      store := s.store.removeActiveUpload t.recordingId, tasks := s.tasks.erase p })
      (h.eraseTask hp (by simp [hpc, TaskPc.sending]))
  | @wakeCall p pc hp hpc => exact processQueue (s := s.endCall p) h
  | @commit newId job jobs hw hnew =>
    intro r hst
    rw [State.settle_rows] at hst
    have := h.commit ho (hwriter.jobOf (hw ▸ List.mem_cons_self)) hnew hst
    simpa only [State.get?_settle_tasks] using this
  | reject hw => exact h.reject hw (hwriter.jobOf (hw ▸ List.mem_cons_self)) hok
  | kill => exact fun r hst => absurd hst (hok r)
  | _ => exact h

/-- Runs that keep the condition keep the owners. -/
theorem of_reachable (h : (uploadService.guard KeepsUploading).Reachable s) :
    UploadingOwned s := by
  refine h.invariant_of ?_ fun s l s' hr hu hst => ?_
  · rintro s ⟨consent, now, rfl⟩ row hst
    cases hst
  · have hr := hr.of_guard
    exact hu.move (.of_reachable hr) (.of_reachable hr) (.of_reachable hr) hst.1 (.of_step hst.2)

end UploadingOwned

/-- A new process owns nothing yet. -/
theorem not_owned_kill (s : State) (row : RowId) : ¬ Owned s.kill row := by
  rintro (⟨p, t, hp, -⟩ | ⟨p, pc, rest, hp⟩)
  · cases hp
  · have hp : (Table.push .empty s.nextPid .queryCompleting).get? p =
        some (DrainPc.handling row pc rest) := hp
    rcases Table.of_get?_push List.not_mem_nil hp with ⟨-, he⟩ | ⟨-, hp⟩
    · cases he
    · cases hp

/-- A kill strands exactly the rows that are `uploading`. -/
theorem notStranded_kill_iff (s : State) :
    NotStranded s.kill ↔ ∀ row, statusOf s.rows row ≠ some .uploading := by
  constructor
  · intro h row hst
    obtain he | ho | he := h row _ hst
    · simp at he
    · exact not_owned_kill s row ho
    · simp at he
  · intro h row st hst
    cases st with
    | uploading => exact absurd hst (h row)
    | _ => simp

/-- **No row is stranded as long as the process does not die, and no awaited write fails,
while the row is `uploading`.**  A kill strands a row exactly if it is `uploading`. -/
theorem not_stranded_of_keepsUploading {s : State}
    (h : (uploadService.guard KeepsUploading).Reachable s) :
    NotStranded s ∧
      (NotStranded s.kill ↔ ∀ row, statusOf s.rows row ≠ some .uploading) :=
  ⟨(UploadingOwned.of_reachable h).notStranded, notStranded_kill_iff s⟩

/-- A recording on the device. -/
def meeting : LocalRecording where
  title := "회의"
  filePath := "file:///data/a.m4a"
  fileSizeBytes := 10
  checksumSha256 := "c0ffee"
  serverRecordingId := some "srv-a"

/-- A recording is enqueued, and its transfer is under way. -/
def transferUnderWay : List Label :=
  [.enqueueUpload "a" 10, .commit "q1", .resume (.call 0) .ok,
    .query 1, .resume (.drain 1) .ok, .query 1, .resume (.drain 1) .ok, .resume (.drain 1) .ok,
    .resume (.task 2) (.found (some meeting)),
    .resume (.task 2) (.presigned "session" "https://bucket/put" 3600), .commit "q2",
    .resume (.task 2) .ok, .commit "q2", .resume (.task 2) .ok, .resume (.task 2) .ok]

theorem keepsUploading_of_ne {s : State} {l : Label} (h : l ≠ .kill ∧ l ≠ .reject) :
    KeepsUploading s l := by
  cases l with
  | kill => exact absurd rfl h.1
  | reject => exact absurd rfl h.2
  | _ => trivial

/-- While that transfer is under way, nothing is stranded, but a kill would strand its row. -/
theorem not_stranded_of_keepsUploading_transferUnderWay :
    ∃ s ∈ LTS.exec step (init .missing 0) transferUnderWay, NotStranded s ∧
      (NotStranded s.kill ↔ ∀ row, statusOf s.rows row ≠ some .uploading) := by
  have hls : ∀ l ∈ transferUnderWay, l ≠ .kill ∧ l ≠ .reject := by decide
  obtain ⟨s, hs⟩ := Option.isSome_iff_exists.1
    (show (LTS.exec step (init .missing 0) transferUnderWay).isSome by decide +kernel)
  exact ⟨s, hs, not_stranded_of_keepsUploading
    (guard_reachable_of_exec transferUnderWay hs fun l hl _ => keepsUploading_of_ne (hls l hl))⟩

/-- A process that is killed during a transfer leaves its row behind. -/
theorem stranded_by_kill : ¬ ∀ s, uploadService.Reachable s → NotStranded s := by
  intro h
  have hst : (LTS.exec step (init .missing 0) transferUnderWay).bind
      (fun s => statusOf s.rows "q1") = some .uploading := by decide +kernel
  obtain ⟨s, hs, hst⟩ := Option.bind_eq_some_iff.1 hst
  have hkill : uploadService.Reachable s.kill :=
    (reachable_of_exec transferUnderWay hs).step (l := .kill) rfl
  exact (notStranded_kill_iff s).1 (h _ hkill) "q1" hst

end UploadService

end FCord
