import FCord.Upload.Backoff
import Mathlib.Data.List.Perm.Subperm

/-!
# Draining the queue

`processQueue` starts tasks on ready rows, and the end of a task calls `processQueue` again.  While
the clock stands still and nothing is enqueued or retried, this comes to an end because a task
leaves its row in a status that is not ready: then no row is started twice
(`queue_drains_iff`).  A task that does not find its recording, or whose first write of a status
is refused, returns and leaves the row as it was; a recording without a server id keeps the queue
busy for ever (`queue_never_drains`).
-/

namespace FCord

/-- The task may still return and leave its row as it is. -/
def TaskPc.undecided : TaskPc → Bool
  | .findRecording => true
  | .presigning _ _ => true
  | .writing _ (.session _ _) _ => true
  | .writing _ (.uploading _) _ => true
  | .writing _ (.failed _) .pending => true
  | .writing _ (.failed _) .rejected => true
  | _ => false

theorem TaskPc.undecided_rejected {pc : TaskPc} :
    (pc.settle .rejected).undecided = pc.undecided := by
  unfold TaskPc.settle
  split
  · rename_i w
    cases w <;> rfl
  · rfl
  · rfl

namespace UploadService

/-- The row may take an upload slot now. -/
def State.isReady (s : State) (row : RowId) : Bool :=
  match s.rows.get? row with
  | none => false
  | some item => isQueueItemReady s.now item.status item.nextRetryAt

/-- A step of the cascade: the clock stands still, nothing is enqueued or manually retried, and the
process lives on. -/
structure Calm (s : State) (l : Label) : Prop where
  clock : ∀ ms, l = .tick ms → ms = 0
  renewal : renewal s l = none
  alive : l ≠ .kill

/-- Every `_processItem` started since the process id `n` leaves its row in a status that is not
ready. -/
def LeavesUnready (n : Pid) (s : State) : Prop :=
  ∀ p t, s.tasks.get? p = some t → n ≤ p → t.pc = .finishing → s.isReady t.row = false

/-- No `_processItem` started since the process id `n` returns in this step because its recording
is missing or has no server id, or because the write that should take its row out of `pending` or
`retrying` has failed. -/
structure Progresses (n : Pid) (s : State) (l : Label) : Prop where
  found : ∀ p t recording, l = .resume (.task p) (.found recording) → s.tasks.get? p = some t →
    n ≤ p → t.pc = .findRecording → withServerId recording ≠ none
  uploading : ∀ p t recording url, l = .resume (.task p) .error → s.tasks.get? p = some t →
    n ≤ p → t.pc ≠ .writing recording (.uploading url) .rejected
  failed : ∀ p t recording error, l = .resume (.task p) .error → s.tasks.get? p = some t →
    n ≤ p → t.pc = .writing recording (.failed error) .rejected →
      statusOf s.rows t.row ≠ some .pending ∧ statusOf s.rows t.row ≠ some .retrying

/-- The rows on which a task was started. -/
def startedRows (tr : List (State × Label)) : List RowId :=
  tr.filterMap fun x => taskStart x.1 x.2

/-! ### What a task has made of its row -/

/-- A row is ready while its task has not decided, and not afterwards. -/
structure Decided (now : ℕ) (item : UploadQueueItem) (pc : TaskPc) : Prop where
  undecided : pc.undecided = true → item.status = .pending ∨ item.status = .retrying →
    isQueueItemReady now item.status item.nextRetryAt = true
  decided : pc.undecided = false → isQueueItemReady now item.status item.nextRetryAt = false

/-- A row with another status is not ready. -/
theorem not_ready_of_status {now : ℕ} {st : UploadQueueStatus} {t : Option ℕ}
    (hp : st ≠ .pending) (hr : st ≠ .retrying) : isQueueItemReady now st t = false := by
  cases st <;> first | rfl | exact absurd rfl hp | exact absurd rfl hr

namespace Decided

variable {now : ℕ} {item item' : UploadQueueItem} {pc pc' : TaskPc}

/-- The row is neither `pending` nor `retrying`. -/
theorem of_status (hp : item.status ≠ .pending) (hr : item.status ≠ .retrying) :
    Decided now item pc :=
  ⟨fun _ hw => absurd hw (not_or.2 ⟨hp, hr⟩), fun _ => not_ready_of_status hp hr⟩

theorem congr (h : Decided now item pc) (hst : item'.status = item.status)
    (hnext : item'.nextRetryAt = item.nextRetryAt) (hpc : pc'.undecided = pc.undecided) :
    Decided now item' pc' := by
  constructor <;> rw [hst, hnext, hpc]
  · exact h.undecided
  · exact h.decided

/-- The write that the task waits for lands. -/
theorem written {recording : LocalRecording} {w : TaskWrite}
    (h : Decided now item (.writing recording w .pending)) :
    Decided now (w.update.apply now item) (.writing recording w .resolved) := by
  cases w with
  | session sessionId url => exact h.congr rfl rfl rfl
  | retrying n error =>
    refine ⟨by simp [TaskPc.undecided], fun _ => ?_⟩
    have := lt_calcNextRetryAt now n
    simpa [TaskWrite.update, Update.apply, isQueueItemReady, isRetryReady] using this
  | _ => exact of_status (by rintro ⟨⟩) (by rintro ⟨⟩)

end Decided

section Turns

variable {who : Owner} {row : RowId} {item : UploadQueueItem} {now : ℕ}
variable {store : UploadQueueStore} {consent : ConsentEntry} {effects : List Effect}
variable {pc pc' : TaskPc} {outcome : Outcome}

/-- The turns in which a task returns and leaves its row as it is. -/
theorem giveUp_of_processItem
    (h : processItem who row item now store consent pc outcome = some (.finishing, effects))
    (hu : pc.undecided = true) :
    (pc = .findRecording ∧ ∃ recording, outcome = .found recording ∧
      withServerId recording = none) ∨
    outcome = .error ∧ ((∃ recording url, pc = .writing recording (.uploading url) .rejected) ∨
      ∃ recording error, pc = .writing recording (.failed error) .rejected) := by
  unfold processItem at h
  split at h
  · split at h
    · rename_i hnone
      exact .inl ⟨rfl, _, rfl, hnone⟩
    · split_ifs at h
      · cases h
      · split at h <;> cases h
  · split_ifs at h <;> cases h
  · cases h
  · cases h
  · cases h
  · cases h
  · cases h
  · cases h
  · cases hu
  · cases hu
  · rename_i recording w hw
    cases w with
    | session sessionId url => exact absurd rfl (hw _ _)
    | uploading url => exact .inr ⟨rfl, .inl ⟨_, _, rfl⟩⟩
    | failed error => exact .inr ⟨rfl, .inr ⟨_, _, rfl⟩⟩
    | _ => cases hu
  · cases h
  · cases h
  · cases h
  · cases hu
  · cases h
  · cases hu
  · cases h

/-- A task decides when it starts its transfer. -/
theorem TaskTurn.undecided_eq (h : TaskTurn who row item now store consent pc pc' effects)
    (hfits : pc.Fits item.status) :
    pc'.undecided = pc.undecided ∨ item.status = .uploading ∨
      pc.undecided = true ∧ pc' = .finishing := by
  cases h with
  | skip => exact .inr (.inr ⟨rfl, rfl⟩)
  | start => exact .inr (.inl hfits)
  | giveUp hmax => exact .inr (.inl hfits)
  | written hw => rcases hw with ⟨error, rfl⟩ | ⟨n, error, rfl⟩ <;> exact .inl rfl
  | @writeFailed recording w =>
    cases w with
    | retrying n error => exact .inl rfl
    | completing => exact .inl rfl
    | _ => exact .inr (.inr ⟨rfl, rfl⟩)
  | @handler hpc next effects hh => cases next <;> exact .inl rfl
  | _ => exact .inl rfl

end Turns

section Steps

variable {s s' : State} {l : Label} {n : Pid} {row : RowId} {v v' : RowView}

/-- A task in its last turn has decided, if the step lets it progress. -/
theorem TurnBy.decided {p : Pid} {t : Task} {item : UploadQueueItem} {pc : TaskPc}
    {effects : List Effect} (ht : TurnBy s p t item l pc effects) (hp : s.tasks.get? p = some t)
    (hrow : s.rows.get? t.row = some item) (hfits : t.pc.Fits item.status) (hn : n ≤ p)
    (hok : Progresses n s l) (h : Decided s.now item t.pc) : Decided s.now item pc := by
  rcases ht.taskTurn.undecided_eq hfits with he | hst | ⟨hu, rfl⟩
  · exact h.congr rfl rfl he
  · exact .of_status (by simp [hst]) (by simp [hst])
  · cases ht with
    | event he => 
      unfold nativeEvent at he
      split at he <;> cases he
    | resumed he =>
      rcases giveUp_of_processItem he hu with
        ⟨hpc, recording, rfl, hnone⟩ | ⟨rfl, ⟨recording, url, hpc⟩ | ⟨recording, error, hpc⟩⟩
      · exact absurd hnone (hok.found p t recording rfl hp hn hpc)
      · exact absurd hpc (hok.uploading p t recording url rfl hp hn)
      · obtain ⟨hpending, hretrying⟩ := hok.failed p t recording error rfl hp hn hpc
        rw [statusOf_of_get? hrow] at hpending hretrying
        exact .of_status (fun he => hpending (congrArg some he))
          fun he => hretrying (congrArg some he)

/-- What the tasks started since `n` have made of their rows. -/
def Decisive (n : Pid) (s : State) : Prop :=
  ∀ row item p pc, (view s row).item = some item → (view s row).task = some (p, pc) → n ≤ p →
    Decided s.now item pc

/-- A step of the cascade keeps what the tasks have made of a row. -/
theorem RowMove.decided (hm : RowMove s l row v v') (hc : Calm s l) (hok : Progresses n s l)
    (hitem : ∀ item, v.item = some item → s.rows.get? row = some item)
    (hfits : ∀ item p pc, v.item = some item → v.task = some (p, pc) → pc.Fits item.status)
    (hready : ∀ p item, s.drains.get? p = some (.picked row) → v.item = some item →
      isQueueItemReady s.now item.status item.nextRetryAt = true)
    (h : ∀ item p pc, v.item = some item → v.task = some (p, pc) → n ≤ p →
      Decided s.now item pc) :
    ∀ item p pc, v'.item = some item → v'.task = some (p, pc) → n ≤ p → Decided s.now item pc := by
  intro item' q pc' hitem' hpc' hn
  cases hm with
  | same hapart => exact h item' q pc' hitem' hpc' hn
  | created hw => cases hpc'
  | reset hw hst => simpa [renewal, hw] using hc.renewal
  | @progress newId row loaded jobs item task hw =>
    cases item with
    | none => cases hitem'
    | some item =>
      cases hitem'
      exact (h item q pc' rfl hpc' hn).congr rfl rfl rfl
  | written hw =>
    cases hitem'
    cases hpc'
    exact (h _ _ _ rfl rfl hn).written
  | taskDone hw =>
    cases hitem'
    exact .of_status (by rintro ⟨⟩) (by rintro ⟨⟩)
  | drainDone hw hst =>
    cases hitem'
    exact .of_status (by rintro ⟨⟩) (by rintro ⟨⟩)
  | rejected hw howner hawait =>
    cases hpc'
    exact (h item' q _ hitem' rfl hn).congr rfl rfl TaskPc.undecided_rejected
  | started hp =>
    cases hitem'
    cases hpc'
    exact ⟨fun _ _ => hready _ _ hp rfl, fun hd => by cases hd⟩
  | turn hp hrow ht =>
    cases hitem'
    cases hpc'
    subst hrow
    exact ht.decided hp (hitem _ rfl) (hfits _ _ _ rfl rfl) hn hok (h _ _ _ rfl rfl hn)
  | finished hp hrow hpc => cases hpc'
  | killed => exact absurd rfl hc.alive

/-- The row is ready, and no task started since `n` works on it. -/
def Fresh (n : Pid) (now : ℕ) (v : RowView) : Prop :=
  (∃ item, v.item = some item ∧ isQueueItemReady now item.status item.nextRetryAt = true) ∧
    ∀ p pc, v.task = some (p, pc) → p < n

/-- A step of the cascade makes no row fresh. -/
theorem RowMove.fresh (hm : RowMove s l row v v') (hc : Calm s l) (hnext : n ≤ s.nextPid)
    (h : ∀ item p pc, v.item = some item → v.task = some (p, pc) → n ≤ p → Decided s.now item pc)
    (hfresh : Fresh n s.now v') : Fresh n s.now v ∧ taskStart s l ≠ some row := by
  obtain ⟨⟨item', hitem', hready⟩, hold⟩ := hfresh
  cases hm with
  | same hapart => exact ⟨⟨⟨item', hitem', hready⟩, hold⟩, hapart.start⟩
  | created hw => simpa [renewal, hw] using hc.renewal
  | reset hw hst => simpa [renewal, hw] using hc.renewal
  | @progress newId row loaded jobs item task hw =>
    cases item with
    | none => cases hitem'
    | some item =>
      cases hitem'
      exact ⟨⟨⟨item, rfl, hready⟩, hold⟩, by simp [taskStart]⟩
  | @written newId row p jobs item recording w hw =>
    cases hitem'
    have hp : p < n := hold _ _ rfl
    refine ⟨⟨⟨item, rfl, ?_⟩, fun q pc hq => by cases hq; exact hp⟩, by simp [taskStart]⟩
    cases w with
    | session sessionId url => exact hready
    | retrying k error =>
      -- the next attempt is due later
      have := lt_calcNextRetryAt s.now k
      simp [TaskWrite.update, Update.apply, isQueueItemReady, isRetryReady] at hready
      omega
    | _ => cases hready
  | taskDone hw =>
    cases hitem'
    cases hready
  | drainDone hw hst =>
    cases hitem'
    cases hready
  | rejected hw howner hawait =>
    exact ⟨⟨⟨item', hitem', hready⟩, fun q pc hq => by cases hq; exact hold _ _ rfl⟩,
      by simp [taskStart]⟩
  | started hp => exact absurd (hold _ _ rfl) (Nat.not_lt.2 hnext)
  | turn hp hrow ht =>
    refine ⟨⟨⟨item', hitem', hready⟩, fun q pc hq => by cases hq; exact hold _ _ rfl⟩, ?_⟩
    cases ht <;> simp [taskStart]
  | @finished p row item t hp hrow hpc =>
    refine ⟨⟨⟨item', hitem', hready⟩, fun q pc hq => ?_⟩, by simp [taskStart]⟩
    cases hq
    refine Nat.lt_of_not_le fun hn => ?_
    have hdone := (h item' _ _ hitem' rfl hn).decided rfl
    rw [hready] at hdone
    cases hdone
  | killed => exact absurd rfl hc.alive

end Steps

/-! ### The result -/

section Runs

variable {s₀ s s' : State} {l : Label} {n : Pid} {tr : List (State × Label)}

theorem Calm.now_eq (hc : Calm s l) (hst : step s l = some s') : s'.now = s.now := by
  rcases (Move.of_step hst).now_cases with he | ⟨ms, rfl, he⟩
  · exact he
  · rw [he, hc.clock ms rfl, Nat.add_zero]

theorem Decisive.step (h : Decisive n s) (hr : uploadService.Reachable s) (hc : Calm s l)
    (hok : Progresses n s l) (hst : UploadService.step s l = some s') : Decisive n s' := by
  intro row item p pc hitem hpc hn
  rw [hc.now_eq hst]
  refine (RowMove.of_step hr hst row).decided hc hok (fun _ h => h)
    (fun item p pc => (Ownership.of_reachable hr).view_fits) ?_ (h row) item p pc hitem hpc hn
  intro q item hq hitem
  obtain ⟨item', hrow, hready⟩ := picked_ready hr hq
  cases hrow.symm.trans hitem
  exact hready

theorem Decisive.leavesUnready (h : Decisive n s) (hs : Slots s) : LeavesUnready n s := by
  intro p t hp hn hpc
  unfold State.isReady
  split
  · rfl
  · rename_i item hrow
    have hv := view_of_task hs hp
    have hd := h t.row item p t.pc (by rw [hv]; exact hrow) (by rw [hv]) hn
    rw [hpc] at hd
    exact hd.decided rfl

/-- A step after which all rows are left unready has let every task progress. -/
theorem Decisive.progresses (h : Decisive n s) (hr : uploadService.Reachable s)
    (hst : UploadService.step s l = some s') (hleaves : LeavesUnready n s') (hc : Calm s l) :
    Progresses n s l := by
  have hs := Slots.of_reachable hr
  -- a task that returns while its row waits has not decided, so the row is still ready
  have hgiveUp : ∀ p t o effects item, l = .resume (.task p) o → s.tasks.get? p = some t → n ≤ p →
      s.rows.get? t.row = some item → item.status = .pending ∨ item.status = .retrying →
      t.pc.undecided = true → processItem (.task p) t.row item s.now s.store s.consent t.pc o =
        some (.finishing, effects) → False := by
    rintro p t o effects item rfl hp hn hrow hwait hu hturn
    have hv := view_of_task hs hp
    have hd := h t.row item p t.pc (by rw [hv]; exact hrow) (by rw [hv]) hn
    have hready := hd.undecided hu hwait
    have hpc : t.pc ≠ .finishing := fun he => by rw [he] at hu; cases hu
    have hs' : s' = s.taskTurn p t .finishing effects := by
      obtain ⟨t', hp', hres⟩ := Option.bind_eq_some_iff.1 hst
      cases hp.symm.trans hp'
      unfold State.resumeTask at hres
      split at hres
      · exact absurd ‹_› hpc
      · simp only [hrow, Option.bind_eq_bind, Option.bind_some, hturn] at hres
        exact (Option.some.inj hres).symm
    have hp' : s'.tasks.get? p = some { t with pc := .finishing } := by
      rw [hs']
      exact Table.get?_set_self hp
    have hrow' : s'.rows.get? t.row = some item := by rw [hs']; exact hrow
    have hnot := hleaves p _ hp' hn rfl
    simp only [State.isReady, hrow', hc.now_eq hst, hready] at hnot
    cases hnot
  have hfits : ∀ p t item, s.tasks.get? p = some t → s.rows.get? t.row = some item →
      t.pc.Fits item.status := fun p t item hp hrow =>
    (Ownership.of_reachable hr).tasks p t _ hp (statusOf_of_get? hrow)
  constructor
  · intro p t recording hl hp hn hpc hnone
    obtain ⟨item, hrow, -⟩ := hs.taskRows p t hp
    have hwait := hfits p t item hp hrow
    rw [hpc] at hwait
    refine hgiveUp p t _ [] item hl hp hn hrow hwait (by rw [hpc]; rfl) ?_
    rw [hpc]
    simp [processItem, hnone]
  · intro p t recording url hl hp hn hpc
    obtain ⟨item, hrow, -⟩ := hs.taskRows p t hp
    have hwait := hfits p t item hp hrow
    rw [hpc] at hwait
    refine hgiveUp p t _ [] item hl hp hn hrow hwait (by rw [hpc]; rfl) ?_
    rw [hpc]
    rfl
  · intro p t recording error hl hp hn hpc
    obtain ⟨item, hrow, -⟩ := hs.taskRows p t hp
    have hno : ¬(item.status = .pending ∨ item.status = .retrying) := by
      intro hwait
      refine hgiveUp p t _ [] item hl hp hn hrow hwait (by rw [hpc]; rfl) ?_
      rw [hpc]
      rfl
    rw [statusOf_of_get? hrow]
    exact ⟨fun he => hno (.inl (Option.some.inj he)), fun he => hno (.inr (Option.some.inj he))⟩

theorem Decisive.of_start (hs : Slots s) : Decisive s.nextPid s := by
  intro row item p pc _ hpc hn
  obtain ⟨t, hp, -⟩ := task_of_view hpc
  exact absurd (hs.taskPids p (Table.mem_keys_of_get? hp)) (Nat.not_lt.2 hn)

/-- What is known about the rows that were started since `s₀`. -/
structure Started (s₀ s : State) (rows : List RowId) : Prop where
  nodup : rows.Nodup
  ready : ∀ row ∈ rows, s₀.isReady row = true
  /-- A row that can still be started was ready in the beginning and has not been started yet. -/
  fresh : ∀ row, Fresh s₀.nextPid s.now (view s row) → s₀.isReady row = true ∧ row ∉ rows

theorem isReady_iff {row : RowId} :
    s.isReady row = true ↔ ∃ item, s.rows.get? row = some item ∧
      isQueueItemReady s.now item.status item.nextRetryAt = true := by
  unfold State.isReady
  cases s.rows.get? row <;> simp

/-- The row on which a task starts is fresh. -/
theorem fresh_of_taskStart {row : RowId} (hr : uploadService.Reachable s)
    (h : taskStart s l = some row) : Fresh n s.now (view s row) := by
  unfold taskStart at h
  split at h
  · obtain ⟨pc, hp, he⟩ := Option.bind_eq_some_iff.1 h
    split at he
    · cases he
      refine ⟨picked_ready hr hp, fun q pc hq => ?_⟩
      obtain ⟨t, hq, hrow, -⟩ := task_of_view hq
      exact absurd hrow.symm (Ownership.picked_ne (.of_reachable hr) hp hq)
    · cases he
  · cases h

theorem Started.step {rows : List RowId} (h : Started s₀ s rows) (hr : uploadService.Reachable s)
    (hd : Decisive s₀.nextPid s) (hnext : s₀.nextPid ≤ s.nextPid) (hc : Calm s l)
    (hst : UploadService.step s l = some s') :
    Started s₀ s' (rows ++ (taskStart s l).toList) := by
  have hfresh : ∀ row, Fresh s₀.nextPid s'.now (view s' row) →
      Fresh s₀.nextPid s.now (view s row) ∧ taskStart s l ≠ some row := by
    intro row hf
    rw [hc.now_eq hst] at hf
    exact (RowMove.of_step hr hst row).fresh hc hnext (hd row) hf
  cases hstart : taskStart s l with
  | none =>
    rw [Option.toList_none, List.append_nil]
    exact ⟨h.nodup, h.ready, fun row hf => h.fresh row (hfresh row hf).1⟩
  | some r =>
    obtain ⟨hready, hnew⟩ := h.fresh r (fresh_of_taskStart hr hstart)
    rw [Option.toList_some]
    refine ⟨?_, ?_, fun row hf => ?_⟩
    · simpa [List.nodup_append] using ⟨h.nodup, fun a ha he => hnew (he ▸ ha)⟩
    · intro row hm
      rcases List.mem_append.1 hm with hm | hm
      · exact h.ready row hm
      · rw [List.mem_singleton.1 hm]
        exact hready
    · obtain ⟨hold, hne⟩ := hfresh row hf
      obtain ⟨hready', hnotin⟩ := h.fresh row hold
      refine ⟨hready', fun hm => ?_⟩
      rcases List.mem_append.1 hm with hm | hm
      · exact hnotin hm
      · rw [List.mem_singleton.1 hm] at hne
        exact hne hstart

theorem startedRows_append :
    startedRows (tr ++ [(s, l)]) = startedRows tr ++ (taskStart s l).toList := by
  rw [startedRows, List.filterMap_append]
  cases h : taskStart s l <;> simp [startedRows, h]

/-- **No row is started twice.** -/
theorem Started.of_run (hs₀ : uploadService.Reachable s₀)
    (hrun : ((uploadService.after s₀).guard Calm).Run tr s)
    (hok : ∀ x ∈ tr, Progresses s₀.nextPid x.1 x.2) :
    uploadService.Reachable s ∧ Decisive s₀.nextPid s ∧ s₀.nextPid ≤ s.nextPid ∧
      Started s₀ s (startedRows tr) := by
  induction hrun with
  | start he =>
    cases he
    refine ⟨hs₀, .of_start (.of_reachable hs₀), Nat.le_refl _, List.nodup_nil, nofun, ?_⟩
    exact fun row hf => ⟨isReady_iff.2 hf.1, List.not_mem_nil⟩
  | @step tr s s' l _ hst ih =>
    obtain ⟨hr, hd, hnext, hstarted⟩ := ih fun x hx => hok x (List.mem_append_left _ hx)
    obtain ⟨hc, hst⟩ := hst
    have hlast := hok _ (List.mem_append_right _ (List.mem_singleton_self _))
    rw [startedRows_append]
    exact ⟨hr.step hst, hd.step hr hc hlast hst, hnext.trans (Move.of_step hst).nextPid_le,
      hstarted.step hr hd hnext hc hst⟩

end Runs

/-- **Draining the queue terminates, if every `_processItem` gets its row under way.**  While the
clock stands still, nothing is enqueued or retried and the process lives on, from any reachable
state: the tasks leave their rows in a status that is not ready exactly if none of them returns
because its recording is missing or has no server id, or because the write that should take its row
out of `pending` or `retrying` has failed; and then no row is started twice and only rows are
started that were ready in the beginning, so their number bounds the number of tasks. -/
theorem queue_drains_iff {s₀ s : State} {tr : List (State × Label)}
    (hs₀ : uploadService.Reachable s₀)
    (hrun : ((uploadService.after s₀).guard Calm).Run tr s) :
    (((∀ x ∈ tr, LeavesUnready s₀.nextPid x.1) ∧ LeavesUnready s₀.nextPid s) ↔
      ∀ x ∈ tr, Progresses s₀.nextPid x.1 x.2) ∧
    ((∀ x ∈ tr, Progresses s₀.nextPid x.1 x.2) →
      (startedRows tr).Nodup ∧ (∀ row ∈ startedRows tr, s₀.isReady row = true) ∧
        (startedRows tr).length ≤ (s₀.rows.keys.filter s₀.isReady).length) := by
  constructor
  · refine hrun.visited_iff
      (I := fun s => uploadService.Reachable s ∧ Decisive s₀.nextPid s) ?_ ?_ ?_ ?_
    · rintro s he
      cases he
      exact ⟨hs₀, .of_start (.of_reachable hs₀)⟩
    · exact fun s ⟨hr, hd⟩ => hd.leavesUnready (.of_reachable hr)
    · exact fun s l s' ⟨hr, hd⟩ ⟨hc, hst⟩ hok => ⟨hr.step hst, hd.step hr hc hok hst⟩
    · exact fun s l s' ⟨hr, hd⟩ ⟨hc, hst⟩ hleaves => hd.progresses hr hst hleaves hc
  · intro hok
    obtain ⟨-, -, -, hstarted⟩ := Started.of_run hs₀ hrun hok
    refine ⟨hstarted.nodup, hstarted.ready, ?_⟩
    refine (List.subperm_of_subset hstarted.nodup fun row hm => ?_).length_le
    have hready := hstarted.ready row hm
    obtain ⟨item, hrow, -⟩ := isReady_iff.1 hready
    exact List.mem_filter.2 ⟨Table.mem_keys_of_get? hrow, hready⟩

/-! ### Recordings that are found, and recordings that are not -/

/-- No call fails, and every recording is found.  This can be evaluated. -/
def unhindered (s : State) (l : Label) : Bool :=
  (renewal s l).isNone &&
    match l with
    | .resume (.task _) (.found recording) => (withServerId recording).isSome
    | .resume (.task _) .error => false
    | .tick ms => ms = 0
    | .kill => false
    | _ => true

theorem calm_of_unhindered {s : State} {l : Label} (h : unhindered s l = true) : Calm s l := by
  simp only [unhindered, Bool.and_eq_true, Option.isNone_iff_eq_none] at h
  refine ⟨fun ms hl => ?_, h.1, fun hl => ?_⟩
  · subst hl
    simpa using h.2
  · subst hl
    simpa using h.2

theorem progresses_of_unhindered {s : State} {l : Label} (n : Pid) (h : unhindered s l = true) :
    Progresses n s l := by
  simp only [unhindered, Bool.and_eq_true, Option.isNone_iff_eq_none] at h
  constructor
  · rintro p t recording rfl - - - hnone
    simp [hnone] at h
  · rintro p t recording url rfl
    simp at h
  · rintro p t recording error rfl
    simp at h

/-- A row is enqueued, and a drain starts. -/
def enqueued : List Label := [.enqueueUpload "a" 10, .commit "q1", .resume (.call 0) .ok]

/-- Its task transfers it, completes the session and ends, and the drain that it starts then finds
nothing to do. -/
def drainsOne : List Label :=
  taskStarts 1 ++
    [.resume (.task 2) (.presigned "session" "https://bucket/put" 3600), .commit "q2",
      .resume (.task 2) .ok, .commit "q2", .resume (.task 2) .ok, .resume (.task 2) .ok,
      .native 2 (.completed 200), .resume (.task 2) .ok, .commit "q2", .resume (.task 2) .ok,
      .resume (.task 2) (.found (some meeting)), .resume (.task 2) .ok, .commit "q2",
      .resume (.task 2) .ok, .resume (.task 2) .ok, .resume (.task 2) .ok, .query 3,
      .resume (.drain 3) .ok, .query 3, .resume (.drain 3) .ok, .resume (.drain 3) .ok]

theorem queue_drains_iff_drainsOne :
    ∃ s₀ tr s, uploadService.Reachable s₀ ∧ ((uploadService.after s₀).guard Calm).Run tr s ∧
      tr.map Prod.snd = drainsOne ∧ (∀ x ∈ tr, LeavesUnready s₀.nextPid x.1) ∧
      (startedRows tr).length ≤ 1 ∧ s.tasks.keys = [] ∧ s.drains.keys = [] ∧
      statusOf s.rows "q1" = some .done := by
  have hrun : (LTS.exec step (init .missing 0) enqueued).bind (fun s₀ =>
      (LTS.exec (fun s l => if unhindered s l then step s l else none) s₀ drainsOne).map fun s =>
        ((s₀.rows.keys.filter s₀.isReady).length, s.tasks.keys, s.drains.keys,
          statusOf s.rows "q1")) = some (1, [], [], some .done) := by decide +kernel
  obtain ⟨s₀, hs₀, hrun⟩ := Option.bind_eq_some_iff.1 hrun
  obtain ⟨s, hs, he⟩ := Option.map_eq_some_iff.1 hrun
  obtain ⟨hcount, hend⟩ := Prod.mk.inj he
  simp only [Prod.mk.injEq] at hend
  have hr := reachable_of_exec enqueued hs₀
  obtain ⟨tr, htr, hls⟩ := LTS.run_of_exec (LTS.Run.start (A := LTS.ofFn (· = s₀) _) rfl) hs
  obtain ⟨htr, hok⟩ := LTS.Run.of_checked htr
  have hcalm := htr.guarded Calm fun x hx => calm_of_unhindered (hok x hx)
  have hprogress : ∀ x ∈ tr, Progresses s₀.nextPid x.1 x.2 :=
    fun x hx => progresses_of_unhindered _ (hok x hx)
  obtain ⟨hleaves, hbound⟩ := queue_drains_iff hr hcalm
  exact ⟨s₀, tr, s, hr, hcalm, hls, (hleaves.2 hprogress).1,
    (hbound hprogress).2.2.trans_eq hcount, hend⟩

/-- A row whose recording has no server id, with at most one drain and one task. -/
def stuck (drains : Table Pid DrainPc) (tasks : Table Pid Task) (isProcessing : Bool)
    (activeUploadIds : List String) (nextPid : Pid) : State where
  rows := Table.empty.push "q1" (newItem 0 "a" 10)
  consent := .missing
  now := 0
  store :=
    { UploadQueueStore.initial with
      isProcessing := isProcessing
      activeUploadIds := activeUploadIds }
  listening := false
  drains := drains
  tasks := tasks
  calls := .empty
  writer := []
  nextPid := nextPid
  log := []

def drainAt (p : Pid) (pc : DrainPc) : Table Pid DrainPc := Table.empty.push p pc

def taskAt (p : Pid) (pc : TaskPc) : Table Pid Task := Table.empty.push p ⟨"q1", "a", pc⟩

/-- The drain `p` begins to look for work. -/
def searching (p : Pid) : State := stuck (drainAt p .queryCompleting) .empty true [] (p + 1)

section Stuck

variable {p : Pid}

@[simp] theorem drainAt_get? {pc : DrainPc} : (drainAt p pc).get? p = some pc := by
  simp [drainAt, Table.get?_push_empty]

@[simp] theorem drainAt_set {pc pc' : DrainPc} : (drainAt p pc).set p pc' = drainAt p pc' :=
  Table.set_push_empty

@[simp] theorem drainAt_erase {pc : DrainPc} : (drainAt p pc).erase p = .empty :=
  Table.erase_push_empty

@[simp] theorem taskAt_get? {pc : TaskPc} : (taskAt p pc).get? p = some ⟨"q1", "a", pc⟩ := by
  simp [taskAt, Table.get?_push_empty]

@[simp] theorem taskAt_set {pc pc' : TaskPc} :
    (taskAt p pc).set p ⟨"q1", "a", pc'⟩ = taskAt p pc' := Table.set_push_empty

@[simp] theorem taskAt_erase {pc : TaskPc} : (taskAt p pc).erase p = .empty :=
  Table.erase_push_empty

theorem reachable_searching : uploadService.Reachable (searching 1) :=
  reachable_of_exec enqueued rfl

/-- A drain starts a task on the row, which finds no recording and returns. -/
theorem fruitless_round {s₀ : State} {tr : List (State × Label)}
    (hrun : ((uploadService.after s₀).guard Calm).Run tr (searching p)) :
    ∃ tr', ((uploadService.after s₀).guard Calm).Run tr' (searching (p + 2)) ∧
      (startedRows tr').length = (startedRows tr).length + 1 := by
  have hquery : ∀ {s}, Calm s (.query p) := ⟨nofun, rfl, nofun⟩
  have hresume : ∀ {s who o}, Calm s (.resume who o) := ⟨nofun, rfl, nofun⟩
  have h₁ : step (searching p) (.query p) =
      some (stuck (drainAt p (.gotCompleting [])) .empty true [] (p + 1)) := by
    simp [step, searching, stuck, State.query]
    rfl
  have h₂ : step (stuck (drainAt p (.gotCompleting [])) .empty true [] (p + 1))
      (.resume (.drain p) .ok) =
        some (stuck (drainAt p .queryCandidates) .empty true [] (p + 1)) := by
    simp [step, stuck, resume, State.resumeDrain, State.testSlots]
    rfl
  have h₃ : step (stuck (drainAt p .queryCandidates) .empty true [] (p + 1)) (.query p) =
      some (stuck (drainAt p (.gotCandidates ["q1"])) .empty true [] (p + 1)) := by
    simp [step, stuck, State.query]
    rfl
  have h₄ : step (stuck (drainAt p (.gotCandidates ["q1"])) .empty true [] (p + 1))
      (.resume (.drain p) .ok) =
        some (stuck (drainAt p (.picked "q1")) .empty true [] (p + 1)) := by
    simp [step, stuck, resume, State.resumeDrain]
    rfl
  have h₅ : step (stuck (drainAt p (.picked "q1")) .empty true [] (p + 1))
      (.resume (.drain p) .ok) = some (stuck (drainAt p .queryCandidates)
        (taskAt (p + 1) .findRecording) true ["a"] (p + 2)) := by
    simp [step, stuck, resume, State.resumeDrain, State.startTask, State.testSlots]
    rfl
  have h₆ : step (stuck (drainAt p .queryCandidates) (taskAt (p + 1) .findRecording) true ["a"]
      (p + 2)) (.query p) = some (stuck (drainAt p (.gotCandidates ["q1"]))
        (taskAt (p + 1) .findRecording) true ["a"] (p + 2)) := by
    simp [step, stuck, State.query]
    rfl
  -- the recording is being uploaded, so the drain ends
  have h₇ : step (stuck (drainAt p (.gotCandidates ["q1"])) (taskAt (p + 1) .findRecording) true
      ["a"] (p + 2)) (.resume (.drain p) .ok) = some (stuck (drainAt p .leaving)
        (taskAt (p + 1) .findRecording) true ["a"] (p + 2)) := by
    simp [step, stuck, resume, State.resumeDrain]
    rfl
  have h₈ : step (stuck (drainAt p .leaving) (taskAt (p + 1) .findRecording) true ["a"] (p + 2))
      (.resume (.drain p) .ok) = some (stuck .empty (taskAt (p + 1) .findRecording) false ["a"]
        (p + 2)) := by
    simp [step, stuck, resume, State.resumeDrain, State.endDrain]
    rfl
  have h₉ : step (stuck .empty (taskAt (p + 1) .findRecording) false ["a"] (p + 2))
      (.resume (.task (p + 1)) (.found none)) = some (stuck .empty (taskAt (p + 1) .finishing) false
        ["a"] (p + 2)) := by
    simp [step, stuck, resume, State.resumeTask, State.taskTurn]
    rfl
  have h₁₀ : step (stuck .empty (taskAt (p + 1) .finishing) false ["a"] (p + 2))
      (.resume (.task (p + 1)) .ok) = some (searching (p + 2)) := by
    simp [step, stuck, resume, State.resumeTask, State.finishTask, State.processQueue]
    rfl
  refine ⟨_, ((((((((((hrun.step ⟨hquery, h₁⟩).step ⟨hresume, h₂⟩).step ⟨hquery, h₃⟩).step
    ⟨hresume, h₄⟩).step ⟨hresume, h₅⟩).step ⟨hquery, h₆⟩).step ⟨hresume, h₇⟩).step
    ⟨hresume, h₈⟩).step ⟨hresume, h₉⟩).step ⟨hresume, h₁₀⟩), ?_⟩
  simp only [startedRows_append]
  simp [taskStart, stuck]

end Stuck

/-- One recording without a server id keeps the queue busy. -/
theorem queue_never_drains :
    ¬ ∀ s₀, uploadService.Reachable s₀ → ∃ bound, ∀ tr s,
      ((uploadService.after s₀).guard Calm).Run tr s → (startedRows tr).length ≤ bound := by
  intro h
  obtain ⟨bound, hbound⟩ := h (searching 1) reachable_searching
  have hrounds : ∀ n, ∃ tr p, ((uploadService.after (searching 1)).guard Calm).Run tr
      (searching p) ∧ (startedRows tr).length = n := by
    intro n
    induction n with
    | zero => exact ⟨[], 1, .start rfl, rfl⟩
    | succ n ih =>
      obtain ⟨tr, p, hrun, hn⟩ := ih
      obtain ⟨tr', hrun', hn'⟩ := fruitless_round hrun
      exact ⟨tr', p + 2, hrun', hn'.trans (congrArg (· + 1) hn)⟩
  obtain ⟨tr, p, hrun, hn⟩ := hrounds (bound + 1)
  exact absurd (hbound tr _ hrun) (by omega)

end UploadService

end FCord
