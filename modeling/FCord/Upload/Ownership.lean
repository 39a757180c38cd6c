import FCord.Upload.Writer

/-!
# Who may change the status of a row

Every running call that holds a row knows something about its status: `HandlerPc.Fits`,
`TaskPc.Fits` and `DrainPc.Fits` say what, for each program point.  That nobody else changes
it is the invariant `Ownership`.  The one write that is not covered by a slot, the one of
`retryUpload`, is requested while the row is `failed`, and whatever is requested for that row
afterwards lands after it (`Ownership.order`).
-/

namespace FCord

/-- What `_handleCompleting` knows about its row. -/
def HandlerPc.Fits : HandlerPc → UploadQueueStatus → Prop
  | .findRecording, st => st = .completing ∨ st = .done
  | .completing _ _, st => st = .completing ∨ st = .done
  | .writingDone _ _ .resolved, st => st = .done
  | .writingDone _ _ _, st => st = .completing ∨ st = .done
  | .readingConsent _, st => st = .done
  | .requesting _, st => st = .done

/-- What `_processItem` knows about its row. -/
def TaskPc.Fits : TaskPc → UploadQueueStatus → Prop
  | .findRecording, st => st = .pending ∨ st = .retrying
  | .presigning _ _, st => st = .pending ∨ st = .retrying
  | .writing _ (.session _ _) _, st => st = .pending ∨ st = .retrying
  | .writing _ (.uploading _) .resolved, st => st = .uploading
  | .writing _ (.uploading _) _, st => st = .pending ∨ st = .retrying
  | .writing _ (.failed _) .pending, st => st = .pending ∨ st = .retrying ∨ st = .uploading
  | .writing _ (.retrying _ _) .pending, st => st = .uploading
  | .writing _ .completing .pending, st => st = .uploading
  | .writing _ .completing .resolved, st => st = .completing ∨ st = .done
  | .writing _ _ _, _ => True
  | .starting _ _, st => st = .uploading
  | .transferring _ _, st => st = .uploading
  | .settled _ _ _, st => st = .uploading
  | .handling pc, st => pc.Fits st
  | .finishing, _ => True

namespace UploadService

/-- The status of a row. -/
def statusOf (rows : Table RowId UploadQueueItem) (row : RowId) : Option UploadQueueStatus :=
  (rows.get? row).map UploadQueueItem.status

theorem statusOf_of_get? {rows : Table RowId UploadQueueItem} {row : RowId}
    {item : UploadQueueItem} (h : rows.get? row = some item) :
    statusOf rows row = some item.status := by
  rw [statusOf, h]
  rfl

/-- A row whose transfer has ended. -/
def Transferred (status : RowId → Option UploadQueueStatus) (row : RowId) : Prop :=
  status row = some .completing ∨ status row = some .done

/-- What a drain knows about the rows it holds. -/
def DrainPc.Fits (status : RowId → Option UploadQueueStatus) : DrainPc → Prop
  | .gotCompleting ids => ∀ row ∈ ids, Transferred status row
  | .handling row pc rest =>
    (∃ st, status row = some st ∧ pc.Fits st) ∧ ∀ row ∈ rest, Transferred status row
  | .picked row => status row = some .pending ∨ status row = some .retrying
  | _ => True

/-! ### Turns keep the knowledge -/

section Turns

variable {who : Owner} {row : RowId} {item : UploadQueueItem} {now : ℕ}
variable {store : UploadQueueStore} {consent : ConsentEntry} {effects : List Effect}
variable {st : UploadQueueStatus}

theorem HandlerTurn.fits {pc pc' : HandlerPc}
    (h : HandlerTurn who row item consent pc (.await pc') effects) (hf : pc.Fits st) :
    pc'.Fits st := by
  cases h <;> exact hf

theorem HandlerTurn.drainFits {status : RowId → Option UploadQueueStatus} {pc : HandlerPc}
    {next : HandlerNext} {rest : List RowId}
    (h : HandlerTurn who row item consent pc next effects)
    (hf : DrainPc.Fits status (.handling row pc rest)) :
    DrainPc.Fits status (.afterHandler row rest next) := by
  obtain ⟨⟨st, hst, hpc⟩, hrest⟩ := hf
  cases next with
  | await pc' => exact ⟨⟨st, hst, h.fits hpc⟩, hrest⟩
  | returned => exact hrest
  | threw => trivial

theorem TaskTurn.fits {pc pc' : TaskPc}
    (h : TaskTurn who row item now store consent pc pc' effects) (hf : pc.Fits st) :
    pc'.Fits st := by
  cases h with
  | noChecksum recording error => exact hf.imp_right .inl
  | presignFailed error => exact hf.imp_right .inl
  | sessionFailed error => exact hf.imp_right .inl
  | giveUp => exact .inr (.inr hf)
  | skip => trivial
  | written hw => trivial
  | writeFailed => trivial
  | @handler _ next _ hh =>
    cases next with
    | await pc' => exact hh.fits hf
    | returned => trivial
    | threw => trivial
  | _ => exact hf

theorem DrainTurn.fits {s : State} {pc pc' : DrainPc} (h : DrainTurn s pc pc')
    (hf : pc.Fits (statusOf s.rows)) : pc'.Fits (statusOf s.rows) := by
  cases h with
  | completingRows =>
    intro row hrow
    obtain ⟨item, hi, hst⟩ := Table.mem_idsWhere_iff.1 hrow
    have hst : item.status = .completing := by simpa using hst
    exact .inl ((statusOf_of_get? hi).trans (congrArg some hst))
  | nextRow =>
    have hrow := hf _ List.mem_cons_self
    refine ⟨?_, fun row hrow => hf row (List.mem_cons_of_mem _ hrow)⟩
    obtain hst | hst := hrow
    · exact ⟨_, hst, .inl rfl⟩
    · exact ⟨_, hst, .inr rfl⟩
  | @pick ids row hmem hel =>
    unfold State.eligible at hel
    split at hel
    · cases hel
    · rename_i item hrow
      simp only [Bool.and_eq_true] at hel
      have := status_of_isQueueItemReady hel.2
      simpa [DrainPc.Fits, statusOf, hrow] using this
  | _ => trivial

end Turns

end UploadService

/-! ### Writes keep the knowledge -/

namespace HandlerPc.Fits

variable {pc : HandlerPc} {st : UploadQueueStatus}

theorem transferred (h : pc.Fits st) : st = .completing ∨ st = .done := by
  unfold HandlerPc.Fits at h
  split at h
  · exact h
  · exact h
  · exact .inr h
  · exact h
  · exact .inr h
  · exact .inr h

/-- Another call has made the row `done`. -/
theorem done : pc.Fits .done := by
  cases pc with
  | writingDone conflict serverId write => cases write <;> simp [HandlerPc.Fits]
  | _ => simp [HandlerPc.Fits]

/-- A failed write leaves the row as it is. -/
theorem rejected (h : pc.Fits st) : (pc.settle .rejected).Fits st := by
  unfold HandlerPc.settle
  split
  · exact h
  · exact h

end HandlerPc.Fits

theorem TaskPc.fits_handling {pc : HandlerPc} {st : UploadQueueStatus} :
    (TaskPc.handling pc).Fits st ↔ pc.Fits st := Iff.rfl

namespace TaskPc.Fits

variable {pc : TaskPc} {st : UploadQueueStatus}

/-- Nothing is known about a row that may be `failed`. -/
theorem of_failed (h : pc.Fits .failed) (st : UploadQueueStatus) : pc.Fits st := by
  cases pc with
  | handling pc => simpa using HandlerPc.Fits.transferred h
  | finishing => trivial
  | writing recording w write =>
    cases w <;> cases write <;> first | trivial | simp [TaskPc.Fits] at h
  | _ => simp [TaskPc.Fits] at h

/-- `retryUpload` has written the row. -/
theorem reset (h : pc.Fits st) (hst : st = .failed ∨ st = .pending) : pc.Fits .pending := by
  obtain rfl | rfl := hst
  · exact h.of_failed _
  · exact h

/-- A drain has made the row `done`. -/
theorem done (h : pc.Fits st) (hst : st = .completing ∨ st = .done) : pc.Fits .done := by
  obtain rfl | rfl := hst
  · cases pc with
    | handling pc => exact HandlerPc.Fits.done
    | finishing => trivial
    | writing recording w write =>
      cases w <;> cases write <;> first | trivial | simp [TaskPc.Fits] at h ⊢
    | _ => simp [TaskPc.Fits] at h
  · exact h

theorem rejected (h : pc.Fits st) : (pc.settle .rejected).Fits st := by
  unfold TaskPc.settle
  split
  · rename_i recording w
    cases w <;> first | exact h | trivial
  · rename_i pc
    exact HandlerPc.Fits.rejected h
  · exact h

/-- The write that the task waits for lands. -/
theorem landed {recording : LocalRecording} {w : TaskWrite}
    (h : TaskPc.Fits (.writing recording w .pending) st) :
    TaskPc.Fits (.writing recording w .resolved) (w.update.status?.getD st) := by
  cases w with
  | session sessionId url => exact h
  | uploading url => rfl
  | failed error => trivial
  | retrying attempts error => trivial
  | completing => exact .inl rfl

end TaskPc.Fits

namespace UploadService

/-! ### The invariant -/

/-- The ownership invariant. -/
structure Ownership (s : State) : Prop where
  tasks : ∀ p t st, s.tasks.get? p = some t → statusOf s.rows t.row = some st → t.pc.Fits st
  drains : ∀ p pc, s.drains.get? p = some pc → pc.Fits (statusOf s.rows)
  /-- A row that `retryUpload` is going to write has not moved on since it was `failed`. -/
  resets : ∀ job ∈ s.writer, ∀ row, job.action = .update row .reset →
    statusOf s.rows row = some .failed ∨ statusOf s.rows row = some .pending
  /-- And nothing requested before moves it on. -/
  order : s.writer.Pairwise fun a b => ∀ row u, b.action = .update row .reset →
    a.action = .update row u → u = .reset ∨ ∃ loaded, u = .bytesUploaded loaded

/-- The status of a row after a write. -/
theorem statusOf_modify {rows : Table RowId UploadQueueItem} {row : RowId} {now : ℕ}
    {u : Update} (r : RowId) :
    statusOf (rows.modify row (u.apply now)) r =
      if r = row then (statusOf rows r).map u.status?.getD else statusOf rows r := by
  simp only [statusOf, Table.get?_modify]
  split_ifs
  · simp [Option.map_map, Function.comp_def, Update.apply_status]
  · rfl

theorem of_statusOf_modify {rows : Table RowId UploadQueueItem} {row : RowId} {now : ℕ}
    {u : Update} {r : RowId} {st : UploadQueueStatus}
    (h : statusOf (rows.modify row (u.apply now)) r = some st) :
    (∃ old, r = row ∧ statusOf rows r = some old ∧ st = u.status?.getD old) ∨
      r ≠ row ∧ statusOf rows r = some st := by
  rw [statusOf_modify] at h
  split_ifs at h with hr
  · obtain ⟨old, hold, he⟩ := Option.map_eq_some_iff.1 h
    exact .inl ⟨old, hr, hold, he.symm⟩
  · exact .inr ⟨hr, h⟩

theorem statusOf_modify_of_none {rows : Table RowId UploadQueueItem} {row : RowId} {now : ℕ}
    {u : Update} (hu : u.status? = none) :
    statusOf (rows.modify row (u.apply now)) = statusOf rows := by
  funext r
  rw [statusOf_modify, hu]
  cases statusOf rows r <;> simp

theorem statusOf_push {rows : Table RowId UploadQueueItem} {newId : RowId}
    {item : UploadQueueItem} (hnew : newId ∉ rows.keys) (r : RowId) :
    statusOf (rows.push newId item) r =
      if r = newId then some item.status else statusOf rows r := by
  simp only [statusOf, Table.get?_push hnew]
  split_ifs <;> rfl

theorem of_statusOf_push {rows : Table RowId UploadQueueItem} {newId : RowId}
    {item : UploadQueueItem} (hnew : newId ∉ rows.keys) {r : RowId} {st : UploadQueueStatus}
    (h : statusOf (rows.push newId item) r = some st) :
    st = item.status ∨ statusOf rows r = some st := by
  rw [statusOf_push hnew] at h
  split_ifs at h
  · exact .inl (Option.some.inj h).symm
  · exact .inr h

theorem statusOf_push_of_some {rows : Table RowId UploadQueueItem} {newId : RowId}
    {item : UploadQueueItem} (hnew : newId ∉ rows.keys) {r : RowId} {st : UploadQueueStatus}
    (h : statusOf rows r = some st) : statusOf (rows.push newId item) r = some st := by
  obtain ⟨item', hr, -⟩ := Option.map_eq_some_iff.1 h
  have hne : r ≠ newId := fun he => hnew (he ▸ Table.mem_keys_of_get? hr)
  rw [statusOf_push hnew, if_neg hne, h]

/-- A drain keeps its knowledge if a transferred row at most becomes `done` and the row it has
picked can still be started. -/
theorem DrainPc.Fits.mono {status status' : RowId → Option UploadQueueStatus} {pc : DrainPc}
    (h : pc.Fits status)
    (htr : ∀ row, Transferred status row →
      status' row = status row ∨ status' row = some .done)
    (hpicked : ∀ row, pc = .picked row → status row = some .pending ∨ status row = some .retrying →
      status' row = some .pending ∨ status' row = some .retrying) :
    pc.Fits status' := by
  have hrows : ∀ row, Transferred status row → Transferred status' row := by
    intro row hrow
    obtain he | he := htr row hrow
    · exact hrow.imp he.trans he.trans
    · exact .inr he
  cases pc with
  | gotCompleting ids => exact fun row hrow => hrows row (h row hrow)
  | handling row pc rest =>
    obtain ⟨⟨st, hst, hpc⟩, hrest⟩ := h
    refine ⟨?_, fun row hrow => hrows row (hrest row hrow)⟩
    have hrow : Transferred status row := by
      obtain rfl | rfl := hpc.transferred
      · exact .inl hst
      · exact .inr hst
    obtain he | he := htr row hrow
    · exact ⟨st, he.trans hst, hpc⟩
    · exact ⟨.done, he, HandlerPc.Fits.done⟩
  | picked row => exact hpicked row rfl h
  | _ => trivial

namespace Ownership

variable {s s' : State}

/-- The rows that a drain holds for completion are transferred. -/
theorem transferred (h : Ownership s) {p : Pid} {row : RowId} {pc : HandlerPc}
    {rest : List RowId} (hp : s.drains.get? p = some (.handling row pc rest)) :
    Transferred (statusOf s.rows) row := by
  obtain ⟨⟨st, hst, hpc⟩, -⟩ := h.drains p _ hp
  obtain rfl | rfl := hpc.transferred
  · exact .inl hst
  · exact .inr hst

theorem task_transferred (h : Ownership s) (hs : Slots s) {p : Pid} {row : RowId} {id : String}
    {pc : HandlerPc} (hp : s.tasks.get? p = some ⟨row, id, .handling pc⟩) :
    Transferred (statusOf s.rows) row := by
  obtain ⟨item, hrow, -⟩ := hs.taskRows p _ hp
  have hst := statusOf_of_get? hrow
  obtain he | he := (TaskPc.fits_handling.1 (h.tasks p _ _ hp hst)).transferred
  · exact .inl (he ▸ hst)
  · exact .inr (he ▸ hst)

/-! ### Preservation -/

theorem init {consent : ConsentEntry} {now : ℕ} :
    Ownership (UploadService.init consent now) where
  tasks := by rintro p t st hp; cases hp
  drains := by rintro p pc hp; cases hp
  resets := by rintro job hm; cases hm
  order := .nil

theorem die (s : State) : Ownership s.die where
  tasks := by rintro p t st hp; cases hp
  drains := by rintro p pc hp; cases hp
  resets := by rintro job hm; cases hm
  order := .nil

theorem processQueue (h : Ownership s) (hs : Slots s) : Ownership s.processQueue := by
  unfold State.processQueue
  split_ifs
  · exact h
  · refine { h with drains := ?_ }
    intro p pc hp
    rcases Table.of_get?_push hs.nextPid_fresh_drain hp with ⟨-, rfl⟩ | ⟨-, hp⟩
    · trivial
    · exact h.drains p pc hp

theorem setDrain (h : Ownership s) {p : Pid} {pc : DrainPc} (hpc : pc.Fits (statusOf s.rows)) :
    Ownership { s with drains := s.drains.set p pc } := by
  refine { h with drains := ?_ }
  intro q qc hq
  rcases Table.of_get?_set hq with ⟨-, rfl⟩ | ⟨-, hq⟩
  · exact hpc
  · exact h.drains q qc hq

theorem setTask (h : Ownership s) {p : Pid} {t t' : Task} (hp : s.tasks.get? p = some t)
    (hrow : t'.row = t.row) (hpc : ∀ st, t.pc.Fits st → t'.pc.Fits st) :
    Ownership { s with tasks := s.tasks.set p t' } := by
  refine { h with tasks := ?_ }
  intro q u st hq hst
  rcases Table.of_get?_set hq with ⟨-, rfl⟩ | ⟨-, hq⟩
  · exact hpc st (h.tasks p t st hp (hrow ▸ hst))
  · exact h.tasks q u st hq hst

theorem eraseTask (h : Ownership s) {p : Pid} : Ownership { s with tasks := s.tasks.erase p } := by
  refine { h with tasks := ?_ }
  intro q u st hq hst
  obtain ⟨-, hq⟩ := Table.of_get?_erase hq
  exact h.tasks q u st hq hst

theorem eraseDrain (h : Ownership s) {p : Pid} :
    Ownership { s with drains := s.drains.erase p } := by
  refine { h with drains := ?_ }
  intro q qc hq
  obtain ⟨-, hq⟩ := Table.of_get?_erase hq
  exact h.drains q qc hq

/-- Requesting writes other than those of `retryUpload`. -/
theorem request (h : Ownership s) (jobs : List Job)
    (hjobs : ∀ job ∈ jobs, ∀ row, job.action ≠ .update row .reset) :
    Ownership { s with writer := s.writer ++ jobs } := by
  refine { h with resets := ?_, order := ?_ }
  · intro job hm row ha
    obtain hm | hm := List.mem_append.1 hm
    · exact h.resets job hm row ha
    · exact absurd ha (hjobs job hm row)
  · refine List.pairwise_append.2 ⟨h.order, ?_, ?_⟩
    · exact List.pairwise_of_forall_mem_list fun a _ b hb row _ hr => absurd hr (hjobs b hb row)
    · exact fun a _ b hb row _ hr => absurd hr (hjobs b hb row)

/-- `retryUpload` requests its write. -/
theorem requestReset (h : Ownership s) (hwriter : Writer s) {who : Owner} {row : RowId}
    (hst : statusOf s.rows row = some .failed) :
    Ownership { s with writer := s.writer ++ [⟨some who, .update row .reset⟩] } := by
  refine { h with resets := ?_, order := ?_ }
  · intro job hm row' ha
    obtain hm | hm := List.mem_append.1 hm
    · exact h.resets job hm row' ha
    · rw [List.mem_singleton.1 hm] at ha
      cases ha
      exact .inl hst
  · refine List.pairwise_append.2 ⟨h.order, List.pairwise_singleton _ _, ?_⟩
    intro a ha b hb row' u hrb hra
    rw [List.mem_singleton.1 hb] at hrb
    cases hrb
    -- nobody who holds the row waits for a write while it is `failed`
    cases hwriter.jobOf ha with
    | progress row' loaded =>
      cases hra
      exact .inr ⟨loaded, rfl⟩
    | create hp => cases hra
    | reset hp =>
      cases hra
      exact .inl rfl
    | @task p row' id recording w hp =>
      cases hra
      have := h.tasks p _ _ hp hst
      cases w <;> simp [TaskPc.Fits] at this
    | taskDone hp =>
      cases hra
      have hpc := TaskPc.fits_handling.1 (h.tasks _ _ _ hp hst)
      simpa using hpc.transferred
    | drainDone hp =>
      cases hra
      obtain hd | hd := h.transferred hp <;> simp [hst] at hd

/-- The first job fails. -/
theorem reject (h : Ownership s) {job : Job} {jobs : List Job} (hw : s.writer = job :: jobs) :
    Ownership ({ s with writer := jobs }.settle .rejected job.owner) := by
  have horder := h.order
  rw [hw] at horder
  constructor
  · intro p t st hp hst
    rw [State.settle_rows] at hst
    rcases State.of_get?_settle_tasks _ hp with ⟨t', -, hq, rfl⟩ | ⟨-, hp⟩
    · exact (h.tasks p t' st hq hst).rejected
    · exact h.tasks p t st hp hst
  · intro p pc hp
    rw [State.settle_rows]
    rcases State.of_get?_settle_drains _ hp with ⟨pc', -, hq, rfl⟩ | ⟨-, hp⟩
    · have hpc := h.drains p pc' hq
      cases pc' with
      | handling row pc rest =>
        obtain ⟨⟨st, hst, hpc⟩, hrest⟩ := hpc
        exact ⟨⟨st, hst, hpc.rejected⟩, hrest⟩
      | _ => exact hpc
    · exact h.drains p pc hp
  · intro job' hm row ha
    rw [State.settle_writer] at hm
    rw [State.settle_rows]
    exact h.resets job' (hw ▸ List.mem_cons_of_mem _ hm) row ha
  · rw [State.settle_writer]
    exact horder.tail

/-- What a write does to a row that `retryUpload` is going to write. -/
theorem resets_run {rows : Table RowId UploadQueueItem} {now : ℕ} {newId : RowId}
    {action : Action} {row : RowId} (hnew : newId ∉ rows.keys)
    (hst : statusOf rows row = some .failed ∨ statusOf rows row = some .pending)
    (ha : ∀ u, action = .update row u → u = .reset ∨ ∃ loaded, u = .bytesUploaded loaded) :
    statusOf (action.run now newId rows) row = some .failed ∨
      statusOf (action.run now newId rows) row = some .pending := by
  cases action with
  | create recordingId bytesTotal =>
    exact hst.imp (statusOf_push_of_some hnew) (statusOf_push_of_some hnew)
  | update row' u =>
    simp only [Action.run, statusOf_modify]
    split_ifs with he
    · subst he
      obtain rfl | ⟨loaded, rfl⟩ := ha u rfl
      · obtain hst | hst := hst <;> simp [hst, Update.status?]
      · obtain hst | hst := hst <;> simp [hst, Update.status?]
    · exact hst

/-- A task that is not told about a write to another row knows what it knew. -/
theorem tasks_modify (h : Ownership s) {row : RowId} {now : ℕ} {u : Update} {p : Pid} {t : Task}
    {st : UploadQueueStatus} (hp : s.tasks.get? p = some t) (hne : t.row ≠ row)
    (hst : statusOf (s.rows.modify row (u.apply now)) t.row = some st) : t.pc.Fits st := by
  rcases of_statusOf_modify hst with ⟨-, hr, -⟩ | ⟨-, hst⟩
  · exact absurd hr hne
  · exact h.tasks p t st hp hst

/-- The first job is performed: what the tasks know. -/
theorem commit_tasks (h : Ownership s) (hs : Slots s) {job : Job} (hm : job ∈ s.writer)
    (hj : JobOf s job) {newId : RowId} (hnew : newId ∉ s.rows.keys) {p : Pid} {t : Task}
    {st : UploadQueueStatus} (hp : (s.settle .resolved job.owner).tasks.get? p = some t)
    (hst : statusOf (job.action.run s.now newId s.rows) t.row = some st) : t.pc.Fits st := by
  cases hj with
  | progress row loaded =>
    rw [Action.run, statusOf_modify_of_none rfl] at hst
    exact h.tasks p t st hp hst
  | create hc =>
    rcases s.of_get?_settle_tasks hp with ⟨_, he, -⟩ | ⟨-, hp⟩
    · cases he
    · obtain ⟨item, hrow, -⟩ := hs.taskRows p t hp
      have hold := statusOf_of_get? hrow
      rw [Action.run, statusOf_push_of_some hnew hold, Option.some.injEq] at hst
      exact h.tasks p t st hp (hst ▸ hold)
  | @reset _ row hc =>
    rcases s.of_get?_settle_tasks hp with ⟨_, he, -⟩ | ⟨-, hp⟩
    · cases he
    rcases of_statusOf_modify hst with ⟨old, hr, hold, rfl⟩ | ⟨-, hst⟩
    · -- nobody works on a row that `retryUpload` writes
      refine (h.tasks p t old hp hold).reset ?_
      have := h.resets _ hm row rfl
      rw [← hr, hold] at this
      simpa using this
    · exact h.tasks p t st hp hst
  | @task q row id recording w hq =>
    rcases s.of_get?_settle_tasks hp with ⟨u, he, hu, rfl⟩ | ⟨he, hp⟩
    · cases he
      cases hq.symm.trans hu
      rcases of_statusOf_modify hst with ⟨old, -, hold, rfl⟩ | ⟨hne, -⟩
      · exact (h.tasks _ _ old hu hold).landed
      · exact absurd rfl hne
    · have hqp : q ≠ p := by simpa using he
      exact h.tasks_modify hp (fun hr => hqp (hs.task_unique_row hq hp hr.symm)) hst
  | @taskDone q row id conflict serverId hq =>
    rcases s.of_get?_settle_tasks hp with ⟨u, he, hu, rfl⟩ | ⟨he, hp⟩
    · cases he
      cases hq.symm.trans hu
      rcases of_statusOf_modify hst with ⟨old, -, hold, rfl⟩ | ⟨hne, -⟩
      · rfl
      · exact absurd rfl hne
    · have hqp : q ≠ p := by simpa using he
      exact h.tasks_modify hp (fun hr => hqp (hs.task_unique_row hq hp hr.symm)) hst
  | @drainDone q row conflict serverId rest hq =>
    rcases s.of_get?_settle_tasks hp with ⟨_, he, -⟩ | ⟨-, hp⟩
    · cases he
    rcases of_statusOf_modify hst with ⟨old, hr, hold, rfl⟩ | ⟨-, hst⟩
    · -- the drain and the task complete the same row
      refine (h.tasks p t old hp hold).done ?_
      have := h.transferred hq
      rw [← hr] at this
      simpa [Transferred, hold] using this
    · exact h.tasks p t st hp hst

/-- A row on which a task waits for a write of its own is not transferred yet. -/
theorem not_transferred (h : Ownership s) {p : Pid} {row : RowId} {id : String}
    {recording : LocalRecording} {w : TaskWrite}
    (hp : s.tasks.get? p = some ⟨row, id, .writing recording w .pending⟩) :
    ¬ Transferred (statusOf s.rows) row := by
  rintro (hst | hst) <;>
  · have := h.tasks p _ _ hp hst
    cases w <;> simp [TaskPc.Fits] at this

/-- A row that a drain has picked is not the row of a task. -/
theorem picked_ne (hs : Slots s) {p q : Pid} {row : RowId} {t : Task}
    (hp : s.drains.get? p = some (.picked row)) (hq : s.tasks.get? q = some t) :
    row ≠ t.row := by
  rintro rfl
  obtain ⟨-, item, hrow, hid⟩ := hs.drainPcs p _ hp
  obtain ⟨item', hrow', he⟩ := hs.taskRows q t hq
  cases hrow.symm.trans hrow'
  exact hid (he ▸ hs.mem_active hq)

/-- A write other than `done` to a row that is not transferred. -/
theorem drainFits_modify {row : RowId} {now : ℕ} {u : Update} {pc : DrainPc}
    (hpc : pc.Fits (statusOf s.rows)) (hrow : ¬ Transferred (statusOf s.rows) row)
    (hpicked : pc = .picked row → u.status?.getD .pending = .pending) :
    pc.Fits (statusOf (s.rows.modify row (u.apply now))) := by
  refine hpc.mono (fun r hr => ?_) fun r he hr => ?_
  · have hne : r ≠ row := fun he => hrow (he ▸ hr)
    rw [statusOf_modify, if_neg hne]
    exact .inl rfl
  · rw [statusOf_modify]
    split_ifs with hrr
    · subst hrr
      have := hpicked he
      cases hu : u.status? with
      | none => simpa [hu] using hr
      | some st =>
        have hst : st = .pending := by simpa [hu] using this
        obtain hr | hr := hr <;> simp [hr, hst]
    · exact hr

/-- The `done` write to a transferred row. -/
theorem drainFits_done {row : RowId} (now : ℕ) {pc : DrainPc} (hpc : pc.Fits (statusOf s.rows))
    (hrow : Transferred (statusOf s.rows) row) :
    pc.Fits (statusOf (s.rows.modify row (Update.done.apply now))) := by
  refine hpc.mono (fun r hr => ?_) fun r he hr => ?_
  · rw [statusOf_modify]
    split_ifs
    · obtain hr | hr := hr <;> simp [hr, Update.status?]
    · exact .inl rfl
  · have hne : r ≠ row := by
      rintro rfl
      obtain hr | hr := hr <;> simp [Transferred, hr] at hrow
    rw [statusOf_modify, if_neg hne]
    exact hr

/-- The first job is performed: what the drains know. -/
theorem commit_drains (h : Ownership s) (hs : Slots s) {job : Job} (hm : job ∈ s.writer)
    (hj : JobOf s job) {newId : RowId} (hnew : newId ∉ s.rows.keys) {p : Pid} {pc : DrainPc}
    (hp : (s.settle .resolved job.owner).drains.get? p = some pc) :
    pc.Fits (statusOf (job.action.run s.now newId s.rows)) := by
  cases hj with
  | progress row loaded =>
    have hpc := h.drains p pc hp
    rwa [Action.run, statusOf_modify_of_none rfl]
  | create hc =>
    rcases s.of_get?_settle_drains hp with ⟨_, he, -⟩ | ⟨-, hp⟩
    · cases he
    refine (h.drains p pc hp).mono (fun r hr => .inl ?_) fun r _ hr => ?_
    · obtain hr | hr := hr <;> exact (statusOf_push_of_some hnew hr).trans hr.symm
    · exact hr.imp (statusOf_push_of_some hnew) (statusOf_push_of_some hnew)
  | reset hc =>
    rcases s.of_get?_settle_drains hp with ⟨_, he, -⟩ | ⟨-, hp⟩
    · cases he
    refine drainFits_modify (h.drains p pc hp) ?_ fun _ => rfl
    have := h.resets _ hm _ rfl
    rintro (hr | hr) <;> simp [hr] at this
  | task hq =>
    rcases s.of_get?_settle_drains hp with ⟨_, he, -⟩ | ⟨-, hp⟩
    · cases he
    -- the row of a task is not the one that the drain has picked
    refine drainFits_modify (h.drains p pc hp) (h.not_transferred hq) fun he => ?_
    exact absurd rfl (picked_ne hs (he ▸ hp) hq)
  | taskDone hq =>
    rcases s.of_get?_settle_drains hp with ⟨_, he, -⟩ | ⟨-, hp⟩
    · cases he
    exact drainFits_done s.now (h.drains p pc hp) (h.task_transferred hs hq)
  | @drainDone q row conflict serverId rest hq =>
    have hrow := h.transferred hq
    have hpc := drainFits_done s.now (h.drains q _ hq) hrow
    rcases s.of_get?_settle_drains hp with ⟨pc', he, hq', rfl⟩ | ⟨he, hp⟩
    · cases he
      cases hq.symm.trans hq'
      refine ⟨⟨.done, ?_, rfl⟩, hpc.2⟩
      obtain hr | hr := hrow <;> simp [Action.run, statusOf_modify, hr, Update.status?]
    · -- no other drain runs
      exact absurd (congrArg (some ∘ Owner.drain) (hs.drain_pc_unique hq hp).1) he

/-- The first job is performed. -/
theorem commit (h : Ownership s) (hs : Slots s) (hwriter : Writer s) {job : Job}
    {jobs : List Job} (hw : s.writer = job :: jobs) {newId : RowId}
    (hnew : newId ∉ s.rows.keys) :
    Ownership ({ s with rows := job.action.run s.now newId s.rows, writer := jobs }.settle
      .resolved job.owner) := by
  have hm : job ∈ s.writer := hw ▸ List.mem_cons_self
  have hj := hwriter.jobOf hm
  have horder := List.pairwise_cons.1 (hw ▸ h.order)
  constructor
  · intro p t st hp hst
    rw [State.settle_rows] at hst
    refine h.commit_tasks hs hm hj hnew (p := p) ?_ hst
    rwa [State.get?_settle_tasks] at hp ⊢
  · intro p pc hp
    rw [State.settle_rows]
    refine h.commit_drains hs hm hj hnew (p := p) ?_
    rwa [State.get?_settle_drains] at hp ⊢
  · intro job' hm' row ha
    rw [State.settle_writer] at hm'
    rw [State.settle_rows]
    exact resets_run hnew (h.resets job' (hw ▸ List.mem_cons_of_mem _ hm') row ha)
      fun u hu => horder.1 job' hm' row u ha hu
  · rw [State.settle_writer]
    exact horder.2

/-- The effects of a turn whose awaited write is not that of `retryUpload`. -/
theorem perform (h : Ownership s) {who : Owner} {effects : List Effect} {awaited : Option Action}
    (hjobs : TurnJobs who effects awaited) (ha : ∀ row, awaited ≠ some (.update row .reset)) :
    Ownership (s.perform who effects) := by
  refine { h.request (effects.filterMap (requestedJob who)) ?_ with }
  intro job hm row he
  exact absurd he (hjobs.ne_reset (ha row) hm)

theorem start (h : Ownership s) (hs : Slots s) {p : Pid} {row : RowId} {item : UploadQueueItem}
    (hp : s.drains.get? p = some (.picked row)) :
    Ownership ((s.startTask row item.recordingId).testSlots p) := by
  have hstart : Ownership (s.startTask row item.recordingId) := by
    refine { h with tasks := ?_ }
    intro q t st hq hst
    rcases Table.of_get?_push hs.nextPid_fresh_task hq with ⟨-, rfl⟩ | ⟨-, hq⟩
    · have hrow := h.drains p _ hp
      simp only [State.startTask] at hst
      simpa [DrainPc.Fits, hst, TaskPc.Fits] using hrow
    · exact h.tasks q t st hq hst
  refine hstart.setDrain ?_
  split_ifs <;> trivial

/-- No write takes a row out of `done`. -/
theorem done_run (h : Ownership s) {job : Job} (hm : job ∈ s.writer) (hj : JobOf s job)
    {newId : RowId} (hnew : newId ∉ s.rows.keys) {r : RowId}
    (hr : statusOf s.rows r = some .done) :
    statusOf (job.action.run s.now newId s.rows) r = some .done := by
  cases hj with
  | progress row loaded =>
    rw [Action.run, statusOf_modify_of_none rfl]
    exact hr
  | create hp => exact statusOf_push_of_some hnew hr
  | @reset p row hp =>
    have hne : r ≠ row := by
      rintro rfl
      have := h.resets _ hm _ rfl
      simp [hr] at this
    rw [Action.run, statusOf_modify, if_neg hne]
    exact hr
  | @task p row id recording w hp =>
    have hne : r ≠ row := by
      rintro rfl
      exact h.not_transferred hp (.inr hr)
    rw [Action.run, statusOf_modify, if_neg hne]
    exact hr
  | taskDone hp =>
    rw [Action.run, statusOf_modify]
    split_ifs <;> simp [hr, Update.status?]
  | drainDone hp =>
    rw [Action.run, statusOf_modify]
    split_ifs <;> simp [hr, Update.status?]

theorem move (h : Ownership s) (hs : Slots s) (hwriter : Writer s) {l : Label}
    (hm : Move s l s') : Ownership s' := by
  cases hm with
  | outside consent listening hnow => exact { h with }
  | screen recording => exact { h with }
  | wake listening =>
    exact processQueue (s := { s with listening := listening }) { h with } { hs with }
  | enqueue recordingId bytesTotal =>
    refine { h.request [⟨some (.call s.nextPid), .create recordingId bytesTotal⟩] ?_ with }
    intro job hm row ha
    rw [List.mem_singleton.1 hm] at ha
    cases ha
  | retry row => exact { h with }
  | drain hp ht => exact h.setDrain (ht.fits (h.drains _ _ hp))
  | queryFailed hp hpc => exact h.setDrain trivial
  | @handler o p row pc rest item next effects hp hrow ht ho =>
    refine (h.perform (ht.jobs rest) fun r => ?_).setDrain (ht.drainFits (h.drains p _ hp))
    cases next with
    | await pc' => exact pc'.awaited_ne_reset row r
    | returned => nofun
    | threw => nofun
  | start hp hrow => exact h.start hs hp
  | leave hp => exact { h.eraseDrain with }
  | @task l p t pc effects hp ht =>
    obtain ⟨item, hrow, -⟩ := hs.taskRows p t hp
    exact (h.perform (ht item hrow).jobs (pc.awaited_ne_reset t.row)).setTask hp rfl
      fun st hpc => (ht item hrow).fits hpc
  | @finish p t hp hpc =>
    exact processQueue (s := { s with
      store := s.store.removeActiveUpload t.recordingId, tasks := s.tasks.erase p })
      { h.eraseTask with } (hs.releaseTask hp)
  | reset hp hrow hst =>
    have hfailed := (statusOf_of_get? hrow).trans (congrArg some hst)
    exact { h.requestReset hwriter hfailed with }
  | @wakeCall p pc hp hpc =>
    exact processQueue (s := s.endCall p) { h with } hs.endCall
  | endCall hp hpc hidle => exact { h with }
  | commit hw hnew => exact h.commit hs hwriter hw hnew
  | reject hw => exact h.reject hw
  | kill =>
    exact processQueue (s := { s.die with listening := true }) { die s with }
      { Slots.die with }

/-- **Done is absorbing.** -/
theorem done_of_move (h : Ownership s) (hwriter : Writer s) {l : Label} (hm : Move s l s')
    {r : RowId} (hr : statusOf s.rows r = some .done) : statusOf s'.rows r = some .done := by
  cases hm with
  | commit hw hnew =>
    have hmem := hw ▸ List.mem_cons_self
    rw [State.settle_rows]
    exact h.done_run hmem (hwriter.jobOf hmem) hnew hr
  | reject hw => simpa using hr
  | wake listening => simpa using hr
  | finish hp hpc => simpa [State.finishTask] using hr
  | wakeCall hp hpc => simpa [State.endCall] using hr
  | kill => simpa [State.kill, State.initQueue, State.die] using hr
  | _ => exact hr

/-- **Every running call knows the status of its rows, in every reachable state.** -/
theorem of_reachable (h : uploadService.Reachable s) : Ownership s := by
  refine h.invariant_of ?_ fun s l s' hr ho hst =>
    ho.move (.of_reachable hr) (.of_reachable hr) (.of_step hst)
  rintro s ⟨consent, now, rfl⟩
  exact init

end Ownership

end UploadService

end FCord
