import FCord.Upload.Stranding

/-!
# Wake-ups

`processQueue` returns at once while a drain runs, and nothing but a call of `processQueue` makes
the service look for work.  So a waiting row is safe as long as somebody is still going to look:
a drain that has its last look ahead of it, a call or a task that is about to call
`processQueue`.  `Wakeup.Covered` says this of a state, `Wakeup.Heard` names the steps that keep
it: those that do not drop a wake-up that was still needed.

With `pending` rows this is about the flag `isProcessing` (`no_wakeup_lost`), with `retrying` rows
about the passing of time, too (`no_retry_forgotten`).
-/

namespace FCord

namespace UploadService

/-- The drain is going to take a row into a slot, or to query the candidates once more. -/
def DrainPc.LooksAhead (s : State) : DrainPc → Prop
  | .gotCandidates ids => ∃ row ∈ ids, s.eligible row = true
  | .leaving => False
  | _ => True

/-- An exception here ends the drain. -/
def DrainPc.canThrow : DrainPc → Bool
  | .queryCompleting => true
  | .queryCandidates => true
  | .handling _ (.writingDone true _ .rejected) _ => true
  | _ => false

/-- The rows to wake up for, and the tasks that are counted on. -/
structure Wakeup where
  /-- The status of the rows. -/
  status : UploadQueueStatus
  /-- The tasks that are counted on are those that wait here. -/
  counts : TaskPc → Bool
  counts_settle : ∀ promise pc, counts pc = true → counts (TaskPc.settle promise pc) = true
  counts_turn : ∀ {who row item now store consent pc pc' effects},
    TaskTurn who row item now store consent pc pc' effects → counts pc = true → counts pc' = true

namespace Wakeup

variable (W : Wakeup)

/-- A row of the kind could be started now. -/
def Waits (s : State) : Prop :=
  ∃ row item, s.rows.get? row = some item ∧ item.status = W.status ∧ s.eligible row = true

/-- Somebody is going to look for work: a drain, a call or a task.  If all slots are taken, their
tasks are. -/
def Awake (s : State) : Prop :=
  (∃ p pc, s.drains.get? p = some pc ∧ pc.LooksAhead s) ∨
  (∃ p pc, s.calls.get? p = some pc ∧ CallPc.landed pc = true) ∨
  MAX_CONCURRENT_UPLOADS ≤ s.store.activeUploadIds.length ∨
  ∃ p t, s.tasks.get? p = some t ∧ W.counts t.pc = true

/-- If a row waits, somebody is going to look for it. -/
def Covered (s : State) : Prop := W.Waits s → W.Awake s

/-- A `processQueue` that the flag turns away, or an exception that ends a drain, leaves the
waiting rows to somebody else. -/
def Heard (s : State) : Label → Prop
  | .resume (.call p) .ok => ∀ pc, s.calls.get? p = some pc → pc.landed = true →
      s.store.isProcessing = true → W.Covered (s.endCall p)
  | .resume (.task p) .ok => ∀ t, s.tasks.get? p = some t → t.pc = .finishing →
      s.store.isProcessing = true → W.Covered { s with
        store := s.store.removeActiveUpload t.recordingId, tasks := s.tasks.erase p }
  | .resume (.drain p) .error => ∀ pc, s.drains.get? p = some pc → pc.canThrow = true →
      W.Covered { s with drains := s.drains.erase p }
  | _ => True

end Wakeup

/-! ### Eligible rows -/

section Eligible

variable {s s' : State}

theorem eligible_iff {row : RowId} :
    s.eligible row = true ↔ ∃ item, s.rows.get? row = some item ∧
      item.recordingId ∉ s.store.activeUploadIds ∧
        isQueueItemReady s.now item.status item.nextRetryAt = true := by
  unfold State.eligible
  split
  · rename_i hrow
    simp [hrow]
  · rename_i item hrow
    simp [hrow]

theorem eligible_congr (hrows : s'.rows = s.rows) (hnow : s'.now = s.now)
    (hactive : s'.store.activeUploadIds = s.store.activeUploadIds) (row : RowId) :
    s'.eligible row = s.eligible row := by
  simp only [State.eligible, hrows, hnow, hactive]

theorem not_eligible_of_task (hs : Slots s) {p : Pid} {t : Task} (hp : s.tasks.get? p = some t) :
    s.eligible t.row ≠ true := by
  intro he
  obtain ⟨item, hrow, hid, -⟩ := eligible_iff.1 he
  obtain ⟨item', hrow', hid'⟩ := hs.taskRows p t hp
  cases hrow.symm.trans hrow'
  exact hid (hid' ▸ hs.mem_active hp)

theorem not_eligible_of_transferred {row : RowId} (h : Transferred (statusOf s.rows) row) :
    s.eligible row ≠ true := by
  intro he
  obtain ⟨item, hrow, -, hready⟩ := eligible_iff.1 he
  rcases status_of_isQueueItemReady hready with hst | hst <;>
  simp [Transferred, statusOf, hrow, hst] at h

/-- An eligible row is in the result of the candidate query. -/
theorem mem_candidates {row : RowId} (h : s.eligible row = true) :
    row ∈ s.rows.idsWhere fun item => item.status = .pending ∨ item.status = .retrying := by
  obtain ⟨item, hrow, -, hready⟩ := eligible_iff.1 h
  exact Table.mem_idsWhere_iff.2 ⟨item, hrow, by simpa using status_of_isQueueItemReady hready⟩

/-- A write to another row does not matter. -/
theorem eligible_update_of_ne {row r : RowId} (hr : row ≠ r) (u : Update) :
    State.eligible { s with rows := s.rows.modify r (u.apply s.now) } row = s.eligible row := by
  simp only [State.eligible, Table.get?_modify, if_neg hr]

theorem eligible_progress {r : RowId} (loaded : ℕ) (row : RowId) :
    State.eligible { s with rows := s.rows.modify r ((Update.bytesUploaded loaded).apply s.now) }
      row = s.eligible row := by
  by_cases hr : row = r
  · subst hr
    simp only [State.eligible, Table.get?_modify, if_true]
    cases s.rows.get? row <;> rfl
  · exact eligible_update_of_ne hr _

/-- No write makes an eligible row ineligible. -/
theorem eligible_run (hs : Slots s) (ho : Ownership s) {job : Job} (hj : JobOf s job)
    {newId : RowId} (hnew : newId ∉ s.rows.keys) {row : RowId} (h : s.eligible row = true) :
    State.eligible { s with rows := job.action.run s.now newId s.rows } row = true := by
  have hother : ∀ (r : RowId) (u : Update), row ≠ r →
      State.eligible { s with rows := s.rows.modify r (u.apply s.now) } row = true :=
    fun r u hr => (eligible_update_of_ne hr u).trans h
  have htask : ∀ p t, s.tasks.get? p = some t → row ≠ t.row := by
    rintro p t hp rfl
    exact not_eligible_of_task hs hp h
  cases hj with
  | progress r loaded => exact (eligible_progress loaded row).trans h
  | create hp =>
    obtain ⟨item, hrow, hid, hready⟩ := eligible_iff.1 h
    refine eligible_iff.2 ⟨item, ?_, hid, hready⟩
    have hne : row ≠ newId := fun he => hnew (he ▸ Table.mem_keys_of_get? hrow)
    simp [Action.run, Table.get?_push hnew, hne, hrow]
  | @reset p r hp =>
    by_cases hr : row = r
    · subst hr
      obtain ⟨item, hrow, hid, -⟩ := eligible_iff.1 h
      refine eligible_iff.2 ⟨Update.reset.apply s.now item, ?_, hid, rfl⟩
      simp [Action.run, Table.get?_modify, hrow]
    · exact hother r _ hr
  | task hp => exact hother _ _ (htask _ _ hp)
  | taskDone hp => exact hother _ _ (htask _ _ hp)
  | drainDone hp =>
    refine hother _ _ ?_
    rintro rfl
    exact not_eligible_of_transferred (ho.transferred hp) h

end Eligible

namespace Wakeup

variable {W : Wakeup} {s s' : State}

/-! ### What keeps a row covered -/

theorem Awake.mono (h : W.Awake s)
    (hdrains : ∀ p pc, s.drains.get? p = some pc → pc.LooksAhead s →
      ∃ pc', s'.drains.get? p = some pc' ∧ pc'.LooksAhead s')
    (hcalls : ∀ p pc, s.calls.get? p = some pc → CallPc.landed pc = true →
      ∃ pc', s'.calls.get? p = some pc' ∧ pc'.landed = true)
    (hactive : s'.store.activeUploadIds = s.store.activeUploadIds)
    (htasks : ∀ p t, s.tasks.get? p = some t → W.counts t.pc = true →
      ∃ t', s'.tasks.get? p = some t' ∧ W.counts t'.pc = true) : W.Awake s' := by
  rcases h with ⟨p, pc, hp, h⟩ | ⟨p, pc, hp, h⟩ | h | ⟨p, t, hp, h⟩
  · exact .inl ⟨p, hdrains p pc hp h⟩
  · exact .inr (.inl ⟨p, hcalls p pc hp h⟩)
  · exact .inr (.inr (.inl (hactive ▸ h)))
  · exact .inr (.inr (.inr ⟨p, htasks p t hp h⟩))

theorem looking {p : Pid} {pc : DrainPc} (hp : s.drains.get? p = some pc) (h : pc.LooksAhead s) :
    W.Awake s := .inl ⟨p, pc, hp, h⟩

theorem landed {p : Pid} {pc : CallPc} (hp : s.calls.get? p = some pc) (h : pc.landed = true) :
    W.Awake s := .inr (.inl ⟨p, pc, hp, h⟩)

theorem full (h : MAX_CONCURRENT_UPLOADS ≤ s.store.activeUploadIds.length) : W.Awake s :=
  .inr (.inr (.inl h))

theorem looksAhead_mono {pc : DrainPc} (h : pc.LooksAhead s)
    (he : ∀ row, s.eligible row = true → s'.eligible row = true) : pc.LooksAhead s' := by
  cases pc with
  | gotCandidates ids =>
    obtain ⟨row, hm, hrow⟩ := h
    exact ⟨row, hm, he row hrow⟩
  | _ => exact h

theorem looksAhead_settle {promise : Promise} {pc : DrainPc} (h : pc.LooksAhead s) :
    (pc.settle promise).LooksAhead s := by
  cases pc <;> exact h

theorem landed_settle {promise : Promise} {pc : CallPc} (h : pc.landed = true) :
    (pc.settle promise).landed = true := by
  cases pc with
  | finding row => cases h
  | resetting row write => cases write <;> first | exact h | cases h
  | creating recordingId bytesTotal write => cases write <;> first | exact h | cases h

theorem Waits.of_settle {promise : Promise} {owner : Option Owner}
    (h : W.Waits (s.settle promise owner)) : W.Waits s := by
  obtain ⟨row, item, hrow, hst, he⟩ := h
  rw [State.settle_rows] at hrow
  exact ⟨row, item, hrow, hst, (eligible_congr (by simp) (by simp) (by simp) row).symm.trans he⟩

/-- Telling a call about its write keeps everybody awake. -/
theorem Awake.settle (h : W.Awake s) (promise : Promise) (owner : Option Owner) :
    W.Awake (s.settle promise owner) := by
  have hel : ∀ row, s.eligible row = true → (s.settle promise owner).eligible row = true :=
    fun row hr => (eligible_congr (by simp) (by simp) (by simp) row).trans hr
  refine h.mono (fun p pc hp hpc => ?_) (fun p pc hp hpc => ?_) (by simp) fun p t hp ht => ?_
  · rw [State.get?_settle_drains, hp]
    split_ifs
    · exact ⟨_, rfl, looksAhead_settle (looksAhead_mono hpc hel)⟩
    · exact ⟨pc, rfl, looksAhead_mono hpc hel⟩
  · rw [State.get?_settle_calls, hp]
    split_ifs
    · exact ⟨_, rfl, landed_settle hpc⟩
    · exact ⟨pc, rfl, hpc⟩
  · rw [State.get?_settle_tasks, hp]
    split_ifs
    · exact ⟨_, rfl, W.counts_settle promise t.pc ht⟩
    · exact ⟨t, rfl, ht⟩

/-- `processQueue` starts a drain, unless the flag turns it away. -/
theorem Covered.processQueue (hs : Slots s) (h : s.store.isProcessing = true → W.Covered s) :
    W.Covered s.processQueue := by
  unfold State.processQueue
  split_ifs with hflag
  · exact h hflag
  · have hp : (s.drains.push s.nextPid .queryCompleting).get? s.nextPid =
        some .queryCompleting := by
      simp [Table.get?_push hs.nextPid_fresh_drain]
    exact fun _ => looking hp trivial

/-- A drain that moves, but still looks ahead. -/
theorem Covered.setDrain {p : Pid} {pc pc' : DrainPc} (hp : s.drains.get? p = some pc)
    (hpc : pc'.LooksAhead s) : W.Covered { s with drains := s.drains.set p pc' } :=
  fun _ => looking (Table.get?_set_self hp) (looksAhead_mono hpc fun _ => id)

/-- A drain that did not look ahead is not missed. -/
theorem Covered.leaveDrain (h : W.Covered s) {p : Pid} {pc : DrainPc} {drains : Table Pid DrainPc}
    (hp : s.drains.get? p = some pc) (hpc : ¬ pc.LooksAhead s)
    (hdrains : ∀ q, q ≠ p → drains.get? q = s.drains.get? q) :
    W.Covered { s with drains := drains } := by
  refine fun hw => (h hw).mono (fun q qc hq hqc => ?_) (fun q qc hq hqc => ⟨qc, hq, hqc⟩) rfl
    fun q t hq ht => ⟨t, hq, ht⟩
  have hne : q ≠ p := by
    rintro rfl
    cases hp.symm.trans hq
    exact hpc hqc
  exact ⟨qc, (hdrains q hne).trans hq, looksAhead_mono hqc fun _ => id⟩

/-- A turn of a drain. -/
theorem Covered.drain (h : W.Covered s) {p : Pid} {pc pc' : DrainPc}
    (hp : s.drains.get? p = some pc) (ht : DrainTurn s pc pc') :
    W.Covered { s with drains := s.drains.set p pc' } := by
  cases ht with
  | candidates =>
    rintro ⟨row, item, hrow, hst, hel⟩
    exact looking (Table.get?_set_self hp) ⟨row, mem_candidates hel, hel⟩
  | slotsFull hslot =>
    exact fun _ => full (by simpa [UploadQueueStore.hasAvailableSlot] using hslot)
  | @noneReady ids hnone =>
    refine h.leaveDrain hp ?_ fun q hq => Table.get?_set_of_ne hq
    rintro ⟨row, hm, hrow⟩
    simp [hnone row hm] at hrow
  | _ => exact .setDrain hp trivial

/-- An exception ends the drain. -/
theorem Covered.throw {p : Pid} (hok : W.Covered { s with drains := s.drains.erase p }) :
    W.Covered { s with drains := s.drains.set p .leaving } := by
  refine fun hw => (hok hw).mono (fun q qc hq hqc => ?_) (fun q qc hq hqc => ⟨qc, hq, hqc⟩) rfl
    fun q t hq ht => ⟨t, hq, ht⟩
  obtain ⟨hqp, hq⟩ := Table.of_get?_erase hq
  exact ⟨qc, (Table.get?_set_of_ne hqp).trans hq, looksAhead_mono hqc fun _ => id⟩

/-- `_handleCompleting` inside a drain goes on, returns, or ends the drain. -/
theorem Covered.handler {o : Outcome} {p : Pid} {row : RowId} {pc : HandlerPc}
    {rest : List RowId} {item : UploadQueueItem} {next : HandlerNext} {effects : List Effect}
    (hp : s.drains.get? p = some (.handling row pc rest))
    (ht : HandlerTurn (.drain p) row item s.consent pc next effects)
    (ho : next = .threw → o = .error) (hok : W.Heard s (.resume (.drain p) o)) :
    W.Covered { s.perform (.drain p) effects with
      drains := s.drains.set p (.afterHandler row rest next) } := by
  cases next with
  | await pc' => exact Covered.setDrain (s := s.perform (.drain p) effects) hp trivial
  | returned => exact Covered.setDrain (s := s.perform (.drain p) effects) hp trivial
  | threw =>
    -- the exception comes from the `done` write in the 409 branch, which nothing catches
    obtain rfl := ho rfl
    cases ht
    exact Covered.throw (s := s.perform (.drain p) []) (hok _ hp rfl)

/-- A started row occupies a slot; there is another look, or all slots are taken. -/
theorem Covered.start {p : Pid} {pc : DrainPc} (hp : s.drains.get? p = some pc) (row : RowId)
    (id : String) : W.Covered ((s.startTask row id).testSlots p) := by
  intro _
  unfold State.testSlots
  split_ifs with hslot
  · exact looking (Table.get?_set_self hp) trivial
  · exact full (by simpa [UploadQueueStore.hasAvailableSlot] using hslot)

/-- A turn of a task changes neither the rows nor the slots. -/
theorem Covered.task (h : W.Covered s) {p : Pid} {t : Task} {pc : TaskPc} {effects : List Effect}
    (hp : s.tasks.get? p = some t) (hpc : W.counts t.pc = true → W.counts pc = true) :
    W.Covered (s.taskTurn p t pc effects) := by
  have hel : ∀ row, (s.taskTurn p t pc effects).eligible row = s.eligible row :=
    eligible_congr rfl rfl (s.perform_activeUploadIds (.task p) effects)
  rintro ⟨row, item, hrow, hst, he⟩
  refine (h ⟨row, item, hrow, hst, hel row ▸ he⟩).mono (fun q qc hq hqc => ?_)
    (fun q qc hq hqc => ⟨qc, hq, hqc⟩) (s.perform_activeUploadIds (.task p) effects)
    fun q u hq hu => ?_
  · exact ⟨qc, hq, looksAhead_mono hqc fun row hr => (hel row).trans hr⟩
  · by_cases hqp : q = p
    · subst hqp
      cases hp.symm.trans hq
      exact ⟨_, Table.get?_set_self hp, hpc hu⟩
    · exact ⟨u, (Table.get?_set_of_ne hqp).trans hq, hu⟩

/-- Other calls are not missed unless they are about to call `processQueue`. -/
theorem Covered.setCalls (h : W.Covered s) {calls : Table Pid CallPc}
    (hcalls : ∀ p pc, s.calls.get? p = some pc → pc.landed = true → calls.get? p = some pc) :
    W.Covered { s with calls := calls } := fun hw =>
  (h hw).mono (fun _ pc hp hpc => ⟨pc, hp, looksAhead_mono hpc fun _ => id⟩)
    (fun p pc hp hpc => ⟨pc, hcalls p pc hp hpc, hpc⟩) rfl fun _ t hp ht => ⟨t, hp, ht⟩

theorem Covered.pushCall (h : W.Covered s) (hs : Slots s) (pc : CallPc) :
    W.Covered { s with calls := s.calls.push s.nextPid pc } := by
  refine h.setCalls fun p qc hp _ => ?_
  have hne : p ≠ s.nextPid := fun he => hs.nextPid_fresh_call (he ▸ Table.mem_keys_of_get? hp)
  rw [Table.get?_push hs.nextPid_fresh_call, if_neg hne, hp]

/-- Only `enqueueUpload` and `retryUpload` write a row that then waits. -/
theorem waits_of_run (hs : Slots s) (ho : Ownership s) {job : Job} (hj : JobOf s job)
    {newId : RowId} (hnew : newId ∉ s.rows.keys) (hcall : ∀ p, job.owner ≠ some (.call p))
    (h : W.Waits { s with rows := job.action.run s.now newId s.rows }) : W.Waits s := by
  obtain ⟨row, item, hrow, hst, he⟩ := h
  have hother : ∀ (r : RowId) (u : Update), row ≠ r →
      (s.rows.modify r (u.apply s.now)).get? row = some item →
      State.eligible { s with rows := s.rows.modify r (u.apply s.now) } row = true →
      W.Waits s := by
    intro r u hr hrow he
    rw [Table.get?_modify, if_neg hr] at hrow
    exact ⟨row, item, hrow, hst, (eligible_update_of_ne hr u).symm.trans he⟩
  have htask : ∀ p t, s.tasks.get? p = some t → row ≠ t.row := by
    rintro p t hp rfl
    have hs' : Slots { s with rows := job.action.run s.now newId s.rows, writer := s.writer } :=
      hs.setRows fun r old hr => Action.get?_run hnew hr
    exact not_eligible_of_task hs' hp he
  cases hj with
  -- the byte count decides neither the status nor the time of the next attempt
  | progress r loaded =>
    have hel : s.eligible row = true := (eligible_progress loaded row).symm.trans he
    by_cases hr : row = r
    · subst hr
      rw [Action.run, Table.get?_modify, if_pos rfl] at hrow
      obtain ⟨old, hold, rfl⟩ := Option.map_eq_some_iff.1 hrow
      exact ⟨row, old, hold, hst, hel⟩
    · rw [Action.run, Table.get?_modify, if_neg hr] at hrow
      exact ⟨row, item, hrow, hst, hel⟩
  | create hp => exact absurd rfl (hcall _)
  | reset hp => exact absurd rfl (hcall _)
  | task hp => exact hother _ _ (htask _ _ hp) hrow he
  | taskDone hp => exact hother _ _ (htask _ _ hp) hrow he
  | drainDone hp =>
    refine hother _ _ ?_ hrow he
    rintro rfl
    have hdone := ho.transferred hp
    refine not_eligible_of_transferred ?_ he
    rw [Transferred, Action.run, statusOf_modify, if_pos rfl]
    rcases hdone with hd | hd <;> simp [hd, Update.status?]

/-- The write of a call has landed, and the call is going to call `processQueue`. -/
theorem awake_of_call {promise : Promise} {job : Job} (hj : JobOf s job) {p : Pid}
    (howner : job.owner = some (.call p)) (hpromise : promise = .resolved) :
    ∃ pc, (s.settle promise job.owner).calls.get? p = some pc ∧ pc.landed = true := by
  subst hpromise
  rw [State.get?_settle_calls, howner, if_pos rfl]
  cases hj with
  | create hp =>
    cases howner
    exact ⟨_, by rw [hp]; rfl, rfl⟩
  | reset hp =>
    cases howner
    exact ⟨_, by rw [hp]; rfl, rfl⟩
  | _ => cases howner

/-- The database performs a write. -/
theorem Covered.commit (h : W.Covered s) (hs : Slots s) (ho : Ownership s) {job : Job}
    {jobs : List Job} (hj : JobOf s job) {newId : RowId} (hnew : newId ∉ s.rows.keys) :
    W.Covered ({ s with rows := job.action.run s.now newId s.rows, writer := jobs }.settle
      .resolved job.owner) := by
  intro hw
  -- only a call's write makes a row wait, and that call goes on to `processQueue`
  by_cases hcall : ∃ p, job.owner = some (.call p)
  · obtain ⟨p, howner⟩ := hcall
    obtain ⟨pc, hp, hpc⟩ := awake_of_call hj howner rfl
    refine landed (p := p) ?_ hpc
    rwa [State.get?_settle_calls] at hp ⊢
  · have hcall : ∀ p, job.owner ≠ some (.call p) := fun p hp => hcall ⟨p, hp⟩
    have hawake := h (waits_of_run hs ho hj hnew hcall hw.of_settle)
    refine Awake.settle (s := { s with rows := job.action.run s.now newId s.rows, writer := jobs })
      (hawake.mono (fun p pc hp hpc => ⟨pc, hp, ?_⟩) (fun p pc hp hpc => ⟨pc, hp, hpc⟩) rfl
        fun p t hp ht => ⟨t, hp, ht⟩) .resolved job.owner
    exact looksAhead_mono hpc fun row hr => eligible_run hs ho hj hnew hr

/-- A write fails. -/
theorem Covered.reject (h : W.Covered s) {jobs : List Job} (owner : Option Owner) :
    W.Covered ({ s with writer := jobs }.settle .rejected owner) := by
  intro hw
  refine Awake.settle (s := { s with writer := jobs }) ((h hw.of_settle).mono
    (fun p pc hp hpc => ⟨pc, hp, looksAhead_mono hpc fun _ => id⟩)
    (fun p pc hp hpc => ⟨pc, hp, hpc⟩) rfl fun p t hp ht => ⟨t, hp, ht⟩) .rejected owner

/-! ### Runs -/

theorem Covered.move (h : W.Covered s) (hs : Slots s) (hwriter : Writer s) (ho : Ownership s)
    {l : Label} (hok : W.Heard s l)
    (htick : ∀ ms, l = .tick ms → W.Covered { s with now := s.now + ms }) (hm : Move s l s') :
    W.Covered s' := by
  cases hm with
  | outside consent listening hnow =>
    rcases hnow with rfl | ⟨ms, rfl, rfl⟩
    · exact h
    · exact htick ms rfl
  | screen recording => exact h
  | wake listening =>
    exact processQueue (s := { s with listening := listening }) { hs with } fun _ => h
  | enqueue recordingId bytesTotal =>
    exact h.pushCall hs (.creating recordingId bytesTotal .pending)
  | retry row => exact h.pushCall hs (.finding row)
  | drain hp ht => exact h.drain hp ht
  | queryFailed hp hpc =>
    refine throw (hok _ hp ?_)
    rcases hpc with rfl | rfl <;> rfl
  | handler hp hrow ht ho' => exact handler hp ht ho' hok
  | start hp hrow => exact start hp _ _
  -- a drain that is leaving does not look for rows any more, so nobody misses it
  | leave hp =>
    refine leaveDrain (s := { s with store := s.store.setIsProcessing false }) h hp id
      fun q hq => ?_
    simp [Table.get?_erase, hq]
  | @task l p t pc effects hp ht =>
    obtain ⟨item, hrow, -⟩ := hs.taskRows p t hp
    exact h.task hp (W.counts_turn (ht item hrow))
  | @finish p t hp hpc =>
    exact processQueue (hs.releaseTask hp) fun hflag => hok t hp hpc hflag
  | @reset o p row item hp hrow hst =>
    refine setCalls (s := s.perform (.call p) [.write (.update row .reset)]) h
      fun q qc hq hqc => ?_
    have hne : q ≠ p := by
      rintro rfl
      cases hp.symm.trans hq
      cases hqc
    exact (Table.get?_set_of_ne hne).trans hq
  | @wakeCall p pc hp hpc =>
    exact processQueue hs.endCall fun hflag => hok pc hp hpc hflag
  | @endCall o p pc hp hpc hidle =>
    refine h.setCalls fun q qc hq hqc => ?_
    have hne : q ≠ p := by
      rintro rfl
      cases hp.symm.trans hq
      simp [hpc] at hqc
    simp [Table.get?_erase, hne, hq]
  | @commit newId job jobs hw hnew =>
    exact h.commit hs ho (hwriter.jobOf (hw ▸ List.mem_cons_self)) hnew
  | @reject job jobs hw => exact h.reject job.owner
  | kill =>
    exact processQueue (s := { s.die with listening := true }) { Slots.die with }
      fun hflag => by cases hflag

/-- Runs all of whose steps are heard keep the rows covered. -/
theorem of_reachable {ok : State → Label → Prop} (h : (uploadService.guard ok).Reachable s)
    (hok : ∀ s l, ok s l → W.Heard s l)
    (htick : ∀ s ms, ok s (.tick ms) → W.Covered s → W.Covered { s with now := s.now + ms }) :
    W.Covered s := by
  refine h.invariant_of ?_ fun s l s' hr hc hst => ?_
  · rintro s ⟨consent, now, rfl⟩ ⟨row, item, hrow, -⟩
    cases hrow
  · have hr := hr.of_guard
    refine hc.move (.of_reachable hr) (.of_reachable hr) (.of_reachable hr) (hok s l hst.1) ?_
      (.of_step hst.2)
    rintro ms rfl
    exact htick s ms hst.1 hc

end Wakeup

/-- Nothing is dropped if the flag is not set when `processQueue` is called, and no exception
ends a drain.  This can be evaluated. -/
def unflagged (s : State) : Label → Bool
  | .resume (.call _) .ok => !s.store.isProcessing
  | .resume (.task p) .ok => !s.store.isProcessing ||
      (s.tasks.get? p).all fun t => decide (t.pc ≠ .finishing)
  | .resume (.drain _) .error => false
  | .tick _ => false
  | _ => true

theorem heard_of_unflagged (W : Wakeup) {s : State} {l : Label} (h : unflagged s l = true) :
    W.Heard s l := by
  unfold Wakeup.Heard
  split
  · rename_i p
    rintro pc hp hpc hflag
    simp [unflagged, hflag] at h
  · rename_i p
    rintro t hp hpc hflag
    simp [unflagged, hflag, hp, hpc] at h
  · cases h
  · trivial

/-! ### `pending` rows -/

/-- `pending` rows are left to the tasks that are about to call `processQueue`. -/
def pendingRows : Wakeup where
  status := .pending
  counts pc := decide (pc = .finishing)
  counts_settle promise pc h := by
    rw [of_decide_eq_true h]
    rfl
  counts_turn ht h := by
    rw [of_decide_eq_true h] at ht
    cases ht

/-- A `pending` row whose recording is not active. -/
def PendingWaits (s : State) : Prop :=
  ∃ row item, s.rows.get? row = some item ∧ item.status = .pending ∧
    item.recordingId ∉ s.store.activeUploadIds

theorem pendingRows_waits_iff {s : State} : pendingRows.Waits s ↔ PendingWaits s := by
  constructor
  · rintro ⟨row, item, hrow, hst, he⟩
    obtain ⟨item', hrow', hid, -⟩ := eligible_iff.1 he
    cases hrow.symm.trans hrow'
    exact ⟨row, item, hrow, hst, hid⟩
  · rintro ⟨row, item, hrow, hst, hid⟩
    exact ⟨row, item, hrow, hst, eligible_iff.2 ⟨item, hrow, hid, by rw [hst]; rfl⟩⟩

/-- No drain, no call of the user interface and no `finally` callback is running. -/
def Idle (s : State) : Prop :=
  s.drains.keys = [] ∧ s.calls.keys = [] ∧ ∀ t ∈ s.tasks.values, t.pc ≠ .finishing

instance (s : State) : Decidable (Idle s) := inferInstanceAs (Decidable (_ ∧ _ ∧ _))

/-- **No wake-up is lost as long as no `processQueue` that a waiting row needs is turned away by
the flag**, and no drain that it needs ends by an exception: when nothing is running, all slots
are taken, or no `pending` row waits. -/
theorem no_wakeup_lost {s : State} (h : (uploadService.guard pendingRows.Heard).Reachable s)
    (hidle : Idle s) :
    s.store.activeUploadIds.length = MAX_CONCURRENT_UPLOADS ∨ ¬ PendingWaits s := by
  have hcov : pendingRows.Covered s := by
    refine Wakeup.of_reachable h (fun _ _ => id) ?_
    intro s ms _ hc hw
    -- time does not matter for a `pending` row
    have hw : PendingWaits s :=
      (pendingRows_waits_iff (s := { s with now := s.now + ms })).1 hw
    refine (hc (pendingRows_waits_iff.2 hw)).mono
      (fun p pc hp hpc => ⟨pc, hp, Wakeup.looksAhead_mono hpc fun r hr => ?_⟩)
      (fun p pc hp hpc => ⟨pc, hp, hpc⟩) rfl fun p t hp ht => ⟨t, hp, ht⟩
    obtain ⟨item, hrow, hid, hready⟩ := eligible_iff.1 hr
    exact eligible_iff.2 ⟨item, hrow, hid, isQueueItemReady_mono (Nat.le_add_right _ _) hready⟩
  -- of the four ways to be awake only full slots are left when nothing is running
  by_cases hw : PendingWaits s
  · left
    obtain ⟨hdrains, hcalls, htasks⟩ := hidle
    rcases hcov (pendingRows_waits_iff.2 hw) with ⟨p, pc, hp, -⟩ | ⟨p, pc, hp, -⟩ | hfull |
      ⟨p, t, hp, ht⟩
    · exact absurd hp (Table.get?_ne_some hdrains)
    · exact absurd hp (Table.get?_ne_some hcalls)
    · exact (Slots.of_reachable h.of_guard).le.antisymm hfull
    · exact absurd (of_decide_eq_true ht) (htasks t (Table.mem_values_iff.2 ⟨p, hp⟩))
  · exact .inr hw

/-- A recording is enqueued, its transfer is under way, and the drain has ended. -/
def drainEnded : List Label :=
  transferUnderWay ++ [.query 1, .resume (.drain 1) .ok, .resume (.drain 1) .ok]

/-- The service, with every step checked. -/
def checkedStep (s : State) (l : Label) : Option State :=
  if unflagged s l then step s l else none

theorem no_wakeup_lost_drainEnded : ∃ s ∈ LTS.exec checkedStep (init .missing 0) drainEnded,
    s.store.activeUploadIds = ["a"] ∧
      (s.store.activeUploadIds.length = MAX_CONCURRENT_UPLOADS ∨ ¬ PendingWaits s) := by
  have hrun : (LTS.exec checkedStep (init .missing 0) drainEnded).map (fun s =>
      (decide (Idle s), s.store.activeUploadIds)) = some (true, ["a"]) := by decide +kernel
  obtain ⟨s, hs, he⟩ := Option.map_eq_some_iff.1 hrun
  simp only [Prod.mk.injEq, decide_eq_true_eq] at he
  have hreach : (uploadService.guard pendingRows.Heard).Reachable s :=
    LTS.guard_reachable_of_check (fun _ _ => heard_of_unflagged _) (.start ⟨.missing, 0, rfl⟩) hs
  exact ⟨s, hs, he.2, no_wakeup_lost hreach he.1⟩

/-- The row lands after the last query of a drain, and the drain is still there when
`enqueueUpload` calls `processQueue`. -/
def lateEnqueue : List Label :=
  [.processQueue, .query 0, .resume (.drain 0) .ok, .query 0, .enqueueUpload "a" 10,
    .commit "q1", .resume (.call 1) .ok, .resume (.drain 0) .ok, .resume (.drain 0) .ok]

/-- That row waits, and nothing is running. -/
theorem wakeup_lost : ¬ ∀ s, uploadService.Reachable s → Idle s →
    s.store.activeUploadIds.length = MAX_CONCURRENT_UPLOADS ∨ ¬ PendingWaits s := by
  intro h
  have hrun : (LTS.exec step (init .missing 0) lateEnqueue).bind (fun s =>
      (s.rows.get? "q1").map fun item =>
        (decide (Idle s), s.store.activeUploadIds, item.status)) =
      some (true, [], .pending) := by decide +kernel
  obtain ⟨s, hs, hrun⟩ := Option.bind_eq_some_iff.1 hrun
  obtain ⟨item, hrow, he⟩ := Option.map_eq_some_iff.1 hrun
  simp only [Prod.mk.injEq, decide_eq_true_eq] at he
  obtain ⟨hidle, hactive, hst⟩ := he
  rcases h s (reachable_of_exec lateEnqueue hs) hidle with hfull | hnone
  · rw [hactive] at hfull
    cases hfull
  · exact hnone ⟨"q1", item, hrow, hst, by simp [hactive]⟩

/-! ### `retrying` rows -/

/-- `retrying` rows are left to all tasks: each calls `processQueue` in the end. -/
def retryingRows : Wakeup where
  status := .retrying
  counts _ := true
  counts_settle _ _ _ := rfl
  counts_turn _ _ := rfl

/-- Nobody drops a wake-up, and the time of a retry does not come unless somebody is going to
look for it. -/
def RetryHeard (s : State) (l : Label) : Prop :=
  retryingRows.Heard s l ∧ ∀ ms, l = .tick ms → retryingRows.Covered { s with now := s.now + ms }

/-- The time of a retry has come. -/
def Due (s : State) : Prop :=
  ∃ row item, s.rows.get? row = some item ∧ item.status = .retrying ∧
    isRetryReady s.now item.nextRetryAt = true

/-- No code of the queue is running: no drain, no task, no call. -/
def Silent (s : State) : Prop := s.drains.keys = [] ∧ s.tasks.keys = [] ∧ s.calls.keys = []

instance (s : State) : Decidable (Silent s) := inferInstanceAs (Decidable (_ ∧ _ ∧ _))

/-- **No retry is forgotten as long as every retry comes due while somebody is going to look for
it**, and no wake-up that it needs is dropped. -/
theorem no_retry_forgotten {s : State} (h : (uploadService.guard RetryHeard).Reachable s)
    (hsilent : Silent s) : ¬ Due s := by
  have hcov : retryingRows.Covered s :=
    Wakeup.of_reachable h (fun _ _ hok => hok.1) fun s ms hok _ => hok.2 ms rfl
  obtain ⟨hdrains, htasks, hcalls⟩ := hsilent
  have hvalues : s.tasks.values = [] :=
    List.eq_nil_iff_forall_not_mem.2 fun t ht => by
      obtain ⟨p, hp⟩ := Table.mem_values_iff.1 ht
      exact Table.get?_ne_some htasks hp
  -- without tasks all slots are free
  have hactive : s.store.activeUploadIds = [] := by
    rw [(Slots.of_reachable h.of_guard).active, hvalues, List.map_nil]
  rintro ⟨row, item, hrow, hst, hready⟩
  have hel : s.eligible row = true :=
    eligible_iff.2 ⟨item, hrow, by simp [hactive], by rw [hst]; exact hready⟩
  rcases hcov ⟨row, item, hrow, hst, hel⟩ with ⟨p, pc, hp, -⟩ | ⟨p, pc, hp, -⟩ | hfull |
    ⟨p, t, hp, -⟩
  · exact Table.get?_ne_some hdrains hp
  · exact Table.get?_ne_some hcalls hp
  · rw [hactive] at hfull
    exact absurd hfull (by decide)
  · exact Table.get?_ne_some htasks hp

/-- Nothing is dropped, and time passes only while a task is in flight.  This can be evaluated. -/
def heeded (s : State) : Label → Bool
  | .tick _ => !s.tasks.keys.isEmpty
  | l => unflagged s l

theorem retryHeard_of_heeded {s : State} {l : Label} (h : heeded s l = true) : RetryHeard s l := by
  by_cases hl : ∃ ms, l = .tick ms
  · obtain ⟨ms, rfl⟩ := hl
    refine ⟨trivial, fun ms' he _ => ?_⟩
    cases he
    cases hkeys : s.tasks.keys with
    | nil => simp [heeded, hkeys] at h
    | cons p keys =>
      have hp : s.tasks.get? p ≠ none := fun hp => Table.get?_eq_none_iff.1 hp (by simp [hkeys])
      obtain ⟨t, hp⟩ := Option.ne_none_iff_exists'.1 hp
      exact .inr (.inr (.inr ⟨p, t, hp, rfl⟩))
  · have h : unflagged s l = true := by
      cases l with
      | tick ms => exact absurd ⟨ms, rfl⟩ hl
      | _ => exact h
    exact ⟨heard_of_unflagged _ h, fun ms he => absurd ⟨ms, he⟩ hl⟩

/-- The transfer fails, the retry comes due while the task is still in flight, the drain that the
task starts runs it, and it fails as well; the next drain finds nothing to do yet. -/
def comesDue : List Label :=
  drainEnded ++
    [.native 2 (.error "network"), .resume (.task 2) .ok, .commit "q2", .tick 1000,
      .resume (.task 2) .ok, .resume (.task 2) .ok, .query 3, .resume (.drain 3) .ok, .query 3,
      .resume (.drain 3) .ok, .resume (.drain 3) .ok, .resume (.task 4) (.found (some meeting)),
      .commit "q2", .resume (.task 4) .ok, .resume (.task 4) .ok, .query 3, .resume (.drain 3) .ok,
      .resume (.drain 3) .ok, .native 4 (.error "network"), .resume (.task 4) .ok, .commit "q2",
      .resume (.task 4) .ok, .resume (.task 4) .ok, .query 5, .resume (.drain 5) .ok, .query 5,
      .resume (.drain 5) .ok, .resume (.drain 5) .ok]

theorem no_retry_forgotten_comesDue :
    ∃ s ∈ LTS.exec (fun s l => if heeded s l then step s l else none) (init .missing 0) comesDue,
      statusOf s.rows "q1" = some .retrying ∧ ¬ Due s := by
  have hrun : (LTS.exec (fun s l => if heeded s l then step s l else none) (init .missing 0)
      comesDue).map (fun s => (decide (Silent s), statusOf s.rows "q1")) =
        some (true, some .retrying) := by decide +kernel
  obtain ⟨s, hs, he⟩ := Option.map_eq_some_iff.1 hrun
  simp only [Prod.mk.injEq, decide_eq_true_eq] at he
  have hreach : (uploadService.guard RetryHeard).Reachable s :=
    LTS.guard_reachable_of_check (fun _ _ => retryHeard_of_heeded) (.start ⟨.missing, 0, rfl⟩) hs
  exact ⟨s, hs, he.2, no_retry_forgotten hreach he.1⟩

/-- The transfer fails, its row is `retrying`, and the drain that the task starts finds nothing
to do yet. -/
def backOff : List Label :=
  drainEnded ++
    [.native 2 (.error "network"), .resume (.task 2) .ok, .commit "q2", .resume (.task 2) .ok,
      .resume (.task 2) .ok, .query 3, .resume (.drain 3) .ok, .query 3, .resume (.drain 3) .ok,
      .resume (.drain 3) .ok]

/-- Then only the clock advances: the retry is due, and nothing is left to run it. -/
theorem retry_forgotten : ¬ ∀ s, uploadService.Reachable s → Silent s → ¬ Due s := by
  intro h
  have hrun : (LTS.exec step (init .missing 0) (backOff ++ [.tick 1000])).bind (fun s =>
      (s.rows.get? "q1").map fun item =>
        (decide (Silent s), item.status, isRetryReady s.now item.nextRetryAt)) =
      some (true, .retrying, true) := by decide +kernel
  obtain ⟨s, hs, hrun⟩ := Option.bind_eq_some_iff.1 hrun
  obtain ⟨item, hrow, he⟩ := Option.map_eq_some_iff.1 hrun
  simp only [Prod.mk.injEq, decide_eq_true_eq] at he
  exact h s (reachable_of_exec _ hs) he.1 ⟨"q1", item, hrow, he.2⟩

end UploadService

end FCord
