import FCord.Upload.Slots

/-!
# The database writer

A call that waits for a database write has exactly one job in the writer's queue, and every
job there is waited for, except those of the progress listeners (`Writer`).  Hence nobody
writes a row behind the back of a call that does not wait for that write.
-/

namespace FCord

/-- The write to `row` that `_handleCompleting` waits for. -/
def HandlerPc.awaited (row : RowId) : HandlerPc → Option Action
  | .writingDone _ _ .pending => some (.update row .done)
  | _ => none

/-- The write to `row` that `_processItem` waits for. -/
def TaskPc.awaited (row : RowId) : TaskPc → Option Action
  | .writing _ w .pending => some (.update row w.update)
  | .handling pc => pc.awaited row
  | _ => none

theorem HandlerPc.awaited_settle (row : RowId) {promise : Promise} (hp : promise ≠ .pending)
    (pc : HandlerPc) : (pc.settle promise).awaited row = none := by
  cases promise with
  | pending => exact absurd rfl hp
  | _ =>
    cases pc with
    | writingDone conflict serverId write => cases write <;> rfl
    | _ => rfl

theorem TaskPc.awaited_settle (row : RowId) {promise : Promise} (hp : promise ≠ .pending)
    (pc : TaskPc) : (pc.settle promise).awaited row = none := by
  cases pc with
  | handling pc => exact pc.awaited_settle row hp
  | writing recording w write =>
    cases promise with
    | pending => exact absurd rfl hp
    | _ => cases write <;> rfl
  | _ => rfl

theorem HandlerPc.awaited_eq_none {pc : HandlerPc} (h : pc.settle .resolved = pc)
    (row : RowId) : pc.awaited row = none := by
  rw [← h]
  exact pc.awaited_settle row (by decide)

/-- Only `retryUpload` makes a row `pending` again. -/
theorem HandlerPc.awaited_ne_reset (row r : RowId) (pc : HandlerPc) :
    pc.awaited row ≠ some (.update r .reset) := by
  unfold HandlerPc.awaited
  split <;> simp

theorem TaskPc.awaited_ne_reset (row r : RowId) (pc : TaskPc) :
    pc.awaited row ≠ some (.update r .reset) := by
  unfold TaskPc.awaited
  split
  · rename_i w
    cases w <;> simp [TaskWrite.update]
  · exact HandlerPc.awaited_ne_reset row r _
  · simp

namespace UploadService

/-- The write that a drain waits for. -/
def DrainPc.awaited : DrainPc → Option Action
  | .handling row pc _ => pc.awaited row
  | _ => none

/-- The write that a task waits for. -/
def Task.awaited (t : Task) : Option Action := t.pc.awaited t.row

/-- The write that a call waits for. -/
def CallPc.awaited : CallPc → Option Action
  | .resetting row .pending => some (.update row .reset)
  | .creating recordingId bytesTotal .pending => some (.create recordingId bytesTotal)
  | _ => none

theorem DrainPc.awaited_settle {promise : Promise} (hp : promise ≠ .pending) (pc : DrainPc) :
    (pc.settle promise).awaited = none := by
  cases pc with
  | handling row pc rest => exact pc.awaited_settle row hp
  | _ => rfl

theorem CallPc.awaited_settle {promise : Promise} (hp : promise ≠ .pending) (pc : CallPc) :
    (pc.settle promise).awaited = none := by
  cases promise with
  | pending => exact absurd rfl hp
  | _ =>
    cases pc with
    | finding row => rfl
    | resetting row write => cases write <;> rfl
    | creating recordingId bytesTotal write => cases write <;> rfl

theorem CallPc.awaited_eq_none {pc : CallPc} (h : pc.settle .resolved = pc) :
    pc.awaited = none := by
  rw [← h]
  exact pc.awaited_settle (by decide)

theorem CallPc.awaited_of_landed {pc : CallPc} (h : pc.landed = true) : pc.awaited = none := by
  unfold CallPc.landed at h
  split at h
  · rfl
  · rfl
  · cases h

/-- The write that a running call waits for. -/
def State.awaited (s : State) : Owner → Option Action
  | .drain p => (s.drains.get? p).bind DrainPc.awaited
  | .task p => (s.tasks.get? p).bind Task.awaited
  | .call p => (s.calls.get? p).bind CallPc.awaited

/-! ### The jobs of a turn -/

/-- The jobs that the effects of a turn of `who` request: the one it waits for afterwards, or
the one of a progress listener. -/
def TurnJobs (who : Owner) (effects : List Effect) (awaited : Option Action) : Prop :=
  (∃ action, awaited = some action ∧
    effects.filterMap (requestedJob who) = [⟨some who, action⟩]) ∨
  (awaited = none ∧ effects.filterMap (requestedJob who) = []) ∨
  (awaited = none ∧ ∃ row loaded,
    effects.filterMap (requestedJob who) = [⟨none, .update row (.bytesUploaded loaded)⟩])

/-- A turn requests no write of `retryUpload`. -/
theorem TurnJobs.ne_reset {who : Owner} {effects : List Effect} {awaited : Option Action}
    (h : TurnJobs who effects awaited) {r : RowId} (ha : awaited ≠ some (.update r .reset))
    {job : Job} (hm : job ∈ effects.filterMap (requestedJob who)) :
    job.action ≠ .update r .reset := by
  rcases h with ⟨action, hawait, he⟩ | ⟨-, he⟩ | ⟨-, r', loaded, he⟩
  · rw [he, List.mem_singleton] at hm
    subst hm
    exact fun hj => ha (hawait.trans (congrArg some hj))
  · simp [he] at hm
  · rw [he, List.mem_singleton] at hm
    subst hm
    intro hj
    cases hj

section Turns

variable {who : Owner} {row : RowId} {item : UploadQueueItem} {now : ℕ}
variable {store : UploadQueueStore} {consent : ConsentEntry} {effects : List Effect}

theorem HandlerTurn.awaited_eq_none {pc : HandlerPc} {next : HandlerNext}
    (h : HandlerTurn who row item consent pc next effects) : pc.awaited row = none := by
  cases h with
  | stop hpc => exact HandlerPc.awaited_eq_none hpc row
  | _ => rfl

theorem HandlerTurn.jobs {pc : HandlerPc} {next : HandlerNext}
    (h : HandlerTurn who row item consent pc next effects) (rest : List RowId) :
    TurnJobs who effects (DrainPc.afterHandler row rest next).awaited := by
  cases h with
  | completed conflict => exact .inl ⟨_, rfl, rfl⟩
  | _ => exact .inr (.inl ⟨rfl, rfl⟩)

theorem HandlerTurn.taskJobs {pc : HandlerPc} {next : HandlerNext}
    (h : HandlerTurn who row item consent pc next effects) :
    TurnJobs who effects ((taskPcAfterHandler next).awaited row) := by
  cases h with
  | completed conflict => exact .inl ⟨_, rfl, rfl⟩
  | _ => exact .inr (.inl ⟨rfl, rfl⟩)

theorem TaskTurn.awaited_eq_none {pc pc' : TaskPc}
    (h : TaskTurn who row item now store consent pc pc' effects) : pc.awaited row = none := by
  cases h with
  | handler hh => exact hh.awaited_eq_none
  | _ => rfl

theorem TaskTurn.jobs {pc pc' : TaskPc}
    (h : TaskTurn who row item now store consent pc pc' effects) :
    TurnJobs who effects (pc'.awaited row) := by
  cases h with
  | handler hh => exact hh.taskJobs
  | progress loaded total => exact .inr (.inr ⟨rfl, _, _, rfl⟩)
  | skip => exact .inr (.inl ⟨rfl, rfl⟩)
  | presign => exact .inr (.inl ⟨rfl, rfl⟩)
  | start => exact .inr (.inl ⟨rfl, rfl⟩)
  | complete => exact .inr (.inl ⟨rfl, rfl⟩)
  | written hw => exact .inr (.inl ⟨rfl, rfl⟩)
  | writeFailed => exact .inr (.inl ⟨rfl, rfl⟩)
  | started => exact .inr (.inl ⟨rfl, rfl⟩)
  | startFailed error => exact .inr (.inl ⟨rfl, rfl⟩)
  | interrupted error => exact .inr (.inl ⟨rfl, rfl⟩)
  | putCompleted code => exact .inr (.inl ⟨rfl, rfl⟩)
  | _ => exact .inl ⟨_, rfl, rfl⟩

theorem DrainTurn.awaited_eq_none {s : State} {pc pc' : DrainPc} (h : DrainTurn s pc pc') :
    pc.awaited = none ∧ pc'.awaited = none := by
  cases h <;> exact ⟨rfl, rfl⟩

end Turns

/-! ### The invariant -/

/-- The writer invariant. -/
structure Writer (s : State) : Prop where
  served : PromiseQueue.Served s.writer s.awaited
  /-- Only progress is written without waiting. -/
  detached : ∀ job ∈ s.writer, job.owner = none →
    ∃ row loaded, job.action = .update row (.bytesUploaded loaded)

/-- The jobs that can be in the queue, each with the program point of its owner. -/
inductive JobOf (s : State) : Job → Prop
  | progress (row : RowId) (loaded : ℕ) : JobOf s ⟨none, .update row (.bytesUploaded loaded)⟩
  | create {p : Pid} {recordingId : String} {bytesTotal : ℕ}
      (hp : s.calls.get? p = some (.creating recordingId bytesTotal .pending)) :
      JobOf s ⟨some (.call p), .create recordingId bytesTotal⟩
  | reset {p : Pid} {row : RowId} (hp : s.calls.get? p = some (.resetting row .pending)) :
      JobOf s ⟨some (.call p), .update row .reset⟩
  | task {p : Pid} {row : RowId} {recordingId : String} {recording : LocalRecording}
      {w : TaskWrite}
      (hp : s.tasks.get? p = some ⟨row, recordingId, .writing recording w .pending⟩) :
      JobOf s ⟨some (.task p), .update row w.update⟩
  | taskDone {p : Pid} {row : RowId} {recordingId : String} {conflict : Bool}
      {serverId : String} (hp : s.tasks.get? p =
        some ⟨row, recordingId, .handling (.writingDone conflict serverId .pending)⟩) :
      JobOf s ⟨some (.task p), .update row .done⟩
  | drainDone {p : Pid} {row : RowId} {conflict : Bool} {serverId : String}
      {rest : List RowId} (hp : s.drains.get? p =
        some (.handling row (.writingDone conflict serverId .pending) rest)) :
      JobOf s ⟨some (.drain p), .update row .done⟩

theorem HandlerPc.of_awaited {pc : HandlerPc} {row : RowId} {action : Action}
    (h : pc.awaited row = some action) :
    action = .update row .done ∧
      ∃ conflict serverId, pc = .writingDone conflict serverId .pending := by
  unfold HandlerPc.awaited at h
  split at h
  · cases h
    exact ⟨rfl, _, _, rfl⟩
  · cases h

namespace Writer

variable {s s' : State}

theorem jobOf (h : Writer s) {job : Job} (hm : job ∈ s.writer) : JobOf s job := by
  obtain ⟨owner, action⟩ := job
  cases owner with
  | none =>
    -- nobody waits for the writes of a progress listener
    obtain ⟨row, loaded, rfl⟩ := h.detached _ hm rfl
    exact .progress row loaded
  | some who =>
    have ha := h.served.awaited_of_mem hm rfl
    cases who with
    | drain p =>
      obtain ⟨pc, hp, hpc⟩ := Option.bind_eq_some_iff.1 ha
      unfold DrainPc.awaited at hpc
      split at hpc
      · obtain ⟨rfl, conflict, serverId, rfl⟩ := HandlerPc.of_awaited hpc
        exact .drainDone hp
      · cases hpc
    | task p =>
      obtain ⟨⟨row, recordingId, pc⟩, hp, hpc⟩ := Option.bind_eq_some_iff.1 ha
      unfold Task.awaited TaskPc.awaited at hpc
      split at hpc
      · rename_i hpc'
        simp only at hpc'
        subst hpc'
        cases hpc
        exact .task hp
      · rename_i hpc'
        simp only at hpc'
        subst hpc'
        obtain ⟨rfl, conflict, serverId, rfl⟩ := HandlerPc.of_awaited hpc
        exact .taskDone hp
      · cases hpc
    | call p =>
      obtain ⟨pc, hp, hpc⟩ := Option.bind_eq_some_iff.1 ha
      unfold CallPc.awaited at hpc
      split at hpc
      · cases hpc
        exact .reset hp
      · cases hpc
        exact .create hp
      · cases hpc

/-! ### What is awaited after a step -/

section Awaited

variable {p : Pid}

theorem awaited_setDrain {pc pc' : DrainPc} (hp : s.drains.get? p = some pc) :
    State.awaited { s with drains := s.drains.set p pc' } =
      Function.update s.awaited (.drain p) pc'.awaited := by
  funext who
  cases who with
  | drain q =>
    by_cases he : q = p
    · subst he
      simp [State.awaited, Table.get?_set_self hp]
    · simp [State.awaited, Table.get?_set_of_ne he, he]
  | _ => simp [State.awaited]

theorem awaited_setTask {t t' : Task} (hp : s.tasks.get? p = some t) :
    State.awaited { s with tasks := s.tasks.set p t' } =
      Function.update s.awaited (.task p) t'.awaited := by
  funext who
  cases who with
  | task q =>
    by_cases he : q = p
    · subst he
      simp [State.awaited, Table.get?_set_self hp]
    · simp [State.awaited, Table.get?_set_of_ne he, he]
  | _ => simp [State.awaited]

theorem awaited_setCall {pc pc' : CallPc} (hp : s.calls.get? p = some pc) :
    State.awaited { s with calls := s.calls.set p pc' } =
      Function.update s.awaited (.call p) pc'.awaited := by
  funext who
  cases who with
  | call q =>
    by_cases he : q = p
    · subst he
      simp [State.awaited, Table.get?_set_self hp]
    · simp [State.awaited, Table.get?_set_of_ne he, he]
  | _ => simp [State.awaited]

theorem awaited_settle {promise : Promise} (hp : promise ≠ .pending) (owner : Option Owner) :
    (s.settle promise owner).awaited =
      match owner with
      | none => s.awaited
      | some who => Function.update s.awaited who none := by
  funext who
  have hdrain : ∀ q, (((s.drains.get? q).map (DrainPc.settle promise)).bind DrainPc.awaited) =
      none := by
    intro q
    cases s.drains.get? q <;> simp [DrainPc.awaited_settle hp]
  have htask : ∀ q, (((s.tasks.get? q).map (Task.settle promise)).bind Task.awaited) =
      none := by
    intro q
    cases s.tasks.get? q <;> simp [Task.awaited, Task.settle, TaskPc.awaited_settle _ hp]
  have hcall : ∀ q, (((s.calls.get? q).map (CallPc.settle promise)).bind CallPc.awaited) =
      none := by
    intro q
    cases s.calls.get? q <;> simp [CallPc.awaited_settle hp]
  cases owner with
  | none => rfl
  | some owner =>
    simp only [Function.update_apply]
    cases who with
    | drain q =>
      simp only [State.awaited, State.get?_settle_drains, Option.some.injEq, eq_comm (a := owner)]
      split_ifs <;> simp [hdrain]
    | task q =>
      simp only [State.awaited, State.get?_settle_tasks, Option.some.injEq, eq_comm (a := owner)]
      split_ifs <;> simp [htask]
    | call q =>
      simp only [State.awaited, State.get?_settle_calls, Option.some.injEq, eq_comm (a := owner)]
      split_ifs <;> simp [hcall]

theorem awaited_pushDrain (hp : p ∉ s.drains.keys) {pc : DrainPc} (hpc : pc.awaited = none) :
    State.awaited { s with drains := s.drains.push p pc } = s.awaited := by
  funext who
  cases who with
  | drain q =>
    simp only [State.awaited, Table.get?_push hp]
    split_ifs with he
    · simp [hpc, he, Table.get?_eq_none_iff.2 hp]
    · rfl
  | _ => rfl

theorem awaited_pushTask (hp : p ∉ s.tasks.keys) {t : Task} (ht : t.awaited = none) :
    State.awaited { s with tasks := s.tasks.push p t } = s.awaited := by
  funext who
  cases who with
  | task q =>
    simp only [State.awaited, Table.get?_push hp]
    split_ifs with he
    · simp [ht, he, Table.get?_eq_none_iff.2 hp]
    · rfl
  | _ => rfl

theorem awaited_pushCall (hp : p ∉ s.calls.keys) {pc : CallPc} :
    State.awaited { s with calls := s.calls.push p pc } =
      Function.update s.awaited (.call p) pc.awaited := by
  funext who
  cases who with
  | call q =>
    by_cases he : q = p <;> simp [State.awaited, Table.get?_push hp, he]
  | _ => simp [State.awaited]

theorem awaited_eraseDrain (hp : s.awaited (.drain p) = none) :
    State.awaited { s with drains := s.drains.erase p } = s.awaited := by
  funext who
  cases who with
  | drain q =>
    simp only [State.awaited, Table.get?_erase]
    split_ifs with he
    · subst he
      exact hp.symm
    · rfl
  | _ => rfl

theorem awaited_eraseTask (hp : s.awaited (.task p) = none) :
    State.awaited { s with tasks := s.tasks.erase p } = s.awaited := by
  funext who
  cases who with
  | task q =>
    simp only [State.awaited, Table.get?_erase]
    split_ifs with he
    · subst he
      exact hp.symm
    · rfl
  | _ => rfl

theorem awaited_eraseCall (hp : s.awaited (.call p) = none) :
    State.awaited { s with calls := s.calls.erase p } = s.awaited := by
  funext who
  cases who with
  | call q =>
    simp only [State.awaited, Table.get?_erase]
    split_ifs with he
    · subst he
      exact hp.symm
    · rfl
  | _ => rfl

theorem awaited_drain {pc : DrainPc} (hp : s.drains.get? p = some pc) :
    s.awaited (.drain p) = pc.awaited := by simp [State.awaited, hp]

theorem awaited_task {t : Task} (hp : s.tasks.get? p = some t) :
    s.awaited (.task p) = t.awaited := by simp [State.awaited, hp]

theorem awaited_call {pc : CallPc} (hp : s.calls.get? p = some pc) :
    s.awaited (.call p) = pc.awaited := by simp [State.awaited, hp]

end Awaited

/-! ### Preservation -/

theorem init {consent : ConsentEntry} {now : ℕ} :
    Writer (UploadService.init consent now) where
  served := by
    have : (UploadService.init consent now).awaited = fun _ => none := by
      funext who
      cases who <;> rfl
    exact this ▸ PromiseQueue.Served.empty
  detached := by rintro job hm; cases hm

/-- Nothing is requested or performed. -/
theorem congr (h : Writer s) (hw : s'.writer = s.writer) (ha : s'.awaited = s.awaited) :
    Writer s' :=
  ⟨by rw [hw, ha]; exact h.served, by rw [hw]; exact h.detached⟩

/-- A turn of `who`, which waited for no write. -/
theorem turn (h : Writer s) {who : Owner} {effects : List Effect} {awaited : Option Action}
    (hidle : s.awaited who = none) (hjobs : TurnJobs who effects awaited)
    (hw : s'.writer = s.writer ++ effects.filterMap (requestedJob who))
    (ha : s'.awaited = Function.update s.awaited who awaited) : Writer s' := by
  have hskip : Function.update s.awaited who none = s.awaited := by
    rw [← hidle, Function.update_eq_self]
  constructor
  · rw [hw, ha]
    obtain ⟨action, rfl, he⟩ | ⟨rfl, he⟩ | ⟨rfl, row, loaded, he⟩ := hjobs
    · exact he ▸ h.served.push hidle
    · rw [he, hskip, List.append_nil]
      exact h.served
    · rw [he, hskip]
      exact h.served.pushDetached
  · intro job hm ho
    rw [hw, List.mem_append] at hm
    obtain hm | hm := hm
    · exact h.detached job hm ho
    · obtain ⟨action, rfl, he⟩ | ⟨rfl, he⟩ | ⟨rfl, row, loaded, he⟩ := hjobs
      · rw [he, List.mem_singleton] at hm
        cases hm
        cases ho
      · simp [he] at hm
      · rw [he, List.mem_singleton] at hm
        cases hm
        exact ⟨row, loaded, rfl⟩

/-- The first job is performed or fails. -/
theorem performed (h : Writer s) {job : Job} {jobs : List Job} (hw : s.writer = job :: jobs)
    {rows : Table RowId UploadQueueItem} {promise : Promise} (hp : promise ≠ .pending) :
    Writer ({ s with rows := rows, writer := jobs }.settle promise job.owner) := by
  have hserved := h.served
  rw [hw] at hserved
  have hsame : State.awaited { s with rows := rows, writer := jobs } = s.awaited := by
    funext who
    cases who <;> rfl
  constructor
  · rw [State.settle_writer, awaited_settle hp, hsame]
    obtain ⟨owner, action⟩ := job
    cases owner with
    | none => exact hserved.popDetached
    | some who => exact hserved.pop
  · intro job' hm ho
    rw [State.settle_writer] at hm
    exact h.detached job' (hw ▸ List.mem_cons_of_mem _ hm) ho

/-- Nothing is requested, and `who` waits for no write before or after. -/
theorem idle (h : Writer s) (who : Owner) (hidle : s.awaited who = none)
    (hw : s'.writer = s.writer) (ha : s'.awaited = Function.update s.awaited who none) :
    Writer s' := by
  refine h.congr hw ?_
  rw [ha, ← hidle, Function.update_eq_self]

theorem processQueue (h : Writer s) (hs : Slots s) : Writer s.processQueue := by
  unfold State.processQueue
  split_ifs
  · exact h
  · exact h.congr rfl (awaited_pushDrain (s := s) hs.nextPid_fresh_drain rfl)

theorem endCall (h : Writer s) {p : Pid} {pc : CallPc} (hp : s.calls.get? p = some pc)
    (hpc : pc.awaited = none) : Writer (s.endCall p) :=
  h.congr rfl (awaited_eraseCall ((awaited_call hp).trans hpc))

theorem start (h : Writer s) (hs : Slots s) {p : Pid} {row : RowId} {id : String}
    (hp : s.drains.get? p = some (.picked row)) :
    Writer ((s.startTask row id).testSlots p) := by
  have hstart : Writer (s.startTask row id) :=
    h.congr rfl (awaited_pushTask (s := s) hs.nextPid_fresh_task rfl)
  refine hstart.idle (.drain p) (awaited_drain (s := s.startTask row id) hp) rfl ?_
  refine (awaited_setDrain (s := s.startTask row id) hp).trans ?_
  congr 1
  split_ifs <;> rfl

theorem move (h : Writer s) (hs : Slots s) {l : Label} (hm : Move s l s') : Writer s' := by
  cases hm with
  | outside consent listening hnow => exact h.congr rfl rfl
  | screen recording => exact h.congr rfl rfl
  | wake listening =>
    exact processQueue (s := { s with listening := listening }) (h.congr rfl rfl) { hs with }
  | enqueue recordingId bytesTotal =>
    have hidle : s.awaited (.call s.nextPid) = none := by
      simp [State.awaited, Table.get?_eq_none_iff.2 hs.nextPid_fresh_call]
    exact h.turn hidle (.inl ⟨_, rfl, rfl⟩) rfl (awaited_pushCall (s := s) hs.nextPid_fresh_call)
  | retry row =>
    have hidle : s.awaited (.call s.nextPid) = none := by
      simp [State.awaited, Table.get?_eq_none_iff.2 hs.nextPid_fresh_call]
    exact h.idle _ hidle rfl (awaited_pushCall (s := s) hs.nextPid_fresh_call)
  | drain hp ht =>
    obtain ⟨hpc, hpc'⟩ := ht.awaited_eq_none
    exact h.idle _ ((awaited_drain hp).trans hpc) rfl (hpc' ▸ awaited_setDrain hp)
  | @queryFailed p pc hp hpc =>
    have hidle : s.awaited (.drain p) = none := by
      obtain rfl | rfl := hpc <;> exact awaited_drain hp
    exact h.idle _ hidle rfl (awaited_setDrain hp)
  | handler hp hrow ht ho =>
    have hidle := (awaited_drain hp).trans ht.awaited_eq_none
    exact h.turn hidle (ht.jobs _) rfl (awaited_setDrain (s := s) hp)
  | start hp hrow => exact h.start hs hp
  | leave hp => exact h.congr rfl (awaited_eraseDrain (awaited_drain hp))
  | @task l p t pc effects hp ht =>
    -- a row never disappears, so the turn is one of `_processItem` on its record
    obtain ⟨item, hrow, -⟩ := hs.taskRows p t hp
    have hidle := (awaited_task hp).trans (ht item hrow).awaited_eq_none
    exact h.turn hidle (ht item hrow).jobs rfl (awaited_setTask (s := s) hp)
  | @finish p t hp hpc =>
    have hidle : s.awaited (.task p) = none := by
      simp [awaited_task hp, Task.awaited, hpc, TaskPc.awaited]
    have hdone : Writer { s with
        store := s.store.removeActiveUpload t.recordingId, tasks := s.tasks.erase p } :=
      h.congr rfl (awaited_eraseTask (s := s) hidle)
    exact hdone.processQueue (hs.releaseTask hp)
  | reset hp hrow hst =>
    exact h.turn (awaited_call hp) (.inl ⟨_, rfl, rfl⟩) rfl (awaited_setCall (s := s) hp)
  | wakeCall hp hpc =>
    exact (h.endCall hp (CallPc.awaited_of_landed hpc)).processQueue hs.endCall
  | endCall hp hpc hidle => exact h.endCall hp (CallPc.awaited_eq_none hidle)
  | commit hw hnew => exact h.performed hw (by simp)
  | reject hw => exact h.performed hw (by simp)
  | kill =>
    -- the requested writes die together with all who wait for them
    have hdie : Writer s.die := by
      refine ⟨?_, by rintro job hm; cases hm⟩
      have : s.die.awaited = fun _ => none := by
        funext who
        cases who <;> rfl
      exact this ▸ PromiseQueue.Served.empty
    exact processQueue (s := { s.die with listening := true }) (hdie.congr rfl rfl)
      { Slots.die with }

/-- **The writer's queue holds exactly the awaited writes, in every reachable state.** -/
theorem of_reachable (h : uploadService.Reachable s) : Writer s := by
  refine h.invariant_of ?_ fun s l s' hr hw hst => hw.move (.of_reachable hr) (.of_step hst)
  rintro s ⟨consent, now, rfl⟩
  exact init

end Writer

end UploadService

end FCord
