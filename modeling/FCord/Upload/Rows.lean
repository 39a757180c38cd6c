import FCord.Upload.StateMachine

/-!
# One row of the queue

What happens to an upload is a matter of its row and of the task that works on it: `view` is the
part of the state that concerns one row.  `RowMove` lists what a step can do to it, whatever the
other rows, tasks, drains and calls do (`RowMove.of_step`); a property of single uploads is an
invariant of these moves.
-/

namespace FCord

namespace UploadService

/-- What concerns one row: its record, and where the task that works on it waits. -/
structure RowView where
  item : Option UploadQueueItem
  task : Option (Pid × TaskPc)

/-- The part of the state that concerns a row. -/
def view (s : State) (row : RowId) : RowView where
  item := s.rows.get? row
  task := (s.tasks.entries.find? fun e => e.2.row = row).map fun e => (e.1, e.2.pc)

section View

variable {s s' : State} {row : RowId}

theorem view_of_task (hs : Slots s) {p : Pid} {t : Task} (hp : s.tasks.get? p = some t) :
    view s t.row = ⟨s.rows.get? t.row, some (p, t.pc)⟩ := by
  have hm : (p, t) ∈ s.tasks.entries := Table.get?_eq_some_iff.1 hp
  cases hf : s.tasks.entries.find? fun e => e.2.row = t.row with
  | none => simpa using List.find?_eq_none.1 hf _ hm
  | some e =>
    obtain ⟨q, u⟩ := e
    have hq : s.tasks.get? q = some u := Table.get?_eq_some_iff.2 (List.mem_of_find?_eq_some hf)
    have hrow : u.row = t.row := by simpa using List.find?_some hf
    cases hs.task_unique_row hq hp hrow
    cases hp.symm.trans hq
    simp [view, hf]

theorem view_of_no_task (h : ∀ p t, s.tasks.get? p = some t → t.row ≠ row) :
    view s row = ⟨s.rows.get? row, none⟩ := by
  have hf : (s.tasks.entries.find? fun e => e.2.row = row) = none := by
    refine List.find?_eq_none.2 fun e hm => ?_
    simpa using h e.1 e.2 (Table.get?_eq_some_iff.2 hm)
  simp [view, hf]

theorem task_of_view {p : Pid} {pc : TaskPc} (h : (view s row).task = some (p, pc)) :
    ∃ t, s.tasks.get? p = some t ∧ t.row = row ∧ t.pc = pc := by
  obtain ⟨e, hf, he⟩ := Option.map_eq_some_iff.1 h
  cases he
  exact ⟨e.2, Table.get?_eq_some_iff.2 (List.mem_of_find?_eq_some hf),
    by simpa using List.find?_some hf, rfl⟩

theorem view_congr (hrows : s'.rows = s.rows) (htasks : s'.tasks = s.tasks) :
    view s' row = view s row := by
  rw [view, hrows, htasks, view]

end View

/-! ### What a step can do to a row -/

/-- The task that makes a turn. -/
def Label.turnOf : Label → Option Pid
  | .resume (.task p) _ => some p
  | .native p _ => some p
  | _ => none

/-- The row that is created or written. -/
def writtenRow (s : State) : Label → Option RowId
  | .commit newId =>
    match s.writer with
    | ⟨_, .create _ _⟩ :: _ => some newId
    | ⟨_, .update row _⟩ :: _ => some row
    | [] => none
  | _ => none

/-- The row on which a drain starts a task. -/
def taskStart (s : State) : Label → Option RowId
  | .resume (.drain p) _ =>
    (s.drains.get? p).bind fun
      | .picked row => some row
      | _ => none
  | _ => none

/-- A step that concerns other rows only: no task of the row starts or makes a turn, and it is not
written. -/
structure Apart (s : State) (l : Label) (row : RowId) : Prop where
  turn : ∀ p t, l.turnOf = some p → s.tasks.get? p = some t → t.row ≠ row
  write : writtenRow s l ≠ some row
  start : taskStart s l ≠ some row

/-- The task `p` goes on to `pc`, because what it waits for has settled or because of an event of
its transfer. -/
inductive TurnBy (s : State) (p : Pid) (t : Task) (item : UploadQueueItem) :
    Label → TaskPc → List Effect → Prop
  | resumed {outcome : Outcome} {pc : TaskPc} {effects : List Effect}
      (h : processItem (.task p) t.row item s.now s.store s.consent t.pc outcome =
        some (pc, effects)) :
      TurnBy s p t item (.resume (.task p) outcome) pc effects
  | event {event : NativeEvent} {pc : TaskPc} {effects : List Effect}
      (h : nativeEvent t.row t.pc event = some (pc, effects)) :
      TurnBy s p t item (.native p event) pc effects

theorem TurnBy.taskTurn {s : State} {p : Pid} {t : Task} {item : UploadQueueItem} {l : Label}
    {pc : TaskPc} {effects : List Effect} (h : TurnBy s p t item l pc effects) :
    TaskTurn (.task p) t.row item s.now s.store s.consent t.pc pc effects := by
  cases h with
  | resumed h => exact taskTurn_of_processItem h
  | event h => exact taskTurn_of_nativeEvent h

theorem TurnBy.turnOf {s : State} {p : Pid} {t : Task} {item : UploadQueueItem} {l : Label}
    {pc : TaskPc} {effects : List Effect} (h : TurnBy s p t item l pc effects) :
    l.turnOf = some p := by
  cases h <;> rfl

section Turning

variable {s s' : State} {l : Label}

/-- The turn of a task, with what it has heard. -/
theorem turnBy_of_step {p : Pid} {t : Task} {pc : TaskPc} {effects : List Effect} (hs : Slots s)
    (hst : step s l = some s') (hp : s.tasks.get? p = some t)
    (ht : ∀ item, s.rows.get? t.row = some item →
      TaskTurn (.task p) t.row item s.now s.store s.consent t.pc pc effects)
    (hl : (∃ o, l = .resume (.task p) o) ∨ ∃ event, l = .native p event) :
    ∃ item pc effects, s.rows.get? t.row = some item ∧ TurnBy s p t item l pc effects ∧
      s' = s.taskTurn p t pc effects := by
  obtain ⟨item, hrow, -⟩ := hs.taskRows p t hp
  have hturn := ht item hrow
  rcases hl with ⟨o, rfl⟩ | ⟨event, rfl⟩
  · simp only [step, resume, hp, Option.bind_some] at hst
    unfold State.resumeTask at hst
    split at hst
    · rename_i hpc
      rw [hpc] at hturn
      cases hturn
    · simp only [hrow, Option.bind_eq_bind, Option.bind_some, Option.bind_eq_some_iff] at hst
      obtain ⟨⟨pc, effects⟩, hturn, he⟩ := hst
      exact ⟨item, pc, effects, hrow, .resumed hturn, (Option.some.inj he).symm⟩
  · simp only [step, hp, Option.bind_some, State.native, Option.bind_eq_bind,
      Option.bind_eq_some_iff] at hst
    obtain ⟨⟨pc, effects⟩, hturn, he⟩ := hst
    exact ⟨item, pc, effects, hrow, .event hturn, (Option.some.inj he).symm⟩

/-- A drain makes a turn of `_handleCompleting`. -/
theorem handled_of_step {p : Pid} {row : RowId} {pc : HandlerPc} {rest : List RowId} {o : Outcome}
    (hst : step s (.resume (.drain p) o) = some s')
    (hp : s.drains.get? p = some (.handling row pc rest)) :
    ∃ item next effects, s.rows.get? row = some item ∧
      handleCompleting (.drain p) row item s.consent pc o = some (next, effects) ∧
      s' = { s.perform (.drain p) effects with
        drains := s.drains.set p (.afterHandler row rest next) } := by
  simp only [step, resume, hp, Option.bind_some, State.resumeDrain, Option.bind_eq_bind,
    Option.bind_eq_some_iff] at hst
  obtain ⟨item, hrow, ⟨next, effects⟩, hturn, he⟩ := hst
  exact ⟨item, next, effects, hrow, hturn, (Option.some.inj he).symm⟩

end Turning

/-- What a step can do to a row and to the task that works on it. -/
inductive RowMove (s : State) : Label → RowId → RowView → RowView → Prop
  | same {l : Label} {row : RowId} {v : RowView} (h : Apart s l row) : RowMove s l row v v
  /-- `enqueueUpload` creates the row. -/
  | created {row : RowId} {owner : Option Owner} {recordingId : String} {bytesTotal : ℕ}
      {jobs : List Job} (hw : s.writer = ⟨owner, .create recordingId bytesTotal⟩ :: jobs) :
      RowMove s (.commit row) row ⟨none, none⟩ ⟨some (newItem s.now recordingId bytesTotal), none⟩
  /-- `retryUpload` resets it. -/
  | reset {newId row : RowId} {owner : Option Owner} {jobs : List Job} {item : UploadQueueItem}
      {task : Option (Pid × TaskPc)} (hw : s.writer = ⟨owner, .update row .reset⟩ :: jobs)
      (hst : item.status = .failed ∨ item.status = .pending) :
      RowMove s (.commit newId) row ⟨some item, task⟩ ⟨some (Update.reset.apply s.now item), task⟩
  /-- The write of a progress listener lands. -/
  | progress {newId row : RowId} {loaded : ℕ} {jobs : List Job} {item : Option UploadQueueItem}
      {task : Option (Pid × TaskPc)}
      (hw : s.writer = ⟨none, .update row (.bytesUploaded loaded)⟩ :: jobs) :
      RowMove s (.commit newId) row ⟨item, task⟩
        ⟨item.map ((Update.bytesUploaded loaded).apply s.now), task⟩
  /-- The write that its task waits for lands. -/
  | written {newId row : RowId} {p : Pid} {jobs : List Job} {item : UploadQueueItem}
      {recording : LocalRecording} {w : TaskWrite}
      (hw : s.writer = ⟨some (.task p), .update row w.update⟩ :: jobs) :
      RowMove s (.commit newId) row ⟨some item, some (p, .writing recording w .pending)⟩
        ⟨some (w.update.apply s.now item), some (p, .writing recording w .resolved)⟩
  /-- The `done` write that its task waits for lands. -/
  | taskDone {newId row : RowId} {p : Pid} {jobs : List Job} {item : UploadQueueItem}
      {conflict : Bool} {serverId : String}
      (hw : s.writer = ⟨some (.task p), .update row .done⟩ :: jobs) :
      RowMove s (.commit newId) row
        ⟨some item, some (p, .handling (.writingDone conflict serverId .pending))⟩
        ⟨some (Update.done.apply s.now item),
          some (p, .handling (.writingDone conflict serverId .resolved))⟩
  /-- The `done` write of a drain lands. -/
  | drainDone {newId row : RowId} {p : Pid} {jobs : List Job} {item : UploadQueueItem}
      {task : Option (Pid × TaskPc)} (hw : s.writer = ⟨some (.drain p), .update row .done⟩ :: jobs)
      (hst : item.status = .completing ∨ item.status = .done) :
      RowMove s (.commit newId) row ⟨some item, task⟩ ⟨some (Update.done.apply s.now item), task⟩
  /-- The write that its task waits for fails. -/
  | rejected {row : RowId} {p : Pid} {job : Job} {jobs : List Job} {item : UploadQueueItem}
      {pc : TaskPc} (hw : s.writer = job :: jobs) (howner : job.owner = some (.task p))
      (hawait : pc.awaited row = some job.action) :
      RowMove s .reject row ⟨some item, some (p, pc)⟩ ⟨some item, some (p, pc.settle .rejected)⟩
  /-- A drain starts a task on it. -/
  | started {p : Pid} {o : Outcome} {row : RowId} {item : UploadQueueItem}
      (hp : s.drains.get? p = some (.picked row)) :
      RowMove s (.resume (.drain p) o) row ⟨some item, none⟩
        ⟨some item, some (s.nextPid, .findRecording)⟩
  | turn {l : Label} {row : RowId} {p : Pid} {t : Task} {item : UploadQueueItem} {pc : TaskPc}
      {effects : List Effect} (hp : s.tasks.get? p = some t) (hrow : t.row = row)
      (h : TurnBy s p t item l pc effects) :
      RowMove s l row ⟨some item, some (p, t.pc)⟩ ⟨some item, some (p, pc)⟩
  | finished {p : Pid} {row : RowId} {item : UploadQueueItem} {t : Task}
      (hp : s.tasks.get? p = some t) (hrow : t.row = row) (hpc : t.pc = .finishing) :
      RowMove s (.resume (.task p) .ok) row ⟨some item, some (p, .finishing)⟩ ⟨some item, none⟩
  | killed {row : RowId} {v : RowView} : RowMove s .kill row v ⟨v.item, none⟩

namespace RowMove

variable {s s' : State} {l : Label} {row : RowId}

/-- A step of somebody else that leaves the rows and the tasks. -/
theorem quiet (hturn : l.turnOf = none) (hwrite : writtenRow s l = none)
    (hstart : taskStart s l = none) (hrows : s'.rows = s.rows) (htasks : s'.tasks = s.tasks) :
    RowMove s l row (view s row) (view s' row) := by
  rw [view_congr hrows htasks]
  exact .same ⟨fun p t ht => by simp [hturn] at ht, by simp [hwrite], by simp [hstart]⟩

/-- The task on the row, or that there is none. -/
theorem view_cases (hs : Slots s) (row : RowId) :
    (∃ p t item, s.tasks.get? p = some t ∧ t.row = row ∧ s.rows.get? row = some item ∧
      view s row = ⟨some item, some (p, t.pc)⟩) ∨
    (∀ p t, s.tasks.get? p = some t → t.row ≠ row) ∧ view s row = ⟨s.rows.get? row, none⟩ := by
  by_cases h : ∃ p t, s.tasks.get? p = some t ∧ t.row = row
  · obtain ⟨p, t, hp, rfl⟩ := h
    obtain ⟨item, hrow, -⟩ := hs.taskRows p t hp
    exact .inl ⟨p, t, item, hp, rfl, hrow, hrow ▸ view_of_task hs hp⟩
  · push Not at h
    exact .inr ⟨h, view_of_no_task h⟩

/-- A task makes a turn. -/
theorem of_turn (hs : Slots s) (hs' : Slots s') {p : Pid} {t : Task} {item : UploadQueueItem}
    {pc : TaskPc} {effects : List Effect} (hp : s.tasks.get? p = some t)
    (hrow : s.rows.get? t.row = some item) (h : TurnBy s p t item l pc effects)
    (he : s' = s.taskTurn p t pc effects) : RowMove s l row (view s row) (view s' row) := by
  have hset : s'.tasks = s.tasks.set p { t with pc := pc } := by rw [he]; rfl
  have hrows : s'.rows = s.rows := by rw [he]; rfl
  have hp' : s'.tasks.get? p = some { t with pc := pc } := by
    rw [hset]
    exact Table.get?_set_self hp
  by_cases hr : t.row = row
  · subst hr
    have hv' : view s' t.row = ⟨s.rows.get? t.row, some (p, pc)⟩ := hrows ▸ view_of_task hs' hp'
    rw [view_of_task hs hp, hv', hrow]
    exact .turn hp rfl h
  · have hwrite : writtenRow s l = none := by cases h <;> rfl
    have hsame : view s' row = view s row := by
      rcases view_cases hs row with ⟨q, u, item', hq, rfl, -, hv⟩ | ⟨hno, hv⟩
      · have hqp : q ≠ p := by
          rintro rfl
          cases hp.symm.trans hq
          exact hr rfl
        have hq' : s'.tasks.get? q = some u := by rw [hset, Table.get?_set_of_ne hqp, hq]
        rw [view_of_task hs' hq', view_of_task hs hq, hrows]
      · rw [hv, ← hrows]
        refine view_of_no_task fun q u hq => ?_
        rw [hset] at hq
        rcases Table.of_get?_set hq with ⟨-, rfl⟩ | ⟨-, hq⟩
        · exact hr
        · exact hno q u hq
    rw [hsame]
    have hstart : taskStart s l = none := by cases h <;> rfl
    refine .same ⟨fun q u hq hu => ?_, by simp [hwrite], by simp [hstart]⟩
    cases h.turnOf.symm.trans hq
    cases hp.symm.trans hu
    exact hr

/-- A task ends. -/
theorem of_finish (hs : Slots s) (hs' : Slots s') {p : Pid} {t : Task}
    (hp : s.tasks.get? p = some t) (hpc : t.pc = .finishing)
    (he : s' = s.finishTask p t.recordingId) :
    RowMove s (.resume (.task p) .ok) row (view s row) (view s' row) := by
  have hrows : s'.rows = s.rows := by simp [he, State.finishTask]
  have htasks : s'.tasks = s.tasks.erase p := by simp [he, State.finishTask]
  rcases view_cases hs row with ⟨q, u, item, hq, rfl, hrow, hv⟩ | ⟨hno, hv⟩
  · by_cases hqp : q = p
    · subst hqp
      cases hp.symm.trans hq
      have hv' : view s' t.row = ⟨some item, none⟩ := by
        rw [← hrow, ← hrows]
        refine view_of_no_task fun r w hr hrw => ?_
        rw [htasks] at hr
        obtain ⟨hne, hr⟩ := Table.of_get?_erase hr
        exact hne (hs.task_unique_row hr hp hrw)
      rw [hv, hv', hpc]
      exact .finished hp rfl hpc
    · have hq' : s'.tasks.get? q = some u := by rw [htasks, Table.get?_erase, if_neg hqp, hq]
      have hsame : view s' u.row = view s u.row := by
        rw [view_of_task hs' hq', view_of_task hs hq, hrows]
      rw [hsame]
      refine .same ⟨fun r w hr hw hrw => hqp ?_, by simp [writtenRow], by simp [taskStart]⟩
      cases hr
      exact hs.task_unique_row hq hw hrw.symm
  · have hsame : view s' row = view s row := by
      rw [hv, ← hrows]
      refine view_of_no_task fun r w hr => ?_
      rw [htasks] at hr
      exact hno r w (Table.of_get?_erase hr).2
    rw [hsame]
    exact .same ⟨fun r w _ hw => hno r w hw, by simp [writtenRow], by simp [taskStart]⟩

/-- A drain starts a task on the row that it has picked. -/
theorem of_start (hs : Slots s) (hs' : Slots s') {p : Pid} {o : Outcome} {r : RowId}
    {item : UploadQueueItem} (hp : s.drains.get? p = some (.picked r))
    (hrow : s.rows.get? r = some item)
    (he : s' = (s.startTask r item.recordingId).testSlots p) :
    RowMove s (.resume (.drain p) o) row (view s row) (view s' row) := by
  have hrows : s'.rows = s.rows := by rw [he]; rfl
  have htasks : s'.tasks = s.tasks.push s.nextPid ⟨r, item.recordingId, .findRecording⟩ := by
    rw [he]; rfl
  have hfresh := hs.nextPid_fresh_task
  by_cases hr : row = r
  · subst hr
    have hv : view s row = ⟨some item, none⟩ := by
      rw [← hrow]
      exact view_of_no_task fun q u hq => (Ownership.picked_ne hs hp hq).symm
    have hv' : view s' row = ⟨some item, some (s.nextPid, .findRecording)⟩ := by
      rw [← hrow, ← hrows]
      exact view_of_task hs' (t := ⟨row, item.recordingId, .findRecording⟩) (p := s.nextPid)
        (by simp [htasks, Table.get?_push hfresh])
    rw [hv, hv']
    exact .started hp
  · have hsame : view s' row = view s row := by
      rcases view_cases hs row with ⟨q, u, item', hq, rfl, -, hv⟩ | ⟨hno, hv⟩
      · have hne : q ≠ s.nextPid := fun hq' => hfresh (hq' ▸ Table.mem_keys_of_get? hq)
        have hq' : s'.tasks.get? q = some u := by
          rw [htasks, Table.get?_push hfresh, if_neg hne, hq]
        rw [view_of_task hs' hq', view_of_task hs hq, hrows]
      · rw [hv, ← hrows]
        refine view_of_no_task fun q u hq => ?_
        rw [htasks] at hq
        rcases Table.of_get?_push hfresh hq with ⟨-, rfl⟩ | ⟨-, hq⟩
        · exact Ne.symm hr
        · exact hno q u hq
    rw [hsame]
    exact .same ⟨fun q u hq => (by cases hq), by simp [writtenRow],
      by simp [taskStart, hp, Ne.symm hr]⟩

section Settle

variable {rows : Table RowId UploadQueueItem} {jobs : List Job} {promise : Promise}

/-- The call that is told how its write went does not work on the row. -/
theorem view_settle_other {owner : Option Owner} (hs : Slots s)
    (hs' : Slots ({ s with rows := rows, writer := jobs }.settle promise owner))
    (hne : ∀ p t, owner = some (.task p) → s.tasks.get? p = some t → t.row ≠ row) :
    view ({ s with rows := rows, writer := jobs }.settle promise owner) row =
      ⟨rows.get? row, (view s row).task⟩ := by
  have hrows : ({ s with rows := rows, writer := jobs }.settle promise owner).rows = rows := by simp
  rcases view_cases hs row with ⟨q, u, item, hq, rfl, -, hv⟩ | ⟨hno, hv⟩
  · have hq' : ({ s with rows := rows, writer := jobs }.settle promise owner).tasks.get? q =
        some u := by
      rw [State.get?_settle_tasks, if_neg fun ho => hne q u ho hq rfl]
      exact hq
    rw [view_of_task hs' hq', hrows, hv]
  · have hno' : ∀ q u, ({ s with rows := rows, writer := jobs }.settle promise owner).tasks.get? q =
        some u → u.row ≠ row := by
      intro q u hu
      rcases State.of_get?_settle_tasks _ hu with ⟨u', -, hq, rfl⟩ | ⟨-, hq⟩
      · exact hno q u' hq
      · exact hno q u hq
    rw [view_of_no_task hno', hrows, hv]

/-- The task of the row is told how its write went. -/
theorem view_settle_own {p : Pid} {t : Task}
    (hs' : Slots ({ s with rows := rows, writer := jobs }.settle promise (some (.task p))))
    (hp : s.tasks.get? p = some t) :
    view ({ s with rows := rows, writer := jobs }.settle promise (some (.task p))) t.row =
      ⟨rows.get? t.row, some (p, t.pc.settle promise)⟩ := by
  have hrows : ({ s with rows := rows, writer := jobs }.settle promise
      (some (.task p))).rows = rows := by simp
  have hp' : ({ s with rows := rows, writer := jobs }.settle promise
      (some (.task p))).tasks.get? p = some (t.settle promise) := by
    rw [State.get?_settle_tasks, if_pos rfl]
    exact congrArg (Option.map _) hp
  rw [← hrows]
  exact view_of_task hs' hp'

end Settle

/-- The next write lands. -/
theorem of_commit (hs : Slots s) (hwriter : Writer s) (ho : Ownership s) {newId : RowId} {job : Job}
    {jobs : List Job} (hw : s.writer = job :: jobs) (hnew : newId ∉ s.rows.keys)
    (hs' : Slots ({ s with rows := job.action.run s.now newId s.rows, writer := jobs }.settle
      .resolved job.owner)) :
    RowMove s (.commit newId) row (view s row)
      (view ({ s with rows := job.action.run s.now newId s.rows, writer := jobs }.settle
        .resolved job.owner) row) := by
  have hm : job ∈ s.writer := hw ▸ List.mem_cons_self
  -- a write to another row
  have hother : ∀ {owner : Option Owner} {r : RowId} {u : Update},
      job = ⟨owner, .update r u⟩ → row ≠ r →
      (∀ p t, owner = some (.task p) → s.tasks.get? p = some t → t.row ≠ row) →
      RowMove s (.commit newId) row (view s row)
        (view ({ s with rows := job.action.run s.now newId s.rows, writer := jobs }.settle
          .resolved job.owner) row) := by
    rintro owner r u rfl hne hown
    rw [view_settle_other hs hs' hown, Action.run, Table.get?_modify, if_neg hne]
    exact .same ⟨fun q t hq => (by cases hq), by simp [writtenRow, hw, Ne.symm hne],
      by simp [taskStart]⟩
  cases hwriter.jobOf hm with
  | progress r loaded =>
    by_cases hr : row = r
    · subst hr
      rw [view_settle_other hs hs' (by simp), Action.run, Table.get?_modify, if_pos rfl]
      exact .progress hw
    · exact hother rfl hr (by simp)
  | @create p recordingId bytesTotal hp =>
    rw [view_settle_other hs hs' (by simp), Action.run, Table.get?_push hnew]
    split_ifs with hr
    · subst hr
      have hno : view s row = ⟨none, none⟩ := by
        rw [← Table.get?_eq_none_iff.2 hnew]
        refine view_of_no_task fun q t hq he => ?_
        obtain ⟨item, hrow, -⟩ := hs.taskRows q t hq
        exact hnew (he ▸ Table.mem_keys_of_get? hrow)
      rw [hno]
      exact .created hw
    · exact .same ⟨fun q t hq => (by cases hq), by simp [writtenRow, hw, Ne.symm hr],
        by simp [taskStart]⟩
  | @reset p r hp =>
    by_cases hr : row = r
    · subst hr
      rw [view_settle_other hs hs' (by simp), Action.run, Table.get?_modify, if_pos rfl]
      have hst := ho.resets _ hm row rfl
      cases hrow : s.rows.get? row with
      | none => simp [statusOf, hrow] at hst
      | some item =>
        have hv : view s row = ⟨some item, (view s row).task⟩ := by rw [← hrow]; rfl
        rw [hv]
        exact .reset hw (by simpa [statusOf, hrow] using hst)
    · exact hother rfl hr (by simp)
  | @task p r id recording w hp =>
    by_cases hr : row = r
    · subst hr
      obtain ⟨item, hrow, -⟩ := hs.taskRows p _ hp
      have hrow : s.rows.get? row = some item := hrow
      have hv' := view_settle_own hs' hp
      simp only [Action.run, Table.get?_modify, hrow] at hv'
      have hv := view_of_task hs hp
      simp only [hrow] at hv
      rw [hv]
      refine Eq.subst (motive := RowMove s (.commit newId) row _) hv'.symm ?_
      exact .written hw
    · refine hother rfl hr fun q t ho' hq => ?_
      cases ho'
      cases hp.symm.trans hq
      exact Ne.symm hr
  | @taskDone p r id conflict serverId hp =>
    by_cases hr : row = r
    · subst hr
      obtain ⟨item, hrow, -⟩ := hs.taskRows p _ hp
      have hrow : s.rows.get? row = some item := hrow
      have hv' := view_settle_own hs' hp
      simp only [Action.run, Table.get?_modify, hrow] at hv'
      have hv := view_of_task hs hp
      simp only [hrow] at hv
      rw [hv]
      refine Eq.subst (motive := RowMove s (.commit newId) row _) hv'.symm ?_
      exact .taskDone hw
    · refine hother rfl hr fun q t ho' hq => ?_
      cases ho'
      cases hp.symm.trans hq
      exact Ne.symm hr
  | @drainDone p r conflict serverId rest hp =>
    by_cases hr : row = r
    · subst hr
      rw [view_settle_other hs hs' (by simp), Action.run, Table.get?_modify, if_pos rfl]
      have hst := ho.transferred hp
      cases hrow : s.rows.get? row with
      | none => simp [Transferred, statusOf, hrow] at hst
      | some item =>
        have hv : view s row = ⟨some item, (view s row).task⟩ := by rw [← hrow]; rfl
        rw [hv]
        exact .drainDone hw (by simpa [Transferred, statusOf, hrow] using hst)
    · exact hother rfl hr (by simp)

/-- The next write fails. -/
theorem of_reject (hs : Slots s) (hwriter : Writer s) {job : Job} {jobs : List Job}
    (hw : s.writer = job :: jobs)
    (hs' : Slots ({ s with writer := jobs }.settle .rejected job.owner)) :
    RowMove s .reject row (view s row)
      (view ({ s with writer := jobs }.settle .rejected job.owner) row) := by
  by_cases hown : ∃ p t, job.owner = some (.task p) ∧ s.tasks.get? p = some t ∧ t.row = row
  · obtain ⟨p, t, howner, hp, rfl⟩ := hown
    obtain ⟨item, hrow, -⟩ := hs.taskRows p t hp
    have hawait := hwriter.served.awaited_of_mem (hw ▸ List.mem_cons_self) howner
    rw [Writer.awaited_task hp] at hawait
    rw [howner] at hs' ⊢
    rw [view_of_task hs hp, view_settle_own hs' hp, hrow]
    exact .rejected hw howner hawait
  · have hsame : view ({ s with writer := jobs }.settle .rejected job.owner) row = view s row := by
      rw [view_settle_other hs hs' fun p t ho hp hr => hown ⟨p, t, ho, hp, hr⟩]
      rfl
    rw [hsame]
    exact .same ⟨fun q t hq => (by cases hq), by simp [writtenRow], by simp [taskStart]⟩

/-- Any other step. -/
theorem of_other (hm : Move s l s') (hturn : l.turnOf = none) (hstart : taskStart s l = none)
    (hcommit : ∀ newId, l ≠ .commit newId) (hreject : l ≠ .reject) (hkill : l ≠ .kill) :
    RowMove s l row (view s row) (view s' row) := by
  have hwrite : writtenRow s l = none := by
    unfold writtenRow
    split
    · exact absurd rfl (hcommit _)
    · rfl
  cases hm with
  | start hp hrow => simp [taskStart, hp] at hstart
  | task hp ht hl => rcases hl with ⟨o, rfl⟩ | ⟨event, rfl⟩ <;> cases hturn
  | finish hp hpc => cases hturn
  | wake listening => exact quiet hturn hwrite hstart (by simp) (by simp)
  | wakeCall hp hpc =>
    exact quiet hturn hwrite hstart (by simp [State.endCall]) (by simp [State.endCall])
  | commit hw hnew => exact absurd rfl (hcommit _)
  | reject hw => exact absurd rfl hreject
  | kill => exact absurd rfl hkill
  | _ => exact quiet hturn hwrite hstart rfl rfl

/-- **What a step can do to a row.** -/
theorem of_step (hr : uploadService.Reachable s) (hst : step s l = some s') (row : RowId) :
    RowMove s l row (view s row) (view s' row) := by
  have hs := Slots.of_reachable hr
  have hs' : Slots s' := hs.move (.of_step hst)
  have hwriter := Writer.of_reachable hr
  have hm := Move.of_step hst
  cases l with
  | commit newId =>
    simp only [step, State.commit] at hst
    split at hst
    · cases hst
    · rename_i hw
      split_ifs at hst with hnew
      cases hst
      exact of_commit hs hwriter (.of_reachable hr) hw hnew hs'
  | reject =>
    simp only [step, State.reject] at hst
    split at hst
    · cases hst
    · rename_i hw
      cases hst
      exact of_reject hs hwriter hw hs'
  | native p event =>
    obtain ⟨t, hp, hn⟩ := Option.bind_eq_some_iff.1 hst
    simp only [State.native, Option.bind_eq_bind, Option.bind_eq_some_iff] at hn
    obtain ⟨⟨pc, effects⟩, hturn, he⟩ := hn
    obtain ⟨item, hrow, -⟩ := hs.taskRows p t hp
    exact of_turn hs hs' hp hrow (.event hturn) (Option.some.inj he).symm
  | kill =>
    cases hst
    have hrows : s.kill.rows = s.rows := by simp [State.kill, State.initQueue, State.die]
    have hno : ∀ q u, s.kill.tasks.get? q = some u → u.row ≠ row := by
      intro q u hq
      simp [State.kill, State.initQueue, State.die] at hq
    rw [view_of_no_task hno, hrows]
    exact .killed
  | resume who o =>
    cases who with
    | task p =>
      obtain ⟨t, hp, hturn⟩ := Option.bind_eq_some_iff.1 hst
      unfold State.resumeTask at hturn
      split at hturn
      · rename_i hpc
        split_ifs at hturn with ho
        subst ho
        exact of_finish hs hs' hp hpc (Option.some.inj hturn).symm
      · simp only [Option.bind_eq_bind, Option.bind_eq_some_iff] at hturn
        obtain ⟨item, hrow, ⟨pc, effects⟩, hturn, he⟩ := hturn
        exact of_turn hs hs' hp hrow (.resumed hturn) (Option.some.inj he).symm
    | drain p =>
      by_cases hpick : ∃ r, s.drains.get? p = some (.picked r)
      · obtain ⟨r, hp⟩ := hpick
        obtain ⟨pc, hp', hturn⟩ := Option.bind_eq_some_iff.1 hst
        cases hp.symm.trans hp'
        unfold State.resumeDrain at hturn
        split at hturn <;> rename_i hpc <;> first | cases hpc; done | skip
        · cases hpc
          simp only [Option.bind_eq_bind, Option.bind_eq_some_iff] at hturn
          obtain ⟨item, hrow, he⟩ := hturn
          exact of_start hs hs' hp hrow (Option.some.inj he).symm
        · cases hturn
      · refine of_other hm rfl ?_ (by simp) (by simp) (by simp)
        refine Option.bind_eq_none_iff.2 fun pc hp => ?_
        cases pc with
        | picked r => exact absurd ⟨r, hp⟩ hpick
        | _ => rfl
    | call p => exact of_other hm rfl rfl (by simp) (by simp) (by simp)
  | _ => exact of_other hm rfl rfl (by simp) (by simp) (by simp)

/-- A row that waits for its task stays ready. -/
theorem ready {v v' : RowView} {item : UploadQueueItem} {now : ℕ} (h : RowMove s l row v v')
    (htask : v.task = none) (hitem : v.item = some item)
    (hready : isQueueItemReady now item.status item.nextRetryAt = true) :
    ∃ item', v'.item = some item' ∧
      isQueueItemReady now item'.status item'.nextRetryAt = true := by
  cases h with
  | same h => exact ⟨item, hitem, hready⟩
  | created hw => cases hitem
  | reset hw hst => exact ⟨_, rfl, rfl⟩
  | progress hw =>
    cases hitem
    exact ⟨_, rfl, hready⟩
  | drainDone hw hst =>
    cases hitem
    have hwait := status_of_isQueueItemReady hready
    rcases hst with hst | hst <;> simp [hst] at hwait
  | started hp => exact ⟨item, hitem, hready⟩
  | killed => exact ⟨item, hitem, hready⟩
  | _ => cases htask

end RowMove

section Running

variable {s s' : State} {l : Label} {p : Pid} {row : RowId} {item : UploadQueueItem}

/-- The task on a row knows its status. -/
theorem Ownership.view_fits (h : Ownership s) {pc : TaskPc} (hitem : (view s row).item = some item)
    (htask : (view s row).task = some (p, pc)) : pc.Fits item.status := by
  obtain ⟨t, hp, rfl, rfl⟩ := task_of_view htask
  exact h.tasks p t _ hp (statusOf_of_get? hitem)

@[simp] theorem State.processQueue_now (s : State) : s.processQueue.now = s.now := by
  unfold State.processQueue
  split_ifs <;> rfl

/-- Only time itself moves the clock. -/
theorem Move.now_cases (h : Move s l s') :
    s'.now = s.now ∨ ∃ ms, l = .tick ms ∧ s'.now = s.now + ms := by
  cases h with
  | outside consent listening hnow => exact hnow
  | commit hw hnew => exact .inl (by simp)
  | reject hw => exact .inl (by simp)
  | wake listening => exact .inl (by simp)
  | finish hp hpc => exact .inl (by simp [State.finishTask])
  | wakeCall hp hpc => exact .inl (by simp [State.endCall])
  | kill => exact .inl (by simp [State.kill, State.initQueue, State.die])
  | _ => exact .inl rfl

theorem Move.now_le (h : Move s l s') : s.now ≤ s'.now := by
  rcases h.now_cases with he | ⟨ms, -, he⟩ <;> omega

theorem State.nextPid_le_processQueue (s : State) : s.nextPid ≤ s.processQueue.nextPid := by
  unfold State.processQueue
  split_ifs
  · exact Nat.le_refl _
  · exact Nat.le_succ _

theorem Move.nextPid_le (h : Move s l s') : s.nextPid ≤ s'.nextPid := by
  cases h with
  | wake listening => exact State.nextPid_le_processQueue { s with listening := listening }
  | enqueue recordingId bytesTotal => exact Nat.le_succ _
  | retry row => exact Nat.le_succ _
  | start hp hrow => exact Nat.le_succ _
  | @finish p t hp hpc =>
    exact State.nextPid_le_processQueue { s with
      store := s.store.removeActiveUpload t.recordingId, tasks := s.tasks.erase p }
  | @wakeCall p pc hp hpc => exact State.nextPid_le_processQueue (s.endCall p)
  | commit hw hnew => simp
  | reject hw => simp
  | kill => exact State.nextPid_le_processQueue { s.die with listening := true }
  | _ => exact Nat.le_refl _

theorem DrainPc.of_settle_picked {promise : Promise} {pc : DrainPc}
    (h : pc.settle promise = .picked row) : pc = .picked row := by
  cases pc with
  | handling row' pc' rest => cases h
  | _ => exact h

/-- A drain has picked its row before, or it finds it ready now. -/
theorem Move.picked (h : Move s l s') (hs : Slots s) (hp : s'.drains.get? p = some (.picked row)) :
    s.drains.get? p = some (.picked row) ∨
      s.eligible row = true ∧ s'.rows = s.rows ∧ s'.now = s.now := by
  have hwake : ∀ {t : State}, t.nextPid ∉ t.drains.keys →
      t.processQueue.drains.get? p = some (.picked row) →
        t.drains.get? p = some (.picked row) := by
    intro t hfresh ht
    unfold State.processQueue at ht
    split_ifs at ht
    · exact ht
    · rcases Table.of_get?_push hfresh ht with ⟨-, hpc⟩ | ⟨-, ht⟩
      · cases hpc
      · exact ht
  cases h with
  | wake listening =>
    exact .inl (hwake (t := { s with listening := listening }) hs.nextPid_fresh_drain hp)
  | drain hq ht =>
    rcases Table.of_get?_set hp with ⟨-, hpc⟩ | ⟨-, hp⟩
    · cases ht with
      | pick hmem hel =>
        cases hpc
        exact .inr ⟨hel, rfl, rfl⟩
      | _ => cases hpc
    · exact .inl hp
  | queryFailed hq hpc =>
    rcases Table.of_get?_set hp with ⟨-, hpc⟩ | ⟨-, hp⟩
    · cases hpc
    · exact .inl hp
  | @handler o q r pc rest item next effects hq hrow ht ho =>
    rcases Table.of_get?_set hp with ⟨-, hpc⟩ | ⟨-, hp⟩
    · cases next <;> cases hpc
    · exact .inl hp
  | start hq hrow =>
    rcases Table.of_get?_set hp with ⟨-, hpc⟩ | ⟨-, hp⟩
    · split_ifs at hpc
    · exact .inl hp
  | leave hq => exact .inl (Table.of_get?_erase hp).2
  | @finish q t hq hpc =>
    exact .inl (hwake (t := { s with
      store := s.store.removeActiveUpload t.recordingId, tasks := s.tasks.erase q })
      hs.nextPid_fresh_drain hp)
  | @wakeCall q pc hq hpc => exact .inl (hwake (t := s.endCall q) hs.nextPid_fresh_drain hp)
  | commit hw hnew =>
    rcases State.of_get?_settle_drains _ hp with ⟨pc', -, hq, he⟩ | ⟨-, hq⟩
    · exact .inl (DrainPc.of_settle_picked he.symm ▸ hq)
    · exact .inl hq
  | reject hw =>
    rcases State.of_get?_settle_drains _ hp with ⟨pc', -, hq, he⟩ | ⟨-, hq⟩
    · exact .inl (DrainPc.of_settle_picked he.symm ▸ hq)
    · exact .inl hq
  | kill =>
    have := hwake (t := { s.die with listening := true }) List.not_mem_nil hp
    cases this
  | _ => exact .inl hp

/-- **The row that a drain has picked is ready until its task starts.** -/
theorem picked_ready (hr : uploadService.Reachable s) (hp : s.drains.get? p = some (.picked row)) :
    ∃ item, s.rows.get? row = some item ∧
      isQueueItemReady s.now item.status item.nextRetryAt = true := by
  revert p row
  refine hr.invariant_of (I := fun s => ∀ {p row}, s.drains.get? p = some (.picked row) →
    ∃ item, s.rows.get? row = some item ∧
      isQueueItemReady s.now item.status item.nextRetryAt = true) ?_ ?_
  · rintro s ⟨consent, now, rfl⟩ p row hp
    cases hp
  · intro s l s' hr ih hst p row hp
    have hs := Slots.of_reachable hr
    rcases (Move.of_step hst).picked hs hp with hp | ⟨hel, hrows, hnow⟩
    · obtain ⟨item, hrow, hready⟩ := ih hp
      have htask : (view s row).task = none := by
        rw [view_of_no_task fun q u hq => (Ownership.picked_ne hs hp hq).symm]
      obtain ⟨item', hrow', hready'⟩ := (RowMove.of_step hr hst row).ready htask hrow hready
      exact ⟨item', hrow', isQueueItemReady_mono (Move.of_step hst).now_le hready'⟩
    · unfold State.eligible at hel
      split at hel
      · cases hel
      · rename_i item hrow
        rw [hrows, hnow]
        exact ⟨item, hrow, (Bool.and_eq_true_iff.1 hel).2⟩

end Running

end UploadService

end FCord
