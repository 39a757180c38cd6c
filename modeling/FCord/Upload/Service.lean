import FCord.Data.PromiseQueue
import FCord.LTS.Basic
import FCord.Recordings.Detail
import FCord.Upload.Process

/-!
# The upload service as a transition system

One state holds the rows of `local_upload_queue`, the consent entry, the clock, the in-memory
store, every running call and the writes that the database has not performed yet.  A step is
one event: a user action, a network change, a query or a write of the database, the
continuation of a call after an await, an event of the upload library, the passing of time,
or the death and restart of the process.

## Main definitions

* `UploadService.State` : the state.
* `UploadService.Label` : the events.
* `UploadService.step` : what an event does (`none`: it cannot happen now).
* `uploadService` : the transition system; a run starts with an empty queue.

## Conventions

Rows are shared objects: a call that holds a row always sees its present record.  The database
performs the requested writes one after another in the order of the requests; a write either
lands (`Label.commit`) or fails without a trace (`Label.reject`).  `State.log` lists the
events of all processes so far, the latest first.
-/

namespace FCord

namespace UploadService

/-- A requested database write and the call that waits for it. -/
abbrev Job := PromiseQueue.Job Owner Action

/-- Where `_drainQueue` (and the `processQueue` around it) waits. -/
inductive DrainPc where
  /-- For the query of the completing rows. -/
  | queryCompleting
  /-- To go on with these completing rows. -/
  | gotCompleting (ids : List RowId)
  /-- For `_handleCompleting` on `row`; `rest` comes next. -/
  | handling (row : RowId) (pc : HandlerPc) (rest : List RowId)
  /-- `_pickNextReadyItem`: for the query of the candidates. -/
  | queryCandidates
  /-- `_pickNextReadyItem`: to choose among these candidates. -/
  | gotCandidates (ids : List RowId)
  /-- To start the chosen row. -/
  | picked (row : RowId)
  /-- `_drainQueue` has ended, `isProcessing` is still set. -/
  | leaving
  deriving DecidableEq, Repr

def DrainPc.settle (promise : Promise) : DrainPc → DrainPc
  | .handling row pc rest => .handling row (pc.settle promise) rest
  | pc => pc

/-- Where the drain goes when `_handleCompleting` has made a turn on `row`. -/
def DrainPc.afterHandler (row : RowId) (rest : List RowId) : HandlerNext → DrainPc
  | .await pc => .handling row pc rest
  | .returned => .gotCompleting rest
  | .threw => .leaving

theorem DrainPc.of_settle_handling {promise : Promise} {qc : DrainPc} {row : RowId}
    {pc : HandlerPc} {rest : List RowId} (h : qc.settle promise = .handling row pc rest) :
    ∃ pc', qc = .handling row pc' rest ∧ pc = pc'.settle promise := by
  cases qc with
  | handling row' pc' rest' =>
    cases h
    exact ⟨pc', rfl, rfl⟩
  | _ => cases h

/-- A `_processItem` with its `finally` callback. -/
structure Task where
  row : RowId
  recordingId : String
  pc : TaskPc
  deriving DecidableEq, Repr

def Task.settle (promise : Promise) (t : Task) : Task := { t with pc := t.pc.settle promise }

/-- Where `retryUpload` and `enqueueUpload` wait. -/
inductive CallPc where
  /-- `retryUpload`: for the row. -/
  | finding (row : RowId)
  /-- `retryUpload`: for its write to `row`. -/
  | resetting (row : RowId) (write : Promise)
  /-- `enqueueUpload`: for the new row. -/
  | creating (recordingId : String) (bytesTotal : ℕ) (write : Promise)
  deriving DecidableEq, Repr

def CallPc.settle (promise : Promise) : CallPc → CallPc
  | .resetting row .pending => .resetting row promise
  | .creating recordingId bytesTotal .pending => .creating recordingId bytesTotal promise
  | pc => pc

/-- The state of the device. -/
structure State where
  /-- The table `local_upload_queue`. -/
  rows : Table RowId UploadQueueItem
  /-- The consent entry of the Keychain. -/
  consent : ConsentEntry
  now : ℕ
  store : UploadQueueStore
  /-- The NetInfo listener is registered. -/
  listening : Bool
  drains : Table Pid DrainPc
  tasks : Table Pid Task
  calls : Table Pid CallPc
  /-- The requested writes, the next one first. -/
  writer : List Job
  nextPid : Pid
  /-- What has happened, the latest first. -/
  log : List Event

/-! ### Effects -/

/-- What an effect does to the store. -/
def onStore (st : UploadQueueStore) : Effect → UploadQueueStore
  | .setPresignedUrl sessionId cache => st.setPresignedUrl sessionId cache
  | .clearPresignedUrl sessionId => st.clearPresignedUrl sessionId
  | .setProgress key loaded total => st.setProgress key loaded total
  | .clearProgress key => st.clearProgress key
  | .write _ => st
  | .writeDetached _ => st
  | .record _ => st

/-- The write an effect of `who` requests. -/
def requestedJob (who : Owner) : Effect → Option Job
  | .write action => some ⟨some who, action⟩
  | .writeDetached action => some ⟨none, action⟩
  | _ => none

/-- The event an effect records. -/
def recordedEvent : Effect → Option Event
  | .record event => some event
  | _ => none

/-- The events of a turn, in front of what was recorded before. -/
def logAfter (effects : List Effect) (log : List Event) : List Event :=
  (effects.filterMap recordedEvent).reverse ++ log

namespace State

variable (s : State)

/-- Perform the effects of a turn of `who`. -/
def perform (who : Owner) (effects : List Effect) : State :=
  { s with
    store := effects.foldl onStore s.store
    writer := s.writer ++ effects.filterMap (requestedJob who)
    log := logAfter effects s.log }

/-! ### Drains -/

/-- `processQueue`: returns at once while another one runs. -/
def processQueue : State :=
  if s.store.isProcessing then s
  else
    { s with
      store := s.store.setIsProcessing true
      drains := s.drains.push s.nextPid .queryCompleting
      nextPid := s.nextPid + 1 }

/-- `initQueue`. -/
def initQueue : State := { s with listening := true }.processQueue

/-- The test of the drain loop. -/
def testSlots (p : Pid) : State :=
  { s with
    drains := s.drains.set p (if s.store.hasAvailableSlot then .queryCandidates else .leaving) }

/-- The condition of `_pickNextReadyItem`, on a row that the query returned. -/
def eligible (row : RowId) : Bool :=
  match s.rows.get? row with
  | none => false
  | some item =>
    decide (item.recordingId ∉ s.store.activeUploadIds) &&
      isQueueItemReady s.now item.status item.nextRetryAt

/-- Occupy a slot for `row` and start `_processItem`. -/
def startTask (row : RowId) (recordingId : String) : State :=
  { s with
    store := s.store.addActiveUpload recordingId
    tasks := s.tasks.push s.nextPid ⟨row, recordingId, .findRecording⟩
    nextPid := s.nextPid + 1 }

/-- The `finally` clause of `processQueue`. -/
def endDrain (p : Pid) : State :=
  { s with store := s.store.setIsProcessing false, drains := s.drains.erase p }

/-- A turn of the drain `p` at `pc`. -/
def resumeDrain (p : Pid) : DrainPc → Outcome → Option State
  -- an exception leads to the `finally` clause
  | .queryCompleting, .error => some { s with drains := s.drains.set p .leaving }
  | .gotCompleting (row :: rest), .ok =>
    some { s with drains := s.drains.set p (.handling row .findRecording rest) }
  | .gotCompleting [], .ok => some (s.testSlots p)
  | .handling row pc rest, outcome => do
    let item ← s.rows.get? row
    let (next, effects) ← handleCompleting (.drain p) row item s.consent pc outcome
    let s := s.perform (.drain p) effects
    some { s with drains := s.drains.set p (.afterHandler row rest next) }
  | .queryCandidates, .error => some { s with drains := s.drains.set p .leaving }
  | .gotCandidates ids, .ok =>
    match ids.find? s.eligible with
    | some row => some { s with drains := s.drains.set p (.picked row) }
    | none => some { s with drains := s.drains.set p .leaving }
  | .picked row, .ok => do
    let item ← s.rows.get? row
    -- the loop does not wait for the task that it starts
    some ((s.startTask row item.recordingId).testSlots p)
  | .leaving, .ok => some (s.endDrain p)
  | _, _ => none

/-- The database evaluates the query that the drain `p` at `pc` waits for. -/
def query (p : Pid) : DrainPc → Option State
  | .queryCompleting =>
    some { s with
      drains := s.drains.set p
        (.gotCompleting (s.rows.idsWhere fun item => item.status = .completing)) }
  | .queryCandidates =>
    some { s with
      drains := s.drains.set p
        (.gotCandidates (s.rows.idsWhere fun item =>
          item.status = .pending ∨ item.status = .retrying)) }
  | _ => none

/-! ### Tasks -/

/-- The `finally` callback of a task: free its slot and look for more work. -/
def finishTask (p : Pid) (recordingId : String) : State :=
  { s with
    store := s.store.removeActiveUpload recordingId
    tasks := s.tasks.erase p }.processQueue

/-- The task `p` makes a turn with these effects and then waits at `pc`. -/
def taskTurn (p : Pid) (t : Task) (pc : TaskPc) (effects : List Effect) : State :=
  { s.perform (.task p) effects with tasks := s.tasks.set p { t with pc := pc } }

/-- A turn of the task `p`. -/
def resumeTask (p : Pid) (t : Task) (outcome : Outcome) : Option State :=
  match t.pc with
  | .finishing => if outcome = .ok then some (s.finishTask p t.recordingId) else none
  | pc => do
    let item ← s.rows.get? t.row
    let (pc, effects) ← processItem (.task p) t.row item s.now s.store s.consent pc outcome
    some (s.taskTurn p t pc effects)

/-- The upload library reports an event of the transfer of task `p`. -/
def native (p : Pid) (t : Task) (event : NativeEvent) : Option State := do
  let (pc, effects) ← nativeEvent t.row t.pc event
  some (s.taskTurn p t pc effects)

/-! ### Calls of the user interface -/

/-- `enqueueUpload`. -/
def enqueueUpload (localRecordingId : String) (bytesTotal : ℕ) : State :=
  { s.perform (.call s.nextPid) [.write (.create localRecordingId bytesTotal)] with
    calls := s.calls.push s.nextPid (.creating localRecordingId bytesTotal .pending)
    nextPid := s.nextPid + 1 }

/-- `retryUpload`, up to its first await. -/
def retryUpload (queueId : RowId) : State :=
  { s with
    calls := s.calls.push s.nextPid (.finding queueId)
    nextPid := s.nextPid + 1 }

/-- The call `p` ends. -/
def endCall (p : Pid) : State := { s with calls := s.calls.erase p }

/-- A turn of the call `p` at `pc`. -/
def resumeCall (p : Pid) : CallPc → Outcome → Option State
  | .finding row, .ok =>
    match s.rows.get? row with
    | none => some (s.endCall p)
    | some item =>
      if item.status = .failed then
        some { s.perform (.call p) [.write (.update row .reset)] with
          calls := s.calls.set p (.resetting row .pending) }
      else some (s.endCall p)
  | .finding _, .error => some (s.endCall p)
  -- nobody waits for the drain that a call starts
  | .resetting _ .resolved, .ok => some (s.endCall p).processQueue
  | .creating _ _ .resolved, .ok => some (s.endCall p).processQueue
  | .resetting _ .rejected, .error => some (s.endCall p)
  | .creating _ _ .rejected, .error => some (s.endCall p)
  | _, _ => none

/-! ### The database -/

/-- Tell the waiting call how its write went. -/
def settle (promise : Promise) : Option Owner → State
  | none => s
  | some (.drain p) => { s with drains := s.drains.modify p (DrainPc.settle promise) }
  | some (.task p) => { s with tasks := s.tasks.modify p (Task.settle promise) }
  | some (.call p) => { s with calls := s.calls.modify p (CallPc.settle promise) }

/-- The database performs the next write. -/
def commit (newId : RowId) : Option State :=
  match s.writer with
  | [] => none
  | job :: jobs =>
    -- a new row gets an id that is not in use
    if newId ∈ s.rows.keys then none
    else
      some ({ s with rows := job.action.run s.now newId s.rows, writer := jobs }.settle
        .resolved job.owner)

/-- The next write fails. -/
def reject : Option State :=
  match s.writer with
  | [] => none
  | job :: jobs => some ({ s with writer := jobs }.settle .rejected job.owner)

/-! ### The process -/

/-- The process dies: only the database and the Keychain survive. -/
def die : State :=
  { s with
    store := .initial
    listening := false
    drains := .empty
    tasks := .empty
    calls := .empty
    writer := [] }

/-- The process dies and is started again. -/
def kill : State := s.die.initQueue

end State

/-- What can happen. -/
inductive Label where
  | initQueue
  | destroyQueue
  /-- NetInfo reports the state of the connection. -/
  | netInfo (isConnected : Bool)
  | processQueue
  | enqueueUpload (localRecordingId : String) (bytesTotal : ℕ)
  | retryUpload (queueId : RowId)
  /-- The database evaluates the query of a drain. -/
  | query (p : Pid)
  /-- The database performs the next write. -/
  | commit (newId : RowId)
  /-- The next write fails. -/
  | reject
  /-- What a call waits for has settled, and it goes on. -/
  | resume (who : Owner) (outcome : Outcome)
  /-- The upload library reports an event to a task. -/
  | native (p : Pid) (event : NativeEvent)
  /-- Time passes. -/
  | tick (ms : ℕ)
  /-- The process is killed and started again. -/
  | kill
  | saveCrossBorderConsent (agreed : Bool)
  /-- The Keychain entry changes by other means. -/
  | keychain (entry : ConsentEntry)
  /-- The request button of the detail screen, which shows this recording. -/
  | onRequestTranscription (recording : ServerRecordingCache)
  deriving DecidableEq, Repr

/-- A turn of the call `who`. -/
def resume (s : State) (who : Owner) (outcome : Outcome) : Option State :=
  match who with
  | .drain p => (s.drains.get? p).bind fun pc => s.resumeDrain p pc outcome
  | .task p => (s.tasks.get? p).bind fun t => s.resumeTask p t outcome
  | .call p => (s.calls.get? p).bind fun pc => s.resumeCall p pc outcome

/-- The step function of the service. -/
def step (s : State) : Label → Option State
  | .initQueue => some s.initQueue
  | .destroyQueue => some { s with listening := false }
  | .netInfo isConnected =>
    if s.listening then some (if isConnected then s.processQueue else s) else none
  | .processQueue => some s.processQueue
  | .enqueueUpload localRecordingId bytesTotal =>
    some (s.enqueueUpload localRecordingId bytesTotal)
  | .retryUpload queueId => some (s.retryUpload queueId)
  | .query p => (s.drains.get? p).bind (s.query p)
  | .commit newId => s.commit newId
  | .reject => s.reject
  | .resume who outcome => resume s who outcome
  | .native p event => (s.tasks.get? p).bind fun t => s.native p t event
  | .tick ms => some { s with now := s.now + ms }
  | .kill => some s.kill
  | .saveCrossBorderConsent agreed =>
    some { s with consent := FCord.saveCrossBorderConsent s.now agreed }
  | .keychain entry => some { s with consent := entry }
  | .onRequestTranscription recording =>
    if (resolveDetailActions recording).showRequestTranscription then
      some { s with log := .requestTranscription .detailScreen recording.id :: s.log }
    else none

/-- A device on which nothing was ever queued. -/
def init (consent : ConsentEntry) (now : ℕ) : State where
  rows := .empty
  consent := consent
  now := now
  store := .initial
  listening := false
  drains := .empty
  tasks := .empty
  calls := .empty
  writer := []
  nextPid := 0
  log := []

/-! ### What the pieces of a step leave alone -/

section Frame

variable (s : State)

theorem foldl_onStore_flags (effects : List Effect) (st : UploadQueueStore) :
    (effects.foldl onStore st).isProcessing = st.isProcessing ∧
      (effects.foldl onStore st).activeUploadIds = st.activeUploadIds := by
  induction effects generalizing st with
  | nil => exact ⟨rfl, rfl⟩
  | cons e effects ih =>
    rw [List.foldl_cons, (ih _).1, (ih _).2]
    cases e <;> exact ⟨rfl, rfl⟩

@[simp] theorem State.perform_isProcessing (who : Owner) (effects : List Effect) :
    (s.perform who effects).store.isProcessing = s.store.isProcessing :=
  (foldl_onStore_flags effects s.store).1

@[simp] theorem State.perform_activeUploadIds (who : Owner) (effects : List Effect) :
    (s.perform who effects).store.activeUploadIds = s.store.activeUploadIds :=
  (foldl_onStore_flags effects s.store).2

@[simp] theorem State.perform_rows (who : Owner) (effects : List Effect) :
    (s.perform who effects).rows = s.rows := rfl

@[simp] theorem State.perform_now (who : Owner) (effects : List Effect) :
    (s.perform who effects).now = s.now := rfl

@[simp] theorem State.perform_drains (who : Owner) (effects : List Effect) :
    (s.perform who effects).drains = s.drains := rfl

@[simp] theorem State.perform_tasks (who : Owner) (effects : List Effect) :
    (s.perform who effects).tasks = s.tasks := rfl

@[simp] theorem State.perform_calls (who : Owner) (effects : List Effect) :
    (s.perform who effects).calls = s.calls := rfl

@[simp] theorem State.perform_nextPid (who : Owner) (effects : List Effect) :
    (s.perform who effects).nextPid = s.nextPid := rfl

@[simp] theorem State.processQueue_rows : s.processQueue.rows = s.rows := by
  unfold State.processQueue
  split_ifs <;> rfl

@[simp] theorem State.processQueue_log : s.processQueue.log = s.log := by
  unfold State.processQueue
  split_ifs <;> rfl

@[simp] theorem State.processQueue_tasks : s.processQueue.tasks = s.tasks := by
  unfold State.processQueue
  split_ifs <;> rfl

@[simp] theorem State.processQueue_writer : s.processQueue.writer = s.writer := by
  unfold State.processQueue
  split_ifs <;> rfl

theorem State.settle_eq (promise : Promise) (owner : Option Owner) :
    s.settle promise owner =
      { s with
        drains := (s.settle promise owner).drains
        tasks := (s.settle promise owner).tasks
        calls := (s.settle promise owner).calls } := by
  cases owner with
  | none => rfl
  | some who => cases who <;> rfl

@[simp] theorem State.settle_rows (promise : Promise) (owner : Option Owner) :
    (s.settle promise owner).rows = s.rows := by rw [State.settle_eq]

@[simp] theorem State.settle_store (promise : Promise) (owner : Option Owner) :
    (s.settle promise owner).store = s.store := by rw [State.settle_eq]

@[simp] theorem State.settle_now (promise : Promise) (owner : Option Owner) :
    (s.settle promise owner).now = s.now := by rw [State.settle_eq]

@[simp] theorem State.settle_writer (promise : Promise) (owner : Option Owner) :
    (s.settle promise owner).writer = s.writer := by rw [State.settle_eq]

@[simp] theorem State.settle_nextPid (promise : Promise) (owner : Option Owner) :
    (s.settle promise owner).nextPid = s.nextPid := by rw [State.settle_eq]

@[simp] theorem State.settle_log (promise : Promise) (owner : Option Owner) :
    (s.settle promise owner).log = s.log := by rw [State.settle_eq]

@[simp] theorem State.settle_drains_keys (promise : Promise) (owner : Option Owner) :
    (s.settle promise owner).drains.keys = s.drains.keys := by
  cases owner with
  | none => rfl
  | some who => cases who <;> simp [settle]

@[simp] theorem State.settle_tasks_keys (promise : Promise) (owner : Option Owner) :
    (s.settle promise owner).tasks.keys = s.tasks.keys := by
  cases owner with
  | none => rfl
  | some who => cases who <;> simp [settle]

@[simp] theorem State.settle_calls_keys (promise : Promise) (owner : Option Owner) :
    (s.settle promise owner).calls.keys = s.calls.keys := by
  cases owner with
  | none => rfl
  | some who => cases who <;> simp [settle]

theorem State.get?_settle_drains (promise : Promise) (owner : Option Owner) (p : Pid) :
    (s.settle promise owner).drains.get? p =
      if owner = some (.drain p) then (s.drains.get? p).map (DrainPc.settle promise)
      else s.drains.get? p := by
  cases owner with
  | none => rfl
  | some who => cases who <;> simp [settle, Table.get?_modify, eq_comm]

theorem State.get?_settle_tasks (promise : Promise) (owner : Option Owner) (p : Pid) :
    (s.settle promise owner).tasks.get? p =
      if owner = some (.task p) then (s.tasks.get? p).map (Task.settle promise)
      else s.tasks.get? p := by
  cases owner with
  | none => rfl
  | some who => cases who <;> simp [settle, Table.get?_modify, eq_comm]

theorem State.get?_settle_calls (promise : Promise) (owner : Option Owner) (p : Pid) :
    (s.settle promise owner).calls.get? p =
      if owner = some (.call p) then (s.calls.get? p).map (CallPc.settle promise)
      else s.calls.get? p := by
  cases owner with
  | none => rfl
  | some who => cases who <;> simp [settle, Table.get?_modify, eq_comm]

/-- A task after a write has settled: it was told, or it is the one it was. -/
theorem State.of_get?_settle_tasks {promise : Promise} {owner : Option Owner} {p : Pid} {t : Task}
    (h : (s.settle promise owner).tasks.get? p = some t) :
    (∃ t', owner = some (.task p) ∧ s.tasks.get? p = some t' ∧ t = t'.settle promise) ∨
      owner ≠ some (.task p) ∧ s.tasks.get? p = some t := by
  rw [State.get?_settle_tasks] at h
  split_ifs at h with howner
  · obtain ⟨t', hp, he⟩ := Option.map_eq_some_iff.1 h
    exact .inl ⟨t', howner, hp, he.symm⟩
  · exact .inr ⟨howner, h⟩

theorem State.of_get?_settle_drains {promise : Promise} {owner : Option Owner} {p : Pid}
    {pc : DrainPc} (h : (s.settle promise owner).drains.get? p = some pc) :
    (∃ pc', owner = some (.drain p) ∧ s.drains.get? p = some pc' ∧ pc = pc'.settle promise) ∨
      owner ≠ some (.drain p) ∧ s.drains.get? p = some pc := by
  rw [State.get?_settle_drains] at h
  split_ifs at h with howner
  · obtain ⟨pc', hp, he⟩ := Option.map_eq_some_iff.1 h
    exact .inl ⟨pc', howner, hp, he.symm⟩
  · exact .inr ⟨howner, h⟩

end Frame

end UploadService

open UploadService in
/-- The upload service. -/
def uploadService : LTS State Label := LTS.ofFn (fun s => ∃ consent now, s = init consent now) step

namespace UploadService

/-- An evaluated list of events is a run. -/
theorem reachable_of_exec {consent : ConsentEntry} {now : ℕ} (ls : List Label) {s : State}
    (h : LTS.exec step (init consent now) ls = some s) : uploadService.Reachable s :=
  LTS.reachable_of_exec (.start ⟨consent, now, rfl⟩) h

theorem run_of_exec {consent : ConsentEntry} {now : ℕ} (ls : List Label) {s : State}
    (h : LTS.exec step (init consent now) ls = some s) :
    ∃ tr, uploadService.Run tr s ∧ tr.map Prod.snd = ls :=
  LTS.run_of_exec (LTS.Run.start (A := uploadService) ⟨consent, now, rfl⟩) h

theorem guard_reachable_of_exec {ok : State → Label → Prop} {consent : ConsentEntry} {now : ℕ}
    (ls : List Label) {s : State} (h : LTS.exec step (init consent now) ls = some s)
    (hok : ∀ l ∈ ls, ∀ s, ok s l) : (uploadService.guard ok).Reachable s :=
  LTS.guard_reachable_of_exec (.start ⟨consent, now, rfl⟩) h hok

end UploadService

end FCord
