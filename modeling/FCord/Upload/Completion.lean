import FCord.Upload.Transcription

/-!
# How often completion work is done

A `completing` row is handled by its own task and by the recovery loop of a drain that starts
meanwhile, which works on a snapshot.  The second of the two finds the session completed
already (409) and goes through the same motions, so a process does the work of one row at most
twice: once from the task and once from a drain (`completion_work_bounded`).
-/

namespace FCord

/-- `requestTranscription` has not been called yet. -/
def TaskPc.beforeRequest : TaskPc → Bool
  | .writing _ .completing _ => true
  | .handling (.requesting _) => false
  | .handling _ => true
  | _ => false

/-- The task is about to call `completeUploadSession`. -/
def TaskPc.pendingCall : TaskPc → Bool
  | .writing _ .completing .resolved => true
  | .handling .findRecording => true
  | _ => false

theorem TaskPc.beforeRequest_settle (promise : Promise) (pc : TaskPc) :
    (pc.settle promise).beforeRequest = pc.beforeRequest := by
  cases pc with
  | writing recording w write => cases write <;> cases w <;> rfl
  | handling pc =>
    cases pc with
    | writingDone conflict serverId write => cases write <;> rfl
    | _ => rfl
  | _ => rfl

/-- A settled write leads to the call only if it was the `completing` one. -/
theorem TaskPc.pendingCall_settle {promise : Promise} {pc : TaskPc}
    (h : (pc.settle promise).pendingCall = true) :
    pc.pendingCall = true ∨ ∃ recording, pc = .writing recording .completing .pending := by
  cases pc with
  | writing recording w write =>
    cases write with
    | pending =>
      cases w with
      | completing => exact .inr ⟨recording, rfl⟩
      | _ => cases h
    | _ => exact .inl h
  | handling pc =>
    cases pc with
    | findRecording => exact .inl rfl
    | writingDone conflict serverId write => cases write <;> cases h
    | _ => cases h
  | _ => cases h

namespace UploadService

/-- The rows that a drain handles or is going to handle. -/
def DrainPc.completingRows : DrainPc → List RowId
  | .gotCompleting ids => ids
  | .handling row _ rest => row :: rest
  | _ => []

/-- Those for which it has not called `requestTranscription` yet. -/
def DrainPc.beforeRequest : DrainPc → List RowId
  | .gotCompleting ids => ids
  | .handling _ (.requesting _) rest => rest
  | .handling row _ rest => row :: rest
  | _ => []

/-- Those for which it has not called `completeUploadSession` yet. -/
def DrainPc.pendingCalls : DrainPc → List RowId
  | .gotCompleting ids => ids
  | .handling row .findRecording rest => row :: rest
  | .handling _ _ rest => rest
  | _ => []

theorem DrainPc.rows_settle (promise : Promise) (pc : DrainPc) :
    (pc.settle promise).completingRows = pc.completingRows ∧
      (pc.settle promise).beforeRequest = pc.beforeRequest ∧
      (pc.settle promise).pendingCalls = pc.pendingCalls := by
  cases pc with
  | handling row pc rest =>
    cases pc with
    | writingDone conflict serverId write => cases write <;> exact ⟨rfl, rfl, rfl⟩
    | _ => exact ⟨rfl, rfl, rfl⟩
  | _ => exact ⟨rfl, rfl, rfl⟩

/-- The call is that of a task. -/
def byTask : Owner → Bool
  | .task _ => true
  | _ => false

/-- The call is that of a drain: it is not that of a task. -/
def byDrain (who : Owner) : Bool := !byTask who

/-- How often calls of one kind asked for the transcription of a row. -/
def requestsBy (kind : Owner → Bool) (row : RowId) (log : List Event) : ℕ :=
  log.countP fun
    | .requestTranscription (.completion who r) _ => kind who && decide (r = row)
    | _ => false

/-- How often `completeUploadSession` was called for a row. -/
def completeCalls (row : RowId) (log : List Event) : ℕ :=
  log.countP fun
    | .completeCall _ r _ _ _ => decide (r = row)
    | _ => false

theorem requestsBy_all (row : RowId) (log : List Event) :
    requestsBy (fun _ => true) row log =
      requestsBy byTask row log + requestsBy byDrain row log := by
  induction log with
  | nil => rfl
  | cons e log ih =>
    simp only [requestsBy, List.countP_cons] at ih ⊢
    rw [ih]
    cases e with
    | requestTranscription op serverId =>
      cases op with
      | completion who r => by_cases hr : r = row <;> cases hw : byTask who <;>
          simp [hr, hw, byDrain] <;> omega
      | detailScreen => rfl
    | _ => rfl

/-- The log `log'` has one request more than `log`, made by `who` for the row. -/
def OneMore (who : Owner) (row : RowId) (log log' : List Event) : Prop :=
  ∀ kind r, requestsBy kind r log' = requestsBy kind r log + if kind who ∧ row = r then 1 else 0

namespace OneMore

variable {who : Owner} {row : RowId} {log log' : List Event} {kind : Owner → Bool}

theorem of_ne (h : OneMore who row log log') {r : RowId} (hr : r ≠ row) :
    requestsBy kind r log' = requestsBy kind r log := by
  rw [h, if_neg fun hc => hr hc.2.symm, Nat.add_zero]

theorem of_other (h : OneMore who row log log') (hk : kind who = false) (r : RowId) :
    requestsBy kind r log' = requestsBy kind r log := by
  rw [h, if_neg (by simp [hk]), Nat.add_zero]

/-- The first request of its kind for the row. -/
theorem le_one (h : OneMore who row log log') (hzero : requestsBy kind row log = 0)
    (hle : ∀ r, requestsBy kind r log ≤ 1) (r : RowId) : requestsBy kind r log' ≤ 1 := by
  by_cases hr : r = row
  · rw [h, hr, hzero]
    split_ifs <;> omega
  · rw [h.of_ne hr]
    exact hle r

end OneMore

/-- `who` has a `_handleCompleting` of the row in flight. -/
def Handles (s : State) (row : RowId) : Owner → Prop
  | .task p => ∃ id pc, s.tasks.get? p = some ⟨row, id, .handling pc⟩
  | .drain p => ∃ pc rest, s.drains.get? p = some (.handling row pc rest)
  | .call _ => False

/-! ### What a turn adds -/

section Turns

variable {who : Owner} {row : RowId} {item : UploadQueueItem} {now : ℕ}
variable {store : UploadQueueStore} {consent : ConsentEntry} {effects : List Effect}

theorem HandlerTurn.requests_cases {pc : HandlerPc} {next : HandlerNext}
    (h : HandlerTurn who row item consent pc next effects) :
    (∀ kind r log, requestsBy kind r (logAfter effects log) = requestsBy kind r log) ∨
    ∃ serverId, pc = .readingConsent serverId ∧ next = .await (.requesting serverId) ∧
      ∀ log, OneMore who row log (logAfter effects log) := by
  cases h with
  | @request serverId hc =>
    refine .inr ⟨serverId, rfl, rfl, fun log kind r => ?_⟩
    simp [requestsBy, logAfter, recordedEvent, List.countP_cons]
  | _ =>
    refine .inl fun kind r log => ?_
    simp [requestsBy, logAfter, recordedEvent]

theorem HandlerTurn.calls_cases {pc : HandlerPc} {next : HandlerNext}
    (h : HandlerTurn who row item consent pc next effects) :
    (∀ r log, completeCalls r (logAfter effects log) = completeCalls r log) ∨
    pc = .findRecording ∧ (∃ serverId sessionId, next = .await (.completing serverId sessionId)) ∧
      ∀ r log, completeCalls r (logAfter effects log) =
        completeCalls r log + if row = r then 1 else 0 := by
  cases h with
  | @call serverId sessionId checksum hs =>
    refine .inr ⟨rfl, ⟨serverId, sessionId, rfl⟩, fun r log => ?_⟩
    simp [completeCalls, logAfter, recordedEvent, List.countP_cons]
  | _ =>
    refine .inl fun r log => ?_
    simp [completeCalls, logAfter, recordedEvent]

theorem HandlerTurn.beforeRequest_subset {pc : HandlerPc} {next : HandlerNext}
    {rest : List RowId} (h : HandlerTurn who row item consent pc next effects) :
    (DrainPc.afterHandler row rest next).beforeRequest ⊆
      (DrainPc.handling row pc rest).beforeRequest := by
  cases h with
  | stop hpc => cases pc <;> simp [DrainPc.afterHandler, DrainPc.beforeRequest]
  | _ => simp [DrainPc.afterHandler, DrainPc.beforeRequest]

theorem HandlerTurn.pendingCalls_subset {pc : HandlerPc} {next : HandlerNext}
    {rest : List RowId} (h : HandlerTurn who row item consent pc next effects) :
    (DrainPc.afterHandler row rest next).pendingCalls ⊆
      (DrainPc.handling row pc rest).pendingCalls := by
  cases h with
  | stop hpc => cases pc <;> simp [DrainPc.afterHandler, DrainPc.pendingCalls]
  | _ => simp [DrainPc.afterHandler, DrainPc.pendingCalls]

theorem HandlerTurn.beforeRequest {pc : HandlerPc} {next : HandlerNext}
    (h : HandlerTurn who row item consent pc next effects)
    (hb : (taskPcAfterHandler next).beforeRequest = true) :
    (TaskPc.handling pc).beforeRequest = true := by
  cases h with
  | stop hpc => cases hb
  | _ => rfl

theorem HandlerTurn.pendingCall {pc : HandlerPc} {next : HandlerNext}
    (h : HandlerTurn who row item consent pc next effects) :
    (taskPcAfterHandler next).pendingCall = false := by
  cases h <;> rfl

/-- Only the turns of `_handleCompleting` concern completion. -/
theorem TaskTurn.completion_cases {pc pc' : TaskPc}
    (h : TaskTurn who row item now store consent pc pc' effects) :
    (∃ hpc next, pc = .handling hpc ∧ pc' = taskPcAfterHandler next ∧
      HandlerTurn who row item consent hpc next effects) ∨
    ((∀ kind r log, requestsBy kind r (logAfter effects log) = requestsBy kind r log) ∧
      (∀ r log, completeCalls r (logAfter effects log) = completeCalls r log) ∧
      (pc'.beforeRequest = true → pc.beforeRequest = true ∨
        ∃ recording url, pc = .settled recording url none) ∧
      (pc'.pendingCall = true → pc.pendingCall = true)) := by
  cases h with
  | handler hh => exact .inl ⟨_, _, rfl, rfl, hh⟩
  | transferred =>
    refine .inr ⟨fun kind r log => ?_, fun r log => ?_, fun _ => .inr ⟨_, _, rfl⟩, fun hc => ?_⟩
    · simp [requestsBy, logAfter, recordedEvent]
    · simp [completeCalls, logAfter, recordedEvent]
    · cases hc
  | complete =>
    refine .inr ⟨fun kind r log => ?_, fun r log => ?_, fun _ => .inl rfl, fun _ => rfl⟩ <;>
    simp [requestsBy, completeCalls, logAfter, recordedEvent]
  | _ =>
    refine .inr ⟨fun kind r log => ?_, fun r log => ?_, fun hb => ?_, fun hc => ?_⟩
    · simp [requestsBy, logAfter, recordedEvent]
    · simp [completeCalls, logAfter, recordedEvent]
    · cases hb
    · cases hc

theorem DrainTurn.nodup_completingRows {s : State} {pc pc' : DrainPc} (h : DrainTurn s pc pc')
    (hn : pc.completingRows.Nodup) : pc'.completingRows.Nodup := by
  cases h with
  | completingRows =>
    simp only [DrainPc.completingRows]
    exact Table.nodup_idsWhere
  | nextRow => exact hn
  | _ => exact List.nodup_nil

/-- A drain takes up only rows that are `completing` now. -/
theorem DrainTurn.rows_cases {s : State} {pc pc' : DrainPc} (h : DrainTurn s pc pc')
    {row : RowId} : (row ∈ pc'.beforeRequest → row ∈ pc.beforeRequest ∨
        statusOf s.rows row = some .completing) ∧
      (row ∈ pc'.pendingCalls → row ∈ pc.pendingCalls ∨
        statusOf s.rows row = some .completing) := by
  cases h with
  | completingRows =>
    have hq : row ∈ s.rows.idsWhere (fun item => item.status = .completing) →
        statusOf s.rows row = some .completing := by
      intro hm
      obtain ⟨item, hrow, hst⟩ := Table.mem_idsWhere_iff.1 hm
      simpa [statusOf, hrow] using hst
    exact ⟨fun hm => .inr (hq hm), fun hm => .inr (hq hm)⟩
  | nextRow => exact ⟨.inl, .inl⟩
  | _ => exact ⟨fun hm => absurd hm List.not_mem_nil, fun hm => absurd hm List.not_mem_nil⟩

end Turns

/-! ### The invariant -/

/-- The task of the row is about to call `completeUploadSession`. -/
def TaskPending (s : State) (row : RowId) : Prop :=
  ∃ p t, s.tasks.get? p = some t ∧ t.row = row ∧ t.pc.pendingCall = true

/-- A drain is about to call `completeUploadSession` for the row. -/
def DrainPending (s : State) (row : RowId) : Prop :=
  ∃ p pc, s.drains.get? p = some pc ∧ row ∈ pc.pendingCalls

/-- The completion invariant of one process. -/
structure Completion (s : State) : Prop where
  /-- Transcriptions are requested for `done` rows only. -/
  notDone : ∀ row, statusOf s.rows row ≠ some .done → ∀ kind, requestsBy kind row s.log = 0
  taskOnce : ∀ row, requestsBy byTask row s.log ≤ 1
  drainOnce : ∀ row, requestsBy byDrain row s.log ≤ 1
  tasks : ∀ p t, s.tasks.get? p = some t → t.pc.beforeRequest = true →
    requestsBy byTask t.row s.log = 0
  drains : ∀ p pc, s.drains.get? p = some pc → pc.completingRows.Nodup ∧
    ∀ row ∈ pc.beforeRequest, requestsBy byDrain row s.log = 0
  /-- The call that made the row `done` has made its own request before. -/
  pending : ∀ row, statusOf s.rows row = some .done →
    ¬ (TaskPending s row ∧ DrainPending s row)

/-- The process does not die. -/
def NoKill (_ : State) (l : Label) : Prop := l ≠ .kill

namespace Completion

variable {s s' : State}

theorem init {consent : ConsentEntry} {now : ℕ} :
    Completion (UploadService.init consent now) where
  notDone row _ kind := rfl
  taskOnce row := Nat.zero_le _
  drainOnce row := Nat.zero_le _
  tasks := by rintro p t hp; cases hp
  drains := by rintro p pc hp; cases hp
  pending := by rintro row hst; cases hst

theorem processQueue (h : Completion s) (hs : Slots s) : Completion s.processQueue := by
  unfold State.processQueue
  split_ifs
  · exact h
  refine { h with drains := ?_, pending := ?_ }
  · intro p pc hp
    rcases Table.of_get?_push hs.nextPid_fresh_drain hp with ⟨-, rfl⟩ | ⟨-, hp⟩
    · exact ⟨List.nodup_nil, fun _ hm => absurd hm List.not_mem_nil⟩
    · exact h.drains p pc hp
  · rintro row hst ⟨htask, p, pc, hp, hm⟩
    rcases Table.of_get?_push hs.nextPid_fresh_drain hp with ⟨-, rfl⟩ | ⟨-, hp⟩
    · exact absurd hm List.not_mem_nil
    · exact h.pending row hst ⟨htask, p, pc, hp, hm⟩

/-- Moving a drain to where it holds no other rows. -/
theorem setDrain (h : Completion s) {p : Pid} {pc pc' : DrainPc}
    (hp : s.drains.get? p = some pc) (hn : pc'.completingRows.Nodup)
    (hbefore : ∀ row ∈ pc'.beforeRequest, requestsBy byDrain row s.log = 0)
    (hpending : ∀ row, statusOf s.rows row = some .done → row ∈ pc'.pendingCalls →
      row ∈ pc.pendingCalls) :
    Completion { s with drains := s.drains.set p pc' } := by
  refine { h with drains := ?_, pending := ?_ }
  · intro q qc hq
    rcases Table.of_get?_set hq with ⟨-, rfl⟩ | ⟨-, hq⟩
    · exact ⟨hn, hbefore⟩
    · exact h.drains q qc hq
  · rintro row hst ⟨htask, q, qc, hq, hm⟩
    rcases Table.of_get?_set hq with ⟨-, rfl⟩ | ⟨-, hq⟩
    · exact h.pending row hst ⟨htask, p, pc, hp, hpending row hst hm⟩
    · exact h.pending row hst ⟨htask, q, qc, hq, hm⟩

theorem setTask (h : Completion s) {p : Pid} {t t' : Task} (hp : s.tasks.get? p = some t)
    (hrow : t'.row = t.row)
    (hbefore : t'.pc.beforeRequest = true → requestsBy byTask t.row s.log = 0)
    (hpending : t'.pc.pendingCall = true → t.pc.pendingCall = true) :
    Completion { s with tasks := s.tasks.set p t' } := by
  refine { h with tasks := ?_, pending := ?_ }
  · intro q u hq hu
    rcases Table.of_get?_set hq with ⟨-, rfl⟩ | ⟨-, hq⟩
    · exact hrow ▸ hbefore hu
    · exact h.tasks q u hq hu
  · rintro row hst ⟨⟨q, u, hq, hr, hu⟩, hdrain⟩
    refine h.pending row hst ⟨?_, hdrain⟩
    rcases Table.of_get?_set hq with ⟨-, rfl⟩ | ⟨-, hq⟩
    · exact ⟨p, t, hp, hrow ▸ hr, hpending hu⟩
    · exact ⟨q, u, hq, hr, hu⟩

theorem eraseTask (h : Completion s) {p : Pid} :
    Completion { s with tasks := s.tasks.erase p } := by
  refine { h with tasks := ?_, pending := ?_ }
  · intro q u hq
    obtain ⟨-, hq⟩ := Table.of_get?_erase hq
    exact h.tasks q u hq
  · rintro row hst ⟨⟨q, u, hq, hu⟩, hdrain⟩
    obtain ⟨-, hq⟩ := Table.of_get?_erase hq
    exact h.pending row hst ⟨⟨q, u, hq, hu⟩, hdrain⟩

theorem eraseDrain (h : Completion s) {p : Pid} :
    Completion { s with drains := s.drains.erase p } := by
  refine { h with drains := ?_, pending := ?_ }
  · intro q qc hq
    obtain ⟨-, hq⟩ := Table.of_get?_erase hq
    exact h.drains q qc hq
  · rintro row hst ⟨htask, q, qc, hq, hm⟩
    obtain ⟨-, hq⟩ := Table.of_get?_erase hq
    exact h.pending row hst ⟨htask, q, qc, hq, hm⟩

/-- The log changes, but no request is added. -/
theorem setLog (h : Completion s) {store : UploadQueueStore} {writer : List Job}
    {log : List Event} (hlog : ∀ kind row, requestsBy kind row log = requestsBy kind row s.log) :
    Completion { s with store := store, writer := writer, log := log } where
  notDone row hst kind := (hlog kind row).trans (h.notDone row hst kind)
  taskOnce row := (hlog byTask row).symm ▸ h.taskOnce row
  drainOnce row := (hlog byDrain row).symm ▸ h.drainOnce row
  tasks p t hp ht := (hlog byTask _).trans (h.tasks p t hp ht)
  drains p pc hp := ⟨(h.drains p pc hp).1, fun row hm =>
    (hlog byDrain row).trans ((h.drains p pc hp).2 row hm)⟩
  pending := h.pending

/-- A turn of `_handleCompleting` inside a drain. -/
theorem handler (h : Completion s) (hs : Slots s) (ho : Ownership s) {p : Pid} {row : RowId}
    {pc : HandlerPc} {rest : List RowId} {item : UploadQueueItem} {next : HandlerNext}
    {effects : List Effect} (hp : s.drains.get? p = some (.handling row pc rest))
    (ht : HandlerTurn (.drain p) row item s.consent pc next effects) :
    Completion { s.perform (.drain p) effects with
      drains := s.drains.set p (.afterHandler row rest next) } := by
  obtain ⟨hn, hbefore⟩ := h.drains p _ hp
  have hn' : (DrainPc.afterHandler row rest next).completingRows.Nodup := by
    cases next with
    | await pc' => exact hn
    | returned => exact (List.nodup_cons.1 hn).2
    | threw => exact List.nodup_nil
  obtain hsame | ⟨serverId, rfl, rfl, hcount⟩ := ht.requests_cases
  · have hlog : Completion (s.perform (.drain p) effects) :=
      h.setLog fun kind r => hsame kind r s.log
    refine hlog.setDrain hp hn' (fun r hm => ?_) fun r _ hm => ht.pendingCalls_subset hm
    exact (hsame _ r _).trans (hbefore r (ht.beforeRequest_subset hm))
  · -- the request is made; the row is `done`, and it does not come again in `rest`
    obtain ⟨⟨st, hst, hfits⟩, -⟩ := ho.drains p _ hp
    obtain rfl : st = .done := hfits
    have hrow : row ∉ rest := (List.nodup_cons.1 hn).1
    have hzero : requestsBy byDrain row s.log = 0 := hbefore row List.mem_cons_self
    have hmore := hcount s.log
    have htask : ∀ r, requestsBy byTask r (logAfter effects s.log) =
        requestsBy byTask r s.log := hmore.of_other rfl
    constructor
    · intro r hr kind
      have hne : r ≠ row := by
        rintro rfl
        exact hr hst
      exact (hmore.of_ne hne).trans (h.notDone r hr kind)
    · exact fun r => (htask r).symm ▸ h.taskOnce r
    · exact hmore.le_one hzero h.drainOnce
    · exact fun q t hq hb => (htask _).trans (h.tasks q t hq hb)
    · intro q qc hq
      rcases Table.of_get?_set hq with ⟨hqp, rfl⟩ | ⟨hqp, hq⟩
      · refine ⟨hn', fun r hm => ?_⟩
        have hne : r ≠ row := by
          rintro rfl
          exact hrow hm
        exact (hmore.of_ne hne).trans (hbefore r (List.mem_cons_of_mem _ hm))
      · exact absurd (hs.drain_pc_unique hq hp).1 hqp
    · rintro r hr ⟨htask, q, qc, hq, hm⟩
      rcases Table.of_get?_set hq with ⟨-, rfl⟩ | ⟨-, hq⟩
      · exact h.pending r hr ⟨htask, p, _, hp, ht.pendingCalls_subset hm⟩
      · exact h.pending r hr ⟨htask, q, qc, hq, hm⟩

/-- A turn of a task. -/
theorem task (h : Completion s) (hs : Slots s) (ho : Ownership s) {p : Pid} {t : Task}
    {pc : TaskPc} {item : UploadQueueItem} {effects : List Effect}
    (hp : s.tasks.get? p = some t) (hrow : s.rows.get? t.row = some item)
    (ht : TaskTurn (.task p) t.row item s.now s.store s.consent t.pc pc effects) :
    Completion (s.taskTurn p t pc effects) := by
  have hst := statusOf_of_get? hrow
  have hfits := ho.tasks p t _ hp hst
  obtain ⟨hpc, next, he, rfl, hh⟩ | ⟨hsame, -, hbefore, hcall⟩ := ht.completion_cases
  · obtain hsame | ⟨serverId, rfl, rfl, hcount⟩ := hh.requests_cases
    · have hlog : Completion (s.perform (.task p) effects) :=
        h.setLog fun kind r => hsame kind r s.log
      refine hlog.setTask hp rfl (fun hb => ?_) fun hc => ?_
      · exact (hsame _ _ _).trans (h.tasks p t hp (he ▸ hh.beforeRequest hb))
      · simp [hh.pendingCall] at hc
    · -- the request is made; the row is `done`, and no other task works on it
      rw [he] at hfits
      have hdone : statusOf s.rows t.row = some .done := hst.trans (congrArg some hfits)
      have hzero : requestsBy byTask t.row s.log = 0 := h.tasks p t hp (by rw [he]; rfl)
      have hmore := hcount s.log
      have hdrain : ∀ r, requestsBy byDrain r (logAfter effects s.log) =
          requestsBy byDrain r s.log := hmore.of_other rfl
      constructor
      · intro r hr kind
        have hne : r ≠ t.row := by
          rintro rfl
          exact hr hdone
        exact (hmore.of_ne hne).trans (h.notDone r hr kind)
      · exact hmore.le_one hzero h.taskOnce
      · exact fun r => (hdrain r).symm ▸ h.drainOnce r
      · intro q u hq hb
        rcases Table.of_get?_set hq with ⟨hqp, rfl⟩ | ⟨hqp, hq⟩
        · cases hb
        · have hne : u.row ≠ t.row := fun hr => hqp (hs.task_unique_row hq hp hr)
          exact (hmore.of_ne hne).trans (h.tasks q u hq hb)
      · exact fun q qc hq => ⟨(h.drains q qc hq).1, fun r hm =>
          (hdrain r).trans ((h.drains q qc hq).2 r hm)⟩
      · rintro r hr ⟨⟨q, u, hq, hur, hu⟩, hdr⟩
        rcases Table.of_get?_set hq with ⟨-, rfl⟩ | ⟨-, hq⟩
        · cases hu
        · exact h.pending r hr ⟨⟨q, u, hq, hur, hu⟩, hdr⟩
  · have hlog : Completion (s.perform (.task p) effects) :=
      h.setLog fun kind r => hsame kind r s.log
    refine hlog.setTask hp rfl (fun hb => ?_) hcall
    refine (hsame _ _ _).trans ?_
    obtain hb | ⟨recording, url, he⟩ := hbefore hb
    · exact h.tasks p t hp hb
    · rw [he] at hfits
      refine h.notDone t.row ?_ _
      rw [hst, show item.status = .uploading from hfits]
      decide

theorem start (h : Completion s) (hs : Slots s) {p : Pid} {row : RowId} {id : String}
    (hp : s.drains.get? p = some (.picked row)) :
    Completion ((s.startTask row id).testSlots p) := by
  have hstart : Completion (s.startTask row id) := by
    refine ⟨h.notDone, h.taskOnce, h.drainOnce, ?_, h.drains, ?_⟩
    · intro q u hq hb
      rcases Table.of_get?_push hs.nextPid_fresh_task hq with ⟨-, rfl⟩ | ⟨-, hq⟩
      · cases hb
      · exact h.tasks q u hq hb
    · rintro r hr ⟨⟨q, u, hq, hur, hu⟩, hdr⟩
      rcases Table.of_get?_push hs.nextPid_fresh_task hq with ⟨-, rfl⟩ | ⟨-, hq⟩
      · cases hu
      · exact h.pending r hr ⟨⟨q, u, hq, hur, hu⟩, hdr⟩
  refine hstart.setDrain hp ?_ ?_ ?_
  · split_ifs <;> exact List.nodup_nil
  · split_ifs <;> exact fun r hm => absurd hm List.not_mem_nil
  · split_ifs <;> exact fun r _ hm => absurd hm List.not_mem_nil

/-! ### Completion and writes -/

/-- A drain that the database writer has told about a write holds the same rows. -/
theorem of_settled_drain {promise : Promise} {owner : Option Owner} {q : Pid} {qc : DrainPc}
    (hq : (s.settle promise owner).drains.get? q = some qc) :
    ∃ qc', s.drains.get? q = some qc' ∧ qc.completingRows = qc'.completingRows ∧
      qc.beforeRequest = qc'.beforeRequest ∧ qc.pendingCalls = qc'.pendingCalls := by
  rcases s.of_get?_settle_drains hq with ⟨qc', -, hq', rfl⟩ | ⟨-, hq⟩
  · exact ⟨qc', hq', DrainPc.rows_settle promise qc'⟩
  · exact ⟨qc, hq, rfl, rfl, rfl⟩

theorem of_settled_task {promise : Promise} {owner : Option Owner} {q : Pid} {u : Task}
    (hq : (s.settle promise owner).tasks.get? q = some u) :
    ∃ u', s.tasks.get? q = some u' ∧ u.row = u'.row ∧
      u.pc.beforeRequest = u'.pc.beforeRequest ∧
      (u.pc.pendingCall = true → u'.pc.pendingCall = true ∨
        ∃ recording, u'.pc = .writing recording .completing .pending) := by
  rcases s.of_get?_settle_tasks hq with ⟨u', -, hq', rfl⟩ | ⟨-, hq⟩
  · exact ⟨u', hq', rfl, TaskPc.beforeRequest_settle promise u'.pc, TaskPc.pendingCall_settle⟩
  · exact ⟨u, hq, rfl, rfl, .inl⟩

/-- For a row that is `done` already, a write starts nothing. -/
theorem pending_settle (promise : Promise) (owner : Option Owner) (ho : Ownership s) {row : RowId}
    (hst : statusOf s.rows row = some .done) :
    (TaskPending (s.settle promise owner) row → TaskPending s row) ∧
      (DrainPending (s.settle promise owner) row → DrainPending s row) := by
  constructor
  · rintro ⟨q, u, hq, rfl, hu⟩
    obtain ⟨u', hq', hrow, -, hcall⟩ := of_settled_task hq
    obtain hc | ⟨recording, he⟩ := hcall hu
    · exact ⟨q, u', hq', hrow.symm, hc⟩
    · have := ho.tasks q u' .done hq' (hrow ▸ hst)
      simp [he, TaskPc.Fits] at this
  · rintro ⟨q, qc, hq, hm⟩
    obtain ⟨qc', hq', -, -, hcall⟩ := of_settled_drain hq
    exact ⟨q, qc', hq', hcall ▸ hm⟩

/-- The write that makes a row `done` comes from a call that has made its own request. -/
theorem pending_run (h : Completion s) (hs : Slots s) {job : Job}
    (hj : JobOf s job) {newId : RowId} (hnew : newId ∉ s.rows.keys) {row : RowId}
    (hst : statusOf s.rows row ≠ some .done)
    (hst' : statusOf (job.action.run s.now newId s.rows) row = some .done) :
    ¬ (TaskPending (s.settle .resolved job.owner) row ∧
      DrainPending (s.settle .resolved job.owner) row) := by
  cases hj with
  | progress r loaded =>
    rw [Action.run, statusOf_modify_of_none rfl] at hst'
    exact absurd hst' hst
  | create hp =>
    rcases of_statusOf_push hnew hst' with he | hst'
    · cases he
    · exact absurd hst' hst
  | reset hp =>
    rcases of_statusOf_modify hst' with ⟨old, -, -, he⟩ | ⟨-, hst'⟩
    · cases he
    · exact absurd hst' hst
  | @task p r id recording w hp =>
    rcases of_statusOf_modify hst' with ⟨old, -, hold, he⟩ | ⟨-, hst'⟩
    · -- only a session write leaves the status alone; the others make the row something else
      cases w with
      | session sessionId url =>
        cases he
        exact absurd hold hst
      | _ => cases he
    · exact absurd hst' hst
  | @taskDone p r id conflict serverId hp =>
    rcases of_statusOf_modify hst' with ⟨old, rfl, -, -⟩ | ⟨-, hst'⟩
    · -- the only task of the row has made its call
      rintro ⟨⟨q, u, hq, hur, hu⟩, -⟩
      obtain ⟨u', hq', hrow, -, hcall⟩ := of_settled_task hq
      cases hs.task_unique_row hq' hp (hrow.symm.trans hur)
      cases hq'.symm.trans hp
      obtain hc | ⟨recording, he⟩ := hcall hu
      · cases hc
      · cases he
    · exact absurd hst' hst
  | @drainDone p r conflict serverId rest hp =>
    rcases of_statusOf_modify hst' with ⟨old, rfl, -, -⟩ | ⟨-, hst'⟩
    · -- the only drain has made its call for the row, which does not come again in `rest`
      rintro ⟨-, q, qc, hq, hm⟩
      obtain ⟨qc', hq', -, -, hcall⟩ := of_settled_drain hq
      obtain ⟨rfl, rfl⟩ := hs.drain_pc_unique hq' hp
      rw [hcall] at hm
      exact (List.nodup_cons.1 (h.drains _ _ hp).1).1 hm
    · exact absurd hst' hst

/-- The database writer is done with its first job; a `done` row stays `done`. -/
theorem settle (h : Completion s) {rows : Table RowId UploadQueueItem} {jobs : List Job}
    {promise : Promise} {owner : Option Owner}
    (hdone : ∀ row, statusOf s.rows row = some .done → statusOf rows row = some .done)
    (hpending : ∀ row, statusOf rows row = some .done →
      ¬ (TaskPending (s.settle promise owner) row ∧ DrainPending (s.settle promise owner) row)) :
    Completion ({ s with rows := rows, writer := jobs }.settle promise owner) := by
  constructor
  · intro row hst kind
    rw [State.settle_rows] at hst
    rw [State.settle_log]
    exact h.notDone row (mt (hdone row) hst) kind
  · rw [State.settle_log]
    exact h.taskOnce
  · rw [State.settle_log]
    exact h.drainOnce
  · intro q u hq hb
    obtain ⟨u', hq', hrow, hbefore, -⟩ := of_settled_task hq
    rw [State.settle_log, hrow]
    exact h.tasks q u' hq' (hbefore ▸ hb)
  · intro q qc hq
    obtain ⟨qc', hq', hrows, hbefore, -⟩ := of_settled_drain hq
    rw [State.settle_log, hrows, hbefore]
    exact h.drains q qc' hq'
  · intro row hst
    rw [State.settle_rows] at hst
    simpa only [TaskPending, DrainPending, State.get?_settle_tasks, State.get?_settle_drains]
      using hpending row hst

theorem commit (h : Completion s) (hs : Slots s) (hwriter : Writer s) (ho : Ownership s)
    {job : Job} {jobs : List Job} (hw : s.writer = job :: jobs) {newId : RowId}
    (hnew : newId ∉ s.rows.keys) :
    Completion ({ s with rows := job.action.run s.now newId s.rows, writer := jobs }.settle
      .resolved job.owner) := by
  have hm : job ∈ s.writer := hw ▸ List.mem_cons_self
  have hj := hwriter.jobOf hm
  refine h.settle (fun row => ho.done_run hm hj hnew) fun row hst => ?_
  -- the row was `done` before, or this write makes it so
  by_cases hd : statusOf s.rows row = some .done
  · obtain ⟨htask, hdrain⟩ := pending_settle .resolved job.owner ho hd
    exact fun hb => h.pending row hd (hb.imp htask hdrain)
  · exact h.pending_run hs hj hnew hd hst

theorem reject (h : Completion s) (ho : Ownership s) {job : Job} {jobs : List Job} :
    Completion ({ s with writer := jobs }.settle .rejected job.owner) := by
  refine h.settle (fun row => id) fun row hst => ?_
  obtain ⟨htask, hdrain⟩ := pending_settle .rejected job.owner ho hst
  exact fun hb => h.pending row hst (hb.imp htask hdrain)

theorem move (h : Completion s) (hs : Slots s) (hwriter : Writer s) (ho : Ownership s)
    {l : Label} (hl : l ≠ .kill) (hm : Move s l s') : Completion s' := by
  cases hm with
  | outside consent listening hnow => exact { h with }
  | screen recording =>
    exact h.setLog fun kind row => by simp [requestsBy]
  | wake listening =>
    exact processQueue (s := { s with listening := listening }) { h with } { hs with }
  | enqueue recordingId bytesTotal => exact { h with }
  | retry row => exact { h with }
  | drain hp ht =>
    obtain ⟨hn, hbefore⟩ := h.drains _ _ hp
    -- what the drain takes up is `completing`, so nothing was requested for it
    refine h.setDrain hp (ht.nodup_completingRows hn) (fun row hm => ?_) fun row hst hm => ?_
    · obtain hm | hst := ht.rows_cases.1 hm
      · exact hbefore row hm
      · exact h.notDone row (by simp [hst]) _
    · obtain hm | hst' := ht.rows_cases.2 hm
      · exact hm
      · simp [hst] at hst'
  | queryFailed hp hpc =>
    exact h.setDrain hp List.nodup_nil (fun row hm => absurd hm List.not_mem_nil)
      fun row _ hm => absurd hm List.not_mem_nil
  | handler hp hrow ht ho' => exact h.handler hs ho hp ht
  | start hp hrow => exact h.start hs hp
  | leave hp => exact { h.eraseDrain with }
  | @task l p t pc effects hp ht =>
    obtain ⟨item, hrow, -⟩ := hs.taskRows p t hp
    exact h.task hs ho hp hrow (ht item hrow)
  | @finish p t hp hpc =>
    exact processQueue (s := { s with
      store := s.store.removeActiveUpload t.recordingId, tasks := s.tasks.erase p })
      { h.eraseTask with } (hs.releaseTask hp)
  | reset hp hrow hst => exact { h with }
  | @wakeCall p pc hp hpc => exact processQueue (s := s.endCall p) { h with } hs.endCall
  | endCall hp hpc hidle => exact { h with }
  | commit hw hnew => exact h.commit hs hwriter ho hw hnew
  | reject hw => exact h.reject ho
  | kill => exact absurd rfl hl

theorem of_reachable (h : (uploadService.guard NoKill).Reachable s) : Completion s := by
  refine h.invariant_of ?_ fun s l s' hr hc hst => ?_
  · rintro s ⟨consent, now, rfl⟩
    exact init
  · have hr := hr.of_guard
    exact hc.move (.of_reachable hr) (.of_reachable hr) (.of_reachable hr) hst.1 (.of_step hst.2)

end Completion

/-! ### Calls for a row that is `done` -/

/-- No more than `n` calls of `completeUploadSession` for the row, with the one counted that
somebody is about to make. -/
structure Budget (n : ℕ) (row : RowId) (s : State) : Prop where
  le : completeCalls row s.log ≤ n
  lt : TaskPending s row ∨ DrainPending s row → completeCalls row s.log < n

namespace Budget

variable {s s' : State} {n : ℕ} {row : RowId}

/-- No call is made, and nobody new is about to make one. -/
theorem mono (h : Budget n row s) (hlog : completeCalls row s'.log = completeCalls row s.log)
    (htask : TaskPending s' row → TaskPending s row)
    (hdrain : DrainPending s' row → DrainPending s row) : Budget n row s' where
  le := hlog ▸ h.le
  lt hp := hlog ▸ h.lt (hp.imp htask hdrain)

/-- A call is made, and nobody is about to make another one. -/
theorem spend (h : Budget n row s) (hpend : TaskPending s row ∨ DrainPending s row)
    (hlog : completeCalls row s'.log = completeCalls row s.log + 1)
    (htask : ¬ TaskPending s' row) (hdrain : ¬ DrainPending s' row) : Budget n row s' where
  le := hlog ▸ h.lt hpend
  lt hp := absurd hp (not_or.2 ⟨htask, hdrain⟩)

theorem taskPending_set {p : Pid} {t t' : Task} (hp : s.tasks.get? p = some t)
    (hrow : t'.row = t.row) (hpc : t'.pc.pendingCall = true → t.pc.pendingCall = true)
    (h : TaskPending { s with tasks := s.tasks.set p t' } row) : TaskPending s row := by
  obtain ⟨q, u, hq, hr, hu⟩ := h
  rcases Table.of_get?_set hq with ⟨-, rfl⟩ | ⟨-, hq⟩
  · exact ⟨p, t, hp, hrow ▸ hr, hpc hu⟩
  · exact ⟨q, u, hq, hr, hu⟩

theorem drainPending_set {p : Pid} {pc pc' : DrainPc} (hp : s.drains.get? p = some pc)
    (hpc : row ∈ pc'.pendingCalls → row ∈ pc.pendingCalls)
    (h : DrainPending { s with drains := s.drains.set p pc' } row) : DrainPending s row := by
  obtain ⟨q, qc, hq, hm⟩ := h
  rcases Table.of_get?_set hq with ⟨-, rfl⟩ | ⟨-, hq⟩
  · exact ⟨p, pc, hp, hpc hm⟩
  · exact ⟨q, qc, hq, hm⟩

theorem processQueue (h : Budget n row s) (hs : Slots s) : Budget n row s.processQueue := by
  unfold State.processQueue
  split_ifs
  · exact h
  refine h.mono rfl id ?_
  rintro ⟨q, qc, hq, hm⟩
  rcases Table.of_get?_push hs.nextPid_fresh_drain hq with ⟨-, rfl⟩ | ⟨-, hq⟩
  · cases hm
  · exact ⟨q, qc, hq, hm⟩

theorem eraseTask (h : Budget n row s) {p : Pid} {store : UploadQueueStore} :
    Budget n row { s with store := store, tasks := s.tasks.erase p } := by
  refine h.mono rfl ?_ id
  rintro ⟨q, u, hq, hu⟩
  obtain ⟨-, hq⟩ := Table.of_get?_erase hq
  exact ⟨q, u, hq, hu⟩

/-- The database writer is done with its first job. -/
theorem settle (h : Budget n row s) (ho : Ownership s) (hst : statusOf s.rows row = some .done)
    {rows : Table RowId UploadQueueItem} {jobs : List Job} (promise : Promise)
    (owner : Option Owner) :
    Budget n row ({ s with rows := rows, writer := jobs }.settle promise owner) := by
  obtain ⟨htask, hdrain⟩ := Completion.pending_settle promise owner ho hst
  refine h.mono (by rw [State.settle_log]) (fun ht => htask ?_) fun hd => hdrain ?_
  · simpa only [TaskPending, State.get?_settle_tasks] using ht
  · simpa only [DrainPending, State.get?_settle_drains] using hd

/-- The drain calls for the first of its rows, which does not come again in `rest`. -/
theorem handler (h : Budget n row s) (hc : Completion s) (hs : Slots s)
    (hst : statusOf s.rows row = some .done) {p : Pid} {r : RowId} {pc : HandlerPc}
    {rest : List RowId} {item : UploadQueueItem} {next : HandlerNext} {effects : List Effect}
    (hp : s.drains.get? p = some (.handling r pc rest))
    (ht : HandlerTurn (.drain p) r item s.consent pc next effects) :
    Budget n row { s.perform (.drain p) effects with
      drains := s.drains.set p (.afterHandler r rest next) } := by
  rcases ht.calls_cases with hsame | ⟨rfl, ⟨serverId, sessionId, rfl⟩, hcount⟩
  · exact h.mono (hsame row s.log) id
      (drainPending_set hp fun hm => ht.pendingCalls_subset hm)
  by_cases hr : r = row
  · subst hr
    have hpend : DrainPending s r := ⟨p, _, hp, List.mem_cons_self⟩
    refine h.spend (.inr hpend) ?_ (fun htask => hc.pending r hst ⟨htask, hpend⟩) ?_
    · show completeCalls r (logAfter effects s.log) = _
      rw [hcount, if_pos rfl]
    · rintro ⟨q, qc, hq, hm⟩
      rcases Table.of_get?_set hq with ⟨hqp, rfl⟩ | ⟨hqp, hq⟩
      · exact (List.nodup_cons.1 (hc.drains p _ hp).1).1 hm
      · exact hqp (hs.drain_pc_unique hq hp).1
  · have hlog : completeCalls row (logAfter effects s.log) = completeCalls row s.log := by
      rw [hcount, if_neg hr, Nat.add_zero]
    exact h.mono hlog id (drainPending_set hp fun hm => ht.pendingCalls_subset hm)

/-- The task calls for its row, on which no other task works. -/
theorem task (h : Budget n row s) (hc : Completion s) (hs : Slots s)
    (hst : statusOf s.rows row = some .done) {p : Pid} {t : Task} {pc : TaskPc}
    {item : UploadQueueItem} {effects : List Effect} (hp : s.tasks.get? p = some t)
    (ht : TaskTurn (.task p) t.row item s.now s.store s.consent t.pc pc effects) :
    Budget n row (s.taskTurn p t pc effects) := by
  rcases ht.completion_cases with ⟨hpc, next, he, rfl, hh⟩ | ⟨-, hsame, -, hcall⟩
  · rcases hh.calls_cases with hsame | ⟨rfl, -, hcount⟩
    · exact h.mono (hsame row s.log)
        (taskPending_set (s := s.perform (.task p) effects) hp rfl fun hb => by
          simp [hh.pendingCall] at hb) id
    by_cases hr : t.row = row
    · have hpend : TaskPending s row := ⟨p, t, hp, hr, by rw [he]; rfl⟩
      refine h.spend (.inl hpend) ?_ ?_ fun hdrain => hc.pending row hst ⟨hpend, hdrain⟩
      · show completeCalls row (logAfter effects s.log) = _
        rw [hcount, if_pos hr]
      · rintro ⟨q, u, hq, hur, hu⟩
        rcases Table.of_get?_set hq with ⟨hqp, rfl⟩ | ⟨hqp, hq⟩
        · simp [hh.pendingCall] at hu
        · exact hqp (hs.task_unique_row hq hp (hur.trans hr.symm))
    · have hlog : completeCalls row (logAfter effects s.log) = completeCalls row s.log := by
        rw [hcount, if_neg hr, Nat.add_zero]
      exact h.mono hlog
        (taskPending_set (s := s.perform (.task p) effects) hp rfl fun hb => by
          simp [hh.pendingCall] at hb) id
  · exact h.mono (hsame row s.log)
      (taskPending_set (s := s.perform (.task p) effects) hp rfl hcall) id

theorem move (h : Budget n row s) (hc : Completion s) (hs : Slots s) (ho : Ownership s)
    (hst : statusOf s.rows row = some .done) {l : Label} (hl : l ≠ .kill)
    (hm : Move s l s') : Budget n row s' := by
  cases hm with
  | screen recording => exact h.mono (by simp [completeCalls]) id id
  | wake listening =>
    exact processQueue (s := { s with listening := listening }) { h with } { hs with }
  | drain hp ht =>
    refine h.mono rfl id (drainPending_set hp fun hm => ?_)
    -- a drain takes up `completing` rows only
    rcases ht.rows_cases.2 hm with hm | hst'
    · exact hm
    · simp [hst] at hst'
  | queryFailed hp hpc => exact h.mono rfl id (drainPending_set hp nofun)
  | handler hp hrow ht ho' => exact h.handler hc hs hst hp ht
  | @start o p r item hp hrow =>
    refine h.mono rfl ?_ (drainPending_set hp fun hm => ?_)
    · rintro ⟨q, u, hq, hr, hu⟩
      rcases Table.of_get?_push hs.nextPid_fresh_task hq with ⟨-, rfl⟩ | ⟨-, hq⟩
      · cases hu
      · exact ⟨q, u, hq, hr, hu⟩
    · split_ifs at hm <;> cases hm
  | leave hp =>
    refine h.mono rfl id ?_
    rintro ⟨q, qc, hq, hm⟩
    obtain ⟨-, hq⟩ := Table.of_get?_erase hq
    exact ⟨q, qc, hq, hm⟩
  | @task l p t pc effects hp ht =>
    obtain ⟨item, hrow, -⟩ := hs.taskRows p t hp
    exact h.task hc hs hst hp (ht item hrow)
  | @finish p t hp hpc => exact h.eraseTask.processQueue (hs.releaseTask hp)
  | @wakeCall p pc hp hpc => exact processQueue (s := s.endCall p) { h with } hs.endCall
  | commit hw hnew => exact h.settle ho hst _ _
  | reject hw => exact h.settle ho hst _ _
  | kill => exact absurd rfl hl
  | _ => exact { h with }

/-- A row that is `done` stays `done` and gets at most one more call. -/
theorem of_after (hs : (uploadService.guard NoKill).Reachable s)
    (hst : statusOf s.rows row = some .done)
    (h : ((uploadService.guard NoKill).after s).Reachable s') :
    statusOf s'.rows row = some .done ∧ Budget (completeCalls row s.log + 1) row s' := by
  refine h.invariant_of (I := fun s' => statusOf s'.rows row = some .done ∧
    Budget (completeCalls row s.log + 1) row s') ?_ fun s₁ l s₂ hr hi hstep => ?_
  · rintro s₁ rfl
    exact ⟨hst, Nat.le_succ _, fun _ => Nat.lt_succ_self _⟩
  · have hg := hs.of_after hr
    have hu := hg.of_guard
    have hm := Move.of_step hstep.2
    exact ⟨(Ownership.of_reachable hu).done_of_move (.of_reachable hu) hm hi.1,
      hi.2.move (.of_reachable hg) (.of_reachable hu) (.of_reachable hu) hi.1 hstep.1 hm⟩

end Budget

/-- One task and one drain can be at work on a row, not two of a kind. -/
theorem Handles.unique {s : State} (hs : Slots s) {row : RowId} {who who' : Owner}
    (h : Handles s row who) (h' : Handles s row who') (hk : byTask who = byTask who') :
    who = who' := by
  cases who with
  | task p =>
    cases who' with
    | task q =>
      obtain ⟨id, pc, hp⟩ := h
      obtain ⟨id', pc', hq⟩ := h'
      exact congrArg Owner.task (hs.task_unique_row hp hq rfl)
    | _ => cases hk
  | drain p =>
    cases who' with
    | drain q =>
      obtain ⟨pc, rest, hp⟩ := h
      obtain ⟨pc', rest', hq⟩ := h'
      exact congrArg Owner.drain (hs.drain_pc_unique hp hq).1
    | task q => cases hk
    | call q => exact h'.elim
  | call p => exact h.elim

/-- **A process does the completion work of a row at most twice**, once from the task of the
row and once from a drain: at most these two are in flight, each of them requests a
transcription at most once, and when the row is `done`, its session is completed at most once
more. -/
theorem completion_work_bounded {s : State} (h : (uploadService.guard NoKill).Reachable s)
    (row : RowId) :
    (∀ who who', Handles s row who → Handles s row who' → byTask who = byTask who' →
      who = who') ∧
    (requestsBy byTask row s.log ≤ 1 ∧ requestsBy byDrain row s.log ≤ 1) ∧
    (statusOf s.rows row = some .done → ∀ s', ((uploadService.guard NoKill).after s).Reachable s' →
      completeCalls row s'.log ≤ completeCalls row s.log + 1) := by
  have hc := Completion.of_reachable h
  refine ⟨fun who who' => Handles.unique (.of_reachable h.of_guard),
    ⟨hc.taskOnce row, hc.drainOnce row⟩, fun hst s' hr => ?_⟩
  exact (Budget.of_after h hst hr).2.le

/-- With consent given, a transfer completes while no drain runs; then the network returns,
and the task and the new drain work on the same row. -/
def bothHandle : List Label :=
  .saveCrossBorderConsent true :: transferUnderWay ++
    [.query 1, .resume (.drain 1) .ok, .resume (.drain 1) .ok,
      .native 2 (.completed 200), .resume (.task 2) .ok, .commit "q2", .resume (.task 2) .ok,
      .processQueue, .query 3, .resume (.drain 3) .ok]

/-- The task makes the row `done`. -/
def firstDone : List Label :=
  bothHandle ++ [.resume (.task 2) (.found (some meeting)), .resume (.task 2) .ok, .commit "q2"]

/-- The drain completes the session again, and both request the transcription. -/
def secondRound : List Label :=
  [.resume (.drain 3) (.found (some meeting)), .resume (.drain 3) (.apiError 409), .commit "q2",
    .resume (.drain 3) .ok, .resume (.drain 3) .ok, .resume (.task 2) .ok, .resume (.task 2) .ok]

/-- How often the session of `q1` was completed and its transcription requested. -/
def workOnQ1 (s : State) : ℕ × ℕ × ℕ :=
  (completeCalls "q1" s.log, requestsBy byTask "q1" s.log, requestsBy byDrain "q1" s.log)

theorem exec_firstDone : ∃ s, (uploadService.guard NoKill).Reachable s ∧
    statusOf s.rows "q1" = some .done ∧ workOnQ1 s = (1, 0, 0) ∧
    ∃ s', ((uploadService.guard NoKill).after s).Reachable s' ∧ workOnQ1 s' = (2, 1, 1) := by
  have hrun : (LTS.exec step (init .missing 0) firstDone).bind (fun s =>
      (LTS.exec step s secondRound).map fun s' =>
        (statusOf s.rows "q1", workOnQ1 s, workOnQ1 s')) =
      some (some .done, (1, 0, 0), (2, 1, 1)) := by decide +kernel
  obtain ⟨s, hs, hrun⟩ := Option.bind_eq_some_iff.1 hrun
  obtain ⟨s', hs', he⟩ := Option.map_eq_some_iff.1 hrun
  simp only [Prod.mk.injEq] at he
  have hno : ∀ l ∈ firstDone, l ≠ .kill := by decide
  have hno' : ∀ l ∈ secondRound, l ≠ .kill := by decide
  have hafter : ((LTS.ofFn (· = s) step).guard NoKill).Reachable s' :=
    LTS.guard_reachable_of_exec (.start rfl) hs' fun l hl _ => hno' l hl
  exact ⟨s, guard_reachable_of_exec firstDone hs fun l hl _ => hno l hl, he.1, he.2.1, s', hafter,
    he.2.2⟩

/-- In that run the bounds are reached. -/
theorem completion_work_bounded_firstDone : ∃ s s' : State,
    ((uploadService.guard NoKill).after s).Reachable s' ∧ workOnQ1 s' = (2, 1, 1) ∧
      (requestsBy byTask "q1" s'.log ≤ 1 ∧ requestsBy byDrain "q1" s'.log ≤ 1) ∧
      completeCalls "q1" s'.log ≤ completeCalls "q1" s.log + 1 := by
  obtain ⟨s, hs, hst, -, s', hafter, hwork⟩ := exec_firstDone
  exact ⟨s, s', hafter, hwork, (completion_work_bounded (hs.of_after hafter) "q1").2.1,
    (completion_work_bounded hs "q1").2.2 hst s' hafter⟩

/-- Nothing of this holds with a single call: two are in flight, two requests are made, and the
session of a `done` row is completed. -/
theorem completion_work_twice :
    (¬ ∀ s, (uploadService.guard NoKill).Reachable s → ∀ row who who',
      Handles s row who → Handles s row who' → who = who') ∧
    (¬ ∀ s, (uploadService.guard NoKill).Reachable s → ∀ row,
      requestsBy (fun _ => true) row s.log ≤ 1) ∧
    ¬ ∀ s, (uploadService.guard NoKill).Reachable s → ∀ row, statusOf s.rows row = some .done →
      ∀ s', ((uploadService.guard NoKill).after s).Reachable s' →
        completeCalls row s'.log = completeCalls row s.log := by
  obtain ⟨s, hs, hst, hwork, s', hafter, hwork'⟩ := exec_firstDone
  simp only [workOnQ1, Prod.mk.injEq] at hwork hwork'
  refine ⟨fun h => ?_, fun h => ?_, fun h => ?_⟩
  · have hrun : (LTS.exec step (init .missing 0) bothHandle).map (fun s =>
        ((s.tasks.get? 2).map fun t => (t.row, t.pc), s.drains.get? 3)) =
        some (some ("q1", .handling .findRecording), some (.handling "q1" .findRecording [])) := by
      decide +kernel
    obtain ⟨s₁, hs₁, he⟩ := Option.map_eq_some_iff.1 hrun
    simp only [Prod.mk.injEq] at he
    obtain ⟨⟨r, id, pc⟩, ht, he'⟩ := Option.map_eq_some_iff.1 he.1
    simp only [Prod.mk.injEq] at he'
    obtain ⟨rfl, rfl⟩ := he'
    have hno : ∀ l ∈ bothHandle, l ≠ .kill := by decide
    have := h s₁ (guard_reachable_of_exec bothHandle hs₁ fun l hl _ => hno l hl) "q1" (.task 2)
      (.drain 3) ⟨id, _, ht⟩ ⟨_, _, he.2⟩
    cases this
  · have := h s' (hs.of_after hafter) "q1"
    rw [requestsBy_all, hwork'.2.1, hwork'.2.2] at this
    omega
  · have := h s hs "q1" hst s' hafter
    omega

end UploadService

end FCord
