import FCord.Upload.Turns

/-!
# Upload slots

The flag `isProcessing` and the list `activeUploadIds` are all that keeps two drains or two
uploads of one recording apart, and every test of them is separated from the matching write
by awaits.  `Slots` is the invariant that joins the flag, the drain's program point and the
running tasks; `Slots.of_reachable` says that it holds in every reachable state.
-/

namespace FCord

namespace UploadService

/-- What a drain relies on at its program point. -/
def SlotOk (s : State) : DrainPc → Prop
  | .queryCandidates => s.store.activeUploadIds.length < MAX_CONCURRENT_UPLOADS
  | .gotCandidates _ => s.store.activeUploadIds.length < MAX_CONCURRENT_UPLOADS
  | .picked row => s.store.activeUploadIds.length < MAX_CONCURRENT_UPLOADS ∧
      ∃ item, s.rows.get? row = some item ∧ item.recordingId ∉ s.store.activeUploadIds
  | _ => True

/-- `SlotOk` depends on the active ids and on the recordings of the rows only. -/
theorem SlotOk.mono {s s' : State} {pc : DrainPc} (h : SlotOk s pc)
    (hactive : s'.store.activeUploadIds = s.store.activeUploadIds)
    (hrows : ∀ row item, s.rows.get? row = some item →
      ∃ item', s'.rows.get? row = some item' ∧ item'.recordingId = item.recordingId) :
    SlotOk s' pc := by
  cases pc with
  | queryCandidates => simpa only [SlotOk, hactive] using h
  | gotCandidates ids => simpa only [SlotOk, hactive] using h
  | picked row =>
    obtain ⟨hroom, item, hrow, hid⟩ := h
    obtain ⟨item', hrow', he⟩ := hrows row item hrow
    exact ⟨hactive ▸ hroom, item', hrow', by rw [he, hactive]; exact hid⟩
  | _ => trivial

/-- The slot invariant. -/
structure Slots (s : State) : Prop where
  /-- The flag is set exactly while a drain runs, and there is at most one. -/
  drains : (s.store.isProcessing = false ∧ s.drains.keys = []) ∨
    (s.store.isProcessing = true ∧ ∃ p, s.drains.keys = [p])
  /-- The active ids are those of the running tasks. -/
  active : s.store.activeUploadIds = s.tasks.values.map Task.recordingId
  nodup : s.store.activeUploadIds.Nodup
  le : s.store.activeUploadIds.length ≤ MAX_CONCURRENT_UPLOADS
  drainPcs : ∀ p pc, s.drains.get? p = some pc → SlotOk s pc
  taskRows : ∀ p t, s.tasks.get? p = some t →
    ∃ item, s.rows.get? t.row = some item ∧ item.recordingId = t.recordingId
  /-- Process ids are not reused. -/
  drainPids : ∀ p ∈ s.drains.keys, p < s.nextPid
  taskPids : ∀ p ∈ s.tasks.keys, p < s.nextPid
  callPids : ∀ p ∈ s.calls.keys, p < s.nextPid

namespace Slots

variable {s s' : State}

/-! ### Consequences -/

theorem drain_unique (h : Slots s) {p q : Pid} (hp : p ∈ s.drains.keys)
    (hq : q ∈ s.drains.keys) : p = q := by
  obtain ⟨-, hk⟩ | ⟨-, r, hk⟩ := h.drains <;> simp_all

theorem drain_pc_unique (h : Slots s) {p q : Pid} {pc qc : DrainPc}
    (hp : s.drains.get? p = some pc) (hq : s.drains.get? q = some qc) : p = q ∧ pc = qc := by
  have he := h.drain_unique (Table.mem_keys_of_get? hp) (Table.mem_keys_of_get? hq)
  subst he
  rw [hp] at hq
  exact ⟨rfl, Option.some.inj hq⟩

theorem isProcessing_of_drain (h : Slots s) {p : Pid} {pc : DrainPc}
    (hp : s.drains.get? p = some pc) : s.store.isProcessing = true := by
  have hm := Table.mem_keys_of_get? hp
  obtain ⟨-, hk⟩ | ⟨ht, -⟩ := h.drains
  · simp [hk] at hm
  · exact ht

theorem get?_drain_eq_none (h : Slots s) (hf : s.store.isProcessing = false) (p : Pid) :
    s.drains.get? p = none := by
  cases hp : s.drains.get? p with
  | none => rfl
  | some pc => simp [h.isProcessing_of_drain hp] at hf

theorem mem_active (h : Slots s) {p : Pid} {t : Task} (hp : s.tasks.get? p = some t) :
    t.recordingId ∈ s.store.activeUploadIds := by
  rw [h.active]
  exact List.mem_map_of_mem (Table.mem_values_iff.2 ⟨p, hp⟩)

/-- Two tasks do not work on one recording. -/
theorem task_unique (h : Slots s) {p q : Pid} {t u : Task} (hp : s.tasks.get? p = some t)
    (hq : s.tasks.get? q = some u) (hr : t.recordingId = u.recordingId) : p = q :=
  Table.eq_of_map_values_nodup (h.active ▸ h.nodup) hp hq hr

/-- Two tasks do not work on one row. -/
theorem task_unique_row (h : Slots s) {p q : Pid} {t u : Task} (hp : s.tasks.get? p = some t)
    (hq : s.tasks.get? q = some u) (hr : t.row = u.row) : p = q := by
  obtain ⟨item, hi, he⟩ := h.taskRows p t hp
  obtain ⟨item', hi', he'⟩ := h.taskRows q u hq
  rw [hr, hi'] at hi
  cases hi
  exact h.task_unique hp hq (he.symm.trans he')

theorem nextPid_fresh_drain (h : Slots s) : s.nextPid ∉ s.drains.keys :=
  Table.not_mem_of_lt h.drainPids

theorem nextPid_fresh_task (h : Slots s) : s.nextPid ∉ s.tasks.keys :=
  Table.not_mem_of_lt h.taskPids

theorem nextPid_fresh_call (h : Slots s) : s.nextPid ∉ s.calls.keys :=
  Table.not_mem_of_lt h.callPids

/-! ### Preservation -/

theorem init {consent : ConsentEntry} {now : ℕ} : Slots (UploadService.init consent now) where
  drains := .inl ⟨rfl, rfl⟩
  active := rfl
  nodup := List.nodup_nil
  le := Nat.zero_le _
  drainPcs := by rintro p pc hp; cases hp
  taskRows := by rintro p t hp; cases hp
  drainPids := by rintro p hp; cases hp
  taskPids := by rintro p hp; cases hp
  callPids := by rintro p hp; cases hp

/-- Starting a drain, unless one runs already. -/
theorem processQueue (h : Slots s) : Slots s.processQueue := by
  unfold State.processQueue
  split_ifs with hflag
  · exact h
  have hf : s.store.isProcessing = false := by simpa using hflag
  -- the flag is clear, so no drain is running
  have hkeys : s.drains.keys = [] := by
    obtain ⟨-, hk⟩ | ⟨ht, -⟩ := h.drains
    · exact hk
    · exact absurd ht hflag
  have hfresh := h.nextPid_fresh_drain
  refine { h with
    drains := .inr ⟨rfl, s.nextPid, ?_⟩
    drainPcs := ?_
    drainPids := fun p hp => Table.lt_of_mem_push h.drainPids hp
    taskPids := fun p hp => Nat.lt_succ_of_lt (h.taskPids p hp)
    callPids := fun p hp => Nat.lt_succ_of_lt (h.callPids p hp) }
  · simp [Table.keys_push hfresh, hkeys]
  · intro p pc hp
    rcases Table.of_get?_push hfresh hp with ⟨-, rfl⟩ | ⟨-, hp⟩
    · trivial
    · exact absurd hp (by simp [h.get?_drain_eq_none hf])

/-- Moving a drain to a program point whose assumption holds. -/
theorem setDrain (h : Slots s) {p : Pid} {pc : DrainPc} (hpc : SlotOk s pc) :
    Slots { s with drains := s.drains.set p pc } := by
  refine { h with drains := ?_, drainPcs := ?_, drainPids := ?_ }
  · simpa using h.drains
  · intro q qc hq
    rcases Table.of_get?_set hq with ⟨-, rfl⟩ | ⟨-, hq⟩
    · exact hpc
    · exact h.drainPcs q qc hq
  · simpa using h.drainPids

theorem slotOk_of_drainTurn (h : Slots s) {p : Pid} {pc pc' : DrainPc}
    (hp : s.drains.get? p = some pc) (ht : DrainTurn s pc pc') : SlotOk s pc' := by
  have hok := h.drainPcs p pc hp
  cases ht with
  | slotFree hslot => exact s.store.hasAvailableSlot_iff.1 hslot
  | candidates => exact hok
  | @pick ids row hmem hel =>
    refine ⟨hok, ?_⟩
    unfold State.eligible at hel
    split at hel
    · cases hel
    · rename_i item hrow
      simp only [Bool.and_eq_true, decide_eq_true_eq] at hel
      exact ⟨item, hrow, hel.1⟩
  | _ => trivial

/-- The effects of a turn do not concern the slots. -/
theorem perform (h : Slots s) {who : Owner} {effects : List Effect} :
    Slots (s.perform who effects) where
  drains := by simpa using h.drains
  active := by simpa using h.active
  nodup := by simpa using h.nodup
  le := by simpa using h.le
  drainPcs p pc hp := (h.drainPcs p pc hp).mono (by simp) fun _ item hrow => ⟨item, hrow, rfl⟩
  taskRows := h.taskRows
  drainPids := h.drainPids
  taskPids := h.taskPids
  callPids := h.callPids

theorem setTask (h : Slots s) {p : Pid} {t : Task} {pc : TaskPc}
    (hp : s.tasks.get? p = some t) :
    Slots { s with tasks := s.tasks.set p { t with pc := pc } } := by
  have hids : (s.tasks.set p { t with pc := pc }).values.map Task.recordingId =
      s.tasks.values.map Task.recordingId := Table.map_values_set hp rfl
  refine { h with active := h.active.trans hids.symm, taskRows := ?_, taskPids := ?_ }
  · intro q u hq
    rcases Table.of_get?_set hq with ⟨hqp, rfl⟩ | ⟨hqp, hq⟩
    · exact h.taskRows p t hp
    · exact h.taskRows q u hq
  · simpa using h.taskPids

/-- Starting the picked row; its slot is free and its recording is not active. -/
theorem startTask (h : Slots s) {p : Pid} {row : RowId} {item : UploadQueueItem}
    (hp : s.drains.get? p = some (.picked row)) (hrow : s.rows.get? row = some item) :
    Slots ((s.startTask row item.recordingId).testSlots p) := by
  obtain ⟨hroom, item', hrow', hid⟩ := h.drainPcs p _ hp
  cases hrow.symm.trans hrow'
  have hfresh := h.nextPid_fresh_task
  unfold State.testSlots State.startTask UploadQueueStore.addActiveUpload
  constructor
  · simpa using h.drains
  · simp [Table.values_push hfresh, h.active]
  · simpa [List.nodup_append] using ⟨h.nodup, fun a ha he => hid (he ▸ ha)⟩
  · simpa using Nat.succ_le_of_lt hroom
  · intro q qc hq
    -- there is only this drain, and it has just tested the slots
    have hqp : q = p := h.drain_unique
      (by simpa using Table.mem_keys_of_get? hq) (Table.mem_keys_of_get? hp)
    subst hqp
    simp only [Table.get?_set_self hp, Option.some.injEq] at hq
    subst hq
    split_ifs with hslot
    · exact (UploadQueueStore.hasAvailableSlot_iff _).1 hslot
    · trivial
  · intro q u hq
    rcases Table.of_get?_push hfresh hq with ⟨-, rfl⟩ | ⟨-, hq⟩
    · exact ⟨item, hrow, rfl⟩
    · exact h.taskRows q u hq
  · exact fun q hq => Nat.lt_succ_of_lt (h.drainPids q (by simpa using hq))
  · exact fun q hq => Table.lt_of_mem_push h.taskPids hq
  · exact fun q hq => Nat.lt_succ_of_lt (h.callPids q hq)

/-- The drain ends, and the flag is cleared. -/
theorem endDrain (h : Slots s) {p : Pid} (hp : p ∈ s.drains.keys) : Slots (s.endDrain p) := by
  have hkeys : (s.drains.erase p).keys = [] := by
    rw [Table.keys_erase, List.filter_eq_nil_iff]
    intro q hq
    simp [h.drain_unique hq hp]
  refine { h with drains := .inl ⟨rfl, hkeys⟩, drainPcs := ?_, drainPids := ?_ }
  · intro q qc hq
    have hm := Table.mem_keys_of_get? hq
    simp [State.endDrain, hkeys] at hm
  · intro q hq
    simp [State.endDrain, hkeys] at hq

/-- The task ends, and its slot becomes free. -/
theorem releaseTask (h : Slots s) {p : Pid} {t : Task} (hp : s.tasks.get? p = some t) :
    Slots { s with
      store := s.store.removeActiveUpload t.recordingId, tasks := s.tasks.erase p } := by
  have hlen : (s.store.removeActiveUpload t.recordingId).activeUploadIds.length ≤
      s.store.activeUploadIds.length := List.length_filter_le _ _
  refine { h with
    active := ?_
    nodup := h.nodup.filter _
    le := hlen.trans h.le
    drainPcs := ?_
    taskRows := ?_
    taskPids := ?_ }
  -- the recordings of the tasks differ, so exactly this task's entry is removed
  · have hn := h.active ▸ h.nodup
    simp only [UploadQueueStore.removeActiveUpload]
    rw [Table.map_values_erase hp hn, h.active]
  · intro q qc hq
    have hok := h.drainPcs q qc hq
    cases qc with
    | queryCandidates => exact hlen.trans_lt hok
    | gotCandidates ids => exact hlen.trans_lt hok
    | picked row =>
      obtain ⟨hroom, item, hrow, hid⟩ := hok
      exact ⟨hlen.trans_lt hroom, item, hrow, fun hm => hid (List.mem_filter.1 hm).1⟩
    | _ => trivial
  · intro q u hq
    obtain ⟨-, hq⟩ := Table.of_get?_erase hq
    exact h.taskRows q u hq
  · exact fun q hq => h.taskPids q (Table.mem_keys_of_erase hq)

theorem setCalls (h : Slots s) {calls : Table Pid CallPc}
    (hk : ∀ p ∈ calls.keys, p < s.nextPid) : Slots { s with calls := calls } :=
  { h with callPids := hk }

theorem endCall (h : Slots s) {p : Pid} : Slots (s.endCall p) :=
  h.setCalls fun q hq => h.callPids q (Table.mem_keys_of_erase hq)

/-- A new call. -/
theorem pushCall (h : Slots s) {pc : CallPc} :
    Slots { s with calls := s.calls.push s.nextPid pc, nextPid := s.nextPid + 1 } := by
  refine { h with drainPids := ?_, taskPids := ?_, callPids := ?_ }
  · exact fun p hp => Nat.lt_succ_of_lt (h.drainPids p hp)
  · exact fun p hp => Nat.lt_succ_of_lt (h.taskPids p hp)
  · exact fun p hp => Table.lt_of_mem_push h.callPids hp

/-- A waiting call learns how its write went. -/
theorem settle (h : Slots s) (promise : Promise) (owner : Option Owner) :
    Slots (s.settle promise owner) where
  drains := by simpa using h.drains
  active := by
    have hids : (s.settle promise owner).tasks.values.map Task.recordingId =
        s.tasks.values.map Task.recordingId := by
      cases owner with
      | none => rfl
      | some who =>
        cases who with
        | task p => exact Table.map_values_modify fun _ _ => rfl
        | _ => rfl
    simpa [hids] using h.active
  nodup := by simpa using h.nodup
  le := by simpa using h.le
  drainPcs p pc hp := by
    have hrows : ∀ row item, s.rows.get? row = some item → ∃ item',
        (s.settle promise owner).rows.get? row = some item' ∧
          item'.recordingId = item.recordingId :=
      fun _ item hrow => ⟨item, by simpa using hrow, rfl⟩
    rcases s.of_get?_settle_drains hp with ⟨pc', -, hq, rfl⟩ | ⟨-, hp⟩
    · refine SlotOk.mono ?_ (by simp) hrows
      have hok := h.drainPcs p pc' hq
      cases pc' <;> exact hok
    · exact (h.drainPcs p pc hp).mono (by simp) hrows
  taskRows p t hp := by
    rw [State.settle_rows]
    rcases s.of_get?_settle_tasks hp with ⟨t', -, hq, rfl⟩ | ⟨-, hp⟩
    · exact h.taskRows p t' hq
    · exact h.taskRows p t hp
  drainPids := by simpa using h.drainPids
  taskPids := by simpa using h.taskPids
  callPids := by simpa using h.callPids

/-- The rows change, but no row disappears or gets another recording. -/
theorem setRows (h : Slots s) {rows : Table RowId UploadQueueItem} {writer : List Job}
    (hrows : ∀ row item, s.rows.get? row = some item →
      ∃ item', rows.get? row = some item' ∧ item'.recordingId = item.recordingId) :
    Slots { s with rows := rows, writer := writer } := by
  refine { h with drainPcs := fun p pc hp => (h.drainPcs p pc hp).mono rfl hrows, taskRows := ?_ }
  intro p t hp
  obtain ⟨item, hrow, he⟩ := h.taskRows p t hp
  obtain ⟨item', hrow', he'⟩ := hrows _ _ hrow
  exact ⟨item', hrow', he'.trans he⟩

theorem die : Slots s.die where
  drains := .inl ⟨rfl, rfl⟩
  active := rfl
  nodup := List.nodup_nil
  le := Nat.zero_le _
  drainPcs := by rintro p pc hp; cases hp
  taskRows := by rintro p t hp; cases hp
  drainPids := by rintro p hp; cases hp
  taskPids := by rintro p hp; cases hp
  callPids := by rintro p hp; cases hp

theorem kill : Slots s.kill :=
  Slots.processQueue (s := { s.die with listening := true }) { die with }

theorem move (h : Slots s) {l : Label} (hm : Move s l s') : Slots s' := by
  cases hm with
  | outside consent listening hnow => exact { h with }
  | screen recording => exact { h with }
  | wake listening => exact Slots.processQueue { h with }
  | enqueue recordingId bytesTotal => exact h.perform.pushCall
  | retry row => exact h.pushCall
  | drain hp ht => exact h.setDrain (h.slotOk_of_drainTurn hp ht)
  | queryFailed hp hpc => exact h.setDrain trivial
  | @handler _ p row pc rest _ next _ hp hrow ht ho =>
    refine h.perform.setDrain ?_
    cases next <;> trivial
  | start hp hrow => exact h.startTask hp hrow
  | leave hp => exact h.endDrain (Table.mem_keys_of_get? hp)
  | task hp ht => exact h.perform.setTask hp
  | finish hp hpc => exact (h.releaseTask hp).processQueue
  | reset hp hrow hst => exact h.perform.setCalls fun q hq => h.callPids q (by simpa using hq)
  | wakeCall hp hpc => exact h.endCall.processQueue
  | endCall hp hpc hidle => exact h.endCall
  | commit hw hnew => exact (h.setRows fun _ _ => Action.get?_run hnew).settle _ _
  | @reject job jobs hw => exact Slots.settle (s := { s with writer := jobs }) { h with } _ _
  | kill => exact kill

/-- **The slot invariant holds in every reachable state.** -/
theorem of_reachable (h : uploadService.Reachable s) : Slots s := by
  refine h.invariant ?_ fun s l s' hs hst => hs.move (.of_step hst)
  rintro s ⟨consent, now, rfl⟩
  exact init

end Slots

/-- What a step adds to the log: nothing, the request of the detail screen, or the events of
one turn. -/
inductive Recorded (s : State) (l : Label) : List Event → Prop
  | nothing : Recorded s l s.log
  | screen (recording : ServerRecordingCache) (hl : l = .onRequestTranscription recording) :
      Recorded s l (.requestTranscription .detailScreen recording.id :: s.log)
  | handler {p : Pid} {row : RowId} {item : UploadQueueItem} {pc : HandlerPc}
      {next : HandlerNext} {rest : List RowId} {effects : List Effect}
      (hp : s.drains.get? p = some (.handling row pc rest))
      (h : HandlerTurn (.drain p) row item s.consent pc next effects) :
      Recorded s l (logAfter effects s.log)
  | task {p : Pid} {t : Task} {item : UploadQueueItem} {pc : TaskPc} {effects : List Effect}
      (hp : s.tasks.get? p = some t)
      (h : TaskTurn (.task p) t.row item s.now s.store s.consent t.pc pc effects) :
      Recorded s l (logAfter effects s.log)

theorem Move.recorded {s s' : State} {l : Label} (hm : Move s l s') (hs : Slots s) :
    Recorded s l s'.log := by
  cases hm with
  | screen recording => exact .screen recording rfl
  | wake listening => simpa using Recorded.nothing
  | handler hp hrow ht ho => exact .handler hp ht
  | @task l p t pc effects hp ht =>
    obtain ⟨item, hrow, -⟩ := hs.taskRows p t hp
    exact .task hp (ht item hrow)
  | finish hp hpc => simpa [State.finishTask] using Recorded.nothing
  | wakeCall hp hpc => simpa [State.endCall] using Recorded.nothing
  | commit hw hnew => simpa using Recorded.nothing
  | reject hw => simpa using Recorded.nothing
  | kill => simpa [State.kill, State.initQueue, State.die] using Recorded.nothing
  | _ => exact .nothing

/-- **Upload slots are safe under every interleaving.** -/
theorem upload_slots_safe {s : State} (h : uploadService.Reachable s) :
    (∀ p ∈ s.drains.keys, ∀ q ∈ s.drains.keys, p = q) ∧
      (s.store.isProcessing = true ↔ ∃ p, p ∈ s.drains.keys) ∧
      s.store.activeUploadIds.Nodup ∧
      s.store.activeUploadIds.length ≤ MAX_CONCURRENT_UPLOADS ∧
      s.store.activeUploadIds = s.tasks.values.map Task.recordingId ∧
      (∀ p t, s.tasks.get? p = some t →
        ∃ item, s.rows.get? t.row = some item ∧ item.recordingId = t.recordingId) ∧
      ∀ p q t u, s.tasks.get? p = some t → s.tasks.get? q = some u →
        t.recordingId = u.recordingId → p = q := by
  have hs := Slots.of_reachable h
  refine ⟨fun p hp q hq => hs.drain_unique hp hq, ?_, hs.nodup, hs.le, hs.active, hs.taskRows,
    fun p q t u hp hq hr => hs.task_unique hp hq hr⟩
  obtain ⟨hf, hk⟩ | ⟨ht, p, hk⟩ := hs.drains
  · simp [hf, hk]
  · simp [ht, hk]

/-- Two recordings are enqueued, and the drain of the first call starts both. -/
def twoUploads : List Label :=
  [.enqueueUpload "a" 10, .enqueueUpload "b" 20, .commit "q1", .commit "q2",
    .resume (.call 0) .ok, .resume (.call 1) .ok, .query 2, .resume (.drain 2) .ok,
    .query 2, .resume (.drain 2) .ok, .resume (.drain 2) .ok,
    .query 2, .resume (.drain 2) .ok, .resume (.drain 2) .ok]

theorem upload_slots_safe_twoUploads :
    ∃ s ∈ LTS.exec step (init .missing 0) twoUploads,
      s.store.activeUploadIds = ["a", "b"] ∧ s.drains.keys = [2] ∧
        s.store.activeUploadIds.length ≤ MAX_CONCURRENT_UPLOADS := by
  have hrun : (LTS.exec step (init .missing 0) twoUploads).map (fun s =>
      (s.store.activeUploadIds, s.drains.keys)) = some (["a", "b"], [2]) := by decide +kernel
  obtain ⟨s, hs, he⟩ := Option.map_eq_some_iff.1 hrun
  obtain ⟨hactive, hkeys⟩ := Prod.mk.inj he
  exact ⟨s, hs, hactive, hkeys, (upload_slots_safe (reachable_of_exec twoUploads hs)).2.2.2.1⟩

end UploadService

end FCord
