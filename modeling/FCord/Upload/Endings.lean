import FCord.LTS.Path
import FCord.Upload.Bytes

/-!
# Every upload ends

Whatever the recordings, the server and the upload library answer, a `_processItem` makes at most
18 steps besides reports of progress (`TaskPc.stepsLeft`), since no await leads back to an earlier
one.  What it waits for is in the writer's queue or outside.  So if the database settles every write
in the end, and so does everything else that the task waits for (`Fair`), then the task ends and
frees its slot, in every infinite run (`upload_ends`).
-/

namespace FCord

/-- A bound for what `_handleCompleting` still does, with the end of the task that runs it. -/
def HandlerPc.stepsLeft : HandlerPc → ℕ
  | .requesting _ => 2
  | .readingConsent _ => 3
  | .writingDone _ _ .pending => 5
  | .writingDone _ _ _ => 4
  | .completing _ _ => 6
  | .findRecording => 7

/-- A bound for the steps of `_processItem`: a turn, and hearing how a write went. -/
def TaskPc.stepsLeft : TaskPc → ℕ
  | .finishing => 1
  | .handling pc => pc.stepsLeft
  | .writing _ (.failed _) .pending => 3
  | .writing _ (.failed _) _ => 2
  | .writing _ (.retrying _ _) .pending => 3
  | .writing _ (.retrying _ _) _ => 2
  | .writing _ .completing .pending => 9
  | .writing _ .completing _ => 8
  | .settled _ _ _ => 10
  | .transferring _ _ => 11
  | .starting _ _ => 12
  | .writing _ (.uploading _) .pending => 14
  | .writing _ (.uploading _) _ => 13
  | .writing _ (.session _ _) .pending => 16
  | .writing _ (.session _ _) _ => 15
  | .presigning _ _ => 17
  | .findRecording => 18

theorem HandlerPc.stepsLeft_le (pc : HandlerPc) : pc.stepsLeft ≤ 7 := by
  unfold HandlerPc.stepsLeft
  split <;> decide

theorem TaskPc.stepsLeft_le (pc : TaskPc) : pc.stepsLeft ≤ 18 := by
  unfold TaskPc.stepsLeft
  split
  · decide
  · exact (HandlerPc.stepsLeft_le _).trans (by decide)
  all_goals decide

theorem TaskPc.stepsLeft_pos (pc : TaskPc) : 0 < pc.stepsLeft := by
  unfold TaskPc.stepsLeft
  split
  · decide
  · unfold HandlerPc.stepsLeft
    split <;> decide
  all_goals decide

/-- Hearing how a write went is a step. -/
theorem HandlerPc.stepsLeft_settle {promise : Promise} (hp : promise ≠ .pending) (pc : HandlerPc) :
    pc.settle promise = pc ∨ (pc.settle promise).stepsLeft < pc.stepsLeft := by
  unfold HandlerPc.settle
  split
  · cases promise with
    | pending => exact absurd rfl hp
    | _ => exact .inr (by simp [stepsLeft])
  · exact .inl rfl

theorem TaskPc.stepsLeft_settle {promise : Promise} (hp : promise ≠ .pending) (pc : TaskPc) :
    pc.settle promise = pc ∨ (pc.settle promise).stepsLeft < pc.stepsLeft := by
  unfold TaskPc.settle
  split
  · rename_i recording w
    cases promise with
    | pending => exact absurd rfl hp
    | _ => right; cases w <;> simp [stepsLeft]
  · rename_i pc
    rcases pc.stepsLeft_settle hp with he | hlt
    · exact .inl (congrArg _ he)
    · exact .inr hlt
  · exact .inl rfl

namespace UploadService

section Turns

variable {who : Owner} {row : RowId} {item : UploadQueueItem} {now : ℕ}
variable {store : UploadQueueStore} {consent : ConsentEntry} {effects : List Effect}

theorem HandlerTurn.stepsLeft {pc : HandlerPc} {next : HandlerNext}
    (h : HandlerTurn who row item consent pc next effects) :
    (taskPcAfterHandler next).stepsLeft < pc.stepsLeft := by
  cases h with
  | stop hpc =>
    -- only a wait for a write has so few steps left
    cases pc with
    | writingDone conflict serverId write => cases write <;> simp [taskPcAfterHandler,
        TaskPc.stepsLeft, HandlerPc.stepsLeft]
    | _ => simp [taskPcAfterHandler, TaskPc.stepsLeft, HandlerPc.stepsLeft]
  | _ => simp [taskPcAfterHandler, TaskPc.stepsLeft, HandlerPc.stepsLeft]

/-- A turn is a step, unless it reports progress. -/
theorem TaskTurn.stepsLeft {pc pc' : TaskPc}
    (h : TaskTurn who row item now store consent pc pc' effects) :
    pc' = pc ∨ pc'.stepsLeft < pc.stepsLeft := by
  cases h with
  | progress loaded total => exact .inl rfl
  | handler hh => exact .inr hh.stepsLeft
  | written hw =>
    right
    rcases hw with ⟨error, rfl⟩ | ⟨attempts, error, rfl⟩ <;> simp [TaskPc.stepsLeft]
  | @writeFailed recording w => right; cases w <;> simp [TaskPc.stepsLeft]
  | _ => exact .inr (by simp [TaskPc.stepsLeft, HandlerPc.stepsLeft])

end Turns

/-! ### One step -/

/-- The task goes on, or it stays where it is. -/
def GoesOn (t : Task) (t' : Task) : Prop :=
  t' = t ∨ t'.row = t.row ∧ t'.recordingId = t.recordingId ∧ t'.pc.stepsLeft < t.pc.stepsLeft

section Steps

variable {s s' : State} {l : Label} {p : Pid} {t : Task}

/-- What a step can do to a task: it ends and frees its slot, it goes on, or it stays. -/
theorem task_step (hs : Slots s) (hst : step s l = some s') (hp : s.tasks.get? p = some t) :
    (s'.tasks.get? p = none ∧ t.recordingId ∉ s'.store.activeUploadIds) ∨
      ∃ t', s'.tasks.get? p = some t' ∧ GoesOn t t' := by
  have hsettle : ∀ (s : State) {promise : Promise} (owner : Option Owner), promise ≠ .pending →
      s.tasks.get? p = some t →
      ∃ t', (s.settle promise owner).tasks.get? p = some t' ∧ GoesOn t t' := by
    intro s promise owner hpromise hp
    rw [State.get?_settle_tasks, hp]
    split_ifs
    · refine ⟨_, rfl, ?_⟩
      rcases t.pc.stepsLeft_settle hpromise with he | hlt
      · exact .inl (by simp [Task.settle, he])
      · exact .inr ⟨rfl, rfl, hlt⟩
    · exact ⟨t, rfl, .inl rfl⟩
  cases Move.of_step hst with
  | wake listening => exact .inr ⟨t, by simpa using hp, .inl rfl⟩
  | wakeCall hq hpc => exact .inr ⟨t, by simpa [State.endCall] using hp, .inl rfl⟩
  | @start o q row item hq hrow =>
    have hne : p ≠ s.nextPid := by
      rintro rfl
      exact hs.nextPid_fresh_task (Table.mem_keys_of_get? hp)
    exact .inr ⟨t, (Table.get?_push hs.nextPid_fresh_task).trans (by rw [if_neg hne, hp]), .inl rfl⟩
  | @task _ q u pc effects hq ht hl =>
    right
    by_cases hqp : p = q
    · subst hqp
      cases hp.symm.trans hq
      obtain ⟨item, hrow, -⟩ := hs.taskRows p t hp
      refine ⟨_, Table.get?_set_self hp, ?_⟩
      rcases (ht item hrow).stepsLeft with rfl | hlt
      · exact .inl rfl
      · exact .inr ⟨rfl, rfl, hlt⟩
    · exact ⟨t, (Table.get?_set_of_ne hqp).trans hp, .inl rfl⟩
  | @finish q u hq hpc =>
    by_cases hqp : p = q
    · subst hqp
      cases hp.symm.trans hq
      refine .inl ⟨by simp [State.finishTask, Table.get?_erase], ?_⟩
      have hactive : (s.finishTask p t.recordingId).store.activeUploadIds =
          s.store.activeUploadIds.filter fun id => id ≠ t.recordingId := by
        unfold State.finishTask State.processQueue
        split_ifs <;> rfl
      simp [hactive]
    · refine .inr ⟨t, ?_, .inl rfl⟩
      simp [State.finishTask, Table.get?_erase, hqp, hp]
  | @commit newId job jobs hw hnew =>
    exact .inr (hsettle { s with rows := job.action.run s.now newId s.rows, writer := jobs } _
      (by simp) hp)
  | @reject job jobs hw => exact .inr (hsettle { s with writer := jobs } _ (by simp) hp)
  | kill =>
    left
    unfold State.kill State.initQueue State.processQueue
    split_ifs <;> exact ⟨rfl, List.not_mem_nil⟩
  | _ => exact .inr ⟨t, hp, .inl rfl⟩

/-- A task that has ended does not come back. -/
theorem no_task_step (hst : step s l = some s') (hs : Slots s) (hlt : p < s.nextPid)
    (hp : s.tasks.get? p = none) : s'.tasks.get? p = none := by
  have hkeys : p ∉ s.tasks.keys := Table.get?_eq_none_iff.1 hp
  cases Move.of_step hst with
  | wake listening => simpa using hp
  | wakeCall hq hpc => simpa [State.endCall] using hp
  | @start o q row item hq hrow =>
    exact (Table.get?_push hs.nextPid_fresh_task).trans (by rw [if_neg hlt.ne, hp])
  | task hq ht hl =>
    refine Table.get?_eq_none_iff.2 fun hm => hkeys ?_
    simpa [State.taskTurn] using hm
  | finish hq hpc =>
    simp only [State.finishTask, State.processQueue_tasks, Table.get?_erase, hp, ite_self]
  | commit hw hnew =>
    refine Table.get?_eq_none_iff.2 fun hm => hkeys ?_
    simpa using hm
  | reject hw =>
    refine Table.get?_eq_none_iff.2 fun hm => hkeys ?_
    simpa using hm
  | kill => simp [State.kill, State.initQueue, State.die]
  | _ => exact hp

/-! ### The queue of the writer -/

/-- The number of writes in front of the one that the task waits for. -/
def ahead (s : State) (p : Pid) : ℕ :=
  s.writer.findIdx fun job => decide (job.owner = some (.task p))

/-- While a task waits for its write, no write gets in front of it, and every write that the
database settles brings it nearer. -/
theorem ahead_step (hr : uploadService.Reachable s) (hst : step s l = some s')
    (hp : s.tasks.get? p = some t) {action : Action} (ha : t.awaited = some action)
    (hp' : s'.tasks.get? p = some t) :
    ahead s' p ≤ ahead s p ∧
      ((∃ newId, l = .commit newId) ∨ l = .reject → ahead s' p < ahead s p) := by
  have hserved := (Writer.of_reachable hr).served
  have hserved' := (Writer.of_reachable (hr.step hst)).served
  have hm : ⟨some (.task p), action⟩ ∈ s.writer :=
    (hserved.mem_iff _ _).2 ((Writer.awaited_task hp).trans ha)
  have hm' : ⟨some (.task p), action⟩ ∈ s'.writer :=
    (hserved'.mem_iff _ _).2 ((Writer.awaited_task hp').trans ha)
  have hstep := WriterStep.of_step hst
  unfold ahead
  generalize s'.writer = writer at hstep hm' ⊢
  -- the write that is settled is not the one of the task
  have hpop : ∀ {job : Job}, s.writer = job :: writer →
      writer.findIdx (fun job => decide (job.owner = some (.task p))) <
        s.writer.findIdx fun job => decide (job.owner = some (.task p)) := by
    intro job hw
    have hnodup := hserved.nodup
    rw [hw] at hnodup ⊢
    have hne : job.owner ≠ some (.task p) := by
      intro ho
      rw [List.filterMap_cons_some ho, List.nodup_cons] at hnodup
      exact hnodup.1 (List.mem_filterMap.2 ⟨_, hm', rfl⟩)
    simp [List.findIdx_cons, hne]
  have happend : ∀ jobs : List Job,
      (s.writer ++ jobs).findIdx (fun job => decide (job.owner = some (.task p))) =
        s.writer.findIdx fun job => decide (job.owner = some (.task p)) := by
    intro jobs
    rw [List.findIdx_append, if_pos]
    exact List.findIdx_lt_length_of_exists ⟨_, hm, by simp⟩
  cases hstep with
  | performed hw => exact ⟨(hpop hw).le, fun _ => hpop hw⟩
  | refused hw => exact ⟨(hpop hw).le, fun _ => hpop hw⟩
  | died => cases hm'
  | progress hq hpc => exact ⟨(happend _).le, by simp⟩
  | requested jobs hjobs hquiet hcommit hreject hkill =>
    refine ⟨(happend _).le, ?_⟩
    rintro (⟨newId, rfl⟩ | rfl)
    · exact absurd rfl (hcommit newId)
    · exact absurd rfl hreject

/-- The steps that `p` has left. -/
def State.stepsLeft (s : State) (p : Pid) : ℕ := (s.tasks.get? p).elim 0 fun t => t.pc.stepsLeft

theorem stepsLeft_step (hs : Slots s) (hst : step s l = some s') (hlt : p < s.nextPid) :
    s'.tasks.get? p = s.tasks.get? p ∨ s'.stepsLeft p < s.stepsLeft p := by
  cases hp : s.tasks.get? p with
  | none => exact .inl (no_task_step hst hs hlt hp)
  | some t =>
    rcases task_step hs hst hp with ⟨hnone, -⟩ | ⟨t', ht', rfl | ⟨-, -, hless⟩⟩
    · right
      simp [State.stepsLeft, hnone, hp, t.pc.stepsLeft_pos]
    · exact .inl ht'
    · right
      simpa [State.stepsLeft, ht', hp] using hless

end Steps

/-! ### Infinite runs -/

/-- The database settles every write in the end, and what the task `p` waits for otherwise settles
in the end, too. -/
structure Fair (path : uploadService.Path) (p : Pid) : Prop where
  writes : ∀ k, (path.state k).writer ≠ [] → ∃ m, k ≤ m ∧
    ((∃ newId, path.label m = .commit newId) ∨ path.label m = .reject ∨ path.label m = .kill)
  turns : ∀ k t, (path.state k).tasks.get? p = some t → t.awaited = none →
    ∃ m, k ≤ m ∧ (path.state m).tasks.get? p ≠ some t

section Paths

variable {path : uploadService.Path} {p : Pid} {t : Task}

/-- A task that waits for a write is told how it went. -/
theorem write_settles (hfair : Fair path p) {action : Action} (ha : t.awaited = some action)
    (k : ℕ) : ∃ m, k ≤ m ∧ (path.state m).tasks.get? p ≠ some t := by
  refine path.leaves (P := fun s => s.tasks.get? p = some t) (fun s => ahead s p) ?_ k
  intro k hk
  by_contra hno
  push Not at hno
  -- the task stays where it is, so its write only gets nearer
  have hstay : ∀ m, k ≤ m → (path.state m).tasks.get? p = some t := fun m hm => (hno m hm).1
  have hmono : ∀ m, k ≤ m → ahead (path.state m) p ≤ ahead (path.state k) p := by
    intro m hkm
    induction m, hkm using Nat.le_induction with
    | base => exact le_rfl
    | succ m hkm ih =>
      exact (ahead_step (path.reachable m) (path.step m) (hstay m hkm) ha
        (hstay (m + 1) (by omega))).1.trans ih
  have hm : ⟨some (.task p), action⟩ ∈ (path.state k).writer :=
    ((Writer.of_reachable (path.reachable k)).served.mem_iff _ _).2
      ((Writer.awaited_task hk).trans ha)
  obtain ⟨m, hkm, hl⟩ := hfair.writes k (List.ne_nil_of_mem hm)
  have hm' := hstay (m + 1) (by omega)
  have hstep := ahead_step (path.reachable m) (path.step m) (hstay m hkm) ha hm'
  have hlt : ahead (path.state (m + 1)) p < ahead (path.state m) p := by
    rcases hl with hcommit | hreject | hkill
    · exact hstep.2 (.inl hcommit)
    · exact hstep.2 (.inr hreject)
    · have hst := path.step m
      rw [hkill] at hst
      have hkilled : (path.state m).kill = path.state (m + 1) := Option.some.inj hst
      rw [← hkilled] at hm'
      simp [State.kill, State.initQueue, State.die] at hm'
  exact absurd (hno (m + 1) (by omega)).2 (by have := hmono m hkm; omega)

/-- The ids of running tasks are not given out again. -/
theorem lt_nextPid {k m : ℕ} (hkm : k ≤ m) (hp : (path.state k).tasks.get? p = some t) :
    p < (path.state m).nextPid := by
  induction m, hkm using Nat.le_induction with
  | base => exact (Slots.of_reachable (path.reachable k)).taskPids p (Table.mem_keys_of_get? hp)
  | succ m _ ih => exact ih.trans_le (Move.of_step (path.step m)).nextPid_le

/-- The steps that `p` makes in the first `d` steps after `k`. -/
def stepsOf (path : uploadService.Path) (p : Pid) (k d : ℕ) : ℕ :=
  (List.range d).countP fun i =>
    decide ((path.state (k + i + 1)).tasks.get? p ≠ (path.state (k + i)).tasks.get? p)

theorem stepsOf_le {k : ℕ} (hp : (path.state k).tasks.get? p = some t) (d : ℕ) :
    stepsOf path p k d + (path.state (k + d)).stepsLeft p ≤ t.pc.stepsLeft := by
  induction d with
  | zero => simp [stepsOf, State.stepsLeft, hp]
  | succ d ih =>
    have hstep := stepsLeft_step (Slots.of_reachable (path.reachable (k + d)))
      (path.step (k + d)) (lt_nextPid (Nat.le_add_right k d) hp)
    have hcount : stepsOf path p k (d + 1) = stepsOf path p k d +
        if (path.state (k + d + 1)).tasks.get? p ≠ (path.state (k + d)).tasks.get? p then 1
        else 0 := by
      simp [stepsOf, List.range_succ, List.countP_append, List.countP_cons]
    rw [hcount, ← Nat.add_assoc]
    rcases hstep with hsame | hless
    · have hleft : (path.state (k + d + 1)).stepsLeft p = (path.state (k + d)).stepsLeft p := by
        simp [State.stepsLeft, hsame]
      simp only [hsame, ne_eq, not_true_eq_false, if_false]
      omega
    · split_ifs <;> omega

/-- A task works on one recording all its life. -/
theorem same_recording {k m : ℕ} (hkm : k ≤ m) (hp : (path.state k).tasks.get? p = some t)
    {u : Task} (hu : (path.state m).tasks.get? p = some u) : u.recordingId = t.recordingId := by
  induction m, hkm using Nat.le_induction generalizing u with
  | base =>
    cases hp.symm.trans hu
    rfl
  | succ m hkm ih =>
    have hs := Slots.of_reachable (path.reachable m)
    cases hv : (path.state m).tasks.get? p with
    | none =>
      cases (no_task_step (path.step m) hs (lt_nextPid hkm hp) hv).symm.trans hu
    | some v =>
      have hsame := ih hv
      rcases task_step hs (path.step m) hv with ⟨hnone, -⟩ | ⟨w, hw, hgoes⟩
      · cases hnone.symm.trans hu
      · cases hw.symm.trans hu
        rcases hgoes with rfl | ⟨-, hid, -⟩
        · exact hsame
        · exact hid.trans hsame

/-- A task that is there makes another step. -/
theorem makes_step (hfair : Fair path p) {k : ℕ} (hp : (path.state k).tasks.get? p = some t) :
    ∃ m, k ≤ m ∧ (path.state m).stepsLeft p < (path.state k).stepsLeft p := by
  have hmoves : ∃ m, k ≤ m ∧ (path.state m).tasks.get? p ≠ some t := by
    cases ha : t.awaited with
    | none => exact hfair.turns k t hp ha
    | some action => exact write_settles hfair ha k
  obtain ⟨m, hkm, hm⟩ := hmoves
  obtain ⟨j, hkj, hj, hj'⟩ := path.first_left (P := fun s => s.tasks.get? p = some t) hkm hp hm
  rcases stepsLeft_step (Slots.of_reachable (path.reachable j)) (path.step j)
    (lt_nextPid hkj hp) with hsame | hless
  · exact absurd (hsame.trans hj) hj'
  · refine ⟨j + 1, by omega, ?_⟩
    have hleft : (path.state j).stepsLeft p = (path.state k).stepsLeft p := by
      simp [State.stepsLeft, hj, hp]
    omega

/-- **Every upload ends.**  In whatever run, a task makes at most 18 steps besides reports of
progress; and in every infinite run in which the database and the world outside settle what it waits
for, it ends and its slot is free again. -/
theorem upload_ends (path : uploadService.Path) {p : Pid} {k : ℕ} {t : Task}
    (hp : (path.state k).tasks.get? p = some t) :
    (∀ d, stepsOf path p k d ≤ 18) ∧
      (Fair path p → ∃ m, k ≤ m ∧ (path.state m).tasks.get? p = none ∧
        t.recordingId ∉ (path.state m).store.activeUploadIds) := by
  refine ⟨fun d => ?_, fun hfair => ?_⟩
  · have hle := stepsOf_le hp d
    have hbound := t.pc.stepsLeft_le
    omega
  · have hleaves : ∃ m, k ≤ m ∧ ¬ (path.state m).tasks.get? p ≠ none := by
      refine path.leaves (P := fun s => s.tasks.get? p ≠ none) (fun s => s.stepsLeft p) ?_ k
      intro k' hk'
      obtain ⟨u, hu⟩ := Option.ne_none_iff_exists'.1 hk'
      obtain ⟨m, hkm, hm⟩ := makes_step hfair hu
      exact ⟨m, hkm, .inr hm⟩
    obtain ⟨m, hkm, hm⟩ := hleaves
    obtain ⟨j, hkj, hj, hj'⟩ := path.first_left (P := fun s => s.tasks.get? p ≠ none) hkm
      (by simp [hp]) hm
    obtain ⟨u, hu⟩ := Option.ne_none_iff_exists'.1 hj
    rcases task_step (Slots.of_reachable (path.reachable j)) (path.step j) hu with
      ⟨hnone, hfree⟩ | ⟨u', hu', -⟩
    · exact ⟨j + 1, by omega, hnone, same_recording hkj hp hu ▸ hfree⟩
    · exact absurd (by simp [hu']) hj'

end Paths

/-- A recording that cannot be checked. -/
def unchecked : LocalRecording := { meeting with checksumSha256 := "" }

/-- Its upload is given up at once. -/
def givenUp : List Label :=
  [.enqueueUpload "a" 10, .commit "q1", .resume (.call 0) .ok,
    .query 1, .resume (.drain 1) .ok, .query 1, .resume (.drain 1) .ok, .resume (.drain 1) .ok,
    .resume (.task 2) (.found (some unchecked)), .commit "q2", .resume (.task 2) .ok,
    .resume (.task 2) .ok]

theorem upload_ends_givenUp :
    ∃ path : uploadService.Path, ∃ t, (path.state 8).tasks.get? 2 = some t ∧
      ∃ m, 8 ≤ m ∧ (path.state m).tasks.get? 2 = none ∧
        t.recordingId ∉ (path.state m).store.activeUploadIds := by
  obtain ⟨s, hs⟩ := Option.isSome_iff_exists.1
    (show (LTS.exec step (init .missing 0) givenUp).isSome by decide +kernel)
  have hlen : givenUp.length = 12 := rfl
  have hend : ∀ k, 12 ≤ k → LTS.pathState step (init .missing 0) givenUp k = s :=
    fun k hk => LTS.pathState_of_length_le hs (hlen ▸ hk)
  have hlast : s.writer = [] ∧ s.tasks.get? 2 = none := by
    rw [← hend 12 le_rfl]
    decide +kernel
  let path : uploadService.Path :=
    LTS.Path.ofExec (.start ⟨.missing, 0, rfl⟩) hs (show step s (.tick 0) = some s from rfl)
  have hp : (path.state 8).tasks.get? 2 = some ⟨"q1", "a", .findRecording⟩ := by
    show (LTS.pathState step (init .missing 0) givenUp 8).tasks.get? 2 = _
    decide +kernel
  have hfair : Fair path 2 := by
    constructor
    · intro k hk
      by_cases hlt : k ≤ 9
      · exact ⟨9, hlt, .inl ⟨"q2", rfl⟩⟩
      · -- all writes have been performed
        refine absurd ?_ hk
        show (LTS.pathState step (init .missing 0) givenUp k).writer = []
        by_cases hk' : 12 ≤ k
        · rw [hend k hk']
          exact hlast.1
        · obtain rfl | rfl : k = 10 ∨ k = 11 := by omega
          all_goals decide +kernel
    · intro k t ht _
      refine ⟨max k 12, le_max_left _ _, ?_⟩
      show (LTS.pathState step (init .missing 0) givenUp (max k 12)).tasks.get? 2 ≠ _
      rw [hend (max k 12) (le_max_right k 12), hlast.2]
      exact (Option.some_ne_none t).symm
  exact ⟨path, _, hp, (upload_ends path hp).2 hfair⟩

end UploadService

end FCord
