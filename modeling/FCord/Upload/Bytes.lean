import FCord.Upload.Answers

/-!
# The byte count of a completed upload

`_handleCompleting` reports the `bytesUploaded` of its row, which the progress listeners write.
The database performs their writes before those that the task of the transfer requests afterwards
(`ProgressFirst`), so when the session is completed no report is still to be written, and the
count is that of the attempt exactly if a report of the attempt was written
(`bytes_reported_iff`).  A transfer may complete without a report: then the count is what an earlier
attempt, or the enqueueing, has left (`leftover_reported`).
-/

namespace FCord

/-- What the progress listener of the current or last attempt has reported. -/
structure Reports where
  /-- The last report whose write was performed. -/
  landed : Option ℕ
  /-- The reports whose writes are requested. -/
  waiting : List ℕ
  /-- The stored count was written since the attempt began. -/
  fresh : Bool
  deriving DecidableEq, Repr

/-- The task may have, or get, a progress listener whose writes are not performed. -/
def TaskPc.isOpen : TaskPc → Bool
  | .transferring _ _ => true
  | .settled _ _ _ => true
  | .writing _ _ .pending => true
  | _ => false

namespace UploadService

/-- The report that a job writes to a row. -/
def progressTo (row : RowId) (job : Job) : Option ℕ :=
  match job.action with
  | .update r (.bytesUploaded loaded) => if r = row then some loaded else none
  | _ => none

/-- The reports that are to be written to a row. -/
def progressOf (row : RowId) (jobs : List Job) : List ℕ := jobs.filterMap (progressTo row)

/-- The report that a progress event makes for a row. -/
def reported (s : State) (row : RowId) : Label → Option ℕ
  | .native p (.progress loaded _) =>
    (s.tasks.get? p).bind fun t => if t.row = row then some loaded else none
  | _ => none

/-- The next write is a report for the row. -/
def reportsNext (s : State) (row : RowId) : Bool :=
  match s.writer with
  | job :: _ => (progressTo row job).isSome
  | [] => false

/-- What a step does to the reports of a row. -/
def report (reports : RowId → Reports) (s : State) (l : Label) (row : RowId) : Reports :=
  if (transferStart s l).map Task.row = some row then ⟨none, [], false⟩
  else
    match l with
    | .commit _ =>
      if reportsNext s row then
        ⟨(reports row).waiting.head?.or (reports row).landed, (reports row).waiting.tail, true⟩
      else reports row
    | .reject =>
      if reportsNext s row then { reports row with waiting := (reports row).waiting.tail }
      else reports row
    | .kill => { reports row with waiting := [] }
    | l => { reports row with waiting := (reports row).waiting ++ (reported s row l).toList }

/-- The reports of the current or last attempt of each row. -/
def attemptReports (tr : List (State × Label)) : RowId → Reports :=
  LTS.history (fun _ => ⟨none, [], false⟩) report tr

/-! ### The writer's queue -/

section Writer

variable {s s' : State} {l : Label} {row : RowId} {job : Job} {jobs : List Job}

/-- What a step does to the writer's queue. -/
inductive WriterStep (s : State) : Label → List Job → Prop
  | performed {newId : RowId} {job : Job} {jobs : List Job} (hw : s.writer = job :: jobs) :
      WriterStep s (.commit newId) jobs
  | refused {job : Job} {jobs : List Job} (hw : s.writer = job :: jobs) :
      WriterStep s .reject jobs
  | died : WriterStep s .kill []
  | progress {p : Pid} {t : Task} {loaded total : ℕ} {recording : LocalRecording} {url : String}
      (hp : s.tasks.get? p = some t) (hpc : t.pc = .transferring recording url) :
      WriterStep s (.native p (.progress loaded total))
        (s.writer ++ [⟨none, .update t.row (.bytesUploaded loaded)⟩])
  | requested {l : Label} (jobs : List Job) (hjobs : ∀ job ∈ jobs, job.owner ≠ none)
      (hquiet : ∀ p loaded total, l ≠ .native p (.progress loaded total))
      (hcommit : ∀ newId, l ≠ .commit newId) (hreject : l ≠ .reject) (hkill : l ≠ .kill) :
      WriterStep s l (s.writer ++ jobs)

theorem progressOf_cons :
    progressOf row (job :: jobs) = (progressTo row job).toList ++ progressOf row jobs := by
  unfold progressOf
  cases h : progressTo row job <;> simp [h]

theorem progressOf_append {jobs' : List Job} :
    progressOf row (jobs ++ jobs') = progressOf row jobs ++ progressOf row jobs' :=
  List.filterMap_append

theorem JobOf.progressTo_eq_none (h : JobOf s job) (howner : job.owner ≠ none) (row : RowId) :
    progressTo row job = none := by
  cases h with
  | progress r loaded => exact absurd rfl howner
  | @task p r id recording w hp => cases w <;> rfl
  | _ => rfl

/-- A handler requests its own writes. -/
theorem HandlerTurn.owner_ne_none {who : Owner} {item : UploadQueueItem} {consent : ConsentEntry}
    {pc : HandlerPc} {next : HandlerNext} {effects : List Effect}
    (h : HandlerTurn who row item consent pc next effects) :
    ∀ job ∈ effects.filterMap (requestedJob who), job.owner ≠ none := by
  cases h <;> simp [requestedJob]

theorem owner_ne_none_of_processItem {who : Owner} {item : UploadQueueItem} {now : ℕ}
    {store : UploadQueueStore} {consent : ConsentEntry} {pc pc' : TaskPc} {outcome : Outcome}
    {effects : List Effect}
    (h : processItem who row item now store consent pc outcome = some (pc', effects)) :
    ∀ job ∈ effects.filterMap (requestedJob who), job.owner ≠ none := by
  cases taskTurn_of_processItem h with
  | progress loaded total => simp [processItem] at h
  | handler hh => exact hh.owner_ne_none
  | _ => simp [requestedJob]

/-- Nothing is requested. -/
theorem WriterStep.quiet (hwriter : s'.writer = s.writer)
    (hquiet : ∀ p loaded total, l ≠ .native p (.progress loaded total))
    (hcommit : ∀ newId, l ≠ .commit newId) (hreject : l ≠ .reject) (hkill : l ≠ .kill) :
    WriterStep s l s'.writer := by
  have h := WriterStep.requested (s := s) (l := l) [] nofun hquiet hcommit hreject hkill
  rwa [List.append_nil, ← hwriter] at h

/-- A step that is neither a turn of a task nor one of the database, nor a kill. -/
theorem WriterStep.of_move (hm : Move s l s') (hturn : l.turnOf = none)
    (hcommit : ∀ newId, l ≠ .commit newId) (hreject : l ≠ .reject) (hkill : l ≠ .kill) :
    WriterStep s l s'.writer := by
  have hquiet : ∀ p loaded total, l ≠ .native p (.progress loaded total) := by
    rintro p loaded total rfl
    cases hturn
  cases hm with
  | wake listening => exact .quiet (by simp) hquiet hcommit hreject hkill
  | enqueue recordingId bytesTotal =>
    exact .requested [⟨some (.call s.nextPid), .create recordingId bytesTotal⟩] (by simp) hquiet
      hcommit hreject hkill
  | handler hp hrow ht ho =>
    exact .requested _ ht.owner_ne_none hquiet hcommit hreject hkill
  | task hp ht hl => rcases hl with ⟨o, rfl⟩ | ⟨event, rfl⟩ <;> cases hturn
  | finish hp hpc => cases hturn
  | @reset o p row item hp hrow hst =>
    exact .requested [⟨some (.call p), .update row .reset⟩] (by simp) hquiet hcommit hreject hkill
  | wakeCall hp hpc => exact .quiet (by simp [State.endCall]) hquiet hcommit hreject hkill
  | commit hw hnew => exact absurd rfl (hcommit _)
  | reject hw => exact absurd rfl hreject
  | kill => exact absurd rfl hkill
  | _ => exact .quiet rfl hquiet hcommit hreject hkill

theorem WriterStep.of_step (hst : step s l = some s') : WriterStep s l s'.writer := by
  have hm := Move.of_step hst
  cases l with
  | commit newId =>
    simp only [step, State.commit] at hst
    split at hst
    · cases hst
    · rename_i hw
      split_ifs at hst
      cases hst
      simpa using WriterStep.performed hw
  | reject =>
    simp only [step, State.reject] at hst
    split at hst
    · cases hst
    · rename_i hw
      cases hst
      simpa using WriterStep.refused hw
  | kill =>
    cases hst
    simpa [State.kill, State.initQueue, State.die] using WriterStep.died
  | native p event =>
    obtain ⟨t, hp, hn⟩ := Option.bind_eq_some_iff.1 hst
    simp only [State.native, Option.bind_eq_bind, Option.bind_eq_some_iff] at hn
    obtain ⟨⟨pc, effects⟩, hturn, he⟩ := hn
    cases he
    have hw : (s.taskTurn p t pc effects).writer =
        s.writer ++ effects.filterMap (requestedJob (.task p)) := rfl
    rw [hw]
    unfold nativeEvent at hturn
    split at hturn
    · rename_i hpc
      cases hturn
      exact .progress hp hpc
    · cases hturn
      exact .requested _ (by simp [requestedJob]) (by simp) (by simp) (by simp) (by simp)
    · cases hturn
      exact .requested _ (by simp [requestedJob]) (by simp) (by simp) (by simp) (by simp)
    · cases hturn
      exact .requested _ (by simp [requestedJob]) (by simp) (by simp) (by simp) (by simp)
    · cases hturn
  | resume who o =>
    cases who with
    | task p =>
      obtain ⟨t, hp, hturn⟩ := Option.bind_eq_some_iff.1 hst
      unfold State.resumeTask at hturn
      split at hturn
      · split_ifs at hturn
        cases hturn
        exact .quiet (by simp [State.finishTask]) (by simp) (by simp) (by simp) (by simp)
      · simp only [Option.bind_eq_bind, Option.bind_eq_some_iff] at hturn
        obtain ⟨item, hrow, ⟨pc, effects⟩, hturn, he⟩ := hturn
        cases he
        exact .requested _ (owner_ne_none_of_processItem hturn) (by simp) (by simp) (by simp)
          (by simp)
    | _ => exact .of_move hm rfl (by simp) (by simp) (by simp)
  | _ => exact .of_move hm rfl (by simp) (by simp) (by simp)

end Writer

/-! ### The order of the writes -/

/-- The reports for a row are requested before the writes that its task waits for. -/
def ProgressFirst (s : State) : Prop :=
  s.writer.Pairwise fun a b => ∀ p row u, a = ⟨some (.task p), .update row u⟩ →
    progressTo row b = none

section Order

variable {s s' : State} {l : Label} {row : RowId}

theorem ProgressFirst.step (h : ProgressFirst s) (hr : uploadService.Reachable s)
    (hst : UploadService.step s l = some s') : ProgressFirst s' := by
  have hwriter := Writer.of_reachable hr
  have hwriter' := Writer.of_reachable (hr.step hst)
  have hstep := WriterStep.of_step hst
  unfold ProgressFirst at h ⊢
  generalize he : s'.writer = writer at hstep ⊢
  cases hstep with
  | performed hw =>
    rw [hw] at h
    exact h.tail
  | refused hw =>
    rw [hw] at h
    exact h.tail
  | died => exact .nil
  | @progress p t loaded total recording url hp hpc =>
    refine List.pairwise_append.2 ⟨h, List.pairwise_singleton _ _, fun a ha b hb => ?_⟩
    rw [List.mem_singleton.1 hb]
    rintro q r u rfl
    -- the task of the transfer waits for no write
    refine if_neg fun hrow => ?_
    have hidle : ∀ {id pc}, s.tasks.get? q = some ⟨r, id, pc⟩ → t.pc = pc := by
      intro id pc hq
      cases (Slots.of_reachable hr).task_unique_row hp hq hrow
      cases hp.symm.trans hq
      rfl
    cases hwriter.jobOf ha with
    | task hq => cases hpc.symm.trans (hidle hq)
    | taskDone hq => cases hpc.symm.trans (hidle hq)
  | requested jobs hjobs =>
    refine List.pairwise_append.2 ⟨h, ?_, fun a _ b hb p r u _ => ?_⟩
    · refine List.Pairwise.imp_of_mem (R := fun _ _ => True) (fun _ hb _ p r u _ => ?_)
        (List.pairwise_of_forall fun _ _ => trivial)
      exact (hwriter'.jobOf (he ▸ List.mem_append_right _ hb)).progressTo_eq_none (hjobs _ hb) r
    · exact (hwriter'.jobOf (he ▸ List.mem_append_right _ hb)).progressTo_eq_none (hjobs b hb) r

theorem ProgressFirst.of_reachable (hr : uploadService.Reachable s) : ProgressFirst s := by
  refine hr.invariant_of ?_ fun s l s' hr h hst => h.step hr hst
  rintro s ⟨consent, now, rfl⟩
  exact .nil

end Order

/-! ### The invariant -/

/-- What the reports of a row have to do with its stored count and with the writer's queue. -/
structure Reported (s : State) (row : RowId) (reports : Reports) : Prop where
  waiting : reports.waiting = progressOf row s.writer
  /-- No report is to be written but while the task has a listener or waits behind its writes. -/
  closed : (∀ p pc, (view s row).task = some (p, pc) → pc.isOpen = false) →
    progressOf row s.writer = []
  landed : ∀ n, reports.landed = some n →
    ∃ item, (view s row).item = some item ∧ item.bytesUploaded = n
  fresh : reports.fresh = reports.landed.isSome

section Steps

variable {s s' : State} {l : Label} {row : RowId} {v v' : RowView} {reports : RowId → Reports}

/-- A transfer starts, a report is written, or neither. -/
theorem report_cases (reports : RowId → Reports) (s : State) (l : Label) (row : RowId) :
    ((transferStart s l).map Task.row = some row ∧ report reports s l row = ⟨none, [], false⟩) ∨
    (∃ newId job jobs loaded, l = .commit newId ∧ s.writer = job :: jobs ∧
      progressTo row job = some loaded ∧ report reports s l row =
        ⟨(reports row).waiting.head?.or (reports row).landed, (reports row).waiting.tail, true⟩) ∨
    (∀ newId job jobs, l = .commit newId → s.writer = job :: jobs → progressTo row job = none) ∧
      (report reports s l row).landed = (reports row).landed ∧
      (report reports s l row).fresh = (reports row).fresh := by
  by_cases hstart : (transferStart s l).map Task.row = some row
  · exact .inl ⟨hstart, if_pos hstart⟩
  · right
    unfold report
    rw [if_neg hstart]
    cases l with
    | commit newId =>
      unfold reportsNext
      cases hw : s.writer with
      | nil => exact .inr ⟨by simp, by simp⟩
      | cons job jobs =>
        cases hx : progressTo row job with
        | none => exact .inr ⟨by rintro _ _ _ - ⟨⟩; exact hx, by simp [hx]⟩
        | some loaded => exact .inl ⟨newId, job, jobs, loaded, rfl, rfl, hx, by simp [hx]⟩
    | reject => exact .inr ⟨nofun, by dsimp only; split_ifs <;> exact ⟨rfl, rfl⟩⟩
    | _ => exact .inr ⟨nofun, rfl, rfl⟩

/-- The reports of a row that are to be written. -/
theorem Reported.waiting_step (h : Reported s row (reports row)) (hr : uploadService.Reachable s)
    (hst : step s l = some s') :
    (report reports s l row).waiting = progressOf row s'.writer := by
  have hwriter' := Writer.of_reachable (hr.step hst)
  have hstep := WriterStep.of_step hst
  by_cases hstart : (transferStart s l).map Task.row = some row
  · -- the task does not wait for a write
    have hnil : progressOf row s.writer = [] := by
      refine h.closed fun p pc hpc => ?_
      obtain ⟨t, ht, hrow⟩ := Option.map_eq_some_iff.1 hstart
      obtain ⟨q, -, hq, hstarts⟩ := turnOf_of_transferStart ht
      obtain ⟨recording, url, hpc'⟩ := TaskPc.of_startsUpload hstarts
      have hv := view_of_task (Slots.of_reachable hr) hq
      rw [hrow, hpc'] at hv
      rw [hv] at hpc
      cases hpc
      rfl
    have hl : ∃ p o, l = .resume (.task p) o := by
      unfold transferStart at hstart
      split at hstart
      · exact ⟨_, _, rfl⟩
      · cases hstart
    obtain ⟨p, o, rfl⟩ := hl
    unfold report
    rw [if_pos hstart]
    generalize he : s'.writer = writer at hstep ⊢
    cases hstep with
    | requested jobs hjobs =>
      rw [progressOf_append, hnil]
      refine (List.filterMap_eq_nil_iff.2 fun job hm => ?_).symm
      exact (hwriter'.jobOf (he ▸ List.mem_append_right _ hm)).progressTo_eq_none (hjobs job hm) row
  · unfold report
    rw [if_neg hstart]
    generalize he : s'.writer = writer at hstep ⊢
    cases hstep with
    | @performed newId job jobs hw =>
      have hq := h.waiting
      rw [hw, progressOf_cons] at hq
      simp only [reportsNext, hw]
      cases hx : progressTo row job with
      | none => simpa [hx] using hq
      | some loaded => simp [hq, hx]
    | @refused job jobs hw =>
      have hq := h.waiting
      rw [hw, progressOf_cons] at hq
      simp only [reportsNext, hw]
      cases hx : progressTo row job with
      | none => simpa [hx] using hq
      | some loaded => simp [hq, hx]
    | died => rfl
    | @progress p t loaded total recording url hp hpc =>
      rw [progressOf_append, ← h.waiting]
      simp only [reported, hp, progressOf, progressTo, Option.bind_some, List.filterMap_cons,
        List.filterMap_nil]
      split_ifs <;> rfl
    | requested jobs hjobs hquiet hcommit hreject hkill =>
      have hnone : reported s row l = none := by
        unfold reported
        split
        · exact absurd rfl (hquiet _ _ _)
        · rfl
      have hnil : progressOf row jobs = [] := List.filterMap_eq_nil_iff.2 fun job hm =>
        (hwriter'.jobOf (he ▸ List.mem_append_right _ hm)).progressTo_eq_none (hjobs job hm) row
      rw [progressOf_append, hnil, List.append_nil, ← h.waiting]
      split
      · exact absurd rfl (hcommit _)
      · exact absurd rfl hreject
      · exact absurd rfl hkill
      · simp [hnone]

/-- A task closes when its write has settled, or it dies. -/
theorem RowMove.closed (hm : RowMove s l row v v')
    (hclosed : ∀ p pc, v'.task = some (p, pc) → pc.isOpen = false) :
    (∀ p pc, v.task = some (p, pc) → pc.isOpen = false) ∨
      (∃ p u jobs, s.writer = ⟨some (.task p), .update row u⟩ :: jobs) ∧
        ((∃ newId, l = .commit newId) ∨ l = .reject) ∨ l = .kill := by
  cases hm with
  | @written newId row p jobs item recording w hw =>
    exact .inr (.inl ⟨⟨p, _, jobs, hw⟩, .inl ⟨newId, rfl⟩⟩)
  | @taskDone newId row p jobs item conflict serverId hw =>
    exact .inr (.inl ⟨⟨p, _, jobs, hw⟩, .inl ⟨newId, rfl⟩⟩)
  | @rejected row p job jobs item pc hw howner hawait =>
    obtain ⟨owner, action⟩ := job
    cases howner
    refine .inr (.inl ⟨⟨p, ?_⟩, .inr rfl⟩)
    unfold TaskPc.awaited at hawait
    split at hawait
    · cases hawait
      exact ⟨_, jobs, hw⟩
    · cases (HandlerPc.of_awaited hawait).1
      exact ⟨_, jobs, hw⟩
    · cases hawait
  | killed => exact .inr (.inr rfl)
  | started hp => exact .inl nofun
  | @turn l row p t item pc effects hp hrow ht =>
    refine .inl fun q pc' hq => ?_
    cases hq
    have hopen := hclosed p pc rfl
    have hturn := ht.taskTurn
    cases hpc : t.pc with
    | writing recording w write =>
      cases write with
      | pending =>
        rw [hpc] at hturn
        cases hturn
      | _ => rfl
    | transferring recording url =>
      rw [hpc] at hturn
      cases hturn <;> cases hopen
    | settled recording url error =>
      rw [hpc] at hturn
      cases hturn <;> cases hopen
    | _ => rfl
  | finished hp hrow hpc =>
    refine .inl fun q pc hq => ?_
    cases hq
    rfl
  | _ => exact .inl hclosed

theorem Reported.closed_step (h : Reported s row (reports row)) (hr : uploadService.Reachable s)
    (hst : step s l = some s')
    (hclosed : ∀ p pc, (view s' row).task = some (p, pc) → pc.isOpen = false) :
    progressOf row s'.writer = [] := by
  have hwriter' := Writer.of_reachable (hr.step hst)
  have hfirst := ProgressFirst.of_reachable hr
  have hstep := WriterStep.of_step hst
  unfold ProgressFirst at hfirst
  rcases (RowMove.of_step hr hst row).closed hclosed with hold | ⟨⟨p, u, jobs, hw⟩, hl⟩ | rfl
  · have hnil := h.closed hold
    generalize he : s'.writer = writer at hstep ⊢
    cases hstep with
    | performed hw =>
      rw [hw, progressOf_cons, List.append_eq_nil_iff] at hnil
      exact hnil.2
    | refused hw =>
      rw [hw, progressOf_cons, List.append_eq_nil_iff] at hnil
      exact hnil.2
    | died => rfl
    | @progress p t loaded total recording url hp hpc =>
      -- the listener belongs to another row
      have hne : t.row ≠ row := by
        rintro rfl
        have hopen := hold p t.pc (by rw [view_of_task (.of_reachable hr) hp])
        rw [hpc] at hopen
        cases hopen
      rw [progressOf_append, hnil]
      simp [progressOf, progressTo, hne]
    | requested jobs hjobs =>
      rw [progressOf_append, hnil]
      exact List.filterMap_eq_nil_iff.2 fun job hm =>
        (hwriter'.jobOf (he ▸ List.mem_append_right _ hm)).progressTo_eq_none (hjobs job hm) row
  · -- no report is requested behind a write that the task waits for
    rw [hw] at hfirst
    have hnil : progressOf row jobs = [] := List.filterMap_eq_nil_iff.2 fun job hm =>
      (List.pairwise_cons.1 hfirst).1 job hm p row u rfl
    rcases hl with ⟨newId, rfl⟩ | rfl
    · generalize s'.writer = writer at hstep ⊢
      cases hstep with
      | performed hw' =>
        cases hw.symm.trans hw'
        exact hnil
      | requested jobs' hjobs hquiet hcommit => exact absurd rfl (hcommit _)
    · generalize s'.writer = writer at hstep ⊢
      cases hstep with
      | refused hw' =>
        cases hw.symm.trans hw'
        exact hnil
      | requested jobs' hjobs hquiet hcommit hreject => exact absurd rfl hreject
  · generalize s'.writer = writer at hstep ⊢
    cases hstep with
    | died => rfl
    | requested jobs' hjobs hquiet hcommit hreject hkill => exact absurd rfl hkill

/-- The row of a report that is to be written exists. -/
theorem Reported.exists (h : Reported s row (reports row)) (hs : Slots s)
    (hne : progressOf row s.writer ≠ []) : ∃ item, (view s row).item = some item := by
  by_contra hno
  refine hne (h.closed fun p pc hpc => ?_)
  obtain ⟨t, hp, rfl, -⟩ := task_of_view hpc
  obtain ⟨item, hrow, -⟩ := hs.taskRows p t hp
  exact absurd ⟨item, hrow⟩ hno

/-- A write that is no report keeps the stored count. -/
theorem RowMove.bytesUploaded (hm : RowMove s l row v v')
    (hnone : ∀ newId job jobs, l = .commit newId → s.writer = job :: jobs →
      progressTo row job = none) {item : UploadQueueItem} (hitem : v.item = some item) :
    ∃ item', v'.item = some item' ∧ item'.bytesUploaded = item.bytesUploaded := by
  cases hm with
  | same h => exact ⟨item, hitem, rfl⟩
  | created hw => cases hitem
  | reset hw hst =>
    cases hitem
    exact ⟨_, rfl, rfl⟩
  | progress hw => simpa [progressTo] using hnone _ _ _ rfl hw
  | @written newId row p jobs item recording w hw =>
    cases hitem
    exact ⟨_, rfl, by cases w <;> rfl⟩
  | taskDone hw =>
    cases hitem
    exact ⟨_, rfl, rfl⟩
  | drainDone hw hst =>
    cases hitem
    exact ⟨_, rfl, rfl⟩
  | _ => exact ⟨item, hitem, rfl⟩

theorem Reported.step (h : Reported s row (reports row)) (hr : uploadService.Reachable s)
    (hst : UploadService.step s l = some s') : Reported s' row (report reports s l row) := by
  have hm := RowMove.of_step hr hst row
  refine ⟨h.waiting_step hr hst, h.closed_step hr hst, ?_, ?_⟩
  · intro n hn
    rcases report_cases reports s l row with
      ⟨-, he⟩ | ⟨newId, ⟨owner, action⟩, jobs, loaded, rfl, hw, hx, he⟩ | ⟨hnone, he, -⟩
    · rw [he] at hn
      cases hn
    · have hq := h.waiting
      rw [hw, progressOf_cons, hx, Option.toList_some, List.singleton_append] at hq
      rw [he, hq, List.head?_cons, Option.some_or] at hn
      obtain rfl : loaded = n := Option.some.inj hn
      -- the write lands on the row
      have hne : progressOf row s.writer ≠ [] := by
        rw [← h.waiting, hq]
        exact List.cons_ne_nil _ _
      obtain ⟨item, hitem⟩ := h.exists (.of_reachable hr) hne
      unfold progressTo at hx
      split at hx
      · rename_i r x ha
        obtain ⟨hrow, hval⟩ := Option.ite_none_right_eq_some.1 hx
        subst hrow
        obtain rfl : loaded = x := (Option.some.inj hval).symm
        obtain rfl : action = .update r (.bytesUploaded loaded) := ha
        simp only [UploadService.step, State.commit, hw] at hst
        split_ifs at hst
        cases hst
        have hitem : s.rows.get? r = some item := hitem
        refine ⟨(Update.bytesUploaded loaded).apply s.now item, ?_, rfl⟩
        simp [view, Action.run, Table.get?_modify, hitem]
      · cases hx
    · rw [he] at hn
      obtain ⟨item, hitem, rfl⟩ := h.landed n hn
      exact hm.bytesUploaded hnone hitem
  · rcases report_cases reports s l row with
      ⟨-, he⟩ | ⟨newId, job, jobs, loaded, rfl, hw, hx, he⟩ | ⟨hnone, hlanded, hfresh⟩
    · rw [he]
      rfl
    · have hq := h.waiting
      rw [hw, progressOf_cons, hx, Option.toList_some, List.singleton_append] at hq
      rw [he, hq]
      rfl
    · rw [hlanded, hfresh]
      exact h.fresh

end Steps

/-! ### The result -/

section Runs

variable {tr : List (State × Label)} {s s' : State} {l : Label} {row : RowId}

theorem Reported.of_run (hrun : uploadService.Run tr s) (row : RowId) :
    Reported s row (attemptReports tr row) := by
  refine hrun.history_invariant
    (I := fun s (reports : RowId → Reports) => ∀ row, Reported s row (reports row)) ?_ ?_ row
  · rintro s ⟨consent, now, rfl⟩ row
    exact ⟨rfl, fun _ => rfl, nofun, rfl⟩
  · exact fun s reports l s' hr h hst row => (h row).step hr hst

/-- Nothing is to be reported about a row whose transfer has ended. -/
theorem TaskPc.isOpen_of_transferred {pc : TaskPc} {st : UploadQueueStatus} (hf : pc.Fits st)
    (hst : st = .completing ∨ st = .done) : pc.isOpen = false := by
  cases pc with
  | writing recording w write =>
    cases write with
    | pending => cases w <;> rcases hst with rfl | rfl <;> simp [TaskPc.Fits] at hf
    | _ => rfl
  | transferring recording url => rcases hst with rfl | rfl <;> cases hf
  | settled recording url error => rcases hst with rfl | rfl <;> cases hf
  | _ => rfl

section Calls

variable {log : List Event} {sessionId checksum : String} {bytes : ℕ} {who : Owner}

/-- `_handleCompleting` passes on the count of its row. -/
theorem HandlerTurn.completeCall {who' : Owner} {row' : RowId} {item : UploadQueueItem}
    {consent : ConsentEntry} {pc : HandlerPc} {next : HandlerNext} {effects : List Effect}
    (h : HandlerTurn who' row' item consent pc next effects)
    (hlog : logAfter effects log = .completeCall who row sessionId checksum bytes :: log) :
    row' = row ∧ item.bytesUploaded = bytes := by
  cases h with
  | call checksum' hs =>
    simp only [logAfter, recordedEvent, List.filterMap_cons, List.filterMap_nil,
      List.reverse_singleton, List.singleton_append, List.cons.injEq,
      Event.completeCall.injEq] at hlog
    exact ⟨hlog.1.2.1, hlog.1.2.2.2.2⟩
  | _ => simp [logAfter, recordedEvent, List.filterMap_cons] at hlog

/-- `_processItem` calls `completeUploadSession` in `_handleCompleting` only. -/
theorem TaskTurn.completeCall {who' : Owner} {row' : RowId} {item : UploadQueueItem} {now : ℕ}
    {store : UploadQueueStore} {consent : ConsentEntry} {pc pc' : TaskPc} {effects : List Effect}
    (h : TaskTurn who' row' item now store consent pc pc' effects)
    (hlog : logAfter effects log = .completeCall who row sessionId checksum bytes :: log) :
    row' = row ∧ item.bytesUploaded = bytes ∧ ∃ hpc, pc = .handling hpc := by
  cases h with
  | handler hh =>
    obtain ⟨hrow, hbytes⟩ := hh.completeCall hlog
    exact ⟨hrow, hbytes, _, rfl⟩
  | _ => simp [logAfter, recordedEvent, List.filterMap_cons] at hlog

/-- The count that is passed to `completeUploadSession` is that of a row whose transfer has
ended. -/
theorem of_completeCall (hr : uploadService.Reachable s) (hst : step s l = some s')
    (hlog : s'.log = .completeCall who row sessionId checksum bytes :: s.log) :
    ∃ item, s.rows.get? row = some item ∧ item.bytesUploaded = bytes ∧
      (item.status = .completing ∨ item.status = .done) := by
  have hs := Slots.of_reachable hr
  have ho := Ownership.of_reachable hr
  have hstatus : Transferred (statusOf s.rows) row → ∀ {item}, s.rows.get? row = some item →
      item.status = .completing ∨ item.status = .done := by
    intro ht item hrow
    rw [Transferred, statusOf_of_get? hrow] at ht
    exact ht.imp Option.some.inj Option.some.inj
  cases Move.of_step hst with
  | @handler o p r pc rest item next effects hp hrow ht =>
    obtain ⟨rfl, hbytes⟩ := ht.completeCall hlog
    exact ⟨item, hrow, hbytes, hstatus (ho.transferred hp) hrow⟩
  | @task l p t pc effects hp ht hl =>
    obtain ⟨r, id, tpc⟩ := t
    obtain ⟨item, hrow, -⟩ := hs.taskRows p _ hp
    obtain ⟨rfl, hbytes, hpc, rfl⟩ := (ht item hrow).completeCall hlog
    exact ⟨item, hrow, hbytes, hstatus (ho.task_transferred hs hp) hrow⟩
  | screen recording => simp at hlog
  | wake listening => simp at hlog
  | finish hp hpc => simp [State.finishTask] at hlog
  | wakeCall hp hpc => simp [State.endCall] at hlog
  | commit hw hnew => simp at hlog
  | reject hw => simp at hlog
  | kill => simp [State.kill, State.initQueue, State.die] at hlog
  | enqueue recordingId bytesTotal =>
    exact absurd hlog.symm (List.cons_ne_self _ _)
  | reset hp hrow hst => exact absurd hlog.symm (List.cons_ne_self _ _)
  | _ => exact absurd hlog.symm (List.cons_ne_self _ _)

end Calls

/-- **The count reported at completion is the last report of the attempt.**  In every run, when
`completeUploadSession` is called for a row, no report of its attempt is still to be written, and
the count that is passed on is `n`, written since the transfer of the attempt began, exactly if a
report of the attempt was written and `n` is the last of them; `n` may be the size of the file. -/
theorem bytes_reported_iff (hrun : uploadService.Run tr s) (hst : step s l = some s') {who : Owner}
    {sessionId checksum : String} {bytes : ℕ}
    (hlog : s'.log = .completeCall who row sessionId checksum bytes :: s.log) :
    (attemptReports tr row).waiting = [] ∧
      ∀ n, bytes = n ∧ (attemptReports tr row).fresh = true ↔
        (attemptReports tr row).landed = some n := by
  have hr := hrun.reachable
  have h := Reported.of_run hrun row
  obtain ⟨item, hrow, rfl, hstatus⟩ := of_completeCall hr hst hlog
  refine ⟨h.waiting.trans (h.closed fun p pc hp => ?_), fun n => ⟨?_, fun hn => ?_⟩⟩
  · exact TaskPc.isOpen_of_transferred ((Ownership.of_reachable hr).view_fits hrow hp) hstatus
  · rintro ⟨rfl, hfresh⟩
    rw [h.fresh] at hfresh
    obtain ⟨n, hn⟩ := Option.isSome_iff_exists.1 hfresh
    obtain ⟨item', hrow', he⟩ := h.landed n hn
    cases hrow.symm.trans hrow'
    rw [hn, he]
  · obtain ⟨item', hrow', he⟩ := h.landed n hn
    cases hrow.symm.trans hrow'
    exact ⟨he, by rw [h.fresh, hn, Option.isSome_some]⟩

end Runs

/-- Five of ten bytes are sent before the transfer breaks; the second attempt completes, with these
reports. -/
def secondCompletes (reports : List ℕ) : List Label :=
  [.enqueueUpload "a" 10, .commit "q1", .resume (.call 0) .ok] ++ taskStarts 1 ++
    [.resume (.task 2) (.presigned "session" "https://bucket/put" 3600), .commit "q2",
      .resume (.task 2) .ok, .commit "q2", .resume (.task 2) .ok, .resume (.task 2) .ok,
      .native 2 (.progress 5 10), .commit "q2", .native 2 (.error "network"),
      .resume (.task 2) .ok] ++ retryComes 2 ++ taskStarts 3 ++
    [.commit "q2", .resume (.task 4) .ok, .resume (.task 4) .ok] ++
    reports.flatMap (fun loaded => [.native 4 (.progress loaded 10), .commit "q2"]) ++
    [.native 4 (.completed 200), .resume (.task 4) .ok, .commit "q2", .resume (.task 4) .ok]

/-- What is passed to `completeUploadSession` then, and what the reports were. -/
theorem secondCompletes_run (reports : List ℕ) (hreports : reports = [] ∨ reports = [4, 10]) :
    ∃ tr s s' checksum item, uploadService.Run tr s ∧ tr.map Prod.snd = secondCompletes reports ∧
      step s (.resume (.task 4) (.found (some meeting))) = some s' ∧
      s'.log = .completeCall (.task 4) "q1" "session" checksum (reports.getLastD 5) :: s.log ∧
      attemptReports tr "q1" = ⟨reports.getLast?, [], reports ≠ []⟩ ∧
      s.rows.get? "q1" = some item ∧ item.bytesTotal = 10 := by
  have hrun : ∀ reports ∈ [[], [4, 10]], (LTS.exec (LTS.recorded step report)
      (init .missing 0, fun _ => ⟨none, [], false⟩) (secondCompletes reports)).bind (fun x =>
        (step x.1 (.resume (.task 4) (.found (some meeting)))).map fun s' =>
          (decide (s'.log = .completeCall (.task 4) "q1" "session" "c0ffee" (reports.getLastD 5)
            :: x.1.log), x.2 "q1", (x.1.rows.get? "q1").map UploadQueueItem.bytesTotal)) =
      some (true, ⟨reports.getLast?, [], reports ≠ []⟩, some 10) := by
    decide +kernel
  obtain ⟨⟨s, reported⟩, hs, hrun⟩ :=
    Option.bind_eq_some_iff.1 (hrun reports (by simpa using hreports))
  obtain ⟨s', hst, he⟩ := Option.map_eq_some_iff.1 hrun
  simp only [Prod.mk.injEq] at he
  obtain ⟨hlog, hreported, htotal⟩ := he
  obtain ⟨item, hrow, htotal⟩ := Option.map_eq_some_iff.1 htotal
  obtain ⟨tr, htr, hls, hhist⟩ := LTS.run_of_exec_recorded
    (LTS.Run.start (A := uploadService) ⟨.missing, 0, rfl⟩) hs
  rw [List.nil_append] at htr hhist
  exact ⟨tr, s, s', "c0ffee", item, htr, hls, hst, of_decide_eq_true hlog,
    (congrFun hhist "q1").trans hreported, hrow, htotal⟩

theorem bytes_reported_iff_secondCompletes :
    ∃ tr s s' checksum bytes, uploadService.Run tr s ∧
      tr.map Prod.snd = secondCompletes [4, 10] ∧
      step s (.resume (.task 4) (.found (some meeting))) = some s' ∧
      s'.log = .completeCall (.task 4) "q1" "session" checksum bytes :: s.log ∧ bytes = 10 := by
  obtain ⟨tr, s, s', checksum, -, htr, hls, hst, hlog, hreported, -, -⟩ :=
    secondCompletes_run [4, 10] (.inr rfl)
  refine ⟨tr, s, s', checksum, _, htr, hls, hst, hlog, ?_⟩
  exact (((bytes_reported_iff htr hst hlog).2 10).2 (by rw [hreported]; rfl)).1

/-- A transfer that completes without a report leaves the count of the attempt before it. -/
theorem leftover_reported :
    ¬ ∀ tr s l s' who row sessionId checksum bytes item, uploadService.Run tr s →
      step s l = some s' → s'.log = .completeCall who row sessionId checksum bytes :: s.log →
        s.rows.get? row = some item → bytes = item.bytesTotal := by
  intro h
  obtain ⟨tr, s, s', checksum, item, htr, -, hst, hlog, -, hrow, htotal⟩ :=
    secondCompletes_run [] (.inl rfl)
  have hbytes := h tr s _ s' _ _ _ _ _ item htr hst hlog hrow
  rw [htotal] at hbytes
  exact absurd hbytes (by decide)

end UploadService

end FCord
