import FCord.Upload.Stranding

/-!
# Evidence for finished uploads

A presigned URL lives in memory, keyed by its session; the session id lives in the row; the
completion reads the row later, possibly in another process.  `Evidence` ties the three
together: whoever holds a URL holds one that the server issued for the session in the row, and
a row is `completing` or `done` only with the events in the log that justify it.
-/

namespace FCord

/-- A transfer of the row to a URL that the server issued for the session has completed. -/
def Uploaded (log : List Event) (row : RowId) (sessionId : String) : Prop :=
  ∃ url recording responseCode, .issued sessionId url ∈ log ∧
    .startUpload row (uploadOptions recording url) ∈ log ∧
    .putCompleted row url responseCode ∈ log

/-- The server has issued the URL for the session of the row. -/
def IssuedFor (log : List Event) (session : Option String) (url : String) : Prop :=
  ∃ sessionId, session = some sessionId ∧ .issued sessionId url ∈ log

/-- The server has completed the session of the row. -/
def Completed (log : List Event) (row : RowId) (session : Option String) : Prop :=
  ∃ who sessionId, session = some sessionId ∧ .completeDone who row sessionId ∈ log

/-- What `_handleCompleting` can show for a row with this session. -/
def HandlerPc.Evidence (log : List Event) (row : RowId) (session : Option String) :
    HandlerPc → Prop
  | .findRecording => True
  | .completing _ sessionId => session = some sessionId
  | .writingDone _ _ _ => Completed log row session
  | .readingConsent _ => Completed log row session
  | .requesting _ => Completed log row session

/-- What `_processItem` can show for a row with this session. -/
def TaskPc.Evidence (log : List Event) (row : RowId) (session : Option String) :
    TaskPc → Prop
  | .presigning _ oldSession => oldSession = session
  | .writing _ (.session sessionId url) .resolved => session = some sessionId ∧
      .issued sessionId url ∈ log
  | .writing _ (.session sessionId url) _ => .issued sessionId url ∈ log
  | .writing _ (.uploading url) _ => IssuedFor log session url
  | .writing _ .completing _ => ∃ sessionId, session = some sessionId ∧ Uploaded log row sessionId
  | .starting recording url => IssuedFor log session url ∧
      .startUpload row (uploadOptions recording url) ∈ log
  | .transferring recording url => IssuedFor log session url ∧
      .startUpload row (uploadOptions recording url) ∈ log
  | .settled _ _ none => ∃ sessionId, session = some sessionId ∧ Uploaded log row sessionId
  | .handling pc => pc.Evidence log row session
  | _ => True

/-! ### Evidence lasts -/

section Mono

variable {log log' : List Event} {row : RowId} {session : Option String}

theorem Uploaded.mono (hlog : log ⊆ log') {sessionId : String}
    (h : Uploaded log row sessionId) : Uploaded log' row sessionId := by
  obtain ⟨url, recording, code, hissued, hstart, hput⟩ := h
  exact ⟨url, recording, code, hlog hissued, hlog hstart, hlog hput⟩

theorem IssuedFor.mono (hlog : log ⊆ log') {url : String} (h : IssuedFor log session url) :
    IssuedFor log' session url := by
  obtain ⟨sessionId, hs, hissued⟩ := h
  exact ⟨sessionId, hs, hlog hissued⟩

theorem Completed.mono (hlog : log ⊆ log') (h : Completed log row session) :
    Completed log' row session := by
  obtain ⟨who, sessionId, hs, hdone⟩ := h
  exact ⟨who, sessionId, hs, hlog hdone⟩

theorem HandlerPc.Evidence.mono (hlog : log ⊆ log') {pc : HandlerPc}
    (h : pc.Evidence log row session) : pc.Evidence log' row session := by
  cases pc with
  | findRecording => trivial
  | completing serverId sessionId => exact h
  | _ => exact Completed.mono hlog h

theorem TaskPc.Evidence.mono (hlog : log ⊆ log') {pc : TaskPc}
    (h : pc.Evidence log row session) : pc.Evidence log' row session := by
  unfold TaskPc.Evidence at h ⊢
  split at h
  · exact h
  · exact ⟨h.1, hlog h.2⟩
  · exact hlog h
  · exact h.mono hlog
  · exact h.imp fun _ => And.imp_right (Uploaded.mono hlog)
  · exact ⟨h.1.mono hlog, hlog h.2⟩
  · exact ⟨h.1.mono hlog, hlog h.2⟩
  · exact h.imp fun _ => And.imp_right (Uploaded.mono hlog)
  · exact HandlerPc.Evidence.mono hlog h
  · trivial

/-- Settling a write leaves the evidence, unless it stores a session. -/
theorem HandlerPc.Evidence.settle {pc : HandlerPc} (promise : Promise)
    (h : pc.Evidence log row session) : (pc.settle promise).Evidence log row session := by
  unfold HandlerPc.settle
  split <;> exact h

end Mono

namespace UploadService

/-- The session stored in a row. -/
def sessionOf (rows : Table RowId UploadQueueItem) (row : RowId) : Option String :=
  (rows.get? row).bind UploadQueueItem.uploadSessionId

/-! ### Turns keep the evidence -/

section Turns

variable {who : Owner} {row : RowId} {item : UploadQueueItem} {now : ℕ}
variable {store : UploadQueueStore} {consent : ConsentEntry} {effects : List Effect}
variable {log : List Event}

theorem subset_logAfter : log ⊆ logAfter effects log := List.subset_append_right _ _

theorem HandlerTurn.evidence {pc pc' : HandlerPc}
    (h : HandlerTurn who row item consent pc (.await pc') effects)
    (he : pc.Evidence log row item.uploadSessionId) :
    pc'.Evidence (logAfter effects log) row item.uploadSessionId := by
  cases h with
  | call checksum hs => exact hs
  | @completed conflict serverId sessionId =>
    exact ⟨who, sessionId, he, by simp [logAfter, recordedEvent]⟩
  | written => exact Completed.mono subset_logAfter he
  | request hc => exact Completed.mono subset_logAfter he

/-- The URLs in the cache were issued for their sessions. -/
def CacheIssued (store : UploadQueueStore) (log : List Event) : Prop :=
  ∀ sessionId cache, store.presignedUrlCache sessionId = some cache →
    .issued sessionId cache.presignedUrl ∈ log

theorem CacheIssued.issuedFor (h : CacheIssued store log) {session : Option String}
    {url : String} (hurl : cachedUrl now store session = some url) :
    IssuedFor log session url := by
  unfold cachedUrl at hurl
  split at hurl
  · cases hurl
  · rename_i sessionId hs
    split_ifs at hurl
    obtain ⟨cache, hc, rfl⟩ := Option.map_eq_some_iff.1 hurl
    exact ⟨sessionId, (truthy_eq_some.1 hs).1, h sessionId cache hc⟩

theorem TaskTurn.evidence {pc pc' : TaskPc}
    (h : TaskTurn who row item now store consent pc pc' effects) (hcache : CacheIssued store log)
    (he : pc.Evidence log row item.uploadSessionId) :
    pc'.Evidence (logAfter effects log) row item.uploadSessionId := by
  cases h with
  | cached recording hsum hurl => exact (hcache.issuedFor hurl).mono subset_logAfter
  | presign recording hsum => rfl
  | reissued sessionId url expiresAt =>
    exact ⟨sessionId, he.symm, by simp [logAfter, recordedEvent]⟩
  | issued sessionId url expiresAt =>
    simp [TaskPc.Evidence, logAfter, recordedEvent]
  | @sessionStored recording sessionId url => exact ⟨sessionId, he.1, he.2⟩
  | start => exact ⟨IssuedFor.mono subset_logAfter he, by simp [logAfter, recordedEvent]⟩
  | complete => trivial
  | started => exact he
  | transferred => exact he
  | @handler _ next _ hh =>
    cases next with
    | await pc' => exact hh.evidence he
    | returned => trivial
    | threw => trivial
  | progress loaded total => exact he
  | @putCompleted recording url code =>
    obtain ⟨⟨sessionId, hs, hissued⟩, hstart⟩ := he
    refine ⟨sessionId, hs, url, recording, code, ?_, ?_, ?_⟩
    · exact subset_logAfter hissued
    · exact subset_logAfter hstart
    · simp [logAfter, recordedEvent]
  | _ => trivial

/-- A URL gets into the cache together with the event that it was issued. -/
theorem cacheIssued_foldl (h : CacheIssued store log)
    (hset : ∀ sessionId cache, .setPresignedUrl sessionId cache ∈ effects →
      .issued sessionId cache.presignedUrl ∈ log) :
    CacheIssued (effects.foldl onStore store) log := by
  induction effects generalizing store with
  | nil => exact h
  | cons e effects ih =>
    refine ih ?_ fun sessionId cache hm => hset sessionId cache (List.mem_cons_of_mem _ hm)
    intro sessionId cache hc
    cases e with
    | setPresignedUrl sid c =>
      simp only [onStore, UploadQueueStore.setPresignedUrl, Function.update_apply] at hc
      split_ifs at hc with hsid
      · cases hc
        subst hsid
        exact hset _ _ List.mem_cons_self
      · exact h sessionId cache hc
    | clearPresignedUrl sid =>
      simp only [onStore, UploadQueueStore.clearPresignedUrl, Function.update_apply] at hc
      split_ifs at hc
      exact h sessionId cache hc
    | _ => exact h sessionId cache hc

theorem CacheIssued.mono {log' : List Event} (hlog : log ⊆ log') (h : CacheIssued store log) :
    CacheIssued store log' := fun sessionId cache hc => hlog (h sessionId cache hc)

theorem HandlerTurn.cacheIssued {pc : HandlerPc} {next : HandlerNext}
    (h : HandlerTurn who row item consent pc next effects) (hcache : CacheIssued store log) :
    CacheIssued (effects.foldl onStore store) (logAfter effects log) := by
  refine cacheIssued_foldl (hcache.mono subset_logAfter) fun sessionId cache hm => ?_
  cases h <;> simp at hm

theorem TaskTurn.cacheIssued {store' : UploadQueueStore} {pc pc' : TaskPc}
    (h : TaskTurn who row item now store consent pc pc' effects)
    (hcache : CacheIssued store' log) :
    CacheIssued (effects.foldl onStore store') (logAfter effects log) := by
  cases h with
  | handler hh => exact hh.cacheIssued hcache
  | _ =>
    refine cacheIssued_foldl (hcache.mono subset_logAfter) fun sessionId cache hm => ?_
    simp_all [logAfter, recordedEvent]

end Turns

/-! ### The invariant -/

/-- What the log must show for a row in status `st` with this session. -/
def RowEvidence (log : List Event) (row : RowId) (session : Option String)
    (st : UploadQueueStatus) : Prop :=
  (st = .completing ∨ st = .done → ∃ sessionId, session = some sessionId ∧
    Uploaded log row sessionId) ∧
  (st = .done → Completed log row session)

/-- The evidence invariant. -/
structure Evidence (s : State) : Prop where
  rows : ∀ row st, statusOf s.rows row = some st →
    RowEvidence s.log row (sessionOf s.rows row) st
  tasks : ∀ p t, s.tasks.get? p = some t → t.pc.Evidence s.log t.row (sessionOf s.rows t.row)
  drains : ∀ p row pc rest, s.drains.get? p = some (.handling row pc rest) →
    pc.Evidence s.log row (sessionOf s.rows row)
  cache : CacheIssued s.store s.log

theorem sessionOf_eq {rows : Table RowId UploadQueueItem} {row : RowId} {item : UploadQueueItem}
    (h : rows.get? row = some item) : sessionOf rows row = item.uploadSessionId := by
  simp [sessionOf, h]

theorem sessionOf_modify {rows : Table RowId UploadQueueItem} {row : RowId} {now : ℕ}
    {u : Update} (hu : u.session? = none) :
    sessionOf (rows.modify row (u.apply now)) = sessionOf rows := by
  funext r
  simp only [sessionOf, Table.get?_modify]
  split_ifs
  · cases rows.get? r <;> simp [Update.apply_uploadSessionId, hu]
  · rfl

theorem sessionOf_modify_of_ne {rows : Table RowId UploadQueueItem} {row r : RowId}
    {f : UploadQueueItem → UploadQueueItem} (hr : r ≠ row) :
    sessionOf (rows.modify row f) r = sessionOf rows r := by
  simp [sessionOf, Table.get?_modify, hr]

theorem sessionOf_modify_session {rows : Table RowId UploadQueueItem} {row : RowId} {now : ℕ}
    {item : UploadQueueItem} {sessionId : String} (h : rows.get? row = some item) :
    sessionOf (rows.modify row ((Update.session sessionId).apply now)) row = some sessionId := by
  simp [sessionOf, Table.get?_modify, h, Update.apply]

theorem sessionOf_push_of_get? {rows : Table RowId UploadQueueItem} {newId row : RowId}
    {item item' : UploadQueueItem} (hnew : newId ∉ rows.keys) (h : rows.get? row = some item) :
    sessionOf (rows.push newId item') row = sessionOf rows row := by
  have hne : row ≠ newId := fun he => hnew (he ▸ Table.mem_keys_of_get? h)
  simp [sessionOf, Table.get?_push hnew, hne]

theorem RowEvidence.mono {log log' : List Event} {row : RowId} {session : Option String}
    {st : UploadQueueStatus} (hlog : log ⊆ log') (h : RowEvidence log row session st) :
    RowEvidence log' row session st :=
  ⟨fun hst => (h.1 hst).imp fun _ => And.imp_right (Uploaded.mono hlog),
    fun hst => (h.2 hst).mono hlog⟩

/-- There is nothing to show for a row whose transfer has not ended. -/
theorem rowEvidence_of_ne {log : List Event} {row : RowId} {session : Option String}
    {st : UploadQueueStatus} (hst : st ≠ .completing ∧ st ≠ .done) :
    RowEvidence log row session st :=
  ⟨fun h => (h.elim hst.1 hst.2).elim, fun h => (hst.2 h).elim⟩

namespace Evidence

variable {s s' : State}

theorem init {consent : ConsentEntry} {now : ℕ} : Evidence (UploadService.init consent now) where
  rows := by rintro row st hst; cases hst
  tasks := by rintro p t hp; cases hp
  drains := by rintro p row pc rest hp; cases hp
  cache := by rintro sessionId cache hc; cases hc

theorem die (h : Evidence s) : Evidence s.die where
  rows := h.rows
  tasks := by rintro p t hp; cases hp
  drains := by rintro p row pc rest hp; cases hp
  cache := by rintro sessionId cache hc; cases hc

theorem processQueue (h : Evidence s) (hs : Slots s) : Evidence s.processQueue := by
  unfold State.processQueue
  split_ifs
  · exact h
  · refine ⟨h.rows, h.tasks, ?_, h.cache⟩
    intro p row pc rest hp
    rcases Table.of_get?_push hs.nextPid_fresh_drain hp with ⟨-, he⟩ | ⟨-, hp⟩
    · cases he
    · exact h.drains p row pc rest hp

/-- Moving a drain to where it has nothing to show. -/
theorem setDrain (h : Evidence s) {p : Pid} {pc : DrainPc}
    (hpc : ∀ row hpc rest, pc = .handling row hpc rest →
      hpc.Evidence s.log row (sessionOf s.rows row)) :
    Evidence { s with drains := s.drains.set p pc } := by
  refine ⟨h.rows, h.tasks, ?_, h.cache⟩
  intro q row qc rest hq
  rcases Table.of_get?_set hq with ⟨-, he⟩ | ⟨-, hq⟩
  · exact hpc row qc rest he.symm
  · exact h.drains q row qc rest hq

theorem setTask (h : Evidence s) {p : Pid} {t : Task}
    (ht : t.pc.Evidence s.log t.row (sessionOf s.rows t.row)) :
    Evidence { s with tasks := s.tasks.set p t } := by
  refine ⟨h.rows, ?_, h.drains, h.cache⟩
  intro q u hq
  rcases Table.of_get?_set hq with ⟨-, rfl⟩ | ⟨-, hq⟩
  · exact ht
  · exact h.tasks q u hq

/-- The effects of a turn only add to the log. -/
theorem perform (h : Evidence s) (who : Owner) {effects : List Effect}
    (hcache : CacheIssued (effects.foldl onStore s.store) (logAfter effects s.log)) :
    Evidence (s.perform who effects) where
  rows row st hst := (h.rows row st hst).mono subset_logAfter
  tasks p t hp := (h.tasks p t hp).mono subset_logAfter
  drains p row pc rest hp := (h.drains p row pc rest hp).mono subset_logAfter
  cache := hcache

theorem start (h : Evidence s) (hs : Slots s) {p : Pid} {row : RowId} {id : String} :
    Evidence ((s.startTask row id).testSlots p) := by
  have hstart : Evidence (s.startTask row id) := by
    refine ⟨h.rows, ?_, h.drains, h.cache⟩
    intro q t hq
    rcases Table.of_get?_push hs.nextPid_fresh_task hq with ⟨-, rfl⟩ | ⟨-, hq⟩
    · trivial
    · exact h.tasks q t hq
  refine hstart.setDrain ?_
  split_ifs <;> rintro row pc rest he <;> cases he

/-- The rows of running calls keep their session when another row is written, or when the
write does not store a session. -/
theorem sessionOf_run {rows : Table RowId UploadQueueItem} {now : ℕ} {newId row : RowId}
    {action : Action} {item : UploadQueueItem} (hnew : newId ∉ rows.keys)
    (hrow : rows.get? row = some item)
    (ha : ∀ u, action = .update row u → u.session? = none) :
    sessionOf (action.run now newId rows) row = sessionOf rows row := by
  cases action with
  | create recordingId bytesTotal => exact sessionOf_push_of_get? hnew hrow
  | update row' u =>
    by_cases hr : row = row'
    · subst hr
      have hu := ha u rfl
      exact congrFun (sessionOf_modify hu) row
    · exact sessionOf_modify_of_ne hr

theorem rows_modify (h : Evidence s) {row r : RowId} {u : Update} {now : ℕ}
    {st : UploadQueueStatus} (hst : statusOf (s.rows.modify row (u.apply now)) r = some st)
    (hrow : ∀ old, statusOf s.rows row = some old →
      RowEvidence s.log row (sessionOf (s.rows.modify row (u.apply now)) row)
        (u.status?.getD old)) :
    RowEvidence s.log r (sessionOf (s.rows.modify row (u.apply now)) r) st := by
  rcases of_statusOf_modify hst with ⟨old, rfl, hold, rfl⟩ | ⟨hr, hst⟩
  · exact hrow old hold
  · rw [sessionOf_modify_of_ne hr]
    exact h.rows r st hst

/-- The first job is performed: what can be shown for the rows. -/
theorem commit_rows (h : Evidence s) (ho : Ownership s) {job : Job}
    (hj : JobOf s job) {newId : RowId} (hnew : newId ∉ s.rows.keys) {r : RowId}
    {st : UploadQueueStatus} (hst : statusOf (job.action.run s.now newId s.rows) r = some st) :
    RowEvidence s.log r (sessionOf (job.action.run s.now newId s.rows) r) st := by
  cases hj with
  | progress row loaded =>
    refine h.rows_modify hst fun old hold => ?_
    rw [sessionOf_modify rfl]
    exact h.rows row old hold
  | create hp =>
    rcases of_statusOf_push hnew hst with rfl | hst
    · exact rowEvidence_of_ne (by simp [newItem])
    · obtain ⟨item, hrow, rfl⟩ := Option.map_eq_some_iff.1 hst
      rw [Action.run, sessionOf_push_of_get? hnew hrow]
      exact h.rows r _ hst
  | reset hp =>
    exact h.rows_modify hst fun old hold => rowEvidence_of_ne (by simp [Update.status?])
  | @task p row id recording w hp =>
    refine h.rows_modify hst fun old hold => ?_
    have hfits := ho.tasks p _ old hp hold
    have hev := h.tasks p _ hp
    cases w with
    | session sessionId url =>
      obtain rfl | rfl : old = .pending ∨ old = .retrying := hfits <;>
      exact rowEvidence_of_ne (by simp [TaskWrite.update, Update.status?])
    | completing =>
      rw [sessionOf_modify rfl]
      exact ⟨fun _ => hev, fun hdone => by cases hdone⟩
    | _ => exact rowEvidence_of_ne (by simp [TaskWrite.update, Update.status?])
  | @taskDone p row id conflict serverId hp =>
    refine h.rows_modify hst fun old hold => ?_
    have hfits := TaskPc.fits_handling.1 (ho.tasks p _ old hp hold)
    rw [sessionOf_modify rfl]
    exact ⟨fun _ => (h.rows row old hold).1 hfits.transferred, fun _ => h.tasks p _ hp⟩
  | @drainDone p row conflict serverId rest hp =>
    refine h.rows_modify hst fun old hold => ?_
    have htr : old = .completing ∨ old = .done := by
      simpa [Transferred, hold] using ho.transferred hp
    rw [sessionOf_modify rfl]
    exact ⟨fun _ => (h.rows row old hold).1 htr, fun _ => h.drains p _ _ _ hp⟩

/-- Only the task of a row stores a session in it. -/
theorem session_job {job : Job} (hj : JobOf s job) {row : RowId} {u : Update}
    (ha : job.action = .update row u) (hu : u.session? ≠ none) :
    ∃ p id recording w, job.owner = some (.task p) ∧
      s.tasks.get? p = some ⟨row, id, .writing recording w .pending⟩ := by
  cases hj with
  | @task p row' id recording w hp =>
    cases ha
    exact ⟨p, id, recording, w, rfl, hp⟩
  | create hp => cases ha
  | _ =>
    cases ha
    exact absurd rfl hu

/-- The first job is performed: what the tasks can show. -/
theorem commit_tasks (h : Evidence s) (hs : Slots s) {job : Job} (hj : JobOf s job)
    {newId : RowId} (hnew : newId ∉ s.rows.keys) {p : Pid} {t : Task}
    (hp : (s.settle .resolved job.owner).tasks.get? p = some t) :
    t.pc.Evidence s.log t.row (sessionOf (job.action.run s.now newId s.rows) t.row) := by
  rcases s.of_get?_settle_tasks hp with ⟨u, hown, hu, rfl⟩ | ⟨hown, hp⟩
  · -- the write is the one the task waits for
    obtain ⟨item, hrow, -⟩ := hs.taskRows p u hu
    have hev := h.tasks p u hu
    cases hj with
    | @task q row id recording w hq =>
      cases hown
      cases hq.symm.trans hu
      cases w with
      | session sessionId url =>
        exact ⟨sessionOf_modify_session hrow, hev⟩
      | failed error => trivial
      | retrying attempts error => trivial
      | uploading url =>
        have hsame : sessionOf (s.rows.modify row (Update.uploading.apply s.now)) =
            sessionOf s.rows := sessionOf_modify rfl
        exact hsame ▸ hev
      | completing =>
        have hsame : sessionOf (s.rows.modify row (Update.completing.apply s.now)) =
            sessionOf s.rows := sessionOf_modify rfl
        exact hsame ▸ hev
    | @taskDone q row id conflict serverId hq =>
      cases hown
      cases hq.symm.trans hu
      have hsame : sessionOf (s.rows.modify row (Update.done.apply s.now)) =
          sessionOf s.rows := sessionOf_modify rfl
      exact hsame ▸ hev
    | _ => cases hown
  · -- it is somebody else's, so it does not store a session in this row
    obtain ⟨item, hrow, -⟩ := hs.taskRows p t hp
    rw [sessionOf_run hnew hrow]
    · exact h.tasks p t hp
    · intro u ha
      by_contra hu
      obtain ⟨q, id, recording, w, hq, hqt⟩ := session_job hj ha hu
      have := hs.task_unique_row hqt hp rfl
      exact hown (this ▸ hq)

/-- The first job is performed: what the drains can show. -/
theorem commit_drains (h : Evidence s) (ho : Ownership s) {job : Job} (hj : JobOf s job)
    {newId : RowId} (hnew : newId ∉ s.rows.keys) {p : Pid} {row : RowId} {pc : HandlerPc}
    {rest : List RowId}
    (hp : (s.settle .resolved job.owner).drains.get? p = some (.handling row pc rest)) :
    pc.Evidence s.log row (sessionOf (job.action.run s.now newId s.rows) row) := by
  have hold : ∃ pc', s.drains.get? p = some (.handling row pc' rest) ∧
      (pc'.Evidence s.log row (sessionOf s.rows row) →
        pc.Evidence s.log row (sessionOf s.rows row)) := by
    rcases s.of_get?_settle_drains hp with ⟨qc, -, hq, he⟩ | ⟨-, hp⟩
    · obtain ⟨pc', rfl, rfl⟩ := DrainPc.of_settle_handling he.symm
      exact ⟨pc', hq, HandlerPc.Evidence.settle .resolved⟩
    · exact ⟨pc, hp, id⟩
  obtain ⟨pc', hq, himp⟩ := hold
  have htr := ho.transferred hq
  obtain ⟨item, hrow⟩ : ∃ item, s.rows.get? row = some item := by
    obtain hst | hst := htr <;>
    · obtain ⟨item, hrow, -⟩ := Option.map_eq_some_iff.1 hst
      exact ⟨item, hrow⟩
  rw [sessionOf_run hnew hrow]
  · exact himp (h.drains p row pc' rest hq)
  · intro u ha
    by_contra hu
    obtain ⟨q, id, recording, w, -, hqt⟩ := session_job hj ha hu
    exact ho.not_transferred hqt htr

theorem reject (h : Evidence s) {job : Job} {jobs : List Job} :
    Evidence ({ s with writer := jobs }.settle .rejected job.owner) := by
  constructor
  · rw [State.settle_rows, State.settle_log]
    exact h.rows
  · intro p t hp
    rw [State.settle_rows, State.settle_log]
    rcases State.of_get?_settle_tasks _ hp with ⟨u, -, hu, rfl⟩ | ⟨-, hp⟩
    · have hev := h.tasks p u hu
      obtain ⟨row, id, pc⟩ := u
      cases pc with
      | writing recording w write => cases w <;> cases write <;> exact hev
      | handling pc => exact HandlerPc.Evidence.settle .rejected hev
      | _ => exact hev
    · exact h.tasks p t hp
  · intro p row pc rest hp
    rw [State.settle_rows, State.settle_log]
    rcases State.of_get?_settle_drains _ hp with ⟨qc, -, hq, he⟩ | ⟨-, hp⟩
    · obtain ⟨pc', rfl, rfl⟩ := DrainPc.of_settle_handling he.symm
      exact (h.drains p row pc' rest hq).settle .rejected
    · exact h.drains p row pc rest hp
  · rw [State.settle_store, State.settle_log]
    exact h.cache

theorem commit (h : Evidence s) (hs : Slots s) (hwriter : Writer s) (ho : Ownership s)
    {job : Job} {jobs : List Job} (hw : s.writer = job :: jobs) {newId : RowId}
    (hnew : newId ∉ s.rows.keys) :
    Evidence ({ s with rows := job.action.run s.now newId s.rows, writer := jobs }.settle
      .resolved job.owner) := by
  have hj := hwriter.jobOf (hw ▸ List.mem_cons_self)
  constructor
  · rw [State.settle_rows, State.settle_log]
    exact fun r st hst => h.commit_rows ho hj hnew hst
  · intro p t hp
    rw [State.settle_rows, State.settle_log]
    refine h.commit_tasks hs hj hnew (p := p) ?_
    rwa [State.get?_settle_tasks] at hp ⊢
  · intro p row pc rest hp
    rw [State.settle_rows, State.settle_log]
    have hp' : (s.settle .resolved job.owner).drains.get? p = some (.handling row pc rest) := by
      rwa [State.get?_settle_drains] at hp ⊢
    exact h.commit_drains ho hj hnew hp'
  · rw [State.settle_store, State.settle_log]
    exact h.cache

theorem move (h : Evidence s) (hs : Slots s) (hwriter : Writer s) (ho : Ownership s)
    {l : Label} (hm : Move s l s') : Evidence s' := by
  cases hm with
  | outside consent listening hnow => exact { h with }
  | screen recording =>
    have hlog : s.log ⊆ .requestTranscription .detailScreen recording.id :: s.log :=
      List.subset_cons_self _ _
    exact ⟨fun row st hst => (h.rows row st hst).mono hlog,
      fun p t hp => (h.tasks p t hp).mono hlog,
      fun p row pc rest hp => (h.drains p row pc rest hp).mono hlog, h.cache.mono hlog⟩
  | wake listening =>
    exact processQueue (s := { s with listening := listening }) { h with } { hs with }
  | enqueue recordingId bytesTotal => exact { h with }
  | retry row => exact { h with }
  | drain hp ht =>
    refine h.setDrain fun row hpc rest he => ?_
    cases ht <;> cases he
    trivial
  | queryFailed hp hpc => exact h.setDrain nofun
  | @handler o p row pc rest item next effects hp hrow ht ho' =>
    refine (h.perform (.drain p) (ht.cacheIssued h.cache)).setDrain ?_
    intro r pc' rest' he
    cases next with
    | await pc'' =>
      cases he
      have hev := h.drains p _ _ _ hp
      rw [sessionOf_eq hrow] at hev
      rw [State.perform_rows, sessionOf_eq hrow]
      exact ht.evidence hev
    | returned => cases he
    | threw => cases he
  | start hp hrow => exact h.start hs
  | leave hp =>
    refine ⟨h.rows, h.tasks, ?_, h.cache⟩
    intro q row pc rest hq
    obtain ⟨-, hq⟩ := Table.of_get?_erase hq
    exact h.drains q row pc rest hq
  | @task l p t pc effects hp ht =>
    obtain ⟨item, hrow, -⟩ := hs.taskRows p t hp
    refine (h.perform (.task p) ((ht item hrow).cacheIssued h.cache)).setTask ?_
    have hev := h.tasks p t hp
    rw [sessionOf_eq hrow] at hev
    rw [State.perform_rows, sessionOf_eq hrow]
    exact (ht item hrow).evidence h.cache hev
  | @finish p t hp hpc =>
    refine processQueue (s := { s with
      store := s.store.removeActiveUpload t.recordingId, tasks := s.tasks.erase p })
      ⟨h.rows, ?_, h.drains, h.cache⟩ (hs.releaseTask hp)
    intro q u hq
    obtain ⟨-, hq⟩ := Table.of_get?_erase hq
    exact h.tasks q u hq
  | reset hp hrow hst => exact { h with }
  | @wakeCall p pc hp hpc => exact processQueue (s := s.endCall p) { h with } hs.endCall
  | endCall hp hpc hidle => exact { h with }
  | commit hw hnew => exact h.commit hs hwriter ho hw hnew
  | reject hw => exact h.reject
  | kill =>
    exact processQueue (s := { s.die with listening := true }) { h.die with }
      { Slots.die with }

/-- **Evidence is complete in every reachable state.** -/
theorem of_reachable (h : uploadService.Reachable s) : Evidence s := by
  refine h.invariant_of ?_ fun s l s' hr he hst =>
    he.move (.of_reachable hr) (.of_reachable hr) (.of_reachable hr) (.of_step hst)
  rintro s ⟨consent, now, rfl⟩
  exact init

end Evidence

/-- **No row is finished without evidence.**  A `completing` or `done` row has the session of a
transfer that completed at a URL issued for it, and the session of a `done` row is complete on
the server. -/
theorem finished_has_evidence {s : State} (h : uploadService.Reachable s) {row : RowId}
    {item : UploadQueueItem} (hrow : s.rows.get? row = some item) :
    (item.status = .completing ∨ item.status = .done →
      ∃ sessionId, item.uploadSessionId = some sessionId ∧ Uploaded s.log row sessionId) ∧
    (item.status = .done → Completed s.log row item.uploadSessionId) := by
  have hev := (Evidence.of_reachable h).rows row _ (statusOf_of_get? hrow)
  rwa [sessionOf_eq hrow] at hev

/-- The transfer completes, and its session is completed on the server. -/
def uploadDone : List Label :=
  transferUnderWay ++
    [.native 2 (.completed 200), .resume (.task 2) .ok, .commit "q2", .resume (.task 2) .ok,
      .resume (.task 2) (.found (some meeting)), .resume (.task 2) .ok, .commit "q2"]

theorem finished_has_evidence_uploadDone :
    ∃ s ∈ LTS.exec step (init .missing 0) uploadDone, ∃ item,
      s.rows.get? "q1" = some item ∧ item.status = .done ∧
        Completed s.log "q1" item.uploadSessionId := by
  have hst : (LTS.exec step (init .missing 0) uploadDone).bind
      (fun s => statusOf s.rows "q1") = some .done := by decide +kernel
  obtain ⟨s, hs, hst⟩ := Option.bind_eq_some_iff.1 hst
  obtain ⟨item, hrow, hitem⟩ := Option.map_eq_some_iff.1 hst
  exact ⟨s, hs, item, hrow, hitem,
    (finished_has_evidence (reachable_of_exec uploadDone hs) hrow).2 hitem⟩

end UploadService

end FCord
