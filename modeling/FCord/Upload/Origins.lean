import FCord.Upload.Evidence
import FCord.Upload.Rows

/-!
# An upload stays with its recording

A row names its recording by an id, its upload session by another one, and the session has a URL
that is kept somewhere else; a transfer reads all three at different times, and possibly in
different processes.  `Origins` ties them to the recording in `local_recordings`: if `find` answers
with the recording that it is asked for, and the server issues a session for one recording only
(`Truthful`), then what is sent to the URL of a session is the file of the recording that the
session was issued for, and everything the server is told about that session is about that recording
(`uploads_stay_with_recording`).
-/

namespace FCord

/-- The recording is known to the server as `serverId`. -/
def ServedAs (recording : Option LocalRecording) (serverId : String) : Prop :=
  ∃ r, recording = some r ∧ r.serverRecordingId = some serverId

/-- The server id that `_handleCompleting` carries is the one of the recording. -/
def HandlerPc.AtHome (recording : Option LocalRecording) : HandlerPc → Prop
  | .findRecording => True
  | .completing serverId _ => ServedAs recording serverId
  | .writingDone _ serverId _ => ServedAs recording serverId
  | .readingConsent serverId => ServedAs recording serverId
  | .requesting serverId => ServedAs recording serverId

/-- What `_processItem` carries belongs to the recording; `serverOf` tells for which recording of
the server a session was issued. -/
def TaskPc.AtHome (serverOf : String → String) (recording : Option LocalRecording) : TaskPc → Prop
  | .findRecording => True
  | .presigning r _ => recording = some r
  | .writing r (.session sessionId _) _ =>
    recording = some r ∧ r.serverRecordingId = some (serverOf sessionId)
  | .writing r _ _ => recording = some r
  | .starting r _ => recording = some r
  | .transferring r _ => recording = some r
  | .settled r _ _ => recording = some r
  | .handling pc => pc.AtHome recording
  | .finishing => True

/-- What happens to a row concerns its recording; `home` gives the recordings of the rows. -/
def Event.AtHome (serverOf : String → String) (home : RowId → Option LocalRecording)
    (log : List Event) : Event → Prop
  | .startUpload row options => ∃ r sessionId url, home row = some r ∧
      r.serverRecordingId = some (serverOf sessionId) ∧ .issued sessionId url ∈ log ∧
      options = uploadOptions r url
  | .putCompleted row url _ =>
    ∃ sessionId, ServedAs (home row) (serverOf sessionId) ∧ .issued sessionId url ∈ log
  | .completeCall _ row sessionId checksum _ => ∃ r, home row = some r ∧
      r.serverRecordingId = some (serverOf sessionId) ∧ checksum = r.checksumSha256
  | .completeDone _ row sessionId => ServedAs (home row) (serverOf sessionId)
  | .requestTranscription (.completion _ row) serverId => ServedAs (home row) serverId
  | _ => True

section Mono

variable {serverOf : String → String} {home home' : RowId → Option LocalRecording}
variable {log log' : List Event}

theorem ServedAs.mono {recording recording' : Option LocalRecording} {serverId : String}
    (h : ServedAs recording serverId) (hr : ∀ r, recording = some r → recording' = some r) :
    ServedAs recording' serverId := by
  obtain ⟨r, he, hserver⟩ := h
  exact ⟨r, hr r he, hserver⟩

theorem HandlerPc.AtHome.mono {recording recording' : Option LocalRecording} {pc : HandlerPc}
    (h : pc.AtHome recording) (hr : ∀ r, recording = some r → recording' = some r) :
    pc.AtHome recording' := by
  cases pc with
  | findRecording => trivial
  | _ => exact ServedAs.mono h hr

theorem TaskPc.AtHome.mono {recording recording' : Option LocalRecording} {pc : TaskPc}
    (h : pc.AtHome serverOf recording) (hr : ∀ r, recording = some r → recording' = some r) :
    pc.AtHome serverOf recording' := by
  cases pc with
  | findRecording => trivial
  | finishing => trivial
  | handling pc => exact HandlerPc.AtHome.mono h hr
  | writing r w write =>
    cases w with
    | session sessionId url => exact ⟨hr r h.1, h.2⟩
    | _ => exact hr r h
  | _ => exact hr _ h

theorem Event.AtHome.mono {event : Event} (h : event.AtHome serverOf home log)
    (hhome : ∀ row r, home row = some r → home' row = some r) (hlog : log ⊆ log') :
    event.AtHome serverOf home' log' := by
  cases event with
  | startUpload row options =>
    obtain ⟨r, sessionId, url, hrow, hserver, hissued, he⟩ := h
    exact ⟨r, sessionId, url, hhome row r hrow, hserver, hlog hissued, he⟩
  | putCompleted row url code =>
    obtain ⟨sessionId, hserved, hissued⟩ := h
    exact ⟨sessionId, hserved.mono (hhome row), hlog hissued⟩
  | completeCall who row sessionId checksum bytes =>
    obtain ⟨r, hrow, hr⟩ := h
    exact ⟨r, hhome row r hrow, hr⟩
  | completeDone who row sessionId => exact ServedAs.mono h (hhome row)
  | requestTranscription op serverId =>
    cases op with
    | completion who row => exact ServedAs.mono h (hhome row)
    | detailScreen => trivial
  | _ => trivial

/-- Settling a write does not change what a call carries. -/
theorem HandlerPc.AtHome.settle {recording : Option LocalRecording} {pc : HandlerPc}
    (h : pc.AtHome recording) (promise : Promise) : (pc.settle promise).AtHome recording := by
  unfold HandlerPc.settle
  split <;> exact h

theorem TaskPc.AtHome.settle {recording : Option LocalRecording} {pc : TaskPc}
    (h : pc.AtHome serverOf recording) (promise : Promise) :
    (pc.settle promise).AtHome serverOf recording := by
  unfold TaskPc.settle
  split
  · rename_i w
    cases w <;> exact h
  · exact HandlerPc.AtHome.settle h promise
  · exact h

end Mono

namespace UploadService

/-- The recording that a row uploads. -/
def recordingOf (recordings : String → Option LocalRecording)
    (rows : Table RowId UploadQueueItem) (row : RowId) : Option LocalRecording :=
  (rows.get? row).bind fun item => recordings item.recordingId

/-- The row that a drain completes. -/
def DrainPc.handled : DrainPc → Option RowId
  | .handling row _ _ => some row
  | _ => none

/-- The recording for which a task waits for a URL. -/
def Task.presigns (t : Task) : Option LocalRecording :=
  match t.pc with
  | .presigning r _ => some r
  | _ => none

/-- The answers from outside: `find` returns the recording that it is asked for, and a session is
issued for one recording of the server. -/
def Truthful (recordings : String → Option LocalRecording) (serverOf : String → String)
    (s : State) : Label → Prop
  | .resume (.task p) (.found (some r)) =>
    ∀ t ∈ s.tasks.get? p, recordingOf recordings s.rows t.row = some r
  | .resume (.drain p) (.found (some r)) =>
    ∀ pc ∈ s.drains.get? p, ∀ row ∈ pc.handled, recordingOf recordings s.rows row = some r
  | .resume (.task p) (.presigned sessionId _ _) =>
    ∀ t ∈ s.tasks.get? p, ∀ r ∈ t.presigns, r.serverRecordingId = some (serverOf sessionId)
  | _ => True

/-- The invariant. -/
structure Origins (recordings : String → Option LocalRecording) (serverOf : String → String)
    (s : State) : Prop where
  /-- The stored session was issued for the recording of the row. -/
  rows : ∀ row sessionId, sessionOf s.rows row = some sessionId →
    ServedAs (recordingOf recordings s.rows row) (serverOf sessionId)
  tasks : ∀ p t, s.tasks.get? p = some t →
    t.pc.AtHome serverOf (recordingOf recordings s.rows t.row)
  drains : ∀ p row pc rest, s.drains.get? p = some (.handling row pc rest) →
    pc.AtHome (recordingOf recordings s.rows row)
  log : ∀ event ∈ s.log, event.AtHome serverOf (recordingOf recordings s.rows) s.log

section Steps

variable {recordings : String → Option LocalRecording} {serverOf : String → String}
variable {s s' : State} {l : Label}

/-! ### The recordings of the rows -/

/-- A row keeps its recording when the database performs a write. -/
theorem recordingOf_run {rows : Table RowId UploadQueueItem} {now : ℕ} {newId : RowId}
    {action : Action} (hnew : newId ∉ rows.keys) (row : RowId) (r : LocalRecording)
    (h : recordingOf recordings rows row = some r) :
    recordingOf recordings (action.run now newId rows) row = some r := by
  obtain ⟨item, hrow, hr⟩ := Option.bind_eq_some_iff.1 h
  obtain ⟨item', hrow', he⟩ : ∃ item', (action.run now newId rows).get? row = some item' ∧
      item'.recordingId = item.recordingId := Action.get?_run hnew hrow
  simp [recordingOf, hrow', he, hr]

theorem recordingOf_of_get? {rows : Table RowId UploadQueueItem} {row : RowId}
    {item : UploadQueueItem} (h : rows.get? row = some item) :
    recordingOf recordings rows row = recordings item.recordingId := by
  simp [recordingOf, h]

/-! ### The turns that hear from outside -/

/-- `_handleCompleting` has found a recording with a server id, or it returns. -/
theorem handleCompleting_found {who : Owner} {row : RowId} {item : UploadQueueItem}
    {consent : ConsentEntry} {o : Outcome} {next : HandlerNext} {effects : List Effect}
    (h : handleCompleting who row item consent .findRecording o = some (next, effects)) :
    (next = .returned ∧ effects = []) ∨ ∃ r serverId sessionId, o = .found (some r) ∧
      r.serverRecordingId = some serverId ∧ item.uploadSessionId = some sessionId ∧
      next = .await (.completing serverId sessionId) ∧
      effects =
        [.record (.completeCall who row sessionId r.checksumSha256 item.bytesUploaded)] := by
  cases o with
  | found recording =>
    simp only [handleCompleting] at h
    split at h
    · rename_i r serverId sessionId hfound hsession
      obtain ⟨r', hr', hserver⟩ := Option.bind_eq_some_iff.1 hfound
      obtain ⟨serverId', hserver, he⟩ := Option.map_eq_some_iff.1 hserver
      cases he
      cases h
      exact .inr ⟨r, serverId, sessionId, congrArg Outcome.found hr', (truthy_eq_some.1 hserver).1,
        (truthy_eq_some.1 hsession).1, rfl, rfl⟩
    · cases h
      exact .inl ⟨rfl, rfl⟩
  | _ => cases h

/-- `_processItem` has found a recording, or it ends. -/
theorem processItem_found {who : Owner} {row : RowId} {item : UploadQueueItem} {now : ℕ}
    {store : UploadQueueStore} {consent : ConsentEntry} {o : Outcome} {pc : TaskPc}
    {effects : List Effect}
    (h : processItem who row item now store consent .findRecording o = some (pc, effects)) :
    (pc = .finishing ∧ effects = []) ∨ ∃ r, o = .found (some r) ∧
      ((∃ error, pc = .writing r (.failed error) .pending ∧
          effects = [.write (.update row (.failed error))]) ∨
        (∃ url, pc = .writing r (.uploading url) .pending ∧
          effects = [.write (.update row .uploading)]) ∨
        pc = .presigning r item.uploadSessionId ∧ effects = []) := by
  cases o with
  | found recording =>
    simp only [processItem] at h
    split at h
    · cases h
      exact .inl ⟨rfl, rfl⟩
    · rename_i r serverId hfound
      obtain ⟨r', hr', hserver⟩ := Option.bind_eq_some_iff.1 hfound
      obtain ⟨serverId', -, he⟩ := Option.map_eq_some_iff.1 hserver
      cases he
      refine .inr ⟨r, congrArg Outcome.found hr', ?_⟩
      split_ifs at h with hsum
      · cases h
        exact .inl ⟨_, rfl, rfl⟩
      · split at h
        · cases h
          exact .inr (.inl ⟨_, rfl, rfl⟩)
        · cases h
          exact .inr (.inr ⟨rfl, rfl⟩)
  | _ => cases h

/-- A URL is answered, or the upload is given up. -/
theorem processItem_presigned {who : Owner} {row : RowId} {item : UploadQueueItem} {now : ℕ}
    {store : UploadQueueStore} {consent : ConsentEntry} {r : LocalRecording} {old : Option String}
    {o : Outcome} {pc : TaskPc} {effects : List Effect}
    (h : processItem who row item now store consent (.presigning r old) o = some (pc, effects)) :
    (∃ error, pc = .writing r (.failed error) .pending ∧
      effects = [.write (.update row (.failed error))]) ∨
    ∃ sessionId url expiresAt, o = .presigned sessionId url expiresAt ∧
      (pc = .writing r (.uploading url) .pending ∨
        pc = .writing r (.session sessionId url) .pending) ∧
      effects.filterMap recordedEvent = [.issued sessionId url] := by
  cases o with
  | presigned sessionId url expiresAt =>
    refine .inr ⟨sessionId, url, expiresAt, rfl, ?_⟩
    simp only [processItem] at h
    split_ifs at h with hs
    · cases h
      exact ⟨.inl rfl, rfl⟩
    · cases h
      exact ⟨.inr rfl, rfl⟩
  | apiError status =>
    cases h
    exact .inl ⟨_, rfl, rfl⟩
  | error =>
    cases h
    exact .inl ⟨_, rfl, rfl⟩
  | _ => cases h

/-! ### The turns keep what belongs to the recording -/

/-- `_handleCompleting`. -/
theorem handleCompleting_atHome {who : Owner} {row : RowId} {item : UploadQueueItem}
    {consent : ConsentEntry} {pc : HandlerPc} {o : Outcome} {next : HandlerNext}
    {effects : List Effect} {home : RowId → Option LocalRecording} {log log' : List Event}
    (h : handleCompleting who row item consent pc o = some (next, effects))
    (hfound : ∀ r, o = .found (some r) → home row = some r)
    (hrow : ∀ sessionId, item.uploadSessionId = some sessionId →
      ServedAs (home row) (serverOf sessionId))
    (hpc : pc.AtHome (home row)) (hev : pc.Evidence log row item.uploadSessionId) :
    (∀ pc', next = .await pc' → pc'.AtHome (home row)) ∧
      ∀ event, .record event ∈ effects → event.AtHome serverOf home log' := by
  cases pc with
  | findRecording =>
    rcases handleCompleting_found h with
      ⟨rfl, rfl⟩ | ⟨r, serverId, sessionId, ho, hserver, hsession, rfl, rfl⟩
    · exact ⟨nofun, nofun⟩
    · have hhome := hfound r ho
      refine ⟨fun pc' he => ?_, fun event hm => ?_⟩
      · cases he
        exact ⟨r, hhome, hserver⟩
      · cases List.mem_singleton.1 hm
        obtain ⟨r', hr', hs⟩ := hrow sessionId hsession
        cases hhome.symm.trans hr'
        exact ⟨r, hhome, hs, rfl⟩
  | completing serverId sessionId =>
    cases handlerTurn_of_handleCompleting h with
    | completed conflict =>
      refine ⟨fun pc' he => ?_, fun event hm => ?_⟩
      · cases he
        exact hpc
      · simp only [List.mem_cons, Effect.record.injEq, reduceCtorEq, List.not_mem_nil,
          or_false] at hm
        rw [hm]
        exact hrow sessionId hev
    | stop hpc' => exact ⟨nofun, nofun⟩
  | writingDone conflict serverId write =>
    cases handlerTurn_of_handleCompleting h with
    | written => exact ⟨fun pc' he => by cases he; exact hpc, by simp⟩
    | _ => exact ⟨nofun, nofun⟩
  | readingConsent serverId =>
    cases handlerTurn_of_handleCompleting h with
    | request hc =>
      refine ⟨fun pc' he => by cases he; exact hpc, fun event hm => ?_⟩
      simp only [List.mem_cons, Effect.record.injEq, List.not_mem_nil, or_false] at hm
      rcases hm with rfl | rfl
      · trivial
      · exact hpc
    | refuse =>
      refine ⟨nofun, fun event hm => ?_⟩
      cases List.mem_singleton.1 hm
      trivial
    | stop hpc' => exact ⟨nofun, nofun⟩
  | requesting serverId =>
    cases handlerTurn_of_handleCompleting h with
    | stop hpc' => exact ⟨nofun, nofun⟩

/-- The session of a row whose URL is in use was issued for its recording. -/
theorem IssuedFor.served {log : List Event} {session : Option String} {url : String}
    {recording : Option LocalRecording} (h : IssuedFor log session url)
    (hrow : ∀ sessionId, session = some sessionId → ServedAs recording (serverOf sessionId)) :
    ∃ sessionId, ServedAs recording (serverOf sessionId) ∧ .issued sessionId url ∈ log := by
  obtain ⟨sessionId, hs, hissued⟩ := h
  exact ⟨sessionId, hrow sessionId hs, hissued⟩

/-- `_processItem`. -/
theorem TurnBy.atHome {p : Pid} {t : Task} {item : UploadQueueItem} {pc : TaskPc}
    {effects : List Effect} (h : TurnBy s p t item l pc effects)
    (hp : s.tasks.get? p = some t) (hok : Truthful recordings serverOf s l)
    (hrow : ∀ sessionId, item.uploadSessionId = some sessionId →
      ServedAs (recordingOf recordings s.rows t.row) (serverOf sessionId))
    (hpc : t.pc.AtHome serverOf (recordingOf recordings s.rows t.row))
    (hev : t.pc.Evidence s.log t.row item.uploadSessionId) :
    pc.AtHome serverOf (recordingOf recordings s.rows t.row) ∧ ∀ event, .record event ∈ effects →
      event.AtHome serverOf (recordingOf recordings s.rows) (logAfter effects s.log) := by
  obtain ⟨row, id, pc₀⟩ := t
  cases pc₀ with
  | findRecording =>
    cases h with
    | event h => cases h
    | resumed h =>
      rcases processItem_found h with ⟨rfl, rfl⟩ |
        ⟨r, rfl, ⟨error, rfl, rfl⟩ | ⟨url, rfl, rfl⟩ | ⟨rfl, rfl⟩⟩
      · exact ⟨trivial, nofun⟩
      · exact ⟨hok _ hp, by simp⟩
      · exact ⟨hok _ hp, by simp⟩
      · exact ⟨hok _ hp, nofun⟩
  | presigning r old =>
    cases h with
    | event h => cases h
    | resumed h =>
      rcases processItem_presigned h with
        ⟨error, rfl, rfl⟩ | ⟨sessionId, url, expiresAt, rfl, hpc', hevents⟩
      · exact ⟨hpc, by simp⟩
      · have hserver := hok _ hp r rfl
        refine ⟨?_, fun event hm => ?_⟩
        · rcases hpc' with rfl | rfl
          · exact hpc
          · exact ⟨hpc, hserver⟩
        · have hm' : event ∈ effects.filterMap recordedEvent := List.mem_filterMap.2 ⟨_, hm, rfl⟩
          rw [hevents, List.mem_singleton] at hm'
          subst hm'
          trivial
  | handling pc₀ =>
    cases h with
    | event h => cases h
    | resumed h =>
      simp only [processItem] at h
      have hturn : ∀ {next : HandlerNext} {effects : List Effect} {o : Outcome},
          Truthful recordings serverOf s (.resume (.task p) o) →
          handleCompleting (.task p) row item s.consent pc₀ o = some (next, effects) →
          (∀ pc', next = .await pc' → pc'.AtHome (recordingOf recordings s.rows row)) ∧
            ∀ event, .record event ∈ effects → event.AtHome serverOf
              (recordingOf recordings s.rows) (logAfter effects s.log) := by
        intro next effects o hok hturn
        refine handleCompleting_atHome hturn (fun r ho => ?_) hrow hpc hev
        subst ho
        exact hok _ hp
      split at h
      · cases h
      · rename_i hh
        cases h
        exact ⟨(hturn hok hh).1 _ rfl, (hturn hok hh).2⟩
      · rename_i hh
        cases h
        exact ⟨trivial, (hturn hok hh).2⟩
      · rename_i hh
        cases h
        exact ⟨trivial, (hturn hok hh).2⟩
  | transferring r url =>
    cases h.taskTurn with
    | progress loaded total => exact ⟨hpc, by simp⟩
    | interrupted error => exact ⟨hpc, by simp⟩
    | putCompleted code =>
      refine ⟨hpc, fun event hm => ?_⟩
      simp only [List.mem_cons, Effect.record.injEq, reduceCtorEq, List.not_mem_nil,
        or_false] at hm
      rw [hm]
      obtain ⟨sessionId, hserved, hissued⟩ := IssuedFor.served hev.1 hrow
      exact ⟨sessionId, hserved, subset_logAfter hissued⟩
  | writing r w write =>
    cases h.taskTurn with
    | sessionStored => exact ⟨hpc.1, by simp⟩
    | sessionFailed error => exact ⟨hpc.1, by simp⟩
    | start =>
      refine ⟨hpc, fun event hm => ?_⟩
      cases List.mem_singleton.1 hm
      obtain ⟨sessionId, ⟨r', hr', hserver⟩, hissued⟩ := IssuedFor.served hev hrow
      cases hr'.symm.trans hpc
      exact ⟨r, sessionId, _, hpc, hserver, subset_logAfter hissued, rfl⟩
    | _ => exact ⟨trivial, nofun⟩
  | starting r url =>
    cases h.taskTurn with
    | started => exact ⟨hpc, nofun⟩
    | startFailed error => exact ⟨hpc, by simp⟩
  | settled r url error => cases h.taskTurn <;> exact ⟨hpc, by simp⟩
  | finishing => cases h.taskTurn

end Steps

namespace Origins

variable {recordings : String → Option LocalRecording} {serverOf : String → String}
variable {s s' : State} {l : Label}

theorem init {consent : ConsentEntry} {now : ℕ} :
    Origins recordings serverOf (UploadService.init consent now) where
  rows := by rintro row sessionId hs; cases hs
  tasks := by rintro p t hp; cases hp
  drains := by rintro p row pc rest hp; cases hp
  log := by rintro event hm; cases hm

theorem die (h : Origins recordings serverOf s) : Origins recordings serverOf s.die where
  rows := h.rows
  tasks := by rintro p t hp; cases hp
  drains := by rintro p row pc rest hp; cases hp
  log := h.log

theorem processQueue (h : Origins recordings serverOf s) (hs : Slots s) :
    Origins recordings serverOf s.processQueue := by
  unfold State.processQueue
  split_ifs
  · exact h
  · refine ⟨h.rows, h.tasks, ?_, h.log⟩
    intro p row pc rest hp
    rcases Table.of_get?_push hs.nextPid_fresh_drain hp with ⟨-, he⟩ | ⟨-, hp⟩
    · cases he
    · exact h.drains p row pc rest hp

theorem setDrain (h : Origins recordings serverOf s) {p : Pid} {pc : DrainPc}
    (hpc : ∀ row hpc rest, pc = .handling row hpc rest →
      hpc.AtHome (recordingOf recordings s.rows row)) :
    Origins recordings serverOf { s with drains := s.drains.set p pc } := by
  refine ⟨h.rows, h.tasks, ?_, h.log⟩
  intro q row qc rest hq
  rcases Table.of_get?_set hq with ⟨-, he⟩ | ⟨-, hq⟩
  · exact hpc row qc rest he.symm
  · exact h.drains q row qc rest hq

theorem setTask (h : Origins recordings serverOf s) {p : Pid} {t : Task}
    (ht : t.pc.AtHome serverOf (recordingOf recordings s.rows t.row)) :
    Origins recordings serverOf { s with tasks := s.tasks.set p t } := by
  refine ⟨h.rows, ?_, h.drains, h.log⟩
  intro q u hq
  rcases Table.of_get?_set hq with ⟨-, rfl⟩ | ⟨-, hq⟩
  · exact ht
  · exact h.tasks q u hq

/-- The events of a turn concern the recording of its row. -/
theorem perform (h : Origins recordings serverOf s) (who : Owner) {effects : List Effect}
    (hevents : ∀ event, .record event ∈ effects →
      event.AtHome serverOf (recordingOf recordings s.rows) (logAfter effects s.log)) :
    Origins recordings serverOf (s.perform who effects) where
  rows := h.rows
  tasks := h.tasks
  drains := h.drains
  log event hm := by
    rcases List.mem_append.1 hm with hm | hm
    · obtain ⟨e, he, hrec⟩ := List.mem_filterMap.1 (List.mem_reverse.1 hm)
      cases e with
      | record event' =>
        cases hrec
        exact hevents event he
      | _ => cases hrec
    · exact (h.log event hm).mono (fun _ _ hr => hr) subset_logAfter

theorem start (h : Origins recordings serverOf s) (hs : Slots s) {p : Pid} {row : RowId}
    {id : String} : Origins recordings serverOf ((s.startTask row id).testSlots p) := by
  have hstart : Origins recordings serverOf (s.startTask row id) := by
    refine ⟨h.rows, ?_, h.drains, h.log⟩
    intro q t hq
    rcases Table.of_get?_push hs.nextPid_fresh_task hq with ⟨-, rfl⟩ | ⟨-, hq⟩
    · trivial
    · exact h.tasks q t hq
  refine hstart.setDrain ?_
  split_ifs <;> rintro row pc rest he <;> cases he

/-- The session that a write stores was issued for the recording of the row. -/
theorem sessionOf_commit (h : Origins recordings serverOf s) {job : Job} (hj : JobOf s job)
    {newId row : RowId} {sessionId : String} (hnew : newId ∉ s.rows.keys)
    (hs : sessionOf (job.action.run s.now newId s.rows) row = some sessionId) :
    ServedAs (recordingOf recordings s.rows row) (serverOf sessionId) := by
  have hother : ∀ {r : RowId} {u : Update}, u.session? = none →
      sessionOf (s.rows.modify r (u.apply s.now)) row = some sessionId →
        ServedAs (recordingOf recordings s.rows row) (serverOf sessionId) := by
    intro r u hu hs
    rw [sessionOf_modify hu] at hs
    exact h.rows row sessionId hs
  cases hj with
  | progress r loaded => exact hother rfl hs
  | reset hp => exact hother rfl hs
  | taskDone hp => exact hother rfl hs
  | drainDone hp => exact hother rfl hs
  | @create p recordingId bytesTotal hp =>
    simp only [sessionOf, Action.run, Table.get?_push hnew] at hs
    split_ifs at hs
    · cases hs
    · exact h.rows row sessionId hs
  | @task p r id recording w hp =>
    cases w with
    | session sid url =>
      by_cases hr : row = r
      · subst hr
        obtain ⟨hhome, hserver⟩ := h.tasks p _ hp
        obtain ⟨item, hitem, hold⟩ := Option.bind_eq_some_iff.1 hhome
        have hnew' : sessionOf (s.rows.modify row ((Update.session sid).apply s.now)) row =
            some sid := sessionOf_modify_session hitem
        cases hnew'.symm.trans hs
        exact ⟨recording, hhome, hserver⟩
      · have hs : sessionOf (s.rows.modify r ((Update.session sid).apply s.now)) row =
            some sessionId := hs
        rw [sessionOf_modify_of_ne hr] at hs
        exact h.rows row sessionId hs
    | _ => exact hother rfl hs

/-- A write is performed or fails. -/
theorem settled (h : Origins recordings serverOf s) {rows : Table RowId UploadQueueItem}
    {writer : List Job} (promise : Promise) (owner : Option Owner)
    (hhome : ∀ row r, recordingOf recordings s.rows row = some r →
      recordingOf recordings rows row = some r)
    (hrows : ∀ row sessionId, sessionOf rows row = some sessionId →
      ServedAs (recordingOf recordings s.rows row) (serverOf sessionId)) :
    Origins recordings serverOf
      ({ s with rows := rows, writer := writer }.settle promise owner) := by
  constructor
  · intro row sessionId hs
    rw [State.settle_rows] at hs ⊢
    exact (hrows row sessionId hs).mono (hhome row)
  · intro p t hp
    rw [State.settle_rows]
    rcases State.of_get?_settle_tasks _ hp with ⟨u, -, hu, rfl⟩ | ⟨-, hu⟩
    · exact ((h.tasks p u hu).mono (hhome u.row)).settle promise
    · exact (h.tasks p t hu).mono (hhome t.row)
  · intro p row pc rest hp
    rw [State.settle_rows]
    rcases State.of_get?_settle_drains _ hp with ⟨qc, -, hq, he⟩ | ⟨-, hq⟩
    · obtain ⟨pc', rfl, rfl⟩ := DrainPc.of_settle_handling he.symm
      exact ((h.drains p row pc' rest hq).mono (hhome row)).settle promise
    · exact (h.drains p row pc rest hq).mono (hhome row)
  · intro event hm
    rw [State.settle_rows, State.settle_log] at *
    exact (h.log event hm).mono hhome (List.Subset.refl _)

theorem step (h : Origins recordings serverOf s) (hr : uploadService.Reachable s)
    (hok : Truthful recordings serverOf s l) (hst : UploadService.step s l = some s') :
    Origins recordings serverOf s' := by
  have hs := Slots.of_reachable hr
  have hev := Evidence.of_reachable hr
  cases Move.of_step hst with
  | outside consent listening hnow => exact { h with }
  | screen recording =>
    refine ⟨h.rows, h.tasks, h.drains, fun event hm => ?_⟩
    rcases List.mem_cons.1 hm with rfl | hm
    · trivial
    · exact (h.log event hm).mono (fun _ _ hr => hr) (List.subset_cons_self _ _)
  | wake listening =>
    exact processQueue (s := { s with listening := listening }) { h with } { hs with }
  | enqueue recordingId bytesTotal => exact { h with }
  | retry row => exact { h with }
  | drain hp ht =>
    refine h.setDrain fun row hpc rest he => ?_
    cases ht <;> cases he
    trivial
  | queryFailed hp hpc => exact h.setDrain nofun
  | @handler o p row pc rest item next effects hp hrow ht ho =>
    obtain ⟨item, next', effects', hrow, hturn, he⟩ := handled_of_step hst hp
    rw [he]
    have hsession : ∀ sessionId, item.uploadSessionId = some sessionId →
        ServedAs (recordingOf recordings s.rows row) (serverOf sessionId) :=
      fun sessionId hsid => h.rows row sessionId ((sessionOf_eq hrow).trans hsid)
    have hold := hev.drains p row pc rest hp
    rw [sessionOf_eq hrow] at hold
    have hhome : (∀ pc', next' = .await pc' → pc'.AtHome (recordingOf recordings s.rows row)) ∧
        ∀ event, .record event ∈ effects' → event.AtHome serverOf (recordingOf recordings s.rows)
          (logAfter effects' s.log) :=
      handleCompleting_atHome hturn (fun r hfound => by subst hfound; exact hok _ hp row rfl)
        hsession (h.drains p row pc rest hp) hold
    refine (h.perform (.drain p) hhome.2).setDrain fun r pc' rest' he' => ?_
    cases next' with
    | await pc'' =>
      cases he'
      exact hhome.1 _ rfl
    | returned => cases he'
    | threw => cases he'
  | start hp hrow => exact h.start hs
  | leave hp =>
    refine ⟨h.rows, h.tasks, ?_, h.log⟩
    intro q row pc rest hq
    exact h.drains q row pc rest (Table.of_get?_erase hq).2
  | @task _ p t pc effects hp ht hl =>
    obtain ⟨item, pc', effects', hrow, hturn, he⟩ := turnBy_of_step hs hst hp ht hl
    rw [he]
    have hsession : ∀ sessionId, item.uploadSessionId = some sessionId →
        ServedAs (recordingOf recordings s.rows t.row) (serverOf sessionId) :=
      fun sessionId hsid => h.rows t.row sessionId ((sessionOf_eq hrow).trans hsid)
    have hold := hev.tasks p t hp
    rw [sessionOf_eq hrow] at hold
    have hhome := hturn.atHome hp hok hsession (h.tasks p t hp) hold
    exact (h.perform (.task p) hhome.2).setTask hhome.1
  | @finish p t hp hpc =>
    refine processQueue (s := { s with
      store := s.store.removeActiveUpload t.recordingId, tasks := s.tasks.erase p })
      ⟨h.rows, ?_, h.drains, h.log⟩ (hs.releaseTask hp)
    intro q u hq
    exact h.tasks q u (Table.of_get?_erase hq).2
  | reset hp hrow hst => exact { h with }
  | @wakeCall p pc hp hpc => exact processQueue (s := s.endCall p) { h with } hs.endCall
  | endCall hp hpc hidle => exact { h with }
  | commit hw hnew =>
    have hj := (Writer.of_reachable hr).jobOf (hw ▸ List.mem_cons_self)
    exact h.settled _ _ (recordingOf_run hnew) fun row sessionId => h.sessionOf_commit hj hnew
  | reject hw => exact h.settled _ _ (fun _ _ hr => hr) h.rows
  | kill =>
    exact processQueue (s := { s.die with listening := true }) { h.die with } { Slots.die with }

theorem of_reachable (h : (uploadService.guard (Truthful recordings serverOf)).Reachable s) :
    Origins recordings serverOf s := by
  refine h.invariant_of ?_ fun s l s' hr hi hst => hi.step hr.of_guard hst.1 hst.2
  rintro s ⟨consent, now, rfl⟩
  exact init

end Origins

/-- **An upload stays with its recording.**  While `find` and the server answer truthfully, in every
reachable state: every transfer that was ever started sends the file of the recording of its row to
a URL that was issued for this recording, every completion names its session and its checksum, and
every transcription is requested for it; a URL is requested for no other recording; the session in
a row was issued for its recording; and what a finished row shows for is a completed transfer of the
file of its own recording. -/
theorem uploads_stay_with_recording {recordings : String → Option LocalRecording}
    {serverOf : String → String} {s : State}
    (h : (uploadService.guard (Truthful recordings serverOf)).Reachable s) :
    (∀ event ∈ s.log, event.AtHome serverOf (recordingOf recordings s.rows) s.log) ∧
    (∀ p t r old, s.tasks.get? p = some t → t.pc = .presigning r old →
      recordingOf recordings s.rows t.row = some r) ∧
    ∀ row item, s.rows.get? row = some item →
      (∀ sessionId, item.uploadSessionId = some sessionId →
        ServedAs (recordings item.recordingId) (serverOf sessionId)) ∧
      (item.status = .completing ∨ item.status = .done →
        ∃ r sessionId url responseCode, recordings item.recordingId = some r ∧
          item.uploadSessionId = some sessionId ∧
          r.serverRecordingId = some (serverOf sessionId) ∧ .issued sessionId url ∈ s.log ∧
          .startUpload row (uploadOptions r url) ∈ s.log ∧
          .putCompleted row url responseCode ∈ s.log) := by
  have ho := Origins.of_reachable h
  refine ⟨ho.log, fun p t r old hp hpc => ?_,
    fun row item hrow => ⟨fun sessionId hsession => ?_, fun hst => ?_⟩⟩
  · have hhome := ho.tasks p t hp
    rw [hpc] at hhome
    exact hhome
  · have hserved := ho.rows row sessionId ((sessionOf_eq hrow).trans hsession)
    rwa [recordingOf_of_get? hrow] at hserved
  · obtain ⟨sessionId, hsession, url, r', code, hissued, hstart, hput⟩ :=
      ((Evidence.of_reachable h.of_guard).rows row _ (statusOf_of_get? hrow)).1 hst
    rw [sessionOf_eq hrow] at hsession
    obtain ⟨r, hr, hserver⟩ := ho.rows row sessionId ((sessionOf_eq hrow).trans hsession)
    -- the file of that transfer is the one of the recording
    obtain ⟨r'', sessionId', url', hr'', -, -, he⟩ := ho.log _ hstart
    cases hr.symm.trans hr''
    obtain rfl : url = url' := congrArg UploadOptions.url he
    rw [he] at hstart
    rw [recordingOf_of_get? hrow] at hr
    exact ⟨r, sessionId, url, code, hr, hsession, hserver, hissued, hstart, hput⟩

/-- Another recording. -/
def interview : LocalRecording where
  title := "면담"
  filePath := "file:///data/b.m4a"
  fileSizeBytes := 20
  checksumSha256 := "decaf"
  serverRecordingId := some "srv-b"

instance (recordings : String → Option LocalRecording) (serverOf : String → String) (s : State)
    (l : Label) : Decidable (Truthful recordings serverOf s l) := by
  unfold Truthful
  split <;> infer_instance

/-- Both uploads of `twoUploads` are transferred, each in its own session. -/
def twoTransfers : List Label :=
  twoUploads ++
    [.resume (.task 3) (.found (some meeting)), .resume (.task 4) (.found (some interview)),
      .resume (.task 4) (.presigned "s-b" "https://bucket/b" 3600),
      .resume (.task 3) (.presigned "s-a" "https://bucket/a" 3600), .commit "q3", .commit "q3",
      .resume (.task 3) .ok, .resume (.task 4) .ok, .commit "q3", .commit "q3",
      .resume (.task 3) .ok, .resume (.task 4) .ok, .resume (.task 3) .ok, .resume (.task 4) .ok,
      .native 4 (.completed 200), .native 3 (.completed 200), .resume (.task 3) .ok, .commit "q3"]

/-- The two recordings of the device. -/
def twoRecordings (id : String) : Option LocalRecording :=
  if id = "a" then some meeting else if id = "b" then some interview else none

def twoServers (sessionId : String) : String := if sessionId = "s-a" then "srv-a" else "srv-b"

theorem uploads_stay_with_recording_twoTransfers :
    ∃ s item, (uploadService.guard (Truthful twoRecordings twoServers)).Reachable s ∧
      s.rows.get? "q1" = some item ∧ item.status = .completing ∧
      ∃ r sessionId url responseCode, twoRecordings item.recordingId = some r ∧
        item.uploadSessionId = some sessionId ∧
        r.serverRecordingId = some (twoServers sessionId) ∧ .issued sessionId url ∈ s.log ∧
        .startUpload "q1" (uploadOptions r url) ∈ s.log ∧
        .putCompleted "q1" url responseCode ∈ s.log := by
  have hrun : (LTS.exec (fun s l => if decide (Truthful twoRecordings twoServers s l) then
      step s l else none) (init .missing 0) twoTransfers).bind (fun s => statusOf s.rows "q1") =
      some .completing := by decide +kernel
  obtain ⟨s, hs, hst⟩ := Option.bind_eq_some_iff.1 hrun
  obtain ⟨item, hrow, hitem⟩ := Option.map_eq_some_iff.1 hst
  have hr : (uploadService.guard (Truthful twoRecordings twoServers)).Reachable s :=
    LTS.guard_reachable_of_check (fun _ _ => of_decide_eq_true) (.start ⟨.missing, 0, rfl⟩) hs
  exact ⟨s, item, hr, hrow, hitem,
    ((uploads_stay_with_recording hr).2.2 "q1" item hrow).2 (.inl hitem)⟩

end UploadService

end FCord
