import FCord.Upload.Service

/-!
# What a step of the upload service can do

The step function is unfolded once, here: `Move` lists the transitions of the service,
`DrainTurn`, `TaskTurn` and `HandlerTurn` those of its functions, each with the facts that hold
when it is taken.  `Move.of_step` says that there are no others; every invariant is proved by
cases on a `Move`.
-/

namespace FCord

namespace UploadService

/-! ### Turns of the functions -/

section Functions

variable {who : Owner} {row : RowId} {item : UploadQueueItem} {now : ℕ}
variable {store : UploadQueueStore} {consent : ConsentEntry}

/-- The turns of `_handleCompleting`. -/
inductive HandlerTurn (who : Owner) (row : RowId) (item : UploadQueueItem)
    (consent : ConsentEntry) : HandlerPc → HandlerNext → List Effect → Prop
  /-- `completeUploadSession` is called for the stored session. -/
  | call {serverId sessionId : String} (checksum : String)
      (hs : item.uploadSessionId = some sessionId) :
      HandlerTurn who row item consent .findRecording (.await (.completing serverId sessionId))
        [.record (.completeCall who row sessionId checksum item.bytesUploaded)]
  /-- The session is complete, and the row shall be `done`. -/
  | completed (conflict : Bool) {serverId sessionId : String} :
      HandlerTurn who row item consent (.completing serverId sessionId)
        (.await (.writingDone conflict serverId .pending))
        [.record (.completeDone who row sessionId), .write (.update row .done)]
  /-- The row is `done`. -/
  | written {conflict : Bool} {serverId : String} :
      HandlerTurn who row item consent (.writingDone conflict serverId .resolved)
        (.await (.readingConsent serverId))
        [.clearPresignedUrl (propertyKey item.uploadSessionId)]
  /-- There is consent. -/
  | request {serverId : String} (hc : GivesConsent consent) :
      HandlerTurn who row item consent (.readingConsent serverId) (.await (.requesting serverId))
        [.record (.consentRead (.completion who row) consent),
          .record (.requestTranscription (.completion who row) serverId)]
  /-- There is no consent. -/
  | refuse {serverId : String} :
      HandlerTurn who row item consent (.readingConsent serverId) .returned
        [.record (.consentRead (.completion who row) consent)]
  /-- The function returns without a further effect. -/
  | stop {pc : HandlerPc} (hpc : pc.settle .resolved = pc) :
      HandlerTurn who row item consent pc .returned []
  /-- The `done` write of the conflict branch failed. -/
  | throw {serverId : String} :
      HandlerTurn who row item consent (.writingDone true serverId .rejected) .threw []

theorem handlerTurn_of_handleCompleting {pc : HandlerPc} {outcome : Outcome}
    {next : HandlerNext} {effects : List Effect}
    (h : handleCompleting who row item consent pc outcome = some (next, effects)) :
    HandlerTurn who row item consent pc next effects := by
  unfold handleCompleting at h
  split at h
  · split at h
    · rename_i hrec hsid
      cases h
      exact .call _ (truthy_eq_some.1 hsid).1
    · cases h; exact .stop rfl
  · cases h; exact .completed false
  · split_ifs at h
    · cases h; exact .completed true
    · cases h; exact .stop rfl
  · cases h; exact .stop rfl
  · cases h; exact .written
  · rename_i conflict _
    cases h
    cases conflict
    · exact .stop rfl
    · exact .throw
  · split_ifs at h with hc
    · cases h; exact .request (hasCrossBorderConsent_iff.1 hc)
    · cases h; exact .refuse
  · cases h; exact .stop rfl
  · cases h; exact .stop rfl
  · cases h; exact .stop rfl
  · cases h

theorem error_of_threw {pc : HandlerPc} {outcome : Outcome} {next : HandlerNext}
    {effects : List Effect}
    (h : handleCompleting who row item consent pc outcome = some (next, effects))
    (hn : next = .threw) : outcome = .error := by
  subst hn
  unfold handleCompleting at h
  split at h
  · split at h <;> cases h
  · cases h
  · split_ifs at h <;> cases h
  · cases h
  · cases h
  · rfl
  · split_ifs at h <;> cases h
  · cases h
  · cases h
  · cases h
  · cases h

/-- Where a task goes when `_handleCompleting` has made a turn. -/
def taskPcAfterHandler : HandlerNext → TaskPc
  | .await pc => .handling pc
  | .returned => .finishing
  | .threw => .finishing

/-- The turns of `_processItem`. -/
inductive TaskTurn (who : Owner) (row : RowId) (item : UploadQueueItem) (now : ℕ)
    (store : UploadQueueStore) (consent : ConsentEntry) :
    TaskPc → TaskPc → List Effect → Prop
  /-- The recording has no server id. -/
  | skip : TaskTurn who row item now store consent .findRecording .finishing []
  | noChecksum (recording : LocalRecording) (error : String)
      (hsum : recording.checksumSha256 = "") :
      TaskTurn who row item now store consent .findRecording
        (.writing recording (.failed error) .pending) [.write (.update row (.failed error))]
  | cached (recording : LocalRecording) {url : String} (hsum : recording.checksumSha256 ≠ "")
      (hurl : cachedUrl now store item.uploadSessionId = some url) :
      TaskTurn who row item now store consent .findRecording
        (.writing recording (.uploading url) .pending) [.write (.update row .uploading)]
  | presign (recording : LocalRecording) (hsum : recording.checksumSha256 ≠ "") :
      TaskTurn who row item now store consent .findRecording
        (.presigning recording item.uploadSessionId) []
  /-- A URL for the stored session. -/
  | reissued {recording : LocalRecording} (sessionId url : String) (expiresAt : ℕ) :
      TaskTurn who row item now store consent (.presigning recording (some sessionId))
        (.writing recording (.uploading url) .pending)
        [.record (.issued sessionId url),
          .setPresignedUrl sessionId ⟨sessionId, url, expiresAt⟩, .write (.update row .uploading)]
  /-- A URL for another session. -/
  | issued {recording : LocalRecording} {old : Option String} (sessionId url : String)
      (expiresAt : ℕ) :
      TaskTurn who row item now store consent (.presigning recording old)
        (.writing recording (.session sessionId url) .pending)
        [.record (.issued sessionId url),
          .setPresignedUrl sessionId ⟨sessionId, url, expiresAt⟩,
          .write (.update row (.session sessionId))]
  | presignFailed {recording : LocalRecording} {old : Option String} (error : String) :
      TaskTurn who row item now store consent (.presigning recording old)
        (.writing recording (.failed error) .pending) [.write (.update row (.failed error))]
  | sessionStored {recording : LocalRecording} {sessionId url : String} :
      TaskTurn who row item now store consent
        (.writing recording (.session sessionId url) .resolved)
        (.writing recording (.uploading url) .pending) [.write (.update row .uploading)]
  | sessionFailed {recording : LocalRecording} {sessionId url : String} (error : String) :
      TaskTurn who row item now store consent
        (.writing recording (.session sessionId url) .rejected)
        (.writing recording (.failed error) .pending) [.write (.update row (.failed error))]
  | start {recording : LocalRecording} {url : String} :
      TaskTurn who row item now store consent (.writing recording (.uploading url) .resolved)
        (.starting recording url) [.record (.startUpload row (uploadOptions recording url))]
  | complete {recording : LocalRecording} :
      TaskTurn who row item now store consent (.writing recording .completing .resolved)
        (.handling .findRecording) []
  | written {recording : LocalRecording} {w : TaskWrite}
      (hw : (∃ error, w = .failed error) ∨ ∃ attempts error, w = .retrying attempts error) :
      TaskTurn who row item now store consent (.writing recording w .resolved) .finishing []
  | writeFailed {recording : LocalRecording} {w : TaskWrite} :
      TaskTurn who row item now store consent (.writing recording w .rejected) .finishing []
  | started {recording : LocalRecording} {url : String} :
      TaskTurn who row item now store consent (.starting recording url)
        (.transferring recording url) []
  | startFailed {recording : LocalRecording} {url : String} (error : UploadError) :
      TaskTurn who row item now store consent (.starting recording url)
        (.settled recording url (some error)) [.clearProgress (progressKey recording)]
  | retry {recording : LocalRecording} {url : String} {error : UploadError} (attempts : ℕ)
      (hatt : attempts = item.attempts + 1) (hlt : attempts < MAX_UPLOAD_ATTEMPTS) :
      TaskTurn who row item now store consent (.settled recording url (some error))
        (.writing recording (.retrying attempts (safeError error)) .pending)
        [.write (.update row (.retrying attempts (safeError error)))]
  | giveUp {recording : LocalRecording} {url : String} {error : UploadError}
      (hmax : MAX_UPLOAD_ATTEMPTS ≤ item.attempts + 1) :
      TaskTurn who row item now store consent (.settled recording url (some error))
        (.writing recording (.failed (safeError error)) .pending)
        [.write (.update row (.failed (safeError error)))]
  | transferred {recording : LocalRecording} {url : String} :
      TaskTurn who row item now store consent (.settled recording url none)
        (.writing recording .completing .pending) [.write (.update row .completing)]
  | handler {pc : HandlerPc} {next : HandlerNext} {effects : List Effect}
      (h : HandlerTurn who row item consent pc next effects) :
      TaskTurn who row item now store consent (.handling pc) (taskPcAfterHandler next) effects
  /-- A `progress` event. -/
  | progress {recording : LocalRecording} {url : String} (loaded total : ℕ) :
      TaskTurn who row item now store consent (.transferring recording url)
        (.transferring recording url)
        [.setProgress (progressKey recording) loaded total,
          .writeDetached (.update row (.bytesUploaded loaded))]
  /-- An `error` or a `cancelled` event. -/
  | interrupted {recording : LocalRecording} {url : String} (error : UploadError) :
      TaskTurn who row item now store consent (.transferring recording url)
        (.settled recording url (some error)) [.clearProgress (progressKey recording)]
  /-- A `completed` event. -/
  | putCompleted {recording : LocalRecording} {url : String} (responseCode : ℕ) :
      TaskTurn who row item now store consent (.transferring recording url)
        (.settled recording url none)
        [.record (.putCompleted row url responseCode), .clearProgress (progressKey recording)]

theorem taskTurn_of_processItem {pc pc' : TaskPc} {outcome : Outcome} {effects : List Effect}
    (h : processItem who row item now store consent pc outcome = some (pc', effects)) :
    TaskTurn who row item now store consent pc pc' effects := by
  unfold processItem at h
  split at h
  · split at h
    · cases h; exact .skip
    · split_ifs at h with hsum
      · cases h; exact .noChecksum _ _ hsum
      · split at h
        · rename_i hurl
          cases h; exact .cached _ hsum hurl
        · cases h; exact .presign _ hsum
  · split_ifs at h with hsid
    · cases h; subst hsid; exact .reissued _ _ _
    · cases h; exact .issued _ _ _
  · cases h; exact .presignFailed _
  · cases h; exact .presignFailed _
  · cases h; exact .sessionStored
  · cases h; exact .sessionFailed _
  · cases h; exact .start
  · cases h; exact .complete
  · cases h; exact .written (.inl ⟨_, rfl⟩)
  · cases h; exact .written (.inr ⟨_, _, rfl⟩)
  · cases h; exact .writeFailed
  · cases h; exact .started
  · cases h; exact .startFailed _
  · cases h; exact .startFailed _
  · simp only at h
    split_ifs at h with hmax
    · cases h; exact .giveUp hmax
    · cases h; exact .retry _ rfl (Nat.lt_of_not_le hmax)
  · cases h; exact .transferred
  · split at h
    · cases h
    · rename_i hh
      cases h; exact .handler (handlerTurn_of_handleCompleting hh)
    · rename_i hh
      cases h; exact .handler (handlerTurn_of_handleCompleting hh)
    · rename_i hh
      cases h; exact .handler (handlerTurn_of_handleCompleting hh)
  · cases h

theorem taskTurn_of_nativeEvent {pc pc' : TaskPc} {event : NativeEvent} {effects : List Effect}
    (h : nativeEvent row pc event = some (pc', effects)) :
    TaskTurn who row item now store consent pc pc' effects := by
  unfold nativeEvent at h
  split at h
  · cases h; exact .progress _ _
  · cases h; exact .interrupted _
  · cases h; exact .putCompleted _
  · cases h; exact .interrupted _
  · cases h

end Functions

/-- The turns of `_drainQueue` that change nothing but where it waits. -/
inductive DrainTurn (s : State) : DrainPc → DrainPc → Prop
  | completingRows :
      DrainTurn s .queryCompleting
        (.gotCompleting (s.rows.idsWhere fun item => item.status = .completing))
  | nextRow {row : RowId} {rest : List RowId} :
      DrainTurn s (.gotCompleting (row :: rest)) (.handling row .findRecording rest)
  | slotFree (h : s.store.hasAvailableSlot = true) :
      DrainTurn s (.gotCompleting []) .queryCandidates
  | slotsFull (h : s.store.hasAvailableSlot = false) : DrainTurn s (.gotCompleting []) .leaving
  | candidates :
      DrainTurn s .queryCandidates
        (.gotCandidates (s.rows.idsWhere fun item =>
          item.status = .pending ∨ item.status = .retrying))
  | pick {ids : List RowId} {row : RowId} (hmem : row ∈ ids) (h : s.eligible row = true) :
      DrainTurn s (.gotCandidates ids) (.picked row)
  | noneReady {ids : List RowId} (h : ∀ row ∈ ids, s.eligible row = false) :
      DrainTurn s (.gotCandidates ids) .leaving

/-! ### Transitions of the service -/

/-- The promise a call waits for has resolved. -/
def CallPc.landed : CallPc → Bool
  | .resetting _ .resolved => true
  | .creating _ _ .resolved => true
  | _ => false

/-- The transitions of the service. -/
inductive Move (s : State) : Label → State → Prop
  /-- Time, consent, the listener: nothing of the queue is concerned. -/
  | outside {l : Label} {now : ℕ} (consent : ConsentEntry) (listening : Bool)
      (hnow : now = s.now ∨ ∃ ms, l = .tick ms ∧ now = s.now + ms) :
      Move s l { s with now := now, consent := consent, listening := listening }
  | screen (recording : ServerRecordingCache) :
      Move s (.onRequestTranscription recording)
        { s with log := .requestTranscription .detailScreen recording.id :: s.log }
  | wake {l : Label} (listening : Bool) :
      Move s l { s with listening := listening }.processQueue
  | enqueue (recordingId : String) (bytesTotal : ℕ) :
      Move s (.enqueueUpload recordingId bytesTotal) (s.enqueueUpload recordingId bytesTotal)
  | retry (row : RowId) : Move s (.retryUpload row) (s.retryUpload row)
  | drain {l : Label} {p : Pid} {pc pc' : DrainPc} (hp : s.drains.get? p = some pc)
      (h : DrainTurn s pc pc') : Move s l { s with drains := s.drains.set p pc' }
  /-- A query fails, and the exception ends the drain. -/
  | queryFailed {p : Pid} {pc : DrainPc} (hp : s.drains.get? p = some pc)
      (h : pc = .queryCompleting ∨ pc = .queryCandidates) :
      Move s (.resume (.drain p) .error) { s with drains := s.drains.set p .leaving }
  | handler {o : Outcome} {p : Pid} {row : RowId} {pc : HandlerPc} {rest : List RowId}
      {item : UploadQueueItem} {next : HandlerNext} {effects : List Effect}
      (hp : s.drains.get? p = some (.handling row pc rest)) (hrow : s.rows.get? row = some item)
      (h : HandlerTurn (.drain p) row item s.consent pc next effects)
      (ho : next = .threw → o = .error) :
      Move s (.resume (.drain p) o)
        { s.perform (.drain p) effects with
          drains := s.drains.set p (.afterHandler row rest next) }
  | start {o : Outcome} {p : Pid} {row : RowId} {item : UploadQueueItem}
      (hp : s.drains.get? p = some (.picked row)) (hrow : s.rows.get? row = some item) :
      Move s (.resume (.drain p) o) ((s.startTask row item.recordingId).testSlots p)
  | leave {o : Outcome} {p : Pid} (hp : s.drains.get? p = some .leaving) :
      Move s (.resume (.drain p) o) (s.endDrain p)
  | task {l : Label} {p : Pid} {t : Task} {pc : TaskPc} {effects : List Effect}
      (hp : s.tasks.get? p = some t)
      (h : ∀ item, s.rows.get? t.row = some item →
        TaskTurn (.task p) t.row item s.now s.store s.consent t.pc pc effects)
      (hl : (∃ o, l = .resume (.task p) o) ∨ ∃ event, l = .native p event) :
      Move s l (s.taskTurn p t pc effects)
  | finish {p : Pid} {t : Task} (hp : s.tasks.get? p = some t) (hpc : t.pc = .finishing) :
      Move s (.resume (.task p) .ok) (s.finishTask p t.recordingId)
  | reset {o : Outcome} {p : Pid} {row : RowId} {item : UploadQueueItem}
      (hp : s.calls.get? p = some (.finding row)) (hrow : s.rows.get? row = some item)
      (hst : item.status = .failed) :
      Move s (.resume (.call p) o)
        { s.perform (.call p) [.write (.update row .reset)] with
          calls := s.calls.set p (.resetting row .pending) }
  | wakeCall {p : Pid} {pc : CallPc} (hp : s.calls.get? p = some pc) (hpc : pc.landed = true) :
      Move s (.resume (.call p) .ok) (s.endCall p).processQueue
  /-- A call ends without looking for work. -/
  | endCall {o : Outcome} {p : Pid} {pc : CallPc} (hp : s.calls.get? p = some pc)
      (hpc : pc.landed = false) (hidle : pc.settle .resolved = pc) :
      Move s (.resume (.call p) o) (s.endCall p)
  | commit {newId : RowId} {job : Job} {jobs : List Job} (hw : s.writer = job :: jobs)
      (hnew : newId ∉ s.rows.keys) :
      Move s (.commit newId)
        ({ s with rows := job.action.run s.now newId s.rows, writer := jobs }.settle .resolved
          job.owner)
  | reject {job : Job} {jobs : List Job} (hw : s.writer = job :: jobs) :
      Move s .reject ({ s with writer := jobs }.settle .rejected job.owner)
  | kill : Move s .kill s.kill

theorem Move.of_resumeDrain {s s' : State} {p : Pid} {pc : DrainPc} {o : Outcome}
    (hp : s.drains.get? p = some pc) (h : s.resumeDrain p pc o = some s') :
    Move s (.resume (.drain p) o) s' := by
  unfold State.resumeDrain at h
  split at h
  · cases h; exact .queryFailed hp (.inl rfl)
  · cases h; exact .drain hp .nextRow
  · cases h
    unfold State.testSlots
    split_ifs with hslot
    · exact .drain hp (.slotFree hslot)
    · exact .drain hp (.slotsFull (by simpa using hslot))
  · rename_i row pc rest outcome
    simp only [Option.bind_eq_bind, Option.bind_eq_some_iff] at h
    obtain ⟨item, hrow, ⟨next, effects⟩, hturn, hs⟩ := h
    cases hs
    exact .handler hp hrow (handlerTurn_of_handleCompleting hturn) (error_of_threw hturn)
  · cases h; exact .queryFailed hp (.inr rfl)
  · split at h
    · rename_i row hfind
      cases h
      exact .drain hp (.pick (List.mem_of_find?_eq_some hfind) (List.find?_some hfind))
    · rename_i hfind
      cases h
      exact .drain hp (.noneReady (by simpa using hfind))
  · simp only [Option.bind_eq_bind, Option.bind_eq_some_iff] at h
    obtain ⟨item, hrow, hs⟩ := h
    cases hs
    exact .start hp hrow
  · cases h; exact .leave hp
  · cases h

theorem Move.of_resumeTask {s s' : State} {p : Pid} {t : Task} {o : Outcome}
    (hp : s.tasks.get? p = some t) (h : s.resumeTask p t o = some s') :
    Move s (.resume (.task p) o) s' := by
  unfold State.resumeTask at h
  split at h
  · rename_i hpc
    split_ifs at h with ho
    cases h; subst ho
    exact .finish hp hpc
  · simp only [Option.bind_eq_bind, Option.bind_eq_some_iff] at h
    obtain ⟨item, hrow, ⟨pc, effects⟩, hturn, hs⟩ := h
    cases hs
    refine .task hp (fun item' hrow' => ?_) (.inl ⟨o, rfl⟩)
    cases hrow.symm.trans hrow'
    exact taskTurn_of_processItem hturn

theorem Move.of_resumeCall {s s' : State} {p : Pid} {pc : CallPc} {o : Outcome}
    (hp : s.calls.get? p = some pc) (h : s.resumeCall p pc o = some s') :
    Move s (.resume (.call p) o) s' := by
  unfold State.resumeCall at h
  split at h
  · split at h
    · cases h; exact .endCall hp rfl rfl
    · rename_i hrow
      split_ifs at h with hst
      · cases h; exact .reset hp hrow hst
      · cases h; exact .endCall hp rfl rfl
  · cases h; exact .endCall hp rfl rfl
  · cases h; exact .wakeCall hp rfl
  · cases h; exact .wakeCall hp rfl
  · cases h; exact .endCall hp rfl rfl
  · cases h; exact .endCall hp rfl rfl
  · cases h

/-- **There are no other transitions.** -/
theorem Move.of_step {s s' : State} {l : Label} (h : step s l = some s') : Move s l s' := by
  cases l with
  | initQueue => cases h; exact .wake true
  | destroyQueue => cases h; exact .outside s.consent false (.inl rfl)
  | netInfo isConnected =>
    simp only [step] at h
    split_ifs at h with hlisten hconn
    · cases h; exact .wake s.listening
    · cases h; exact .outside s.consent s.listening (.inl rfl)
  | processQueue => cases h; exact .wake s.listening
  | enqueueUpload recordingId bytesTotal => cases h; exact .enqueue _ _
  | retryUpload queueId => cases h; exact .retry _
  | query p =>
    obtain ⟨pc, hp, hq⟩ := Option.bind_eq_some_iff.1 h
    unfold State.query at hq
    split at hq
    · cases hq; exact .drain hp .completingRows
    · cases hq; exact .drain hp .candidates
    · cases hq
  | commit newId =>
    simp only [step, State.commit] at h
    split at h
    · cases h
    · rename_i hw
      split_ifs at h with hnew
      cases h; exact .commit hw hnew
  | reject =>
    simp only [step, State.reject] at h
    split at h
    · cases h
    · rename_i hw
      cases h; exact .reject hw
  | resume who o =>
    simp only [step, resume] at h
    cases who with
    | drain p =>
      obtain ⟨pc, hp, hr⟩ := Option.bind_eq_some_iff.1 h
      exact .of_resumeDrain hp hr
    | task p =>
      obtain ⟨t, hp, hr⟩ := Option.bind_eq_some_iff.1 h
      exact .of_resumeTask hp hr
    | call p =>
      obtain ⟨pc, hp, hr⟩ := Option.bind_eq_some_iff.1 h
      exact .of_resumeCall hp hr
  | native p event =>
    obtain ⟨t, hp, hn⟩ := Option.bind_eq_some_iff.1 h
    simp only [State.native, Option.bind_eq_bind, Option.bind_eq_some_iff] at hn
    obtain ⟨⟨pc, effects⟩, hturn, hs⟩ := hn
    cases hs
    exact .task hp (fun _ _ => taskTurn_of_nativeEvent hturn) (.inr ⟨event, rfl⟩)
  | tick ms => cases h; exact .outside s.consent s.listening (.inr ⟨ms, rfl, rfl⟩)
  | kill => cases h; exact .kill
  | saveCrossBorderConsent agreed => cases h; exact .outside _ s.listening (.inl rfl)
  | keychain entry => cases h; exact .outside _ s.listening (.inl rfl)
  | onRequestTranscription recording =>
    simp only [step] at h
    split_ifs at h
    cases h; exact .screen recording

end UploadService

end FCord
