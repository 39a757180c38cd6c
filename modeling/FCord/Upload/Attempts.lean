import FCord.Upload.Rows

/-!
# How an upload fails for good

An attempt to upload a row fails in the request for the presigned URL or in the transfer;
`failedAttempts` counts these failures over a run, from the moment the row was enqueued or
manually retried.  A failed transfer is retried until the count reaches `MAX_UPLOAD_ATTEMPTS`, but
a failed URL request marks the row `failed` at once (`failed_at_first_request`).  In runs whose
URL requests fail in the last attempt only, and in which the status that follows a failure is not
lost, a row becomes `failed` only when its attempts are exhausted or its recording has no checksum,
and `retrying` after any other failure (`failed_only_when_exhausted`).
-/

namespace FCord

/-- The awaited call throws. -/
def Outcome.isError : Outcome → Bool
  | .apiError _ => true
  | .error => true
  | _ => false

/-- The transfer ends without success. -/
def NativeEvent.isError : NativeEvent → Bool
  | .error _ => true
  | .cancelled => true
  | _ => false

/-- The task is inside the `try` around `requestPresignedUrl`. -/
def TaskPc.requestsUrl : TaskPc → Bool
  | .presigning _ _ => true
  | .writing _ (.session _ _) .rejected => true
  | _ => false

/-- The task waits for `Upload.startUpload`. -/
def TaskPc.startsTransfer : TaskPc → Bool
  | .starting _ _ => true
  | _ => false

/-- `completeUploadSession` fails, and the session is not complete. -/
def HandlerPc.completeFails : HandlerPc → Outcome → Bool
  | .completing _ _, .apiError status => status ≠ 409
  | .completing _ _, .error => true
  | _, _ => false

namespace UploadService

/-- The task whose request for a URL fails. -/
def urlFailure (s : State) : Label → Option Task
  | .resume (.task p) outcome =>
    (s.tasks.get? p).filter fun t => t.pc.requestsUrl && outcome.isError
  | _ => none

/-- The task whose transfer fails. -/
def transferFailure (s : State) : Label → Option Task
  | .resume (.task p) outcome =>
    (s.tasks.get? p).filter fun t => t.pc.startsTransfer && outcome.isError
  | .native p event => (s.tasks.get? p).filter fun _ => event.isError
  | _ => none

/-- The row for which `completeUploadSession` fails, other than because it was complete already. -/
def completionFailure (s : State) : Label → Option RowId
  | .resume (.task p) outcome =>
    (s.tasks.get? p).bind fun t =>
      match t.pc with
      | .handling pc => if pc.completeFails outcome then some t.row else none
      | _ => none
  | .resume (.drain p) outcome =>
    (s.drains.get? p).bind fun
      | .handling row pc _ => if pc.completeFails outcome then some row else none
      | _ => none
  | _ => none

/-- The row whose attempt fails. -/
def attemptFailure (s : State) (l : Label) : Option RowId :=
  ((urlFailure s l).or (transferFailure s l)).map Task.row

/-- The row that is enqueued or manually retried. -/
def renewal (s : State) : Label → Option RowId
  | .commit newId =>
    match s.writer with
    | ⟨_, .create _ _⟩ :: _ => some newId
    | ⟨_, .update row .reset⟩ :: _ => some row
    | _ => none
  | _ => none

/-- What a step does to the number of failed attempts of each row. -/
def countAttempts (count : RowId → ℕ) (s : State) (l : Label) (row : RowId) : ℕ :=
  if renewal s l = some row then 0
  else if attemptFailure s l = some row then count row + 1
  else count row

/-- The failed attempts of each row since it was enqueued or manually retried. -/
def failedAttempts (tr : List (State × Label)) : RowId → ℕ :=
  LTS.history (fun _ => 0) countAttempts tr

/-- The row that is marked `failed` next, and its recording. -/
def nextFailed (s : State) : Option (RowId × LocalRecording) :=
  match nextWriter s with
  | some (.task p) =>
    (s.tasks.get? p).bind fun t =>
      match t.pc with
      | .writing recording (.failed _) .pending => some (t.row, recording)
      | _ => none
  | _ => none

/-- The task `p` marks its row `failed` because there is no URL. -/
def GivesUp (s : State) (p : Pid) (row : RowId) : Prop :=
  ∃ t recording error, s.tasks.get? p = some t ∧ t.row = row ∧
    t.pc = .writing recording (.failed error) .pending ∧ recording.checksumSha256 ≠ "" ∧
    statusOf s.rows row ≠ some .uploading

/-- An attempt has failed before the last one, and the task `p` has yet to make the row
`retrying`. -/
def RowView.BacksOff (v : RowView) (p : Pid) : Prop :=
  ∃ item recording, v.item = some item ∧
    ((∃ url error, v.task = some (p, .settled recording url (some error)) ∧
        item.attempts + 1 < MAX_UPLOAD_ATTEMPTS) ∨
      ∃ attempts error, v.task = some (p, .writing recording (.retrying attempts error) .pending))

/-- URL requests fail in the last attempt only, and the status that follows a failure is not lost:
no kill comes before it is written, and the write is not refused. -/
structure UrlFailsLast (s : State) (l : Label) : Prop where
  last : ∀ t item, urlFailure s l = some t → s.rows.get? t.row = some item →
    item.attempts + 1 = MAX_UPLOAD_ATTEMPTS
  alive : l = .kill → ∀ p row, ¬ GivesUp s p row ∧ ¬ (view s row).BacksOff p
  landed : l = .reject → ∀ p row, nextWriter s = some (.task p) →
    ¬ GivesUp s p row ∧ ¬ (view s row).BacksOff p

end UploadService

/-! ### Turns and attempts -/

/-- The URL request fails in this turn. -/
def TaskPc.urlFails : TaskPc → TaskPc → Bool
  | .presigning _ _, .writing _ (.failed _) _ => true
  | .writing _ (.session _ _) _, .writing _ (.failed _) _ => true
  | _, _ => false

/-- The transfer fails in this turn. -/
def TaskPc.transferFails : TaskPc → TaskPc → Bool
  | .starting _ _, .settled _ _ (some _) => true
  | .transferring _ _, .settled _ _ (some _) => true
  | _, _ => false

/-- How the stored number of attempts is related to the count of failures. -/
def TaskPc.Counted (attempts count : ℕ) : TaskPc → Prop
  | .findRecording => attempts = count
  | .presigning recording _ => recording.checksumSha256 ≠ "" ∧ attempts = count
  | .writing recording (.session _ _) _ => recording.checksumSha256 ≠ "" ∧ attempts = count
  | .writing _ (.uploading _) _ => attempts = count
  | .writing _ (.retrying n _) .pending => n = count ∧ n < MAX_UPLOAD_ATTEMPTS
  | .writing recording (.failed _) .pending =>
    recording.checksumSha256 = "" ∨ count = MAX_UPLOAD_ATTEMPTS
  | .writing _ _ _ => True
  | .starting _ _ => attempts = count
  | .transferring _ _ => attempts = count
  | .settled _ _ (some _) => attempts + 1 = count
  | .settled _ _ none => True
  | .handling _ => True
  | .finishing => True

theorem TaskPc.Fits.counted_of_failed {pc : TaskPc} (h : pc.Fits .failed) (attempts count : ℕ) :
    pc.Counted attempts count := by
  cases pc with
  | writing recording w write =>
    cases w <;> cases write <;> first | trivial | simp [TaskPc.Fits] at h
  | handling pc => trivial
  | finishing => trivial
  | _ => simp [TaskPc.Fits] at h

theorem TaskPc.Counted.rejected {pc : TaskPc} {attempts count : ℕ} (h : pc.Counted attempts count) :
    (pc.settle .rejected).Counted attempts count := by
  unfold TaskPc.settle
  split
  · rename_i recording w
    cases w <;> first | exact h | trivial
  · trivial
  · exact h

namespace UploadService

section Turns

variable {who : Owner} {row : RowId} {item : UploadQueueItem} {now : ℕ}
variable {store : UploadQueueStore} {consent : ConsentEntry} {effects : List Effect}
variable {pc pc' : TaskPc}

theorem fails_of_processItem {outcome : Outcome}
    (h : processItem who row item now store consent pc outcome = some (pc', effects)) :
    pc.urlFails pc' = (pc.requestsUrl && outcome.isError) ∧
      pc.transferFails pc' = (pc.startsTransfer && outcome.isError) := by
  unfold processItem at h
  split at h
  · split at h
    · cases h; exact ⟨rfl, rfl⟩
    · split_ifs at h
      · cases h; exact ⟨rfl, rfl⟩
      · split at h
        · cases h; exact ⟨rfl, rfl⟩
        · cases h; exact ⟨rfl, rfl⟩
  · split_ifs at h <;> cases h <;> exact ⟨rfl, rfl⟩
  · cases h; exact ⟨rfl, rfl⟩
  · cases h; exact ⟨rfl, rfl⟩
  · cases h; exact ⟨rfl, rfl⟩
  · cases h; exact ⟨rfl, rfl⟩
  · cases h; exact ⟨rfl, rfl⟩
  · cases h; exact ⟨rfl, rfl⟩
  · cases h; exact ⟨rfl, rfl⟩
  · cases h; exact ⟨rfl, rfl⟩
  -- another rejected write
  · rename_i w hw
    cases h
    cases w with
    | session sessionId url => exact absurd rfl (hw _ _)
    | _ => exact ⟨rfl, rfl⟩
  · cases h; exact ⟨rfl, rfl⟩
  · cases h; exact ⟨rfl, rfl⟩
  · cases h; exact ⟨rfl, rfl⟩
  · simp only at h
    split_ifs at h <;> cases h <;> exact ⟨rfl, rfl⟩
  · cases h; exact ⟨rfl, rfl⟩
  · split at h <;> cases h <;> exact ⟨rfl, rfl⟩
  · cases h

theorem fails_of_nativeEvent {event : NativeEvent}
    (h : nativeEvent row pc event = some (pc', effects)) :
    pc.urlFails pc' = false ∧ pc.transferFails pc' = event.isError := by
  unfold nativeEvent at h
  split at h <;> cases h <;> exact ⟨rfl, rfl⟩

/-- **A turn keeps the count.** -/
theorem TaskTurn.counted {count : ℕ}
    (h : TaskTurn who row item now store consent pc pc' effects)
    (hc : pc.Counted item.attempts count) (hfits : pc.Fits item.status)
    (hbelow : item.status = .uploading → item.attempts < MAX_UPLOAD_ATTEMPTS)
    (hurl : pc.urlFails pc' = true → item.attempts + 1 = MAX_UPLOAD_ATTEMPTS) :
    pc'.Counted item.attempts
      (if pc.urlFails pc' || pc.transferFails pc' then count + 1 else count) := by
  cases h with
  | noChecksum recording error hsum => exact .inl hsum
  | cached recording hsum hurl => exact hc
  | presign recording hsum => exact ⟨hsum, hc⟩
  | reissued sessionId url expiresAt => exact hc.2
  | issued sessionId url expiresAt => exact hc
  | presignFailed error => exact .inr (hc.2 ▸ hurl rfl)
  | sessionStored => exact hc.2
  | sessionFailed error => exact .inr (hc.2 ▸ hurl rfl)
  | start => exact hc
  | started => exact hc
  | startFailed error => exact congrArg (· + 1) hc
  | retry attempts hatt hlt => exact ⟨hatt.trans hc, hlt⟩
  | giveUp hmax =>
    have hlt := hbelow hfits
    have hn : item.attempts + 1 = count := hc
    exact .inr (by simp [TaskPc.urlFails, TaskPc.transferFails]; omega)
  | progress loaded total => exact hc
  | interrupted error => exact congrArg (· + 1) hc
  | @handler pc next effects hh => cases next <;> trivial
  | _ => trivial

/-- A failed request for a URL. -/
theorem TaskTurn.of_urlFails {count : ℕ}
    (h : TaskTurn who row item now store consent pc pc' effects)
    (hf : pc.urlFails pc' = true) (hc : pc.Counted item.attempts count) :
    item.attempts = count ∧ ∃ recording error, recording.checksumSha256 ≠ "" ∧
      pc' = .writing recording (.failed error) .pending := by
  cases h with
  | presignFailed error => exact ⟨hc.2, _, error, hc.1, rfl⟩
  | sessionFailed error => exact ⟨hc.2, _, error, hc.1, rfl⟩
  | written hw => simp [TaskPc.urlFails] at hf
  | writeFailed => simp [TaskPc.urlFails] at hf
  | _ => cases hf

theorem uploading_of_transferFails {st : UploadQueueStatus} (hf : pc.transferFails pc' = true)
    (hfits : pc.Fits st) : st = .uploading := by
  unfold TaskPc.transferFails at hf
  split at hf
  · exact hfits
  · exact hfits
  · cases hf

theorem settled_of_transferFails (hf : pc.transferFails pc' = true) :
    ∃ recording url error, pc' = .settled recording url (some error) := by
  unfold TaskPc.transferFails at hf
  split at hf
  · exact ⟨_, _, _, rfl⟩
  · exact ⟨_, _, _, rfl⟩
  · cases hf

theorem returned_of_completeFails {pc : HandlerPc} {next : HandlerNext} {outcome : Outcome}
    (h : handleCompleting who row item consent pc outcome = some (next, effects))
    (hf : pc.completeFails outcome = true) : next = .returned ∧ effects = [] := by
  unfold HandlerPc.completeFails at hf
  split at hf
  · simp only [decide_eq_true_eq, ne_eq] at hf
    simp only [handleCompleting, if_neg hf] at h
    cases h
    exact ⟨rfl, rfl⟩
  · cases h
    exact ⟨rfl, rfl⟩
  · cases hf

end Turns

section TurnBy

variable {s : State} {l : Label} {p : Pid} {t : Task} {item : UploadQueueItem} {pc : TaskPc}
  {effects : List Effect} {row : RowId}

theorem TurnBy.urlFailure_eq (hp : s.tasks.get? p = some t) (h : TurnBy s p t item l pc effects) :
    urlFailure s l = if t.pc.urlFails pc then some t else none := by
  cases h with
  | resumed h =>
    obtain ⟨hu, -⟩ := fails_of_processItem h
    simp [urlFailure, hp, Option.filter_some, hu]
  | event h =>
    obtain ⟨hu, -⟩ := fails_of_nativeEvent h
    simp [urlFailure, hu]

theorem TurnBy.transferFailure_eq (hp : s.tasks.get? p = some t)
    (h : TurnBy s p t item l pc effects) :
    transferFailure s l = if t.pc.transferFails pc then some t else none := by
  cases h with
  | resumed h =>
    obtain ⟨-, hx⟩ := fails_of_processItem h
    simp [transferFailure, hp, Option.filter_some, hx]
  | event h =>
    obtain ⟨-, hx⟩ := fails_of_nativeEvent h
    simp [transferFailure, hp, Option.filter_some, hx]

theorem turnOf_of_urlFailure (h : urlFailure s l = some t) :
    ∃ p, l.turnOf = some p ∧ s.tasks.get? p = some t := by
  unfold urlFailure at h
  split at h
  · rename_i p o
    exact ⟨p, rfl, (Option.filter_eq_some_iff.1 h).1⟩
  · cases h

theorem turnOf_of_transferFailure (h : transferFailure s l = some t) :
    ∃ p, l.turnOf = some p ∧ s.tasks.get? p = some t := by
  unfold transferFailure at h
  split at h
  · rename_i p o
    exact ⟨p, rfl, (Option.filter_eq_some_iff.1 h).1⟩
  · rename_i p event
    exact ⟨p, rfl, (Option.filter_eq_some_iff.1 h).1⟩
  · cases h

theorem turnOf_of_attemptFailure (h : attemptFailure s l = some row) :
    ∃ p t, l.turnOf = some p ∧ s.tasks.get? p = some t ∧ t.row = row := by
  obtain ⟨t, ht, hrow⟩ := Option.map_eq_some_iff.1 h
  rcases Option.or_eq_some_iff.1 ht with ht | ⟨-, ht⟩
  · obtain ⟨p, hl, hp⟩ := turnOf_of_urlFailure ht
    exact ⟨p, t, hl, hp, hrow⟩
  · obtain ⟨p, hl, hp⟩ := turnOf_of_transferFailure ht
    exact ⟨p, t, hl, hp, hrow⟩

end TurnBy

/-- A step in which a task makes a turn, and whether the attempt fails in it. -/
structure TaskStep (s : State) (l : Label) (s' : State) (p : Pid) (t : Task) (pc : TaskPc)
    (effects : List Effect) (item : UploadQueueItem) : Prop where
  task : s.tasks.get? p = some t
  row : s.rows.get? t.row = some item
  turn : TaskTurn (.task p) t.row item s.now s.store s.consent t.pc pc effects
  eq : s' = s.taskTurn p t pc effects
  renewal : renewal s l = none
  url : urlFailure s l = if t.pc.urlFails pc then some t else none
  transfer : transferFailure s l = if t.pc.transferFails pc then some t else none

namespace TaskStep

variable {s s' : State} {p : Pid}

theorem of_resume {o : Outcome} (h : step s (.resume (.task p) o) = some s') :
    (∃ t, s.tasks.get? p = some t ∧ t.pc = .finishing ∧ s' = s.finishTask p t.recordingId) ∨
      ∃ t pc effects item, TaskStep s (.resume (.task p) o) s' p t pc effects item := by
  obtain ⟨t, hp, hturn⟩ := Option.bind_eq_some_iff.1 h
  unfold State.resumeTask at hturn
  split at hturn
  · rename_i hpc
    split_ifs at hturn
    cases hturn
    exact .inl ⟨t, hp, hpc, rfl⟩
  · simp only [Option.bind_eq_bind, Option.bind_eq_some_iff] at hturn
    obtain ⟨item, hrow, ⟨pc, effects⟩, hturn, he⟩ := hturn
    cases he
    have ht : TurnBy s p t item (.resume (.task p) o) pc effects := .resumed hturn
    exact .inr ⟨t, pc, effects, item, hp, hrow, ht.taskTurn, rfl, rfl, ht.urlFailure_eq hp,
      ht.transferFailure_eq hp⟩

theorem of_native (hs : Slots s) {event : NativeEvent} (h : step s (.native p event) = some s') :
    ∃ t pc effects item, TaskStep s (.native p event) s' p t pc effects item := by
  obtain ⟨t, hp, hn⟩ := Option.bind_eq_some_iff.1 h
  simp only [State.native, Option.bind_eq_bind, Option.bind_eq_some_iff] at hn
  obtain ⟨⟨pc, effects⟩, hturn, he⟩ := hn
  cases he
  obtain ⟨item, hrow, -⟩ := hs.taskRows p t hp
  have ht : TurnBy s p t item (.native p event) pc effects := .event hturn
  exact ⟨t, pc, effects, item, hp, hrow, ht.taskTurn, rfl, rfl, ht.urlFailure_eq hp,
    ht.transferFailure_eq hp⟩

/-- A task makes a turn, or it ends. -/
theorem of_turnOf (hs : Slots s) {l : Label} (h : step s l = some s') (hl : l.turnOf = some p) :
    (∃ t o, l = .resume (.task p) o ∧ s.tasks.get? p = some t ∧ t.pc = .finishing) ∨
      ∃ t pc effects item, TaskStep s l s' p t pc effects item := by
  cases l with
  | resume who o =>
    cases who with
    | task q =>
      cases hl
      rcases of_resume h with ⟨t, hp, hpc, -⟩ | ht
      · exact .inl ⟨t, o, rfl, hp, hpc⟩
      · exact .inr ht
    | _ => cases hl
  | native q event =>
    cases hl
    exact .inr (of_native hs h)
  | _ => cases hl

/-- After a failed transfer the task requests the next status of its row. -/
theorem writer_of_settled {t : Task} {recording : LocalRecording} {url : String}
    {error : UploadError} (hp : s.tasks.get? p = some t)
    (hpc : t.pc = .settled recording url (some error))
    (h : step s (.resume (.task p) .ok) = some s') :
    ∃ item, s.rows.get? t.row = some item ∧
      s'.writer = s.writer ++ [⟨some (.task p), .update t.row
        (if item.attempts + 1 < MAX_UPLOAD_ATTEMPTS then
          .retrying (item.attempts + 1) (safeError error) else .failed (safeError error))⟩] := by
  rcases of_resume h with ⟨t', hp', hpc', -⟩ | ⟨t', pc, effects, item, ht⟩
  · cases hp.symm.trans hp'
    cases hpc.symm.trans hpc'
  · cases hp.symm.trans ht.task
    refine ⟨item, ht.row, ?_⟩
    have hturn := ht.turn
    rw [hpc] at hturn
    rw [ht.eq]
    cases hturn with
    | retry attempts hatt hlt =>
      subst hatt
      rw [if_pos hlt]
      rfl
    | giveUp hmax =>
      rw [if_neg (Nat.not_lt.2 hmax)]
      rfl

theorem attemptFailure_eq {l : Label} {t : Task} {pc : TaskPc} {effects : List Effect}
    {item : UploadQueueItem} (h : TaskStep s l s' p t pc effects item) :
    attemptFailure s l =
      if t.pc.urlFails pc || t.pc.transferFails pc then some t.row else none := by
  rw [attemptFailure, h.url, h.transfer]
  cases t.pc.urlFails pc <;> cases t.pc.transferFails pc <;> rfl

/-- The step in which an attempt fails. -/
theorem of_failure (hs : Slots s) {l : Label} (h : step s l = some s') {row : RowId}
    (hf : attemptFailure s l = some row) :
    ∃ p t pc effects item, TaskStep s l s' p t pc effects item ∧ t.row = row ∧
      (t.pc.urlFails pc || t.pc.transferFails pc) = true := by
  obtain ⟨p, u, hl, hp, -⟩ := turnOf_of_attemptFailure hf
  rcases of_turnOf hs h hl with ⟨t, o, rfl, hp', hpc⟩ | ⟨t, pc, effects, item, ht⟩
  · simp [attemptFailure, urlFailure, transferFailure, hp', hpc, Option.filter_some,
      TaskPc.requestsUrl, TaskPc.startsTransfer] at hf
  · rw [ht.attemptFailure_eq] at hf
    obtain ⟨hb, he⟩ := Option.ite_none_right_eq_some.1 hf
    exact ⟨p, t, pc, effects, item, ht, Option.some.inj he, hb⟩

end TaskStep

/-! ### The invariant -/

/-- What the count of a row has to do with the row, with the task that works on it and with the
writes that are requested for it. -/
structure RowCounted (s : State) (row : RowId) (count : ℕ) : Prop where
  below : ∀ item, s.rows.get? row = some item →
    item.status = .pending ∨ item.status = .retrying ∨ item.status = .uploading →
      item.attempts < MAX_UPLOAD_ATTEMPTS
  waiting : ∀ item, s.rows.get? row = some item →
    item.status = .pending ∨ item.status = .retrying →
      item.attempts = count ∨ ∃ p, GivesUp s p row
  tasks : ∀ p t item, s.tasks.get? p = some t → t.row = row → s.rows.get? row = some item →
    t.pc.Counted item.attempts count
  resets : ∀ job ∈ s.writer, job.action = .update row .reset →
    statusOf s.rows row = some .pending → count = 0

/-- The task of the row gives it up. -/
def RowView.GivesUp (v : RowView) : Prop :=
  ∃ p recording error, v.task = some (p, .writing recording (.failed error) .pending) ∧
    recording.checksumSha256 ≠ "" ∧ ∀ item, v.item = some item → item.status ≠ .uploading

/-- What the count of a row has to do with the row and with the task that works on it, move by
move. -/
structure RowView.Counted (v : RowView) (count : ℕ) : Prop where
  below : ∀ item, v.item = some item →
    item.status = .pending ∨ item.status = .retrying ∨ item.status = .uploading →
      item.attempts < MAX_UPLOAD_ATTEMPTS
  /-- No attempt has failed. -/
  pending : ∀ item, v.item = some item → item.status = .pending → item.attempts = 0 ∧ count = 0
  retrying : ∀ item, v.item = some item → item.status = .retrying →
    item.attempts = count ∨ v.GivesUp
  task : ∀ item p pc, v.item = some item → v.task = some (p, pc) → pc.Counted item.attempts count

theorem givesUp_of_view {s : State} {row : RowId} {p : Pid} {recording : LocalRecording}
    {error : String} (hp : (view s row).task =
      some (p, .writing recording (.failed error) .pending))
    (hsum : recording.checksumSha256 ≠ "")
    (hup : ∀ item, (view s row).item = some item → item.status ≠ .uploading) : GivesUp s p row := by
  obtain ⟨t, ht, hrow, hpc⟩ := task_of_view hp
  refine ⟨t, recording, error, ht, hrow, hpc, hsum, fun hst => ?_⟩
  obtain ⟨item, hitem, he⟩ := Option.map_eq_some_iff.1 hst
  exact hup item hitem he

section Count

variable {s : State} {l : Label} {row : RowId} {count : RowId → ℕ}

theorem writtenRow_of_renewal (h : renewal s l = some row) : writtenRow s l = some row := by
  unfold renewal at h
  split at h
  · rename_i newId
    unfold writtenRow
    split at h <;> rename_i hw <;> simp only [hw]
    · exact h
    · exact h
    · cases h
  · cases h

/-- A step that is no turn of the task of the row. -/
theorem countAttempts_of_not_turn
    (h : ∀ p t, l.turnOf = some p → s.tasks.get? p = some t → t.row ≠ row) :
    countAttempts count s l row = if renewal s l = some row then 0 else count row := by
  have hfail : attemptFailure s l ≠ some row := by
    intro hx
    obtain ⟨p, t, hl, hp, hrow⟩ := turnOf_of_attemptFailure hx
    exact h p t hl hp hrow
  rw [countAttempts, if_neg hfail]

/-- A turn of the task of the row. -/
theorem TurnBy.countAttempts_eq {p : Pid} {t : Task} {item : UploadQueueItem} {pc : TaskPc}
    {effects : List Effect} (hp : s.tasks.get? p = some t) (h : TurnBy s p t item l pc effects) :
    countAttempts count s l t.row =
      if t.pc.urlFails pc || t.pc.transferFails pc then count t.row + 1 else count t.row := by
  have hrenewal : renewal s l = none := by
    cases h <;> rfl
  rw [countAttempts, attemptFailure, hrenewal, h.urlFailure_eq hp, h.transferFailure_eq hp]
  cases t.pc.urlFails pc <;> cases t.pc.transferFails pc <;> simp

end Count

namespace RowView.Counted

variable {s : State} {l : Label} {row : RowId} {v v' : RowView} {count : RowId → ℕ} {n : ℕ}

/-- The row has no task any more. -/
theorem withoutTask (h : v.Counted n) (hno : ¬ v.GivesUp) : RowView.Counted ⟨v.item, none⟩ n where
  below := h.below
  pending := h.pending
  retrying := fun item hitem hst => .inl ((h.retrying item hitem hst).resolve_right hno)
  task := fun _ _ _ _ hp => by cases hp

/-- The row waits, with no attempt on the count. -/
theorem fresh {item : UploadQueueItem} {task : Option (Pid × TaskPc)} (hst : item.status = .pending)
    (hzero : item.attempts = 0) (htask : ∀ p pc, task = some (p, pc) → pc.Counted 0 0) :
    RowView.Counted ⟨some item, task⟩ 0 where
  below := by
    rintro _ ⟨⟩ -
    rw [hzero]
    decide
  pending := by
    rintro _ ⟨⟩ -
    exact ⟨hzero, rfl⟩
  retrying := by
    rintro _ ⟨⟩ hr
    cases hst.symm.trans hr
  task := by
    rintro _ p pc ⟨⟩ hp
    rw [hzero]
    exact htask p pc hp

/-- `retryUpload` resets the row. -/
theorem reset {item : UploadQueueItem} {task : Option (Pid × TaskPc)} {now : ℕ}
    (h : RowView.Counted ⟨some item, task⟩ n) (hst : item.status = .failed ∨ item.status = .pending)
    (hfits : ∀ p pc, task = some (p, pc) → pc.Fits item.status) :
    RowView.Counted ⟨some (Update.reset.apply now item), task⟩ 0 := by
  refine fresh rfl rfl fun p pc hp => ?_
  rcases hst with hst | hst
  · -- nothing is known about the task of a `failed` row
    exact (hst ▸ hfits p pc hp).counted_of_failed 0 0
  · -- another call has reset the row already
    obtain ⟨hzero, rfl⟩ := h.pending item rfl hst
    exact hzero ▸ h.task item p pc rfl hp

/-- The row is the one it was, up to what is not counted, or it has become `done`. -/
theorem kept {item item' : UploadQueueItem} {task task' : Option (Pid × TaskPc)}
    (h : RowView.Counted ⟨some item, task⟩ n) (hattempts : item'.attempts = item.attempts)
    (hst : item'.status = .done ∨ item'.status = item.status ∧
      (task' = task ∨ ¬ RowView.GivesUp ⟨some item, task⟩))
    (htask : ∀ p pc, task' = some (p, pc) → pc.Counted item.attempts n) :
    RowView.Counted ⟨some item', task'⟩ n where
  below := by
    rintro _ ⟨⟩ hw
    rcases hst with hst | ⟨hst, -⟩
    · simp [hst] at hw
    · rw [hst] at hw
      exact hattempts ▸ h.below item rfl hw
  pending := by
    rintro _ ⟨⟩ hp
    rcases hst with hst | ⟨hst, -⟩
    · cases hst.symm.trans hp
    · exact hattempts ▸ h.pending item rfl (hst ▸ hp)
  retrying := by
    rintro _ ⟨⟩ hr
    rcases hst with hst | ⟨hst, hgives⟩
    · cases hst.symm.trans hr
    · rw [hattempts]
      refine (h.retrying item rfl (hst ▸ hr)).imp_right fun hv => ?_
      obtain ⟨p, recording, error, hp, hsum, hup⟩ := hv
      rcases hgives with rfl | hno
      · refine ⟨p, recording, error, hp, hsum, ?_⟩
        rintro _ ⟨⟩
        exact hst ▸ hup item rfl
      · exact absurd ⟨p, recording, error, hp, hsum, hup⟩ hno
  task := by
    rintro _ p pc ⟨⟩ hp
    exact hattempts ▸ htask p pc hp

/-- The row and its task go on. -/
theorem next {item : UploadQueueItem} {p : Pid} {pc : TaskPc}
    (hbelow : item.status = .pending ∨ item.status = .retrying ∨ item.status = .uploading →
      item.attempts < MAX_UPLOAD_ATTEMPTS)
    (hpending : item.status ≠ .pending) (hretrying : item.status = .retrying → item.attempts = n)
    (hc : pc.Counted item.attempts n) : RowView.Counted ⟨some item, some (p, pc)⟩ n where
  below := by
    rintro _ ⟨⟩
    exact hbelow
  pending := by
    rintro _ ⟨⟩ hp
    exact absurd hp hpending
  retrying := by
    rintro _ ⟨⟩ hr
    exact .inl (hretrying hr)
  task := by
    rintro _ _ _ ⟨⟩ ⟨⟩
    exact hc

/-- The write that a task waits for lands. -/
theorem written {item : UploadQueueItem} {p : Pid} {recording : LocalRecording} {w : TaskWrite}
    {now : ℕ} (h : RowView.Counted ⟨some item, some (p, .writing recording w .pending)⟩ n)
    (hfits : TaskPc.Fits (.writing recording w .pending) item.status) :
    RowView.Counted
      ⟨some (w.update.apply now item), some (p, .writing recording w .resolved)⟩ n := by
  have hc := h.task item p _ rfl rfl
  cases w with
  | session sessionId url =>
    refine h.kept rfl (.inr ⟨rfl, .inr ?_⟩) fun q pc hq => by cases hq; exact hc
    rintro ⟨q, recording', error, hq, -⟩
    cases hq
  | uploading url =>
    exact next (fun _ => h.below item rfl (hfits.imp_right .inl))
      (by simp [TaskWrite.update, Update.apply])
      (by simp [TaskWrite.update, Update.apply]) hc
  | retrying k error =>
    exact next (fun _ => hc.2) (by simp [TaskWrite.update, Update.apply]) (fun _ => hc.1) trivial
  | failed error =>
    exact next (by simp [TaskWrite.update, Update.apply]) (by simp [TaskWrite.update, Update.apply])
      (by simp [TaskWrite.update, Update.apply]) trivial
  | completing =>
    exact next (by simp [TaskWrite.update, Update.apply]) (by simp [TaskWrite.update, Update.apply])
      (by simp [TaskWrite.update, Update.apply]) trivial

/-- A task starts on a row that waits. -/
theorem started {item : UploadQueueItem} (p : Pid) (h : RowView.Counted ⟨some item, none⟩ n)
    (hwait : item.status = .pending ∨ item.status = .retrying) :
    RowView.Counted ⟨some item, some (p, .findRecording)⟩ n := by
  have hno : ¬ RowView.GivesUp ⟨some item, none⟩ := by
    rintro ⟨q, recording, error, hq, -⟩
    cases hq
  have hcount : item.attempts = n := by
    rcases hwait with hst | hst
    · obtain ⟨hzero, rfl⟩ := h.pending item rfl hst
      exact hzero
    · exact (h.retrying item rfl hst).resolve_right hno
  exact h.kept rfl (.inr ⟨rfl, .inr hno⟩) fun q pc hq => by cases hq; exact hcount

/-- The task that works on the row makes a turn. -/
theorem turn {p : Pid} {t : Task} {item : UploadQueueItem} {pc : TaskPc} {effects : List Effect}
    (h : RowView.Counted ⟨some item, some (p, t.pc)⟩ (count t.row))
    (hp : s.tasks.get? p = some t) (ht : TurnBy s p t item l pc effects)
    (hfits : t.pc.Fits item.status)
    (hurl : t.pc.urlFails pc = true → item.attempts + 1 = MAX_UPLOAD_ATTEMPTS) :
    RowView.Counted ⟨some item, some (p, pc)⟩ (countAttempts count s l t.row) := by
  rw [ht.countAttempts_eq hp]
  have hc := h.task item p t.pc rfl rfl
  have hturn := ht.taskTurn
  have htransfer : t.pc.transferFails pc = true → item.status = .uploading :=
    fun hx => uploading_of_transferFails hx hfits
  constructor
  · rintro _ ⟨⟩
    exact h.below item rfl
  · rintro _ ⟨⟩ hst
    obtain ⟨hzero, hcount⟩ := h.pending item rfl hst
    -- neither the request nor the transfer of a `pending` row fails
    have hu : t.pc.urlFails pc = false := by
      by_contra hu
      have := hurl (Bool.eq_true_of_not_eq_false hu)
      rw [hzero] at this
      cases this
    have hx : t.pc.transferFails pc = false := by
      by_contra hx
      cases hst.symm.trans (htransfer (Bool.eq_true_of_not_eq_false hx))
    rw [hu, hx]
    exact ⟨hzero, hcount⟩
  · rintro _ ⟨⟩ hst
    cases hu : t.pc.urlFails pc with
    | true =>
      obtain ⟨-, recording, error, hsum, rfl⟩ := hturn.of_urlFails hu hc
      refine .inr ⟨p, recording, error, rfl, hsum, ?_⟩
      rintro _ ⟨⟩ hup
      cases hst.symm.trans hup
    | false =>
      cases hx : t.pc.transferFails pc with
      | true => cases hst.symm.trans (htransfer hx)
      | false =>
        refine .inl ((h.retrying item rfl hst).resolve_right ?_)
        rintro ⟨q, recording, error, hq, -⟩
        obtain ⟨-, hpc⟩ := Prod.mk.inj (Option.some.inj hq)
        have hidle := hturn.awaited_eq_none
        rw [hpc] at hidle
        cases hidle
  · rintro _ _ _ ⟨⟩ ⟨⟩
    exact hturn.counted hc hfits (fun he => h.below item rfl (.inr (.inr he))) hurl

/-- **What a step preserves.** -/
theorem move (h : v.Counted (count row)) (hm : RowMove s l row v v')
    (hfits : ∀ item p pc, v.item = some item → v.task = some (p, pc) → pc.Fits item.status)
    (hpicked : ∀ p item, s.drains.get? p = some (.picked row) → v.item = some item →
      item.status = .pending ∨ item.status = .retrying)
    (hurl : ∀ t item, urlFailure s l = some t → t.row = row → v.item = some item →
      item.attempts + 1 = MAX_UPLOAD_ATTEMPTS)
    (halive : l = .kill → ¬ v.GivesUp)
    (hlanded : l = .reject → ∀ p pc, v.task = some (p, pc) → nextWriter s = some (.task p) →
      ¬ v.GivesUp) :
    v'.Counted (countAttempts count s l row) := by
  have hkeep : l.turnOf = none → renewal s l ≠ some row → countAttempts count s l row = count row :=
    fun hturn hne => (countAttempts_of_not_turn (by simp [hturn])).trans (if_neg hne)
  cases hm with
  | same hapart =>
    have hne : renewal s l ≠ some row := fun hx => hapart.write (writtenRow_of_renewal hx)
    rw [countAttempts_of_not_turn hapart.turn, if_neg hne]
    exact h
  | @created row owner recordingId bytesTotal jobs hw =>
    have hc : countAttempts count s (.commit row) row = 0 := by
      simp [countAttempts, renewal, hw]
    rw [hc]
    exact fresh rfl rfl (by simp)
  | @reset newId row owner jobs item task hw hst =>
    have hc : countAttempts count s (.commit newId) row = 0 := by
      simp [countAttempts, renewal, hw]
    rw [hc]
    exact h.reset hst (hfits item · · rfl)
  | @progress newId row loaded jobs item task hw =>
    rw [hkeep rfl (by simp [renewal, hw])]
    cases item with
    | none => exact h
    | some item => exact h.kept rfl (.inr ⟨rfl, .inl rfl⟩) (h.task item · · rfl)
  | @written newId row p jobs item recording w hw =>
    rw [hkeep rfl (by cases w <;> simp [renewal, hw, TaskWrite.update])]
    exact h.written (hfits _ _ _ rfl rfl)
  | @taskDone newId row p jobs item conflict serverId hw =>
    rw [hkeep rfl (by simp [renewal, hw])]
    refine h.kept rfl (.inl rfl) fun q pc hq => ?_
    cases hq
    trivial
  | @drainDone newId row p jobs item task hw hst =>
    rw [hkeep rfl (by simp [renewal, hw])]
    exact h.kept rfl (.inl rfl) (h.task item · · rfl)
  | @rejected row p job jobs item pc hw howner hawait =>
    rw [hkeep rfl (by simp [renewal])]
    have hno := hlanded rfl p pc rfl (by simp [nextWriter, hw, howner])
    refine h.kept rfl (.inr ⟨rfl, .inr hno⟩) fun q pc' hq => ?_
    cases hq
    exact (h.task item p pc rfl rfl).rejected
  | started hp =>
    rw [hkeep rfl (by simp [renewal])]
    exact h.started _ (hpicked _ _ hp rfl)
  | turn hp hrow ht =>
    subst hrow
    exact h.turn hp ht (hfits _ _ _ rfl rfl)
      fun hu => hurl _ _ (ht.urlFailure_eq hp ▸ if_pos hu) rfl rfl
  | @finished p row item t hp hrow hpc =>
    have hc : countAttempts count s (.resume (.task p) .ok) row = count row := by
      simp [countAttempts, renewal, attemptFailure, urlFailure, transferFailure, hp, hpc,
        Option.filter_some, TaskPc.requestsUrl, TaskPc.startsTransfer]
    rw [hc]
    refine h.withoutTask ?_
    rintro ⟨q, recording, error, hq, -⟩
    cases hq
  | killed =>
    rw [hkeep rfl (by simp [renewal])]
    exact h.withoutTask (halive rfl)

/-- **The rows are counted after every run that meets the condition.** -/
theorem of_run {tr : List (State × Label)} (hrun : uploadService.Run tr s)
    (hok : ∀ x ∈ tr, UrlFailsLast x.1 x.2) (row : RowId) :
    (view s row).Counted (failedAttempts tr row) := by
  refine hrun.guard_history_invariant
    (I := fun s (count : RowId → ℕ) => ∀ row, (view s row).Counted (count row)) hok ?_ ?_ row
  · rintro s ⟨consent, now, rfl⟩ row
    exact ⟨by rintro item ⟨⟩, by rintro item ⟨⟩, by rintro item ⟨⟩, by rintro item p pc ⟨⟩⟩
  · intro s count l s' hr h hok hst row
    have ho := Ownership.of_reachable hr
    refine (h row).move (RowMove.of_step hr hst row) (fun item p pc => ho.view_fits) ?_
      (fun t item hu hrow hitem => hok.last t item hu (hrow ▸ hitem)) ?_ ?_
    · intro p item hp hitem
      have hwait : statusOf s.rows row = some .pending ∨ statusOf s.rows row = some .retrying :=
        ho.drains p _ hp
      rwa [statusOf_of_get? hitem, Option.some.injEq, Option.some.injEq] at hwait
    · rintro hl ⟨p, recording, error, hp, hsum, hup⟩
      exact (hok.alive hl p row).1 (givesUp_of_view hp hsum hup)
    · rintro hl p pc htask hnext ⟨q, recording, error, hq, hsum, hup⟩
      obtain ⟨rfl, -⟩ := Prod.mk.inj (Option.some.inj (htask.symm.trans hq))
      exact (hok.landed hl p row hnext).1 (givesUp_of_view hq hsum hup)

end RowView.Counted

/-- What this says of the state. -/
theorem RowCounted.of_run {tr : List (State × Label)} {s : State} (hrun : uploadService.Run tr s)
    (hok : ∀ x ∈ tr, UrlFailsLast x.1 x.2) (row : RowId) :
    RowCounted s row (failedAttempts tr row) := by
  have h := RowView.Counted.of_run hrun hok row
  have hs := Slots.of_reachable hrun.reachable
  refine ⟨h.below, fun item hitem hst => ?_, ?_, fun job _ _ hst => ?_⟩
  · rcases hst with hst | hst
    · obtain ⟨hzero, hcount⟩ := h.pending item hitem hst
      exact .inl (hzero.trans hcount.symm)
    · refine (h.retrying item hitem hst).imp_right ?_
      rintro ⟨p, recording, error, hp, hsum, hup⟩
      exact ⟨p, givesUp_of_view hp hsum hup⟩
  · rintro p t item hp rfl hitem
    exact h.task item p t.pc hitem (by rw [view_of_task hs hp])
  · obtain ⟨item, hitem, he⟩ := Option.map_eq_some_iff.1 hst
    exact (h.pending item hitem he).2

/-! ### Backing off -/

section BacksOff

variable {s z : State} {l : Label} {row : RowId} {v v' : RowView} {p : Pid}

/-- **A task that backs off goes on to do so, or it has made its row `retrying`.** -/
theorem RowView.BacksOff.move (h : v.BacksOff p) (hm : RowMove s l row v v')
    (hfits : ∀ item q pc, v.item = some item → v.task = some (q, pc) → pc.Fits item.status)
    (halive : l ≠ .kill) (hlanded : l = .reject → nextWriter s ≠ some (.task p)) :
    v'.BacksOff p ∨ ∃ item, v'.item = some item ∧ item.status = .retrying := by
  obtain ⟨item, recording, hitem, htask⟩ := h
  obtain ⟨pc, hp, hpc⟩ : ∃ pc, v.task = some (p, pc) ∧
      ((∃ url error, pc = .settled recording url (some error) ∧
          item.attempts + 1 < MAX_UPLOAD_ATTEMPTS) ∨
        ∃ attempts error, pc = .writing recording (.retrying attempts error) .pending) := by
    rcases htask with ⟨url, error, hp, hlt⟩ | ⟨attempts, error, hp⟩
    · exact ⟨_, hp, .inl ⟨url, error, rfl, hlt⟩⟩
    · exact ⟨_, hp, .inr ⟨attempts, error, rfl⟩⟩
  have hup : item.status = .uploading := by
    have hf := hfits item p pc hitem hp
    rcases hpc with ⟨url, error, rfl, -⟩ | ⟨attempts, error, rfl⟩
    · exact hf
    · exact hf
  have hkeep {item' : UploadQueueItem} (hatt : item'.attempts = item.attempts) :
      RowView.BacksOff ⟨some item', some (p, pc)⟩ p := by
    rcases hpc with ⟨url, error, rfl, hlt⟩ | ⟨attempts, error, rfl⟩
    · exact ⟨item', recording, rfl, .inl ⟨url, error, rfl, hatt ▸ hlt⟩⟩
    · exact ⟨item', recording, rfl, .inr ⟨attempts, error, rfl⟩⟩
  cases hm with
  | same hapart => exact .inl ⟨item, recording, hitem, htask⟩
  | created hw => cases hitem
  | reset hw hst =>
    cases hitem
    rcases hst with hst | hst <;> cases hup.symm.trans hst
  | progress hw =>
    cases hitem
    cases hp
    exact .inl (hkeep rfl)
  | @written newId row q jobs item' recording' w hw =>
    -- the write for which the task waits is the one that says `retrying`
    cases hp
    rcases hpc with ⟨url, error, he, -⟩ | ⟨attempts, error, he⟩
    · cases he
    · cases he
      exact .inr ⟨_, rfl, rfl⟩
  | taskDone hw =>
    cases hp
    rcases hpc with ⟨url, error, he, -⟩ | ⟨attempts, error, he⟩ <;> cases he
  | drainDone hw hst =>
    cases hitem
    rcases hst with hst | hst <;> cases hup.symm.trans hst
  | rejected hw howner hawait =>
    cases hp
    exact absurd (by simp [nextWriter, hw, howner]) (hlanded rfl)
  | started hq => cases hp
  | @turn _ row q t item' pc' effects hq hrow ht =>
    cases hitem
    cases hp
    have hturn := ht.taskTurn
    rcases hpc with ⟨url, error, he, hlt⟩ | ⟨attempts, error, he⟩
    · rw [he] at hturn
      cases hturn with
      | retry attempts hatt hlt => exact .inl ⟨_, recording, rfl, .inr ⟨attempts, _, rfl⟩⟩
      | giveUp hmax => omega
    · have hidle := hturn.awaited_eq_none
      rw [he] at hidle
      cases hidle
  | finished hq hrow hpc' =>
    cases hp
    rcases hpc with ⟨url, error, he, -⟩ | ⟨attempts, error, he⟩ <;> cases he
  | killed => exact absurd rfl halive

/-- **A run from where a task backs off.** -/
theorem retrying_of_backsOff {tr : List (State × Label)} (hr : uploadService.Reachable s)
    (h : (view s row).BacksOff p) (hrun : (uploadService.after s).Run tr z)
    (hok : ∀ x ∈ tr, UrlFailsLast x.1 x.2) :
    (∃ y ∈ tr.map Prod.fst ++ [z], statusOf y.rows row = some .retrying) ∨
      (view z row).BacksOff p := by
  induction hrun with
  | start he => exact .inr (he ▸ h)
  | @step tr y z l hrun hst ih =>
    have hy := hr.of_after hrun.reachable
    have hl := hok _ (List.mem_append_right _ (List.mem_singleton_self _))
    rcases ih fun x hx => hok x (List.mem_append_left _ hx) with ⟨w, hw, he⟩ | hb
    · refine .inl ⟨w, ?_, he⟩
      rw [List.map_append]
      exact List.mem_append_left _ hw
    · rcases hb.move (RowMove.of_step hy hst row)
          (fun item q pc => (Ownership.of_reachable hy).view_fits)
          (fun he => (hl.alive he p row).2 hb) (fun he hn => (hl.landed he p row hn).2 hb) with
        hb | ⟨item, hitem, hstatus⟩
      · exact .inr hb
      · exact .inl ⟨z, by simp, (statusOf_of_get? hitem).trans (congrArg some hstatus)⟩

end BacksOff

/-! ### The result -/

section Runs

variable {tr : List (State × Label)} {s s' : State} {l : Label} {row : RowId}

/-- A row gets `failed` for want of a checksum or because its attempts are exhausted. -/
theorem exhausted_of_failed (hrun : uploadService.Run tr s) (hok : ∀ x ∈ tr, UrlFailsLast x.1 x.2)
    (hw : statusWrite s l = some (row, .failed)) :
    ∃ recording, nextFailed s = some (row, recording) ∧
      (recording.checksumSha256 = "" ∨ failedAttempts tr row = MAX_UPLOAD_ATTEMPTS) := by
  obtain ⟨newId, owner, u, jobs, rfl, hwriter, hu⟩ := statusWrite_eq_some hw
  have hm : ⟨owner, .update row u⟩ ∈ s.writer := hwriter ▸ List.mem_cons_self
  have hj := (Writer.of_reachable hrun.reachable).jobOf hm
  cases hj with
  | progress r loaded => cases hu
  | reset hp => cases hu
  | @task p r id recording w hp =>
    cases w with
    | failed error =>
      obtain ⟨item, hrow, -⟩ := (Slots.of_reachable hrun.reachable).taskRows p _ hp
      exact ⟨recording, by simp [nextFailed, nextWriter, hwriter, hp],
        (RowCounted.of_run hrun hok row).tasks p _ item hp rfl hrow⟩
    | _ => cases hu
  | taskDone hp => cases hu
  | drainDone hp => cases hu

/-- An attempt that fails before the last one has failed in the transfer. -/
theorem settled_of_failure (hrun : uploadService.Run tr s)
    (hok : ∀ x ∈ tr, UrlFailsLast x.1 x.2) (hl : UrlFailsLast s l) (hst : step s l = some s')
    (hf : attemptFailure s l = some row) (hlt : failedAttempts tr row + 1 < MAX_UPLOAD_ATTEMPTS) :
    ∃ p t recording url error, s'.tasks.get? p = some t ∧ t.row = row ∧
      t.pc = .settled recording url (some error) := by
  obtain ⟨p, t, pc, effects, item, ht, rfl, hfails⟩ :=
    TaskStep.of_failure (Slots.of_reachable hrun.reachable) hst hf
  have hc := (RowCounted.of_run hrun hok t.row).tasks p t item ht.task rfl ht.row
  have hset : s'.tasks.get? p = some { t with pc := pc } := by
    rw [ht.eq]
    exact Table.get?_set_self ht.task
  cases hu : t.pc.urlFails pc with
  | true =>
    have hlast := hl.last t item (by simp [ht.url, hu]) ht.row
    rw [(ht.turn.of_urlFails hu hc).1] at hlast
    omega
  | false =>
    rw [hu, Bool.false_or] at hfails
    obtain ⟨recording, url, error, rfl⟩ := settled_of_transferFails hfails
    exact ⟨p, _, recording, url, error, hset, rfl, rfl⟩

/-- After an attempt that fails before the last one the row becomes `retrying`. -/
theorem retrying_of_failure (hrun : uploadService.Run tr s)
    (hok : ∀ x ∈ tr, UrlFailsLast x.1 x.2) (hl : UrlFailsLast s l) (hst : step s l = some s')
    (hf : attemptFailure s l = some row) (hlt : failedAttempts tr row + 1 < MAX_UPLOAD_ATTEMPTS)
    {tr' : List (State × Label)} {z : State} (hrun' : (uploadService.after s').Run tr' z)
    (hok' : ∀ x ∈ tr', UrlFailsLast x.1 x.2) :
    (∃ y ∈ tr'.map Prod.fst ++ [z], statusOf y.rows row = some .retrying) ∨
      ∃ p, (view z row).BacksOff p := by
  have hrun₁ : uploadService.Run (tr ++ [(s, l)]) s' := hrun.step hst
  have hok₁ : ∀ x ∈ tr ++ [(s, l)], UrlFailsLast x.1 x.2 := by
    intro x hx
    rcases List.mem_append.1 hx with hx | hx
    · exact hok x hx
    · rw [List.mem_singleton.1 hx]
      exact hl
  have hs' := Slots.of_reachable hrun₁.reachable
  obtain ⟨p, t, recording, url, error, hp, rfl, hpc⟩ := settled_of_failure hrun hok hl hst hf hlt
  obtain ⟨item, hitem, -⟩ := hs'.taskRows p t hp
  -- the failure that was counted last is this one
  have hc := (RowCounted.of_run hrun₁ hok₁ t.row).tasks p t item hp rfl hitem
  rw [hpc] at hc
  have hc : item.attempts + 1 = failedAttempts (tr ++ [(s, l)]) t.row := hc
  have hcount : failedAttempts (tr ++ [(s, l)]) t.row ≤ failedAttempts tr t.row + 1 := by
    simp only [failedAttempts, LTS.history_append, countAttempts]
    split_ifs <;> omega
  have hback : (view s' t.row).BacksOff p := by
    refine ⟨item, recording, ?_, .inl ⟨url, error, ?_, by omega⟩⟩
    · rw [view_of_task hs' hp]
      exact hitem
    · rw [view_of_task hs' hp, hpc]
  exact (retrying_of_backsOff hrun₁.reachable hback hrun' hok').imp_right fun h => ⟨p, h⟩

/-- After a failed transfer the task writes `retrying`, until the attempts are exhausted. -/
theorem retrying_of_settled (hrun : uploadService.Run tr s)
    (hok : ∀ x ∈ tr, UrlFailsLast x.1 x.2) {p : Pid} {t : Task} {recording : LocalRecording}
    {url : String} {error : UploadError} (hp : s.tasks.get? p = some t)
    (hpc : t.pc = .settled recording url (some error))
    (hst : step s (.resume (.task p) .ok) = some s') :
    s'.writer = s.writer ++ [⟨some (.task p), .update t.row
      (if failedAttempts tr t.row < MAX_UPLOAD_ATTEMPTS then
        .retrying (failedAttempts tr t.row) (safeError error)
      else .failed (safeError error))⟩] := by
  obtain ⟨item, hrow, hw⟩ := TaskStep.writer_of_settled hp hpc hst
  have hc := (RowCounted.of_run hrun hok t.row).tasks p t item hp rfl hrow
  rw [hpc] at hc
  have hn : item.attempts + 1 = failedAttempts tr t.row := hc
  rw [hw, hn]

/-- A failed `completeUploadSession` leaves the row as it is. -/
theorem completing_of_failure (hr : uploadService.Reachable s) (hst : step s l = some s')
    (hf : completionFailure s l = some row) :
    s'.rows = s.rows ∧ s'.writer = s.writer ∧ Transferred (statusOf s.rows) row := by
  have ho := Ownership.of_reachable hr
  cases l with
  | resume who o =>
    cases who with
    | task p =>
      obtain ⟨⟨r, id, pc⟩, hp, hf⟩ := Option.bind_eq_some_iff.1 hf
      split at hf
      · rename_i pc' hpc
        simp only at hpc
        subst hpc
        obtain ⟨hfails, hrow⟩ := Option.ite_none_right_eq_some.1 hf
        cases hrow
        have hst : s.resumeTask p ⟨r, id, .handling pc'⟩ o = some s' := by
          simpa [step, resume, hp] using hst
        simp only [State.resumeTask, processItem, Option.bind_eq_bind,
          Option.bind_eq_some_iff] at hst
        obtain ⟨item, -, ⟨pc'', effects⟩, hturn, he⟩ := hst
        split at hturn
        · cases hturn
        all_goals
          rename_i hh
          obtain ⟨hnext, rfl⟩ := returned_of_completeFails hh hfails
          cases hnext
        cases hturn
        cases he
        exact ⟨rfl, by simp [State.taskTurn, State.perform],
          ho.task_transferred (.of_reachable hr) hp⟩
      · cases hf
    | drain p =>
      obtain ⟨pc, hp, hf⟩ := Option.bind_eq_some_iff.1 hf
      split at hf
      · rename_i pc' rest
        obtain ⟨hfails, hrow⟩ := Option.ite_none_right_eq_some.1 hf
        cases hrow
        have hst : s.resumeDrain p (.handling row pc' rest) o = some s' := by
          simpa [step, resume, hp] using hst
        simp only [State.resumeDrain, Option.bind_eq_bind, Option.bind_eq_some_iff] at hst
        obtain ⟨item, -, ⟨next, effects⟩, hturn, he⟩ := hst
        obtain ⟨-, rfl⟩ := returned_of_completeFails hturn hfails
        cases he
        exact ⟨rfl, by simp [State.perform], ho.transferred hp⟩
      · cases hf
    | call p => cases hf
  | _ => cases hf

end Runs

/-- **An upload fails for good for want of a checksum or after its last attempt only**, in runs
whose URL requests fail in the last attempt only, and in which the status that follows a failure is
not lost.  In every state of such a run and for every step: a row gets `failed` only if its
recording has no checksum or `MAX_UPLOAD_ATTEMPTS` attempts have failed since it was enqueued or
manually retried; after an attempt that fails before, the row gets `retrying`, and until then its
task is on the way to write it; what a task writes after a failed transfer is `retrying`, with the
number of failed attempts, until that number is reached; and a failed `completeUploadSession` leaves
the row `completing` (or `done`, if another call has completed it). -/
theorem failed_only_when_exhausted {tr : List (State × Label)} {s s' : State} {l : Label}
    (hrun : uploadService.Run tr s) (hok : ∀ x ∈ tr, UrlFailsLast x.1 x.2)
    (hl : UrlFailsLast s l) (hst : step s l = some s') :
    (∀ row, statusWrite s l = some (row, .failed) →
      ∃ recording, nextFailed s = some (row, recording) ∧
        (recording.checksumSha256 = "" ∨ failedAttempts tr row = MAX_UPLOAD_ATTEMPTS)) ∧
    (∀ row, attemptFailure s l = some row → failedAttempts tr row + 1 < MAX_UPLOAD_ATTEMPTS →
      ∀ tr' z, (uploadService.after s').Run tr' z → (∀ x ∈ tr', UrlFailsLast x.1 x.2) →
        (∃ y ∈ tr'.map Prod.fst ++ [z], statusOf y.rows row = some .retrying) ∨
          ∃ p, (view z row).BacksOff p) ∧
    (∀ p t recording url error, l = .resume (.task p) .ok → s.tasks.get? p = some t →
      t.pc = .settled recording url (some error) →
        s'.writer = s.writer ++ [⟨some (.task p), .update t.row
          (if failedAttempts tr t.row < MAX_UPLOAD_ATTEMPTS then
            .retrying (failedAttempts tr t.row) (safeError error)
          else .failed (safeError error))⟩]) ∧
    (∀ row, completionFailure s l = some row →
      s'.rows = s.rows ∧ s'.writer = s.writer ∧ Transferred (statusOf s.rows) row) := by
  refine ⟨fun row hw => exhausted_of_failed hrun hok hw,
    fun row hf hlt tr' z => retrying_of_failure hrun hok hl hst hf hlt, ?_,
    fun row hf => completing_of_failure hrun.reachable hst hf⟩
  rintro p t recording url error rfl hp hpc
  exact retrying_of_settled hrun hok hp hpc hst

/-- No URL request fails, and no write is lost.  This can be evaluated. -/
def urlsIssued (s : State) (l : Label) : Bool :=
  (urlFailure s l).isNone && decide (l ≠ .kill) && decide (l ≠ .reject)

theorem urlFailsLast_of_urlsIssued {s : State} {l : Label} (h : urlsIssued s l = true) :
    UrlFailsLast s l := by
  simp only [urlsIssued, Bool.and_eq_true, Option.isNone_iff_eq_none, decide_eq_true_eq] at h
  exact ⟨fun t item hu => by simp [h.1.1] at hu, fun he => absurd he h.1.2, fun he => absurd he h.2⟩

/-- The drain `p` starts a task on a row and ends. -/
def taskStarts (p : Pid) : List Label :=
  [.query p, .resume (.drain p) .ok, .query p, .resume (.drain p) .ok, .resume (.drain p) .ok,
    .query p, .resume (.drain p) .ok, .resume (.drain p) .ok,
    .resume (.task (p + 1)) (.found (some meeting))]

/-- The task `p` makes its row `uploading`, and the transfer fails. -/
def transferBreaks (p : Pid) : List Label :=
  [.commit "q2", .resume (.task p) .ok, .resume (.task p) .ok, .native p (.error "network"),
    .resume (.task p) .ok]

/-- The task `p` ends with its write, and the next drain finds the row ready. -/
def retryComes (p : Pid) : List Label :=
  [.commit "q2", .resume (.task p) .ok, .tick 120000, .resume (.task p) .ok]

/-- An upload whose transfer fails five times. -/
def fiveFailures : List Label :=
  [.enqueueUpload "a" 10, .commit "q1", .resume (.call 0) .ok] ++ taskStarts 1 ++
    [.resume (.task 2) (.presigned "session" "https://bucket/put" 3600), .commit "q2",
      .resume (.task 2) .ok] ++ transferBreaks 2 ++ retryComes 2 ++
    taskStarts 3 ++ transferBreaks 4 ++ retryComes 4 ++
    taskStarts 5 ++ transferBreaks 6 ++ retryComes 6 ++
    taskStarts 7 ++ transferBreaks 8 ++ retryComes 8 ++
    taskStarts 9 ++ transferBreaks 10

theorem failed_only_when_exhausted_fiveFailures :
    ∃ tr s, uploadService.Run tr s ∧ tr.map Prod.snd = fiveFailures ∧
      statusWrite s (.commit "q2") = some ("q1", .failed) ∧
      failedAttempts tr "q1" = MAX_UPLOAD_ATTEMPTS := by
  have hrun : (LTS.exec (fun s l => if urlsIssued s l then step s l else none) (init .missing 0)
      fiveFailures).bind (fun s => (step s (.commit "q2")).map fun _ =>
        (statusWrite s (.commit "q2"), nextFailed s)) =
      some (some ("q1", .failed), some ("q1", meeting)) := by decide +kernel
  obtain ⟨s, hs, hrun⟩ := Option.bind_eq_some_iff.1 hrun
  obtain ⟨s', hst, he⟩ := Option.map_eq_some_iff.1 hrun
  obtain ⟨hw, hnext⟩ := Prod.mk.inj he
  obtain ⟨tr, htr, hls⟩ := LTS.run_of_exec
    (LTS.Run.start (A := LTS.ofFn (fun s => ∃ consent now, s = init consent now) _)
      ⟨.missing, 0, rfl⟩) hs
  obtain ⟨htr, hok⟩ := LTS.Run.of_checked htr
  have hok : ∀ x ∈ tr, UrlFailsLast x.1 x.2 := fun x hx => urlFailsLast_of_urlsIssued (hok x hx)
  have hl : UrlFailsLast s (.commit "q2") := urlFailsLast_of_urlsIssued rfl
  obtain ⟨recording, hr, hsum⟩ := (failed_only_when_exhausted htr hok hl hst).1 "q1" hw
  cases hnext.symm.trans hr
  exact ⟨tr, s, htr, hls, hw, hsum.resolve_left (by decide)⟩

/-- An upload that is enqueued while there is no network. -/
def offlineUpload : List Label :=
  [.enqueueUpload "a" 10, .commit "q1", .resume (.call 0) .ok] ++ taskStarts 1 ++
    [.resume (.task 2) .error]

/-- Its first request for a URL fails, and the row gets `failed` at once. -/
theorem failed_at_first_request :
    ¬ ∀ tr s l s' row, uploadService.Run tr s → step s l = some s' →
      statusWrite s l = some (row, .failed) →
        ∃ recording, nextFailed s = some (row, recording) ∧
          (recording.checksumSha256 = "" ∨ failedAttempts tr row = MAX_UPLOAD_ATTEMPTS) := by
  intro h
  have hrun : (LTS.exec (LTS.recorded step countAttempts) (init .missing 0, fun _ => 0)
      offlineUpload).bind (fun x => (step x.1 (.commit "q2")).map fun _ =>
        (statusWrite x.1 (.commit "q2"), nextFailed x.1, x.2 "q1")) =
      some (some ("q1", .failed), some ("q1", meeting), 1) := by decide +kernel
  obtain ⟨⟨s, count⟩, hs, hrun⟩ := Option.bind_eq_some_iff.1 hrun
  obtain ⟨s', hst, he⟩ := Option.map_eq_some_iff.1 hrun
  simp only [Prod.mk.injEq] at he
  obtain ⟨hw, hnext, hcount⟩ := he
  obtain ⟨tr, htr, -, hhist⟩ := LTS.run_of_exec_recorded
    (LTS.Run.start (A := uploadService) ⟨.missing, 0, rfl⟩) hs
  rw [List.nil_append] at htr hhist
  obtain ⟨recording, hr, hsum⟩ := h tr s _ s' "q1" htr hst hw
  cases hnext.symm.trans hr
  have hone : failedAttempts tr "q1" = 1 := (congrFun hhist "q1").trans hcount
  rcases hsum with hsum | hsum
  · exact absurd hsum (by decide)
  · exact absurd (hone.symm.trans hsum) (by decide)

end UploadService

end FCord
