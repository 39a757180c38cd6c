import FCord.Upload.Attempts
import FCord.Upload.Rows

/-!
# Retries

`Tally` counts the transfers of a row that were started and those that failed, from the moment the
row was enqueued or manually retried.  The number of attempts that is stored in the row follows the
count of failures (`Accounted`), although it is written later and by a task that may die before, so
the retry schedule is a matter of the count alone (`retries_accounted`).  The waiting time is
counted from the moment the failure is written, which comes after the failure
(`waits_from_write`).
-/

namespace FCord

/-- The transfers of a row since it was enqueued or manually retried. -/
structure Tally where
  started : ℕ
  failed : ℕ
  /-- When the last of them failed. -/
  failedAt : ℕ
  deriving DecidableEq, Repr

/-- The task is about to call `Upload.startUpload`. -/
def TaskPc.startsUpload : TaskPc → Bool
  | .writing _ (.uploading _) .resolved => true
  | _ => false

theorem TaskPc.of_startsUpload {pc : TaskPc} (h : pc.startsUpload = true) :
    ∃ recording url, pc = .writing recording (.uploading url) .resolved := by
  unfold TaskPc.startsUpload at h
  split at h
  · exact ⟨_, _, rfl⟩
  · cases h

/-- The transfer is still to come. -/
def TaskPc.beforeTransfer : TaskPc → Bool
  | .findRecording => true
  | .presigning _ _ => true
  | .writing _ (.session _ _) _ => true
  | .writing _ (.uploading _) _ => true
  | _ => false

theorem TaskPc.beforeTransfer_settle (promise : Promise) (pc : TaskPc) :
    (pc.settle promise).beforeTransfer = pc.beforeTransfer := by
  unfold TaskPc.settle
  split
  · rename_i w
    cases w <;> rfl
  · rfl
  · rfl

/-- The next entry of the table, after `k` failed attempts. -/
theorem calcNextRetryAt_eq {k : ℕ} (hpos : 1 ≤ k) (hlt : k < MAX_UPLOAD_ATTEMPTS) (now : ℕ) :
    ∃ delay, BACKOFF_DELAYS_MS[k - 1]? = some delay ∧ calcNextRetryAt now k = now + delay := by
  unfold MAX_UPLOAD_ATTEMPTS at hlt
  interval_cases k <;> exact ⟨_, rfl, rfl⟩

namespace UploadService

/-- The task that starts a transfer. -/
def transferStart (s : State) : Label → Option Task
  | .resume (.task p) _ => (s.tasks.get? p).filter fun t => t.pc.startsUpload
  | _ => none

/-- What a step does to the count of a row. -/
def tally (count : RowId → Tally) (s : State) (l : Label) (row : RowId) : Tally :=
  if renewal s l = some row then ⟨0, 0, 0⟩
  else if (transferStart s l).map Task.row = some row then
    { count row with started := (count row).started + 1 }
  else if (transferFailure s l).map Task.row = some row then
    { count row with failed := (count row).failed + 1, failedAt := s.now }
  else count row

/-- The transfers of each row since it was enqueued or manually retried. -/
def transfers (tr : List (State × Label)) : RowId → Tally :=
  LTS.history (fun _ => ⟨0, 0, 0⟩) tally tr

theorem transfers_append {tr : List (State × Label)} {s : State} {l : Label} :
    transfers (tr ++ [(s, l)]) = tally (transfers tr) s l := LTS.history_append

/-- The row that gets `retrying`, and the number of attempts that it gets. -/
def nextRetrying (s : State) : Label → Option (RowId × ℕ)
  | .commit _ =>
    match s.writer with
    | ⟨_, .update row (.retrying attempts _)⟩ :: _ => some (row, attempts)
    | _ => none
  | _ => none

end UploadService

/-- The next attempt is due after the waiting time that follows the last failure. -/
def UploadQueueItem.Spaced (item : UploadQueueItem) (c : Tally) : Prop :=
  1 ≤ c.failed → ∃ delay t, BACKOFF_DELAYS_MS[c.failed - 1]? = some delay ∧
    item.nextRetryAt = some t ∧ c.failedAt + delay ≤ t

/-- How the counts of a row are related to the task that works on it. -/
def TaskPc.Accounted (item : UploadQueueItem) (c : Tally) : TaskPc → Prop
  | .writing _ (.uploading _) .resolved =>
    c.started = item.attempts ∧ c.failed = item.attempts ∧ item.Spaced c
  | .starting _ _ => c.started = item.attempts + 1 ∧ c.failed = item.attempts
  | .transferring _ _ => c.started = item.attempts + 1 ∧ c.failed = item.attempts
  | .settled _ _ (some _) => c.started = item.attempts + 1 ∧ c.failed = item.attempts + 1
  | .writing _ (.retrying n _) .pending =>
    c.started = n ∧ c.failed = n ∧ n = item.attempts + 1 ∧ n < MAX_UPLOAD_ATTEMPTS
  | .writing _ (.failed _) .pending => item.status = .uploading → c.failed = MAX_UPLOAD_ATTEMPTS
  | _ => True

/-- Nothing is known about a transfer of a row that waits for one. -/
theorem TaskPc.Fits.accounted_of_pending {pc : TaskPc} {item : UploadQueueItem} (c : Tally)
    (h : pc.Fits item.status) (hst : item.status = .pending) : pc.Accounted item c := by
  rw [hst] at h
  cases pc with
  | writing recording w write =>
    cases w <;> cases write <;>
      first | trivial | exact fun hu => nomatch hst.symm.trans hu
  | settled recording url error => cases h
  | starting recording url => cases h
  | transferring recording url => cases h
  | _ => trivial

theorem TaskPc.Accounted.rejected {pc : TaskPc} {item : UploadQueueItem} {c : Tally}
    (h : pc.Accounted item c) : (pc.settle .rejected).Accounted item c := by
  unfold TaskPc.settle
  split
  · rename_i recording w
    cases w <;> trivial
  · trivial
  · exact h

/-- A write that leaves the attempts, and the status unless it becomes `done`. -/
theorem TaskPc.Accounted.congr {pc : TaskPc} {item item' : UploadQueueItem} {c : Tally}
    (h : pc.Accounted item c) (hattempts : item'.attempts = item.attempts)
    (hnext : item'.nextRetryAt = item.nextRetryAt)
    (hst : item'.status = .uploading → item.status = .uploading) : pc.Accounted item' c := by
  unfold TaskPc.Accounted UploadQueueItem.Spaced at h ⊢
  split <;> simp only [hattempts, hnext] at h ⊢ <;> first | exact h | exact fun hu => h (hst hu)

namespace UploadService

/-- What the counts of a row have to do with the row and with the task that works on it. -/
structure Accounted (now : ℕ) (v : RowView) (c : Tally) : Prop where
  below : ∀ item, v.item = some item → item.attempts < MAX_UPLOAD_ATTEMPTS
  /-- A row that waits has used up its attempts, and a `pending` row may start at once. -/
  waiting : ∀ item, v.item = some item → item.status = .pending ∨ item.status = .retrying →
    c.started = item.attempts ∧ c.failed = item.attempts
  pending : ∀ item, v.item = some item → item.status = .pending →
    item.attempts = 0 ∧ item.nextRetryAt = none
  retrying : ∀ item, v.item = some item → item.status = .retrying → item.Spaced c
  started_le : c.started ≤ MAX_UPLOAD_ATTEMPTS
  failed_le : c.failed ≤ c.started
  failedAt_le : c.failedAt ≤ now
  task : ∀ item p pc, v.item = some item → v.task = some (p, pc) → pc.Accounted item c
  due : ∀ item p pc t, v.item = some item → v.task = some (p, pc) → pc.beforeTransfer = true →
    item.nextRetryAt = some t → t ≤ now

/-! ### Steps and counts -/

section Steps

variable {s s' : State} {l : Label} {row : RowId} {count : RowId → Tally}

theorem turnOf_of_transferStart {t : Task} (h : transferStart s l = some t) :
    ∃ p, l.turnOf = some p ∧ s.tasks.get? p = some t ∧ t.pc.startsUpload = true := by
  unfold transferStart at h
  split at h
  · rename_i p o
    obtain ⟨hp, ht⟩ := Option.filter_eq_some_iff.1 h
    exact ⟨p, rfl, hp, by simpa using ht⟩
  · cases h

theorem transferStart_of_not_turn
    (h : ∀ p t, l.turnOf = some p → s.tasks.get? p = some t → t.row ≠ row) :
    (transferStart s l).map Task.row ≠ some row := by
  intro hx
  obtain ⟨t, ht, hrow⟩ := Option.map_eq_some_iff.1 hx
  obtain ⟨p, hl, hp, -⟩ := turnOf_of_transferStart ht
  exact h p t hl hp hrow

/-- A step that is no turn of the task of the row. -/
theorem tally_of_not_turn (h : ∀ p t, l.turnOf = some p → s.tasks.get? p = some t → t.row ≠ row) :
    tally count s l row = if renewal s l = some row then ⟨0, 0, 0⟩ else count row := by
  have hfail : (transferFailure s l).map Task.row ≠ some row := by
    intro hx
    obtain ⟨t, ht, hrow⟩ := Option.map_eq_some_iff.1 hx
    obtain ⟨p, hl, hp⟩ := turnOf_of_transferFailure ht
    exact h p t hl hp hrow
  rw [tally, if_neg (transferStart_of_not_turn h), if_neg hfail]

theorem TurnBy.transferStart_eq {p : Pid} {t : Task} {item : UploadQueueItem} {pc : TaskPc}
    {effects : List Effect} (hp : s.tasks.get? p = some t) (h : TurnBy s p t item l pc effects) :
    transferStart s l = if t.pc.startsUpload then some t else none := by
  cases h with
  | resumed h => simp [transferStart, hp, Option.filter_some]
  | event h =>
    have hstarts : t.pc.startsUpload = false := by
      unfold nativeEvent at h
      split at h <;> rename_i hpc <;> first | cases h; done | simp [hpc, TaskPc.startsUpload]
    simp [transferStart, hstarts]

/-- A turn of the task that works on the row. -/
theorem TurnBy.tally_eq {p : Pid} {t : Task} {item : UploadQueueItem} {pc : TaskPc}
    {effects : List Effect} (hp : s.tasks.get? p = some t) (h : TurnBy s p t item l pc effects) :
    tally count s l t.row =
      if t.pc.startsUpload then { count t.row with started := (count t.row).started + 1 }
      else if t.pc.transferFails pc then
        { count t.row with failed := (count t.row).failed + 1, failedAt := s.now }
      else count t.row := by
  have hrenewal : renewal s l = none := by
    cases h <;> rfl
  rw [tally, hrenewal, h.transferStart_eq hp, h.transferFailure_eq hp]
  cases t.pc.startsUpload <;> cases t.pc.transferFails pc <;> simp

end Steps

/-! ### The invariant -/

namespace Accounted

variable {s s' : State} {l : Label} {row : RowId} {v v' : RowView} {count : RowId → Tally}
variable {now now' : ℕ} {c : Tally}

theorem mono (h : Accounted now v c) (hle : now ≤ now') : Accounted now' v c :=
  { h with
    failedAt_le := h.failedAt_le.trans hle
    due := fun item p pc t hi hp hb ht => (h.due item p pc t hi hp hb ht).trans hle }

/-- The row has no task any more. -/
theorem withoutTask (h : Accounted now v c) : Accounted now ⟨v.item, none⟩ c :=
  { h with
    task := fun item p pc _ hp => by cases hp
    due := fun item p pc t _ hp => by cases hp }

/-- The row waits, with no attempt on the count. -/
theorem fresh {item : UploadQueueItem} {task : Option (Pid × TaskPc)} (hst : item.status = .pending)
    (hzero : item.attempts = 0) (hnext : item.nextRetryAt = none)
    (hfits : ∀ p pc, task = some (p, pc) → pc.Fits item.status) :
    Accounted now ⟨some item, task⟩ ⟨0, 0, 0⟩ where
  below := by
    rintro _ ⟨⟩
    rw [hzero]
    decide
  waiting := by
    rintro _ ⟨⟩ -
    exact ⟨hzero.symm, hzero.symm⟩
  pending := by
    rintro _ ⟨⟩ -
    exact ⟨hzero, hnext⟩
  retrying := by
    rintro _ ⟨⟩ hr
    cases hst.symm.trans hr
  started_le := Nat.zero_le _
  failed_le := Nat.le_refl _
  failedAt_le := Nat.zero_le _
  task := by
    rintro _ p pc ⟨⟩ hpc
    exact (hfits p pc hpc).accounted_of_pending _ hst
  due := by
    rintro _ p pc t ⟨⟩ - - ht
    cases hnext.symm.trans ht

/-- A write that leaves the schedule, and the status unless it becomes `done`. -/
theorem kept {item item' : UploadQueueItem} {task task' : Option (Pid × TaskPc)}
    (h : Accounted now ⟨some item, task⟩ c) (hattempts : item'.attempts = item.attempts)
    (hnext : item'.nextRetryAt = item.nextRetryAt)
    (hst : item'.status = .done ∨ item'.status = item.status)
    (htask : task' = task ∨ ∃ p pc', task' = some (p, pc') ∧ pc'.beforeTransfer = false ∧
      pc'.Accounted item' c) : Accounted now ⟨some item', task'⟩ c := by
  have hsame : ∀ {st : UploadQueueStatus}, st ≠ .done → item'.status = st → item.status = st :=
    fun hne he => (hst.resolve_left fun hd => hne (he.symm.trans hd)) ▸ he
  refine { h with
    below := ?_, waiting := ?_, pending := ?_, retrying := ?_, task := ?_, due := ?_ }
  · rintro _ ⟨⟩
    exact hattempts ▸ h.below item rfl
  · rintro _ ⟨⟩ hw
    rw [hattempts]
    exact h.waiting item rfl (hw.imp (hsame (by decide)) (hsame (by decide)))
  · rintro _ ⟨⟩ hp
    rw [hattempts, hnext]
    exact h.pending item rfl (hsame (by decide) hp)
  · rintro _ ⟨⟩ hr
    unfold UploadQueueItem.Spaced
    rw [hnext]
    exact h.retrying item rfl (hsame (by decide) hr)
  · rintro _ q pc ⟨⟩ hpc
    rcases htask with rfl | ⟨p, pc', rfl, -, hacc⟩
    · exact (h.task item q pc rfl hpc).congr hattempts hnext (hsame (by decide))
    · cases hpc
      exact hacc
  · rintro _ q pc t ⟨⟩ hpc hb ht
    rcases htask with rfl | ⟨p, pc', rfl, hb', -⟩
    · exact h.due item q pc t rfl hpc hb (hnext ▸ ht)
    · cases hpc
      rw [hb'] at hb
      cases hb

/-- The row and its task go on. -/
theorem next {item item' : UploadQueueItem} {task : Option (Pid × TaskPc)} {p : Pid}
    {pc' : TaskPc} (h : Accounted now ⟨some item, task⟩ c)
    (hlt : item'.attempts < MAX_UPLOAD_ATTEMPTS)
    (hwait : item'.status = .pending ∨ item'.status = .retrying →
      c.started = item'.attempts ∧ c.failed = item'.attempts)
    (hpending : item'.status = .pending → item'.attempts = 0 ∧ item'.nextRetryAt = none)
    (hretrying : item'.status = .retrying → item'.Spaced c) (hacc : pc'.Accounted item' c)
    (hdue : pc'.beforeTransfer = true → ∀ t, item'.nextRetryAt = some t → t ≤ now) :
    Accounted now ⟨some item', some (p, pc')⟩ c where
  below := by
    rintro _ ⟨⟩
    exact hlt
  waiting := by
    rintro _ ⟨⟩
    exact hwait
  pending := by
    rintro _ ⟨⟩
    exact hpending
  retrying := by
    rintro _ ⟨⟩
    exact hretrying
  started_le := h.started_le
  failed_le := h.failed_le
  failedAt_le := h.failedAt_le
  task := by
    rintro _ _ _ ⟨⟩ ⟨⟩
    exact hacc
  due := by
    rintro _ _ _ t ⟨⟩ ⟨⟩ hb ht
    exact hdue hb t ht

/-- The attempts of a waiting row are spaced. -/
theorem spaced {item : UploadQueueItem} (h : Accounted now v c) (hitem : v.item = some item)
    (hst : item.status = .pending ∨ item.status = .retrying) : item.Spaced c := by
  rcases hst with hst | hst
  · intro hpos
    rw [(h.waiting item hitem (.inl hst)).2, (h.pending item hitem hst).1] at hpos
    cases hpos
  · exact h.retrying item hitem hst

/-- The write that a task waits for lands. -/
theorem written {item : UploadQueueItem} {p : Pid} {recording : LocalRecording} {w : TaskWrite}
    (h : Accounted now ⟨some item, some (p, .writing recording w .pending)⟩ c)
    (hfits : TaskPc.Fits (.writing recording w .pending) item.status) :
    Accounted now ⟨some (w.update.apply now item), some (p, .writing recording w .resolved)⟩ c := by
  have hlt := h.below item rfl
  cases w with
  | session sessionId url =>
    exact h.next hlt (h.waiting item rfl) (h.pending item rfl) (h.retrying item rfl) trivial
      fun _ t ht => h.due item _ _ t rfl rfl rfl ht
  | uploading url =>
    obtain ⟨hstarted, hfailed⟩ := h.waiting item rfl hfits
    have hspaced : item.Spaced c := h.spaced rfl hfits
    exact h.next hlt (fun hw => by rcases hw with hw | hw <;> cases hw) (fun hp => by cases hp)
      (fun hr => by cases hr) ⟨hstarted, hfailed, hspaced⟩
      fun _ t ht => h.due item _ _ t rfl rfl rfl ht
  | failed error =>
    exact h.next hlt (fun hw => by rcases hw with hw | hw <;> cases hw) (fun hp => by cases hp)
      (fun hr => by cases hr) trivial fun hb => by cases hb
  | retrying n error =>
    obtain ⟨hstarted, hfailed, hn, hlt'⟩ := h.task item _ _ rfl rfl
    have hspaced : (Update.apply now (.retrying n error) item).Spaced c := by
      intro hpos
      obtain ⟨delay, hdelay, hnext⟩ := calcNextRetryAt_eq (hfailed ▸ hpos) hlt' now
      refine ⟨delay, _, hfailed ▸ hdelay, rfl, ?_⟩
      rw [hnext]
      exact Nat.add_le_add_right h.failedAt_le delay
    exact h.next hlt' (fun _ => ⟨hstarted, hfailed⟩) (fun hp => by cases hp) (fun _ => hspaced)
      trivial fun hb => by cases hb
  | completing =>
    exact h.next hlt (fun hw => by rcases hw with hw | hw <;> cases hw) (fun hp => by cases hp)
      (fun hr => by cases hr) trivial fun hb => by cases hb

/-- The write that a task waits for fails. -/
theorem rejected {item : UploadQueueItem} {p : Pid} {pc : TaskPc}
    (h : Accounted now ⟨some item, some (p, pc)⟩ c) :
    Accounted now ⟨some item, some (p, pc.settle .rejected)⟩ c := by
  refine { h with task := ?_, due := ?_ }
  · rintro _ _ _ ⟨⟩ ⟨⟩
    exact (h.task item p pc rfl rfl).rejected
  · rintro _ _ _ t ⟨⟩ ⟨⟩ hb ht
    rw [TaskPc.beforeTransfer_settle] at hb
    exact h.due item p pc t rfl rfl hb ht

/-- A task starts on a row that is ready. -/
theorem started {item : UploadQueueItem} (p : Pid) (h : Accounted now ⟨some item, none⟩ c)
    (hready : isQueueItemReady now item.status item.nextRetryAt = true) :
    Accounted now ⟨some item, some (p, .findRecording)⟩ c := by
  refine { h with task := ?_, due := ?_ }
  · rintro _ _ _ ⟨⟩ ⟨⟩
    trivial
  · rintro _ _ _ t ⟨⟩ ⟨⟩ - ht
    rcases status_of_isQueueItemReady hready with hst | hst
    · cases (h.pending item rfl hst).2.symm.trans ht
    · simpa [hst, ht, isQueueItemReady, isRetryReady] using hready

/-- A transfer starts or fails. -/
theorem counted {item : UploadQueueItem} {task : Option (Pid × TaskPc)} {p : Pid} {pc' : TaskPc}
    {c' : Tally} (h : Accounted now ⟨some item, task⟩ c) (hst : item.status = .uploading)
    (hstarted : c'.started ≤ MAX_UPLOAD_ATTEMPTS) (hfailed : c'.failed ≤ c'.started)
    (hat : c'.failedAt ≤ now) (hacc : pc'.Accounted item c') (hb : pc'.beforeTransfer = false) :
    Accounted now ⟨some item, some (p, pc')⟩ c' where
  below := by
    rintro _ ⟨⟩
    exact h.below item rfl
  waiting := by
    rintro _ ⟨⟩ hw
    rcases hw with hw | hw <;> cases hst.symm.trans hw
  pending := by
    rintro _ ⟨⟩ hp
    cases hst.symm.trans hp
  retrying := by
    rintro _ ⟨⟩ hr
    cases hst.symm.trans hr
  started_le := hstarted
  failed_le := hfailed
  failedAt_le := hat
  task := by
    rintro _ _ _ ⟨⟩ ⟨⟩
    exact hacc
  due := by
    rintro _ _ _ t ⟨⟩ ⟨⟩ hb'
    cases hb.symm.trans hb'

/-- The task that works on the row makes a turn. -/
theorem turn {p : Pid} {t : Task} {item : UploadQueueItem} {pc : TaskPc} {effects : List Effect}
    (h : Accounted s.now ⟨some item, some (p, t.pc)⟩ (count t.row)) (hp : s.tasks.get? p = some t)
    (ht : TurnBy s p t item l pc effects) (hfits : t.pc.Fits item.status) :
    Accounted s.now ⟨some item, some (p, pc)⟩ (tally count s l t.row) := by
  rw [ht.tally_eq hp]
  have hturn := ht.taskTurn
  have hacc := h.task item p t.pc rfl rfl
  have hdue := h.due item p t.pc
  have hlt := h.below item rfl
  generalize t.pc = pc₀ at *
  -- the counts stay, unless the transfer starts or fails in this turn
  have hquiet : pc₀.startsUpload = false → pc₀.transferFails pc = false →
      pc.Accounted item (count t.row) →
      (pc.beforeTransfer = true → ∀ t, item.nextRetryAt = some t → t ≤ s.now) →
      Accounted s.now ⟨some item, some (p, pc)⟩ (if pc₀.startsUpload then
          { count t.row with started := (count t.row).started + 1 }
        else if pc₀.transferFails pc then
          { count t.row with failed := (count t.row).failed + 1, failedAt := s.now }
        else count t.row) := by
    intro hstart hfail hacc' hdue'
    rw [hstart, hfail]
    exact h.next hlt (h.waiting item rfl) (h.pending item rfl) (h.retrying item rfl) hacc' hdue'
  cases hturn with
  | skip => exact hquiet rfl rfl trivial fun hb => by cases hb
  | noChecksum recording error hsum =>
    refine hquiet rfl rfl (fun hu => ?_) fun hb => by cases hb
    rcases hfits with hst | hst <;> cases hst.symm.trans hu
  | cached recording hsum hurl => exact hquiet rfl rfl trivial fun _ t ht => hdue t rfl rfl rfl ht
  | presign recording hsum => exact hquiet rfl rfl trivial fun _ t ht => hdue t rfl rfl rfl ht
  | reissued sessionId url expiresAt =>
    exact hquiet rfl rfl trivial fun _ t ht => hdue t rfl rfl rfl ht
  | issued sessionId url expiresAt =>
    exact hquiet rfl rfl trivial fun _ t ht => hdue t rfl rfl rfl ht
  | presignFailed error =>
    refine hquiet rfl rfl (fun hu => ?_) fun hb => by cases hb
    rcases hfits with hst | hst <;> cases hst.symm.trans hu
  | sessionStored => exact hquiet rfl rfl trivial fun _ t ht => hdue t rfl rfl rfl ht
  | sessionFailed error =>
    refine hquiet rfl rfl (fun hu => ?_) fun hb => by cases hb
    rcases hfits with hst | hst <;> cases hst.symm.trans hu
  | start =>
    obtain ⟨hstarted, hfailed, -⟩ := hacc
    have hone : (count t.row).started + 1 = item.attempts + 1 := congrArg (· + 1) hstarted
    refine h.counted hfits ?_ (Nat.le_succ_of_le h.failed_le) h.failedAt_le ⟨hone, hfailed⟩ rfl
    exact hone.trans_le hlt
  | complete => exact hquiet rfl rfl trivial fun hb => by cases hb
  | written hw =>
    rcases hw with ⟨error, rfl⟩ | ⟨n, error, rfl⟩ <;>
      exact hquiet rfl rfl trivial fun hb => by cases hb
  | @writeFailed recording w =>
    cases w <;> exact hquiet rfl rfl trivial fun hb => by cases hb
  | started => exact hquiet rfl rfl hacc fun hb => by cases hb
  | startFailed error =>
    obtain ⟨hstarted, hfailed⟩ := hacc
    have hone : (count t.row).failed + 1 = item.attempts + 1 := congrArg (· + 1) hfailed
    exact h.counted hfits h.started_le (hone.trans hstarted.symm).le (Nat.le_refl _)
      ⟨hstarted, hone⟩ rfl
  | retry attempts hatt hlt' =>
    obtain ⟨hstarted, hfailed⟩ := hacc
    exact hquiet rfl rfl ⟨hstarted.trans hatt.symm, hfailed.trans hatt.symm, hatt, hlt'⟩
      fun hb => by cases hb
  | giveUp hmax =>
    obtain ⟨hstarted, hfailed⟩ := hacc
    refine hquiet rfl rfl (fun _ => ?_) fun hb => by cases hb
    omega
  | transferred => exact hquiet rfl rfl trivial fun hb => by cases hb
  | @handler hpc next effects hh =>
    cases next <;> exact hquiet rfl rfl trivial fun hb => by cases hb
  | progress loaded total => exact hquiet rfl rfl hacc fun hb => by cases hb
  | interrupted error =>
    obtain ⟨hstarted, hfailed⟩ := hacc
    have hone : (count t.row).failed + 1 = item.attempts + 1 := congrArg (· + 1) hfailed
    exact h.counted hfits h.started_le (hone.trans hstarted.symm).le (Nat.le_refl _)
      ⟨hstarted, hone⟩ rfl
  | putCompleted code => exact hquiet rfl rfl trivial fun hb => by cases hb

/-- **What a step preserves.** -/
theorem move (h : Accounted s.now v (count row)) (hm : RowMove s l row v v')
    (hfits : ∀ item p pc, v.item = some item → v.task = some (p, pc) → pc.Fits item.status)
    (hfits' : ∀ item p pc, v'.item = some item → v'.task = some (p, pc) → pc.Fits item.status)
    (hready : ∀ p item, s.drains.get? p = some (.picked row) → v.item = some item →
      isQueueItemReady s.now item.status item.nextRetryAt = true) :
    Accounted s.now v' (tally count s l row) := by
  have hkeep : l.turnOf = none → renewal s l ≠ some row → tally count s l row = count row :=
    fun hturn hne => (tally_of_not_turn (by simp [hturn])).trans (if_neg hne)
  cases hm with
  | same hapart =>
    have hne : renewal s l ≠ some row := fun hx => hapart.write (writtenRow_of_renewal hx)
    rw [tally_of_not_turn hapart.turn, if_neg hne]
    exact h
  | @created row owner recordingId bytesTotal jobs hw =>
    have hc : tally count s (.commit row) row = ⟨0, 0, 0⟩ := by
      simp [tally, renewal, hw]
    rw [hc]
    exact fresh rfl rfl rfl (by simp)
  | @reset newId row owner jobs item task hw hst =>
    have hc : tally count s (.commit newId) row = ⟨0, 0, 0⟩ := by
      simp [tally, renewal, hw]
    rw [hc]
    exact fresh rfl rfl rfl (hfits' _ · · rfl)
  | @progress newId row loaded jobs item task hw =>
    rw [hkeep rfl (by simp [renewal, hw])]
    cases item with
    | none => exact h
    | some item => exact h.kept rfl rfl (.inr rfl) (.inl rfl)
  | @written newId row p jobs item recording w hw =>
    rw [hkeep rfl (by cases w <;> simp [renewal, hw, TaskWrite.update])]
    exact h.written (hfits _ _ _ rfl rfl)
  | @taskDone newId row p jobs item conflict serverId hw =>
    rw [hkeep rfl (by simp [renewal, hw])]
    exact h.kept rfl rfl (.inl rfl) (.inr ⟨_, _, rfl, rfl, trivial⟩)
  | @drainDone newId row p jobs item task hw hst =>
    rw [hkeep rfl (by simp [renewal, hw])]
    exact h.kept rfl rfl (.inl rfl) (.inl rfl)
  | rejected hw howner hawait =>
    rw [hkeep rfl (by simp [renewal])]
    exact h.rejected
  | started hp =>
    rw [hkeep rfl (by simp [renewal])]
    exact h.started _ (hready _ _ hp rfl)
  | turn hp hrow ht =>
    subst hrow
    exact h.turn hp ht (hfits _ _ _ rfl rfl)
  | @finished p row item t hp hrow hpc =>
    have hc : tally count s (.resume (.task p) .ok) row = count row := by
      simp [tally, renewal, transferStart, transferFailure, hp, hpc, Option.filter_some,
        TaskPc.startsUpload, TaskPc.startsTransfer]
    rw [hc]
    exact h.withoutTask
  | killed =>
    rw [hkeep rfl (by simp [renewal])]
    exact h.withoutTask

/-- **The rows are accounted for after every run.** -/
theorem of_run {tr : List (State × Label)} (hrun : uploadService.Run tr s) (row : RowId) :
    Accounted s.now (view s row) (transfers tr row) := by
  refine hrun.history_invariant
    (I := fun s (count : RowId → Tally) => ∀ row, Accounted s.now (view s row) (count row))
    ?_ ?_ row
  · rintro s ⟨consent, now, rfl⟩ row
    have hno : ∀ item, (view (init consent now) row).item ≠ some item := by rintro item ⟨⟩
    exact ⟨fun item hi => absurd hi (hno item), fun item hi => absurd hi (hno item),
      fun item hi => absurd hi (hno item), fun item hi => absurd hi (hno item),
      Nat.zero_le _, Nat.le_refl _, Nat.zero_le _,
      fun item _ _ hi => absurd hi (hno item), fun item _ _ _ hi => absurd hi (hno item)⟩
  · intro s count l s' hr h hst row
    refine ((h row).move (RowMove.of_step hr hst row)
      (fun item p pc => (Ownership.of_reachable hr).view_fits)
      (fun item p pc => (Ownership.of_reachable (hr.step hst)).view_fits) ?_).mono
      (Move.of_step hst).now_le
    intro p item hp hitem
    obtain ⟨item', hrow, hready⟩ := picked_ready hr hp
    cases hrow.symm.trans hitem
    exact hready

end Accounted

/-! ### The result -/

section Runs

variable {tr : List (State × Label)} {s s' : State} {l : Label}

/-- The transfer of a task fails. -/
theorem settled_of_transferFailure (hs : Slots s) (hst : step s l = some s') {t : Task}
    (hf : transferFailure s l = some t) :
    ∃ p recording url error,
      s'.tasks.get? p = some { t with pc := .settled recording url (some error) } := by
  obtain ⟨p, hl, hp⟩ := turnOf_of_transferFailure hf
  rcases TaskStep.of_turnOf hs hst hl with ⟨t', o, rfl, hp', hpc⟩ | ⟨t', pc, effects, item, ht⟩
  · simp [transferFailure, hp', hpc, Option.filter_some, TaskPc.startsTransfer] at hf
  · rw [ht.transfer] at hf
    obtain ⟨hfails, he⟩ := Option.ite_none_right_eq_some.1 hf
    cases he
    obtain ⟨recording, url, error, rfl⟩ := settled_of_transferFails hfails
    refine ⟨p, recording, url, error, ?_⟩
    rw [ht.eq]
    exact Table.get?_set_self ht.task

theorem transfers_of_transferFailure {t : Task} (hf : transferFailure s l = some t) :
    transfers (tr ++ [(s, l)]) t.row =
      { transfers tr t.row with failed := (transfers tr t.row).failed + 1, failedAt := s.now } := by
  have hrenewal : renewal s l = none := by
    cases l with
    | resume who o => rfl
    | native p event => rfl
    | _ => cases hf
  have hstart : transferStart s l = none := by
    unfold transferFailure at hf
    split at hf
    · obtain ⟨hp, hpc⟩ := Option.filter_eq_some_iff.1 hf
      simp only [Bool.and_eq_true] at hpc
      have hstarts : t.pc.startsUpload = false := by
        cases hx : t.pc with
        | starting recording url => rfl
        | _ => simp [hx, TaskPc.startsTransfer] at hpc
      simp [transferStart, hp, Option.filter_some, hstarts]
    · rfl
    · cases hf
  rw [transfers_append]
  simp [tally, hrenewal, hstart, hf]

/-- After a failed transfer the task requests the next status of its row. -/
theorem request_of_settled (hrun : uploadService.Run tr s) {p : Pid} {t : Task}
    {recording : LocalRecording} {url : String} {error : UploadError}
    (hp : s.tasks.get? p = some t) (hpc : t.pc = .settled recording url (some error))
    (hst : step s (.resume (.task p) .ok) = some s') :
    s'.writer = s.writer ++ [⟨some (.task p), .update t.row
      (if (transfers tr t.row).failed < MAX_UPLOAD_ATTEMPTS then
        .retrying (transfers tr t.row).failed (safeError error)
      else .failed (safeError error))⟩] := by
  obtain ⟨item, hrow, hw⟩ := TaskStep.writer_of_settled hp hpc hst
  have hv := view_of_task (Slots.of_reachable hrun.reachable) hp
  have hacc := (Accounted.of_run hrun t.row).task item p t.pc (by rw [hv]; exact hrow) (by rw [hv])
  rw [hpc] at hacc
  have hn : (transfers tr t.row).failed = item.attempts + 1 := hacc.2
  rw [hw, hn]

/-- The job of a task, and what is known about the row that it writes. -/
theorem Accounted.of_job (hrun : uploadService.Run tr s) {row : RowId} {owner : Option Owner}
    {u : Update} {jobs : List Job} (hw : s.writer = ⟨owner, .update row u⟩ :: jobs)
    (hu : (∃ error, u = .failed error) ∨ ∃ n error, u = .retrying n error) :
    ∃ recording w item, w.update = u ∧ s.rows.get? row = some item ∧
      (TaskPc.writing recording w .pending).Accounted item (transfers tr row) := by
  have hs := Slots.of_reachable hrun.reachable
  have hj := (Writer.of_reachable hrun.reachable).jobOf (hw ▸ List.mem_cons_self)
  cases hj with
  | @task p r id recording w hp =>
    obtain ⟨item, hrow, -⟩ := hs.taskRows p _ hp
    have hv := view_of_task hs hp
    exact ⟨recording, w, item, rfl, hrow,
      (Accounted.of_run hrun row).task item p _ (by rw [hv]; exact hrow) (by rw [hv])⟩
  | _ => rcases hu with ⟨error, hu⟩ | ⟨n, error, hu⟩ <;> cases hu

/-- The `retrying` write lands. -/
theorem scheduled_of_nextRetrying (hrun : uploadService.Run tr s) (hst : step s l = some s')
    {row : RowId} {k : ℕ} (hn : nextRetrying s l = some (row, k)) :
    k = (transfers tr row).failed ∧ 1 ≤ k ∧ k < MAX_UPLOAD_ATTEMPTS ∧
      ∃ item delay, s'.rows.get? row = some item ∧ item.status = .retrying ∧ item.attempts = k ∧
        BACKOFF_DELAYS_MS[k - 1]? = some delay ∧ item.nextRetryAt = some (s.now + delay) ∧
        (transfers tr row).failedAt ≤ s.now := by
  unfold nextRetrying at hn
  split at hn
  · split at hn
    · rename_i newId _ owner r n error jobs hw
      cases hn
      obtain ⟨recording, w, item, hwu, hrow, hacc⟩ :=
        Accounted.of_job hrun hw (.inr ⟨_, error, rfl⟩)
      have hw' : w = .retrying k error := by cases w <;> cases hwu; rfl
      subst hw'
      obtain ⟨-, hfailed, hk, hlt⟩ := hacc
      have hpos : 1 ≤ k := hk ▸ Nat.succ_pos _
      obtain ⟨delay, hdelay, hnext⟩ := calcNextRetryAt_eq hpos hlt s.now
      refine ⟨hfailed.symm, hpos, hlt,
        Update.apply s.now (.retrying k error) item, delay, ?_, rfl, rfl, hdelay,
        congrArg some hnext, (Accounted.of_run hrun row).failedAt_le⟩
      rcases step_rows hst with ⟨_, job, _, he, hwriter, hnew, hrows⟩ | ⟨hnone, -⟩
      · cases hw.symm.trans hwriter
        rw [hrows, Action.run, Table.get?_modify, if_pos rfl, hrow]
        rfl
      · simp [statusWrite, hw, Update.status?] at hnone
    · cases hn
  · cases hn

/-- A transfer or a task does not start before the time that is set for the row. -/
theorem due_of_start (hrun : uploadService.Run tr s) {row : RowId} {item : UploadQueueItem}
    {time : ℕ} (hrow : s.rows.get? row = some item) (hnext : item.nextRetryAt = some time)
    (hstart : (∃ p, s.drains.get? p = some (.picked row)) ∨
      (transferStart s l).map Task.row = some row) : time ≤ s.now := by
  rcases hstart with ⟨p, hp⟩ | hstart
  · obtain ⟨item', hrow', hready⟩ := picked_ready hrun.reachable hp
    cases hrow.symm.trans hrow'
    have hacc := Accounted.of_run hrun row
    rcases status_of_isQueueItemReady hready with hst | hst
    · cases (hacc.pending item hrow hst).2.symm.trans hnext
    · simpa [hst, hnext, isQueueItemReady, isRetryReady] using hready
  · obtain ⟨t, ht, rfl⟩ := Option.map_eq_some_iff.1 hstart
    obtain ⟨p, -, hp, hpc⟩ := turnOf_of_transferStart ht
    have hv := view_of_task (Slots.of_reachable hrun.reachable) hp
    refine (Accounted.of_run hrun t.row).due item p t.pc time (by rw [hv]; exact hrow) (by rw [hv])
      ?_ hnext
    obtain ⟨recording, url, he⟩ := TaskPc.of_startsUpload hpc
    rw [he]
    rfl

/-- A transfer starts at least the waiting time after the last failure. -/
theorem spaced_of_start (hrun : uploadService.Run tr s) {row : RowId}
    (hstart : (transferStart s l).map Task.row = some row) (hpos : 1 ≤ (transfers tr row).failed) :
    ∃ delay, BACKOFF_DELAYS_MS[(transfers tr row).failed - 1]? = some delay ∧
      (transfers tr row).failedAt + delay ≤ s.now := by
  have hs := Slots.of_reachable hrun.reachable
  obtain ⟨t, ht, hrow⟩ := Option.map_eq_some_iff.1 hstart
  obtain ⟨p, -, hp, hpc⟩ := turnOf_of_transferStart ht
  obtain ⟨item, hitem, -⟩ := hs.taskRows p t hp
  have hv := view_of_task hs hp
  have hacc := (Accounted.of_run hrun t.row).task item p t.pc (by rw [hv]; exact hitem) (by rw [hv])
  obtain ⟨recording, url, he⟩ := TaskPc.of_startsUpload hpc
  rw [hrow] at hacc hitem
  rw [he] at hacc
  obtain ⟨delay, time, hdelay, hnext, hle⟩ := hacc.2.2 hpos
  exact ⟨delay, hdelay, hle.trans (due_of_start hrun hitem hnext (.inr hstart))⟩

end Runs

/-- **Retries are accounted for and spaced.**  In every state of every run, and for every step from
it: a transfer that fails is the `k`-th one to do so since the row was enqueued or manually
retried, and its task goes on to request the status `retrying` with `k` attempts if `k` is below
`MAX_UPLOAD_ATTEMPTS`, and `failed` otherwise; when that write is performed the row has `k` attempts
and is due after the `k`-th waiting time, counted from then; neither a task nor a transfer starts
before a row is due, and a transfer does not start before the `k`-th waiting time has passed since
the `k`-th failure; the stored attempts stay below the maximum, and at most
`MAX_UPLOAD_ATTEMPTS` transfers are started; and the table of waiting times is never left. -/
theorem retries_accounted {tr : List (State × Label)} {s s' : State} {l : Label}
    (hrun : uploadService.Run tr s) (hst : step s l = some s') :
    (∀ t, transferFailure s l = some t →
      transfers (tr ++ [(s, l)]) t.row = { transfers tr t.row with
        failed := (transfers tr t.row).failed + 1, failedAt := s.now } ∧
      ∃ p recording url error,
        s'.tasks.get? p = some { t with pc := .settled recording url (some error) }) ∧
    (∀ p t recording url error, l = .resume (.task p) .ok → s.tasks.get? p = some t →
      t.pc = .settled recording url (some error) →
        s'.writer = s.writer ++ [⟨some (.task p), .update t.row
          (if (transfers tr t.row).failed < MAX_UPLOAD_ATTEMPTS then
            .retrying (transfers tr t.row).failed (safeError error)
          else .failed (safeError error))⟩]) ∧
    (∀ row k, nextRetrying s l = some (row, k) →
      k = (transfers tr row).failed ∧ 1 ≤ k ∧ k < MAX_UPLOAD_ATTEMPTS ∧
        ∃ item delay, s'.rows.get? row = some item ∧ item.status = .retrying ∧ item.attempts = k ∧
          BACKOFF_DELAYS_MS[k - 1]? = some delay ∧ item.nextRetryAt = some (s.now + delay) ∧
          (transfers tr row).failedAt ≤ s.now) ∧
    (∀ row, statusOf s.rows row = some .uploading → statusWrite s l = some (row, .failed) →
      (transfers tr row).failed = MAX_UPLOAD_ATTEMPTS) ∧
    (∀ row item time, s.rows.get? row = some item → item.nextRetryAt = some time →
      ((∃ p, s.drains.get? p = some (.picked row)) ∨
        (transferStart s l).map Task.row = some row) → time ≤ s.now) ∧
    (∀ row, (transferStart s l).map Task.row = some row → 1 ≤ (transfers tr row).failed →
      ∃ delay, BACKOFF_DELAYS_MS[(transfers tr row).failed - 1]? = some delay ∧
        (transfers tr row).failedAt + delay ≤ s.now) ∧
    (∀ row item, s.rows.get? row = some item → item.attempts < MAX_UPLOAD_ATTEMPTS) ∧
    (∀ row, (transfers tr row).started ≤ MAX_UPLOAD_ATTEMPTS) ∧
    ∀ attempts : ℤ, 0 ≤ backoffIndex attempts ∧
      backoffIndex attempts < BACKOFF_DELAYS_MS.length := by
  refine ⟨fun t hf => ⟨transfers_of_transferFailure hf,
      settled_of_transferFailure (.of_reachable hrun.reachable) hst hf⟩, ?_,
    fun row k hn => scheduled_of_nextRetrying hrun hst hn, ?_,
    fun row item time hrow hnext hstart => due_of_start hrun hrow hnext hstart,
    fun row hstart hpos => spaced_of_start hrun hstart hpos,
    fun row item hrow => (Accounted.of_run hrun row).below item hrow,
    fun row => (Accounted.of_run hrun row).started_le, backoffIndex_bounds⟩
  · rintro p t recording url error rfl hp hpc
    exact request_of_settled hrun hp hpc hst
  · intro row hup hw
    obtain ⟨newId, owner, u, jobs, rfl, hwriter, hu⟩ := statusWrite_eq_some hw
    have hfailed : ∃ error, u = .failed error := by cases u <;> cases hu; exact ⟨_, rfl⟩
    obtain ⟨recording, w, item, hwu, hrow, hacc⟩ := Accounted.of_job hrun hwriter (.inl hfailed)
    obtain ⟨error, rfl⟩ := hfailed
    have hw' : w = .failed error := by cases w <;> cases hwu; rfl
    subst hw'
    exact hacc (Option.some.inj ((statusOf_of_get? hrow).symm.trans hup))

/-- A transfer breaks, and the database is busy for half a second. -/
def lateWrite : List Label :=
  [.enqueueUpload "a" 10, .commit "q1", .resume (.call 0) .ok] ++ taskStarts 1 ++
    [.resume (.task 2) (.presigned "session" "https://bucket/put" 3600), .commit "q2",
      .resume (.task 2) .ok] ++ transferBreaks 2 ++ [.tick 500]

/-- What the write that comes next makes of the row. -/
theorem lateWrite_run :
    ∃ tr s s' item, uploadService.Run tr s ∧ tr.map Prod.snd = lateWrite ∧
      step s (.commit "q2") = some s' ∧ nextRetrying s (.commit "q2") = some ("q1", 1) ∧
      transfers tr "q1" = ⟨1, 1, 0⟩ ∧ s.now = 500 ∧ s'.rows.get? "q1" = some item ∧
      item.nextRetryAt = some 1500 := by
  have hrun : (LTS.exec (LTS.recorded step tally) (init .missing 0, fun _ => ⟨0, 0, 0⟩)
      lateWrite).bind (fun x => (step x.1 (.commit "q2")).map fun s' =>
        (nextRetrying x.1 (.commit "q2"), x.2 "q1", x.1.now,
          (s'.rows.get? "q1").bind UploadQueueItem.nextRetryAt)) =
      some (some ("q1", 1), ⟨1, 1, 0⟩, 500, some 1500) := by decide +kernel
  obtain ⟨⟨s, count⟩, hs, hrun⟩ := Option.bind_eq_some_iff.1 hrun
  obtain ⟨s', hst, he⟩ := Option.map_eq_some_iff.1 hrun
  simp only [Prod.mk.injEq] at he
  obtain ⟨hn, hcount, hnow, hnext⟩ := he
  obtain ⟨tr, htr, hls, hhist⟩ := LTS.run_of_exec_recorded
    (LTS.Run.start (A := uploadService) ⟨.missing, 0, rfl⟩) hs
  rw [List.nil_append] at htr hhist
  obtain ⟨item, hrow, hnext⟩ := Option.bind_eq_some_iff.1 hnext
  exact ⟨tr, s, s', item, htr, hls, hst, hn, (congrFun hhist "q1").trans hcount, hnow, hrow, hnext⟩

theorem retries_accounted_lateWrite :
    ∃ tr s s' item, uploadService.Run tr s ∧ tr.map Prod.snd = lateWrite ∧
      step s (.commit "q2") = some s' ∧ s'.rows.get? "q1" = some item ∧
      item.status = .retrying ∧ item.attempts = 1 ∧ item.nextRetryAt = some (s.now + 1000) := by
  obtain ⟨tr, s, s', item, htr, hls, hst, hn, -, -, hrow, -⟩ := lateWrite_run
  obtain ⟨-, -, -, item', delay, hrow', hstatus, hattempts, hdelay, hnext, -⟩ :=
    (retries_accounted htr hst).2.2.1 "q1" 1 hn
  cases hrow.symm.trans hrow'
  cases hdelay
  exact ⟨tr, s, s', item, htr, hls, hst, hrow, hstatus, hattempts, hnext⟩

/-- The waiting time is not counted from the failure. -/
theorem waits_from_write :
    ¬ ∀ tr s l s' row k item delay, uploadService.Run tr s → step s l = some s' →
      nextRetrying s l = some (row, k) → s'.rows.get? row = some item →
        BACKOFF_DELAYS_MS[k - 1]? = some delay →
          item.nextRetryAt = some ((transfers tr row).failedAt + delay) := by
  intro h
  obtain ⟨tr, s, s', item, htr, -, hst, hn, hcount, -, hrow, hnext⟩ := lateWrite_run
  have hfrom := h tr s _ s' "q1" 1 item 1000 htr hst hn hrow rfl
  rw [hcount, hnext] at hfrom
  exact absurd hfrom (by decide)

end UploadService

end FCord
