import FCord.Data.FloatFormat
import FCord.Upload.Rows
import FCord.Upload.Stranding
import Mathlib.Algebra.Order.Floor.Ring
import Mathlib.Data.Rat.Floor
import Mathlib.Tactic.Linarith
import Mathlib.Tactic.Positivity

/-!
# What a progress bar shows

`progressMap` is written by the listeners of a transfer and read by the cards of the recordings.
A number is in it only while a transfer for this recording is under way (`HasTransfer`), so no bar
is left behind by an upload that was completed, given up or killed.  `useUploadProgress` turns it
into a percentage and an estimate; whatever renders of the hook lie between the events of the
service, it shows a percentage from 0 to 100 and never a negative time (`progress_bar_true`).

Each operation of the hook is rounded to double precision.  The counts of bytes and the times are
integers that double precision keeps, so no result is too large for it.
-/

namespace FCord

/-- The values that a component gets from the hook. -/
structure UploadProgressView where
  percent : ℤ
  bytesUploaded : ℕ
  bytesTotal : ℕ
  etaSeconds : Option ℤ
  deriving DecidableEq

/-- A mounted `useUploadProgress`. -/
structure UseUploadProgress where
  recordingId : String
  /-- In milliseconds. -/
  startTime : ℕ
  /-- The entry of `progressMap` at the last render. -/
  progress : Option UploadProgress
  eta : Option ℤ
  deriving DecidableEq

namespace UseUploadProgress

/-- The first render, at time `now`. -/
def mount (now : ℕ) (recordingId : String) (store : UploadQueueStore) : UseUploadProgress where
  recordingId := recordingId
  startTime := now
  progress := store.progressMap recordingId
  eta := none

/-- The component renders again. -/
def render (store : UploadQueueStore) (hook : UseUploadProgress) : UseUploadProgress :=
  { hook with progress := store.progressMap hook.recordingId }

/-- `rate`: bytes in a second since the hook was mounted. -/
def rate (now : ℕ) (hook : UseUploadProgress) (progress : UploadProgress) : ℚ :=
  let elapsed := binary64.round (binary64.round (now - hook.startTime) / 1000)
  if 0 < elapsed then binary64.round (progress.bytesUploaded / elapsed) else 0

/-- The effect of the last render. -/
def effect (now : ℕ) (hook : UseUploadProgress) : UseUploadProgress :=
  match hook.progress with
  | none => hook
  | some progress =>
    if progress.bytesTotal = 0 then hook
    else if 0 < hook.rate now progress then
      let left := binary64.round (progress.bytesTotal - progress.bytesUploaded)
      { hook with eta := some ⌈binary64.round (left / hook.rate now progress)⌉ }
    else hook

/-- The share of the bytes, in percent; `Math.round` takes a half upwards. -/
def percent (progress : UploadProgress) : ℤ :=
  if 0 < progress.bytesTotal then
    let share := binary64.round (progress.bytesUploaded / progress.bytesTotal)
    ⌊binary64.round (share * 100) + 1 / 2⌋
  else 0

/-- What the hook returns. -/
def view (hook : UseUploadProgress) : UploadProgressView :=
  match hook.progress with
  | none => ⟨0, 0, 0, none⟩
  | some progress =>
    ⟨percent progress, progress.bytesUploaded, progress.bytesTotal, hook.eta⟩

/-- Exactly 14.5 percent, and a little less in double precision. -/
example : percent ⟨145000, 1000000⟩ = 14 := by decide +kernel

example : ((mount 0 "r" .initial).render (UploadQueueStore.initial.setProgress "r" 30 40)).effect
    2000 = ⟨"r", 0, some ⟨30, 40⟩, some 1⟩ := by decide +kernel

/-- The bytes that are sent are not more than there are. -/
structure Sound (hook : UseUploadProgress) : Prop where
  progress : ∀ progress, hook.progress = some progress →
    progress.bytesUploaded ≤ progress.bytesTotal
  eta : ∀ seconds, hook.eta = some seconds → 0 ≤ seconds

theorem rate_nonneg (now : ℕ) (hook : UseUploadProgress) (progress : UploadProgress) :
    0 ≤ hook.rate now progress := by
  unfold rate
  simp only
  split_ifs with h
  · exact FloatFormat.round_nonneg (by positivity)
  · exact le_rfl

theorem Sound.effect {hook : UseUploadProgress} (h : hook.Sound) (now : ℕ) :
    (hook.effect now).Sound := by
  unfold UseUploadProgress.effect
  split
  · exact h
  · rename_i progress hp
    split_ifs with hzero hrate
    · exact h
    · refine ⟨h.progress, fun seconds he => ?_⟩
      cases he
      have hle : (progress.bytesUploaded : ℚ) ≤ progress.bytesTotal :=
        Nat.cast_le.2 (h.progress progress hp)
      have hleft := FloatFormat.round_nonneg (f := binary64) (sub_nonneg.2 hle)
      exact Int.ceil_nonneg
        (FloatFormat.round_nonneg (div_nonneg hleft (rate_nonneg now hook progress)))
    · exact h

theorem round_hundred : binary64.round 100 = 100 := by
  exact_mod_cast FloatFormat.round_binary64_intCast (n := 100) (by norm_num)

theorem round_share_le {x : ℚ} (hx : x ≤ 1) : binary64.round x ≤ 1 := by
  have hone : binary64.round 1 = 1 := by
    exact_mod_cast FloatFormat.round_binary64_intCast (n := 1) (by norm_num)
  exact hone ▸ FloatFormat.round_mono hx

/-- Two roundings make no more than 99.5 of a share that is clearly smaller. -/
theorem le_of_round_percent {x : ℚ} (hnonneg : 0 ≤ x) (hx : x ≤ 1)
    (h : 199 / 2 ≤ binary64.round (binary64.round x * 100)) : 199 / 200 - 1 / 2 ^ 52 ≤ x := by
  have hround := round_share_le hx
  have hround' := FloatFormat.round_nonneg (f := binary64) hnonneg
  have hshare : |binary64.round x - x| ≤ 2 ^ (-52 : ℤ) / 2 := by
    refine FloatFormat.abs_round_sub_le_of_lt ?_ (by decide)
    calc |x| ≤ 1 := abs_le.2 ⟨by linarith, hx⟩
      _ < 2 ^ (-52 + (binary64.precision : ℤ)) := by norm_num [binary64]
  have hpercent : |binary64.round (binary64.round x * 100) - binary64.round x * 100| ≤
      2 ^ (-46 : ℤ) / 2 := by
    refine FloatFormat.abs_round_sub_le_of_lt ?_ (by decide)
    calc |binary64.round x * 100| ≤ 100 := abs_le.2 ⟨by linarith, by linarith⟩
      _ < 2 ^ (-46 + (binary64.precision : ℤ)) := by norm_num [binary64]
  have hshare' := (abs_le.1 hshare).2
  have hpercent' := (abs_le.1 hpercent).2
  norm_num at hshare' hpercent' ⊢
  linarith

theorem percent_bounds {progress : UploadProgress}
    (h : progress.bytesUploaded ≤ progress.bytesTotal) :
    0 ≤ percent progress ∧ percent progress ≤ 100 ∧
      (percent progress = 100 → progress.bytesTotal ≤ 2 ^ 44 →
        199 * progress.bytesTotal ≤ 200 * progress.bytesUploaded) := by
  unfold percent
  split_ifs with hpos
  · have ht : (0 : ℚ) < progress.bytesTotal := Nat.cast_pos.2 hpos
    have hle : (progress.bytesUploaded : ℚ) ≤ progress.bytesTotal := Nat.cast_le.2 h
    have hshare : (progress.bytesUploaded : ℚ) / progress.bytesTotal ≤ 1 := (div_le_one ht).2 hle
    have hnonneg : (0 : ℚ) ≤ progress.bytesUploaded / progress.bytesTotal := by positivity
    have hround := FloatFormat.round_nonneg (f := binary64) hnonneg
    have hup : binary64.round (binary64.round (progress.bytesUploaded / progress.bytesTotal) * 100)
        ≤ 100 := by
      refine (FloatFormat.round_mono ?_).trans_eq round_hundred
      linarith [round_share_le hshare]
    have hdown : 0 ≤ binary64.round
        (binary64.round (progress.bytesUploaded / progress.bytesTotal) * 100) :=
      FloatFormat.round_nonneg (mul_nonneg hround (by norm_num))
    refine ⟨Int.floor_nonneg.2 (add_nonneg hdown (by norm_num)), ?_, fun he hsmall => ?_⟩
    · refine Int.lt_add_one_iff.1 (Int.floor_lt.2 ?_)
      push_cast
      linarith
    · have hfloor := (Int.floor_eq_iff.1 he).1
      push_cast at hfloor
      have hshare' := le_of_round_percent hnonneg hshare (by linarith)
      rw [le_div_iff₀ ht, sub_mul] at hshare'
      -- what the roundings can add is less than a byte
      have hbyte : (progress.bytesTotal : ℚ) ≤ 2 ^ 44 := by exact_mod_cast hsmall
      have hlt : (199 * progress.bytesTotal : ℚ) < 200 * progress.bytesUploaded + 1 := by
        linarith
      have hlt' : 199 * progress.bytesTotal < 200 * progress.bytesUploaded + 1 := by
        exact_mod_cast hlt
      omega
  · exact ⟨le_rfl, by norm_num, fun he => by norm_num at he⟩

end UseUploadProgress

namespace UploadService

/-- A task transfers the recording that the server knows as `key`. -/
def HasTransfer (s : State) (key : String) : Prop :=
  ∃ p t recording url, s.tasks.get? p = some t ∧ t.pc = .transferring recording url ∧
    progressKey recording = key

/-- All progress that the upload library reports satisfies `P`. -/
def Reports (P : UploadProgress → Prop) (_ : State) : Label → Prop
  | .native _ (.progress loaded total) => P ⟨loaded, total⟩
  | _ => True

/-- What is in `progressMap` was reported by a transfer under way. -/
structure Shown (P : UploadProgress → Prop) (s : State) : Prop where
  transfer : ∀ key, s.store.progressMap key ≠ none → HasTransfer s key
  reported : ∀ key progress, s.store.progressMap key = some progress → P progress

section Turns

variable {who : Owner} {row : RowId} {item : UploadQueueItem} {now : ℕ}
variable {store store' : UploadQueueStore} {consent : ConsentEntry} {pc pc' : TaskPc}
variable {effects : List Effect} {key : String}

/-- Effects that neither report nor clear progress. -/
theorem progressMap_of_foldl (hset : ∀ k loaded total, .setProgress k loaded total ∉ effects)
    (hclear : ∀ k, .clearProgress k ∉ effects) :
    (effects.foldl onStore store).progressMap = store.progressMap := by
  induction effects generalizing store with
  | nil => rfl
  | cons e effects ih =>
    refine (ih (fun k loaded total hm => hset k loaded total (List.mem_cons_of_mem _ hm))
      fun k hm => hclear k (List.mem_cons_of_mem _ hm)).trans ?_
    cases e with
    | setProgress k loaded total => exact absurd List.mem_cons_self (hset k loaded total)
    | clearProgress k => exact absurd List.mem_cons_self (hclear k)
    | _ => rfl

theorem HandlerTurn.progressMap {pc : HandlerPc} {next : HandlerNext}
    (h : HandlerTurn who row item consent pc next effects) :
    (effects.foldl onStore store).progressMap = store.progressMap := by
  refine progressMap_of_foldl (fun k loaded total hm => ?_) fun k hm => ?_
  · cases h <;> simp at hm
  · cases h <;> simp at hm

/-- What a turn of `_processItem` does to the progress: it reports some while it goes on with its
transfer, it clears its own, or it does nothing. -/
theorem TaskTurn.progress_cases (h : TaskTurn who row item now store' consent pc pc' effects) :
    (∃ recording url loaded total, pc = .transferring recording url ∧ pc' = pc ∧
      (effects.foldl onStore store).progressMap = Function.update store.progressMap
        (progressKey recording) (some ⟨loaded, total⟩)) ∨
    (∃ recording, (∀ r url, pc = .transferring r url → r = recording) ∧
      (effects.foldl onStore store).progressMap = Function.update store.progressMap
        (progressKey recording) none) ∨
    (∀ r url, pc ≠ .transferring r url) ∧
      (effects.foldl onStore store).progressMap = store.progressMap := by
  cases h with
  | @progress recording url loaded total =>
    exact .inl ⟨recording, url, loaded, total, rfl, rfl, rfl⟩
  | @startFailed recording url error => exact .inr (.inl ⟨recording, nofun, rfl⟩)
  | @interrupted recording url error =>
    exact .inr (.inl ⟨recording, fun r u he => by cases he; rfl, rfl⟩)
  | @putCompleted recording url code =>
    exact .inr (.inl ⟨recording, fun r u he => by cases he; rfl, rfl⟩)
  | handler hh => exact .inr (.inr ⟨nofun, hh.progressMap⟩)
  | _ => exact .inr (.inr ⟨nofun, rfl⟩)

end Turns

section Steps

variable {s s' : State} {l : Label} {p : Pid} {t : Task} {item : UploadQueueItem} {pc : TaskPc}
variable {effects : List Effect}

/-- The same, with the event that reports. -/
theorem TurnBy.progress_cases (h : TurnBy s p t item l pc effects) :
    (∃ recording url loaded total, l = .native p (.progress loaded total) ∧
      t.pc = .transferring recording url ∧ pc = t.pc ∧
      (effects.foldl onStore s.store).progressMap = Function.update s.store.progressMap
        (progressKey recording) (some ⟨loaded, total⟩)) ∨
    (∃ recording, (∀ r url, t.pc = .transferring r url → r = recording) ∧
      (effects.foldl onStore s.store).progressMap = Function.update s.store.progressMap
        (progressKey recording) none) ∨
    (∀ r url, t.pc ≠ .transferring r url) ∧
      (effects.foldl onStore s.store).progressMap = s.store.progressMap := by
  cases h with
  | resumed h =>
    have hne : ∀ r url, t.pc ≠ .transferring r url := by
      intro r url he
      rw [he] at h
      cases h
    rcases (taskTurn_of_processItem h).progress_cases with ⟨r, url, -, -, he, -⟩ | hrest
    · exact absurd he (hne r url)
    · exact .inr hrest
  | @event event pc effects h =>
    cases event with
    | progress loaded total =>
      unfold nativeEvent at h
      split at h
      · rename_i r url loaded' total' hpc he
        cases he
        cases h
        exact .inl ⟨r, url, loaded, total, rfl, hpc, hpc.symm, rfl⟩
      all_goals contradiction
    | _ =>
      have ht : TaskTurn (.task p) t.row item s.now s.store s.consent t.pc pc effects :=
        taskTurn_of_nativeEvent h
      rcases ht.progress_cases with ⟨r, url, loaded, total, hpc, rfl, -⟩ | hrest
      · -- the other events end the transfer
        rw [hpc] at h
        cases h
      · exact .inr hrest

/-- A transfer of another task goes on. -/
theorem HasTransfer.mono {key : String} (h : HasTransfer s key)
    (hkeep : ∀ p t recording url, s.tasks.get? p = some t → t.pc = .transferring recording url →
      progressKey recording = key → ∃ t', s'.tasks.get? p = some t' ∧ t'.pc = t.pc) :
    HasTransfer s' key := by
  obtain ⟨p, t, recording, url, hp, hpc, hkey⟩ := h
  obtain ⟨t', hp', hpc'⟩ := hkeep p t recording url hp hpc hkey
  exact ⟨p, t', recording, url, hp', hpc'.trans hpc, hkey⟩

end Steps

namespace Shown

variable {P : UploadProgress → Prop} {s s' : State} {l : Label}

theorem init {consent : ConsentEntry} {now : ℕ} : Shown P (UploadService.init consent now) :=
  ⟨fun _ h => absurd rfl h, nofun⟩

/-- The progress stays as it is, and so do the transfers. -/
theorem congr (h : Shown P s) (hstore : s'.store.progressMap = s.store.progressMap)
    (hkeep : ∀ p t recording url, s.tasks.get? p = some t → t.pc = .transferring recording url →
      ∃ t', s'.tasks.get? p = some t' ∧ t'.pc = t.pc) : Shown P s' where
  transfer key hkey := (h.transfer key (hstore ▸ hkey)).mono fun p t recording url hp hpc _ =>
    hkeep p t recording url hp hpc
  reported key progress hkey := h.reported key progress (hstore ▸ hkey)

theorem processQueue (h : Shown P s) : Shown P s.processQueue := by
  refine h.congr ?_ fun p t recording url hp hpc => ⟨t, by simpa using hp, rfl⟩
  unfold State.processQueue
  split_ifs <;> rfl

theorem settle (h : Shown P s) (promise : Promise) (owner : Option Owner) :
    Shown P (s.settle promise owner) := by
  refine h.congr (by rw [State.settle_store]) fun p t recording url hp hpc => ?_
  rw [State.get?_settle_tasks]
  split_ifs
  · refine ⟨t.settle promise, by rw [hp]; rfl, ?_⟩
    rw [Task.settle, hpc]
    rfl
  · exact ⟨t, hp, rfl⟩

/-- A task makes a turn. -/
theorem turn (h : Shown P s) (hok : Reports P s l) {p : Pid} {t : Task} {item : UploadQueueItem}
    {pc : TaskPc} {effects : List Effect} (hp : s.tasks.get? p = some t)
    (ht : TurnBy s p t item l pc effects) : Shown P (s.taskTurn p t pc effects) := by
  have hself : (s.taskTurn p t pc effects).tasks.get? p = some { t with pc := pc } :=
    Table.get?_set_self hp
  have hother : ∀ q, q ≠ p → (s.taskTurn p t pc effects).tasks.get? q = s.tasks.get? q :=
    fun q hq => Table.get?_set_of_ne hq
  rcases ht.progress_cases with
    ⟨recording, url, loaded, total, rfl, hpc, rfl, hmap⟩ | ⟨recording, hown, hmap⟩ | ⟨hno, hmap⟩
  · -- the transfer of the task reports, and goes on
    have hkeep : ∀ key, HasTransfer s key → HasTransfer (s.taskTurn p t t.pc effects) key := by
      refine fun key hkey => hkey.mono fun q u r v hq hqc _ => ?_
      by_cases he : q = p
      · subst he
        cases hp.symm.trans hq
        exact ⟨_, hself, rfl⟩
      · exact ⟨u, (hother q he).trans hq, rfl⟩
    constructor
    · intro key hkey
      have hkey : (effects.foldl onStore s.store).progressMap key ≠ none := hkey
      rw [hmap, Function.update_apply] at hkey
      split_ifs at hkey with he
      · exact ⟨p, _, recording, url, hself, hpc, he.symm⟩
      · exact hkeep key (h.transfer key hkey)
    · intro key progress hkey
      have hkey : (effects.foldl onStore s.store).progressMap key = some progress := hkey
      rw [hmap, Function.update_apply] at hkey
      split_ifs at hkey with he
      · cases hkey
        exact hok
      · exact h.reported key progress hkey
  · -- the transfer of the task has ended, and its progress is cleared
    constructor
    · intro key hkey
      have hkey : (effects.foldl onStore s.store).progressMap key ≠ none := hkey
      rw [hmap, Function.update_apply] at hkey
      split_ifs at hkey with he
      · exact absurd rfl hkey
      · refine (h.transfer key hkey).mono fun q u r v hq hqc hr => ?_
        by_cases hqp : q = p
        · subst hqp
          cases hp.symm.trans hq
          exact absurd (hown r v hqc ▸ hr.symm) he
        · exact ⟨u, (hother q hqp).trans hq, rfl⟩
    · intro key progress hkey
      have hkey : (effects.foldl onStore s.store).progressMap key = some progress := hkey
      rw [hmap, Function.update_apply] at hkey
      split_ifs at hkey
      exact h.reported key progress hkey
  · refine h.congr hmap fun q u r v hq hqc => ?_
    have hqp : q ≠ p := by
      rintro rfl
      cases hp.symm.trans hq
      exact hno r v hqc
    exact ⟨u, (hother q hqp).trans hq, rfl⟩

theorem step (h : Shown P s) (hs : Slots s) (hok : Reports P s l)
    (hst : UploadService.step s l = some s') : Shown P s' := by
  cases Move.of_step hst with
  | wake listening =>
    exact processQueue (s := { s with listening := listening }) ⟨h.transfer, h.reported⟩
  | @handler o p row pc rest item next effects hp hrow ht ho =>
    exact h.congr ht.progressMap fun q u r v hq hqc => ⟨u, hq, rfl⟩
  | @start o p row item hp hrow =>
    refine h.congr rfl fun q u r v hq hqc => ⟨u, ?_, rfl⟩
    have hne : q ≠ s.nextPid := by
      rintro rfl
      exact hs.nextPid_fresh_task (Table.mem_keys_of_get? hq)
    exact (Table.get?_push hs.nextPid_fresh_task).trans (by rw [if_neg hne, hq])
  | @task _ p t pc effects hp ht hl =>
    obtain ⟨item, pc', effects', hrow, hturn, he⟩ := turnBy_of_step hs hst hp ht hl
    rw [he]
    exact h.turn hok hp hturn
  | @finish p t hp hpc =>
    refine processQueue (s := { s with
      store := s.store.removeActiveUpload t.recordingId, tasks := s.tasks.erase p })
      (h.congr rfl fun q u r v hq hqc => ⟨u, ?_, rfl⟩)
    have hqp : q ≠ p := by
      rintro rfl
      cases hp.symm.trans hq
      rw [hpc] at hqc
      cases hqc
    exact (Table.get?_erase).trans (by rw [if_neg hqp, hq])
  | @wakeCall p pc hp hpc => exact processQueue (s := s.endCall p) ⟨h.transfer, h.reported⟩
  | @commit newId job jobs hw hnew =>
    exact settle (s := { s with rows := job.action.run s.now newId s.rows, writer := jobs })
      ⟨h.transfer, h.reported⟩ _ _
  | @reject job jobs hw =>
    exact settle (s := { s with writer := jobs }) ⟨h.transfer, h.reported⟩ _ _
  | kill =>
    exact processQueue (s := { s.die with listening := true }) ⟨fun _ h => absurd rfl h, nofun⟩
  | _ => exact ⟨h.transfer, h.reported⟩

theorem of_reachable (h : (uploadService.guard (Reports P)).Reachable s) : Shown P s := by
  refine h.invariant_of ?_ fun s l s' hr hi hst => hi.step (.of_reachable hr.of_guard) hst.1 hst.2
  rintro s ⟨consent, now, rfl⟩
  exact init

end Shown

end UploadService

/-! ### A component that uses the hook -/

/-- The service, and a component that shows the progress of one recording. -/
structure ProgressBar where
  service : UploadService.State
  hook : Option UseUploadProgress

namespace ProgressBar

inductive Label where
  /-- An event of the service. -/
  | service (l : UploadService.Label)
  | mount (recordingId : String)
  | render
  /-- The effect of the last render runs. -/
  | effect
  | unmount

def step (x : ProgressBar) : Label → Option ProgressBar
  | .service l =>
    (UploadService.step x.service l).map fun service =>
      -- a process that dies takes the component with it
      ⟨service, if l = .kill then none else x.hook⟩
  | .mount recordingId =>
    if x.hook = none then
      some { x with hook := some (.mount x.service.now recordingId x.service.store) }
    else none
  | .render => x.hook.map fun hook => { x with hook := some (hook.render x.service.store) }
  | .effect => x.hook.map fun hook => { x with hook := some (hook.effect x.service.now) }
  | .unmount => some { x with hook := none }

def init (consent : ConsentEntry) (now : ℕ) : ProgressBar := ⟨UploadService.init consent now, none⟩

/-- The upload library never reports more bytes than there are. -/
def CountsBytes (x : ProgressBar) : Label → Prop
  | .service l =>
    UploadService.Reports (fun p => p.bytesUploaded ≤ p.bytesTotal) x.service l
  | _ => True

end ProgressBar

open ProgressBar in
def progressBar : LTS ProgressBar Label :=
  LTS.ofFn (fun x => ∃ consent now, x = init consent now) step

namespace ProgressBar

variable {x : ProgressBar}

theorem service_reachable (h : (progressBar.guard CountsBytes).Reachable x) :
    (uploadService.guard (UploadService.Reports fun p =>
      p.bytesUploaded ≤ p.bytesTotal)).Reachable x.service := by
  induction h with
  | start hs =>
    obtain ⟨consent, now, rfl⟩ := hs
    exact .start ⟨consent, now, rfl⟩
  | @step x x' l _ hst ih =>
    obtain ⟨hok, hst⟩ := hst
    cases l with
    | service l =>
      obtain ⟨service, hservice, rfl⟩ := Option.map_eq_some_iff.1 hst
      exact ih.step (l := l) ⟨hok, hservice⟩
    | mount recordingId =>
      obtain ⟨-, he⟩ := Option.ite_none_right_eq_some.1 hst
      cases he
      exact ih
    | unmount =>
      cases hst
      exact ih
    | _ =>
      obtain ⟨hook, -, rfl⟩ := Option.map_eq_some_iff.1 hst
      exact ih

theorem sound_of_reachable (h : (progressBar.guard CountsBytes).Reachable x)
    {hook : UseUploadProgress} (hhook : x.hook = some hook) : hook.Sound := by
  revert hook
  refine h.invariant_of (I := fun x => ∀ {hook}, x.hook = some hook → hook.Sound) ?_ ?_
  · rintro x ⟨consent, now, rfl⟩ hook hhook
    cases hhook
  · intro x l x' hr ih hst hook hhook
    have hshown := UploadService.Shown.of_reachable (service_reachable hr)
    cases l with
    | service l =>
      obtain ⟨service, -, rfl⟩ := Option.map_eq_some_iff.1 hst.2
      simp only at hhook
      split_ifs at hhook
      exact ih hhook
    | mount recordingId =>
      obtain ⟨-, he⟩ := Option.ite_none_right_eq_some.1 hst.2
      cases he
      cases hhook
      exact ⟨fun progress hp => hshown.reported recordingId progress hp, nofun⟩
    | render =>
      obtain ⟨old, hold, rfl⟩ := Option.map_eq_some_iff.1 hst.2
      cases hhook
      exact ⟨fun progress hp => hshown.reported old.recordingId progress hp, (ih hold).eta⟩
    | effect =>
      obtain ⟨old, hold, rfl⟩ := Option.map_eq_some_iff.1 hst.2
      cases hhook
      exact (ih hold).effect x.service.now
    | unmount =>
      cases hst.2
      cases hhook

/-- **A progress bar tells the truth.**  In every run in which the upload library never reports more
bytes than there are, and however the renders and effects of the component lie between the events
of the service: the percentage is one, all of it is shown only if 99.5% of the bytes are sent (of a
file of no more than 16 tebibytes), and the estimate is not negative; a bar that is shown for the
present entry belongs to a transfer under way for this recording. -/
theorem progress_bar_true (h : (progressBar.guard CountsBytes).Reachable x)
    {hook : UseUploadProgress} (hhook : x.hook = some hook) :
    0 ≤ hook.view.percent ∧ hook.view.percent ≤ 100 ∧
      (hook.view.percent = 100 → hook.view.bytesTotal ≤ 2 ^ 44 →
        199 * hook.view.bytesTotal ≤ 200 * hook.view.bytesUploaded) ∧
      (∀ seconds, hook.view.etaSeconds = some seconds → 0 ≤ seconds) ∧
      (hook.progress = x.service.store.progressMap hook.recordingId → hook.view.percent ≠ 0 →
        UploadService.HasTransfer x.service hook.recordingId) := by
  have hsound := sound_of_reachable h hhook
  have hshown := UploadService.Shown.of_reachable (service_reachable h)
  cases hp : hook.progress with
  | none =>
    have hview : hook.view = ⟨0, 0, 0, none⟩ := by simp [UseUploadProgress.view, hp]
    rw [hview]
    exact ⟨le_rfl, by norm_num, fun he => by norm_num at he, nofun, fun _ hne => absurd rfl hne⟩
  | some progress =>
    have hview : hook.view = ⟨UseUploadProgress.percent progress, progress.bytesUploaded,
        progress.bytesTotal, hook.eta⟩ := by simp [UseUploadProgress.view, hp]
    obtain ⟨hnonneg, hle, hall⟩ := UseUploadProgress.percent_bounds (hsound.progress progress hp)
    rw [hview]
    refine ⟨hnonneg, hle, hall, hsound.eta, fun hcurrent _ => ?_⟩
    exact hshown.transfer hook.recordingId (by rw [← hcurrent]; exact Option.some_ne_none _)

/-- A transfer reports that a quarter is sent. -/
def quarterSent : List Label :=
  UploadService.transferUnderWay.map .service ++
    [.mount "srv-a", .service (.native 2 (.progress 10 40)), .render, .service (.tick 1000),
      .effect]

instance (x : ProgressBar) (l : Label) : Decidable (CountsBytes x l) := by
  unfold CountsBytes UploadService.Reports
  split
  · split <;> infer_instance
  · infer_instance

theorem progress_bar_true_quarterSent :
    ∃ x hook, (progressBar.guard CountsBytes).Reachable x ∧ x.hook = some hook ∧
      hook.view = ⟨25, 10, 40, some 3⟩ ∧ hook.view.percent ≤ 100 := by
  have hrun : (LTS.exec (fun x l => if decide (CountsBytes x l) then step x l else none)
      (init .missing 0) quarterSent).bind (fun x => x.hook) =
      some ⟨"srv-a", 0, some ⟨10, 40⟩, some 3⟩ := by decide +kernel
  obtain ⟨x, hx, hhook⟩ := Option.bind_eq_some_iff.1 hrun
  have hr : (progressBar.guard CountsBytes).Reachable x :=
    LTS.guard_reachable_of_check (fun _ _ => of_decide_eq_true) (.start ⟨.missing, 0, rfl⟩) hx
  exact ⟨x, _, hr, hhook, by decide +kernel, (progress_bar_true hr hhook).2.1⟩

end ProgressBar

end FCord
