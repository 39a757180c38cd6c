import FCord.Recordings.Screens
import FCord.Session.Screen

/-!
# A recording is saved once

Whatever the user presses and in whatever order the recorder and the server answer, `isSaving` keeps
a second upload from starting before the first one has failed, and for good once one has succeeded
(`SavedOnce`).  An upload sends the file of the last stop, unless the user has agreed to lose it
(`fileAfter`), under the title that the list shows afterwards.
-/

namespace FCord

/-! ### Durations -/

theorem padStart_append {n m : ℕ} {a b : String} (hb : b.length = m) :
    padStart (n + m) (a ++ b) = padStart n a ++ b := by
  have hlen : n + m - (a ++ b).length = n - a.length := by
    rw [String.length_append, hb]
    omega
  rw [padStart, hlen, padStart, String.append_assoc]

theorem length_padStart_two {r : ℕ} (hr : r < 60) : (padStart 2 (toString r)).length = 2 := by
  have hall : ∀ r < 60, (padStart 2 (toString r)).length = 2 := by decide +kernel
  exact hall r hr

/-- The card of a saved recording shows the time of the timer, without its leading zero. -/
theorem formatTimer_eq {elapsed : ℕ} (h : elapsed ≠ 0) :
    formatTimer elapsed = padStart 5 (formatDuration (some (elapsed * 1000))) := by
  have hms : elapsed * 1000 / 1000 = elapsed := Nat.mul_div_cancel elapsed (by decide)
  unfold formatDuration
  split
  · rename_i hnone
    cases hnone
  · rename_i hzero
    simp [h] at hzero
  · rename_i ms _ hsome
    cases hsome
    have hlen : (":" ++ padStart 2 (toString (elapsed % 60))).length = 3 := by
      rw [String.length_append, length_padStart_two (Nat.mod_lt _ (by decide))]
      rfl
    rw [hms, String.append_assoc, show 5 = 2 + 3 from rfl, padStart_append hlen, formatTimer,
      String.append_assoc]

/-- The detail screen shows the same minutes and seconds. -/
theorem durationStr_eq {elapsed : ℕ} (h : elapsed ≠ 0) :
    durationStr (some (elapsed * 1000)) =
      some (toString (elapsed / 60) ++ "분 " ++ toString (elapsed % 60) ++ "초") := by
  have hminutes : elapsed * 1000 / 60000 = elapsed / 60 := by omega
  have hseconds : elapsed * 1000 % 60000 / 1000 = elapsed % 60 := by omega
  unfold durationStr
  split
  · rename_i hnone
    cases hnone
  · rename_i hzero
    simp [h] at hzero
  · rename_i ms _ hsome
    cases hsome
    rw [hminutes, hseconds]

/-! ### Titles -/

/-- A title that is not blank is sent. -/
theorem Saving.call_eq {x : Saving} (h : trim x.title ≠ "") :
    x.call = .upload "/api/meetings/upload"
      [("audioFile", .file x.fileUri x.fileName x.mimeType),
        ("startDateTime", .text (startDateTime x.now)), ("title", .text (trim x.title))] := by
  simp [Saving.call, uploadRecording, h]

/-- The title of a recording that the user has not named is not blank. -/
theorem trim_defaultTitle_ne (date : String) : trim ("녹음 " ++ date) ≠ "" :=
  trim_ne_empty (c := '녹') (by rw [String.toList_append]; rfl) (by decide)

/-- It has white space at its end only if the date has. -/
theorem trim_defaultTitle {date : String} (hne : date ≠ "") (h : NoSurroundingSpace date) :
    trim ("녹음 " ++ date) = "녹음 " ++ date := by
  refine (noSurroundingSpace_append (by decide) hne (fun c hc => ?_) h.2).trim_eq
  have hc : some '녹' = some c := hc
  cases hc
  decide

/-! ### The log -/

namespace SessionEvent

def isUpload : SessionEvent → Bool
  | .upload _ => true
  | _ => false

def isFailed : SessionEvent → Bool
  | .failed _ => true
  | _ => false

def isInserted : SessionEvent → Bool
  | .inserted _ _ => true
  | _ => false

/-- The event is not about an upload. -/
def quiet (e : SessionEvent) : Bool := !e.isUpload && !e.isFailed && !e.isInserted

/-- The file that can be saved after an event. -/
def fileAfter (file : Option String) : SessionEvent → Option String
  | .stopped uri => some uri
  | .discarded => none
  | _ => file

end SessionEvent

/-- The file of the last stop, unless the user has agreed to lose it since. -/
def fileAfter (log : List SessionEvent) : Option String := log.foldl SessionEvent.fileAfter none

@[simp] theorem fileAfter_append (log events : List SessionEvent) :
    fileAfter (log ++ events) = events.foldl SessionEvent.fileAfter (fileAfter log) := by
  simp [fileAfter]

/-- What an upload sends: the file that can be saved, and the title that the list will show, unless
this is a default title and the platform writes no date, or one with white space around it. -/
structure Saving.Sound (toLocaleDateString : LocalTime → String) (before : List SessionEvent)
    (x : Saving) : Prop where
  file : fileAfter before = some x.fileUri
  named : x.fileName = x.title ++ ".m4a"
  sent : x.call = .upload "/api/meetings/upload"
    [("audioFile", .file x.fileUri x.fileName x.mimeType),
      ("startDateTime", .text (startDateTime x.now)), ("title", .text (trim x.title))]
  titled : trim x.title = x.title ∨ x.title = "녹음 " ++ toLocaleDateString x.now ∧
    (toLocaleDateString x.now = "" ∨ ¬ NoSurroundingSpace (toLocaleDateString x.now))

/-- Every upload of the log was sound when it was started. -/
def UploadsSound (toLocaleDateString : LocalTime → String) (log : List SessionEvent) : Prop :=
  ∀ before x after, log = before ++ .upload x :: after → x.Sound toLocaleDateString before

variable {toLocaleDateString : LocalTime → String}

theorem UploadsSound.append {log : List SessionEvent} {e : SessionEvent}
    (h : UploadsSound toLocaleDateString log)
    (he : ∀ x, e = .upload x → x.Sound toLocaleDateString log) :
    UploadsSound toLocaleDateString (log ++ [e]) := by
  intro before x after heq
  rcases List.eq_nil_or_concat' after with rfl | ⟨after', e', rfl⟩
  · obtain ⟨rfl, hlast⟩ := List.append_inj' heq rfl
    exact he x (List.singleton_inj.1 hlast)
  · rw [← List.cons_append, ← List.append_assoc] at heq
    obtain ⟨hlog, -⟩ := List.append_inj' heq rfl
    exact h before x after' hlog

theorem UploadsSound.append_quiet {log events : List SessionEvent}
    (h : UploadsSound toLocaleDateString log) (hq : ∀ e ∈ events, e.isUpload = false) :
    UploadsSound toLocaleDateString (log ++ events) := by
  induction events generalizing log with
  | nil => simpa using h
  | cons e events ih =>
    rw [List.append_cons]
    refine ih (h.append fun x he => ?_) fun e' he' => hq e' (List.mem_cons_of_mem _ he')
    have hupload := hq e List.mem_cons_self
    rw [he] at hupload
    cases hupload

/-! ### The invariant -/

namespace RecordingScreen

variable {s s' : RecordingScreen} {l : SessionLabel}

/-- The number of uploads that are going on. -/
def inFlight (s : RecordingScreen) : ℕ := if s.saving.isSome then 1 else 0

/-- The number of recordings that have been saved. -/
def inserted (s : RecordingScreen) : ℕ := s.log.countP SessionEvent.isInserted

/-- The invariant. -/
structure SavedOnce (toLocaleDateString : LocalTime → String) (s : RecordingScreen) : Prop where
  count : s.log.countP SessionEvent.isUpload =
    s.log.countP SessionEvent.isFailed + s.inserted + s.inFlight
  once : s.inserted + s.inFlight ≤ 1
  busy : s.active = true → s.inserted + s.inFlight = 1 → s.isSaving = true
  file : s.active = true → s.fileUri = fileAfter s.log
  sound : UploadsSound toLocaleDateString s.log
  going : ∀ x, s.saving = some x → .upload x ∈ s.log
  settled : ∀ confId x, .inserted confId x ∈ s.log → .upload x ∈ s.log

theorem countP_record (s : RecordingScreen) (events : List SessionEvent) (p : SessionEvent → Bool) :
    (s.record events).log.countP p = s.log.countP p + events.countP p := List.countP_append

theorem countP_quiet {p : SessionEvent → Bool} {events : List SessionEvent}
    (hp : ∀ e, e.quiet = true → p e = false) (h : ∀ e ∈ events, e.quiet = true) :
    events.countP p = 0 :=
  List.countP_eq_zero.2 fun e he => by simp [hp e (h e he)]

theorem quiet_iff {e : SessionEvent} :
    e.quiet = true ↔ e.isUpload = false ∧ e.isFailed = false ∧ e.isInserted = false := by
  simp [SessionEvent.quiet, and_assoc]

theorem quiet_stopped {uri : String} : ∀ e ∈ [SessionEvent.stopped uri], e.quiet = true := by
  simp [SessionEvent.quiet, SessionEvent.isUpload, SessionEvent.isFailed, SessionEvent.isInserted]

theorem quiet_discarded : ∀ e ∈ [SessionEvent.discarded, SessionEvent.goBack], e.quiet = true := by
  decide

namespace SavedOnce

/-- An event that is not about an upload. -/
theorem of_quiet (h : SavedOnce toLocaleDateString s) (events : List SessionEvent)
    (hlog : s'.log = s.log ++ events) (hq : ∀ e ∈ events, e.quiet = true)
    (hsaving : s'.saving = s.saving)
    (hactive : s'.active = true → s.active = true ∧ s'.isSaving = s.isSaving ∧
      s'.fileUri = events.foldl SessionEvent.fileAfter s.fileUri) :
    SavedOnce toLocaleDateString s' := by
  have hupload := countP_quiet (fun e he => (quiet_iff.1 he).1) hq
  have hfailed := countP_quiet (fun e he => (quiet_iff.1 he).2.1) hq
  have hins := countP_quiet (fun e he => (quiet_iff.1 he).2.2) hq
  have hflight : s'.inFlight = s.inFlight := by rw [inFlight, inFlight, hsaving]
  have hinserted : s'.inserted = s.inserted := by
    rw [inserted, inserted, hlog, List.countP_append, hins, add_zero]
  constructor
  · rw [hlog, List.countP_append, List.countP_append, hupload, hfailed, hinserted, hflight]
    exact h.count
  · rw [hinserted, hflight]
    exact h.once
  · intro ha hone
    rw [hinserted, hflight] at hone
    obtain ⟨ha, hsame, -⟩ := hactive ha
    exact hsame.trans (h.busy ha hone)
  · intro ha
    obtain ⟨ha, -, hfile⟩ := hactive ha
    rw [hfile, h.file ha, hlog, fileAfter_append]
  · rw [hlog]
    exact h.sound.append_quiet fun e he => (quiet_iff.1 (hq e he)).1
  · intro x hx
    rw [hlog]
    exact List.mem_append_left _ (h.going x (hsaving ▸ hx))
  · intro confId x hx
    rw [hlog] at hx ⊢
    rcases List.mem_append.1 hx with hx | hx
    · exact List.mem_append_left _ (h.settled confId x hx)
    · cases hq _ hx

/-- Nothing but the rest of the state changes. -/
theorem of_same (h : SavedOnce toLocaleDateString s) (hlog : s'.log = s.log)
    (hsaving : s'.saving = s.saving) (hactive : s'.active = true → s.active = true)
    (hbusy : s'.isSaving = s.isSaving) (hfile : s'.fileUri = s.fileUri) :
    SavedOnce toLocaleDateString s' :=
  h.of_quiet [] (by simpa using hlog) (by simp) hsaving
    fun ha => ⟨hactive ha, hbusy, hfile⟩

theorem savingOf_sound (h : s.fileUri = fileAfter s.log) {fileUri : String}
    (hfile : s.fileUri = some fileUri) (now : LocalTime) :
    (s.savingOf toLocaleDateString now fileUri).Sound toLocaleDateString s.log where
  file := h.symm.trans hfile
  named := rfl
  sent := by
    refine Saving.call_eq ?_
    by_cases htitle : trim s.title = ""
    · simpa [savingOf, htitle] using trim_defaultTitle_ne (toLocaleDateString now)
    · simp [savingOf, htitle, trim_trim]
  titled := by
    by_cases htitle : trim s.title = ""
    · by_cases hdate : toLocaleDateString now = "" ∨ ¬ NoSurroundingSpace (toLocaleDateString now)
      · exact .inr ⟨by simp [savingOf, htitle], hdate⟩
      · push Not at hdate
        left
        simpa only [savingOf, htitle, if_true] using trim_defaultTitle hdate.1 hdate.2
    · left
      simp [savingOf, htitle, trim_trim]

/-- An upload begins. -/
theorem onSave (h : SavedOnce toLocaleDateString s) (ha : s.active = true) (now : LocalTime) :
    SavedOnce toLocaleDateString (s.onSave toLocaleDateString now) := by
  unfold RecordingScreen.onSave
  split
  · exact h
  · rename_i fileUri hfile
    split_ifs with hbusy
    · exact h
    · -- no upload is going on, and none has succeeded
      have hidle : s.inserted + s.inFlight = 0 := by
        have honce := h.once
        have hone : s.inserted + s.inFlight ≠ 1 := by
          intro hone
          simp [h.busy ha hone] at hbusy
        omega
      have hcount := h.count
      have hsound : (s.savingOf toLocaleDateString now fileUri).Sound toLocaleDateString s.log :=
        savingOf_sound (h.file ha) hfile now
      generalize s.savingOf toLocaleDateString now fileUri = x at hsound ⊢
      have hupload := countP_record { s with
        isSaving := true, uploadError := none, saving := some x } [.upload x]
      have hlog : s.inserted = s.log.countP SessionEvent.isInserted := rfl
      constructor
      · rw [inserted, hupload, hupload, hupload]
        show s.log.countP _ + 1 = s.log.countP _ + 0 + (s.log.countP _ + 0) + 1
        omega
      · rw [inserted, hupload]
        show s.log.countP _ + 0 + 1 ≤ 1
        omega
      · exact fun _ _ => rfl
      · intro _
        simp [record, h.file ha, SessionEvent.fileAfter]
      · refine h.sound.append fun y hy => ?_
        cases hy
        exact hsound
      · rintro y ⟨⟩
        exact List.mem_append_right _ List.mem_cons_self
      · intro confId y hy
        rcases List.mem_append.1 hy with hy | hy
        · exact List.mem_append_left _ (h.settled confId y hy)
        · cases List.mem_singleton.1 hy

/-- The upload that was going on settles. -/
theorem of_settled (h : SavedOnce toLocaleDateString s) {x : Saving} (hx : s.saving = some x)
    (events : List SessionEvent) (hlog : s'.log = s.log ++ events) (hsaving : s'.saving = none)
    (hupload : ∀ e ∈ events, e.isUpload = false)
    (hone : events.countP SessionEvent.isFailed + events.countP SessionEvent.isInserted = 1)
    (hactive : s'.active = true → s.active = true ∧
      s'.fileUri = events.foldl SessionEvent.fileAfter s.fileUri)
    (hbusy : s'.active = true → events.countP SessionEvent.isInserted = 1 → s'.isSaving = true)
    (hins : ∀ confId y, .inserted confId y ∈ events → y = x) :
    SavedOnce toLocaleDateString s' := by
  have hflight : s.inFlight = 1 := by simp [inFlight, hx]
  have hflight' : s'.inFlight = 0 := by simp [inFlight, hsaving]
  have hinserted : s'.inserted = s.inserted + events.countP SessionEvent.isInserted := by
    rw [inserted, hlog, List.countP_append, inserted]
  have hnone : events.countP SessionEvent.isUpload = 0 :=
    List.countP_eq_zero.2 fun e he => by simp [hupload e he]
  have hcount := h.count
  have honce := h.once
  constructor
  · rw [hlog, List.countP_append, List.countP_append, hinserted, hflight', hnone]
    omega
  · omega
  · exact fun ha hone' => hbusy ha (by omega)
  · intro ha
    obtain ⟨ha, hfile⟩ := hactive ha
    rw [hfile, h.file ha, hlog, fileAfter_append]
  · rw [hlog]
    exact h.sound.append_quiet hupload
  · intro y hy
    rw [hsaving] at hy
    cases hy
  · intro confId y hy
    rw [hlog] at hy ⊢
    rcases List.mem_append.1 hy with hy | hy
    · exact List.mem_append_left _ (h.settled confId y hy)
    · rw [hins confId y hy]
      exact List.mem_append_left _ (h.going x hx)

/-- An upload fails, and may be tried again. -/
theorem notSaved (h : SavedOnce toLocaleDateString s) {x : Saving} (hx : s.saving = some x) :
    SavedOnce toLocaleDateString (s.notSaved x) := by
  unfold RecordingScreen.notSaved setState
  split_ifs with ha
  · exact h.of_settled hx [.failed x] rfl rfl (by simp [SessionEvent.isUpload]) rfl
      (fun _ => ⟨ha, rfl⟩) nofun (by simp)
  · exact h.of_settled hx [.failed x] rfl rfl (by simp [SessionEvent.isUpload]) rfl
      (fun ha' => absurd ha' ha) nofun (by simp)

/-- An upload succeeds. -/
theorem saved (h : SavedOnce toLocaleDateString s) {x : Saving} (hx : s.saving = some x)
    (confId : String) : SavedOnce toLocaleDateString (s.saved confId x) := by
  have hone : s.inserted + s.inFlight = 1 := by
    have honce := h.once
    simp only [inFlight, hx, Option.isSome_some, if_true] at honce ⊢
    omega
  unfold RecordingScreen.saved setState
  split_ifs with ha
  · exact h.of_settled hx [.inserted confId x, .goBack] rfl rfl
      (by simp [SessionEvent.isUpload]) rfl (fun _ => ⟨ha, rfl⟩) (fun _ _ => h.busy ha hone)
      (by simp)
  · exact h.of_settled hx [.inserted confId x, .goBack] rfl rfl
      (by simp [SessionEvent.isUpload]) rfl (fun ha' => absurd ha' ha)
      (fun ha' => absurd ha' ha) (by simp)

theorem step (h : SavedOnce toLocaleDateString s)
    (hst : step toLocaleDateString s l = some s') : SavedOnce toLocaleDateString s' := by
  cases l with
  | started ok =>
    simp only [RecordingScreen.step] at hst
    split_ifs at hst
    all_goals
      cases hst
      exact h.of_same rfl rfl id rfl rfl
  | closeMicError =>
    obtain ⟨-, he⟩ := Option.ite_none_right_eq_some.1 hst
    cases he
    exact h.of_quiet [.goBack] rfl (by decide) rfl fun ha => ⟨ha, rfl, rfl⟩
  | position ms =>
    obtain ⟨-, he⟩ := Option.ite_none_right_eq_some.1 hst
    cases he
    unfold setState
    split_ifs
    · exact h.of_same rfl rfl id rfl rfl
    · exact h
  | onTogglePause =>
    obtain ⟨-, he⟩ := Option.ite_none_right_eq_some.1 hst
    cases he
    exact h.of_same rfl rfl id rfl rfl
  | toggled wasPaused ok =>
    obtain ⟨-, he⟩ := Option.ite_none_right_eq_some.1 hst
    cases he
    unfold setState
    split_ifs
    · exact h.of_same rfl rfl id rfl rfl
    · exact h.of_same rfl rfl id rfl rfl
    · exact h.of_same rfl rfl id rfl rfl
  | onStop =>
    obtain ⟨-, he⟩ := Option.ite_none_right_eq_some.1 hst
    cases he
    exact h.of_same rfl rfl id rfl rfl
  | stopped uri =>
    obtain ⟨-, he⟩ := Option.ite_none_left_eq_some.1 hst
    cases uri with
    | none =>
      cases he
      exact h.of_same rfl rfl id rfl rfl
    | some uri =>
      cases he
      unfold setState
      split_ifs with ha
      · exact h.of_quiet [.stopped uri] rfl quiet_stopped rfl fun _ => ⟨ha, rfl, rfl⟩
      · exact h.of_quiet [.stopped uri] rfl quiet_stopped rfl fun ha' => absurd ha' ha
  | setTitle title =>
    obtain ⟨-, he⟩ := Option.ite_none_right_eq_some.1 hst
    cases he
    exact h.of_same rfl rfl id rfl rfl
  | onSave now =>
    obtain ⟨ha, he⟩ := Option.ite_none_right_eq_some.1 hst
    cases he
    simp only [Bool.and_eq_true] at ha
    exact h.onSave ha.1 now
  | answered res =>
    obtain ⟨x, hx, rfl⟩ := Option.map_eq_some_iff.1 hst
    unfold onAnswer
    split
    · exact h.saved hx _
    · exact h.notSaved hx
  | onCancelSave =>
    obtain ⟨-, he⟩ := Option.ite_none_right_eq_some.1 hst
    cases he
    exact h.of_same rfl rfl id rfl rfl
  | decide discard =>
    obtain ⟨-, he⟩ := Option.ite_none_right_eq_some.1 hst
    cases discard with
    | false =>
      cases he
      exact h.of_same rfl rfl id rfl rfl
    | true =>
      cases he
      simp only [setState, if_true]
      split_ifs with ha
      · exact h.of_quiet [.discarded, .goBack] rfl quiet_discarded rfl fun _ => ⟨ha, rfl, rfl⟩
      · exact h.of_quiet [.discarded, .goBack] rfl quiet_discarded rfl fun ha' => absurd ha' ha
  | unmount =>
    obtain ⟨-, he⟩ := Option.ite_none_right_eq_some.1 hst
    cases he
    exact h.of_same rfl rfl nofun rfl rfl

end SavedOnce

theorem SavedOnce.of_reachable (h : (recordingSession toLocaleDateString).Reachable s) :
    SavedOnce toLocaleDateString s := by
  refine h.invariant ?_ fun s l s' hs hst => hs.step hst
  rintro s rfl
  refine ⟨rfl, by decide, nofun, fun _ => rfl, ?_, nofun, nofun⟩
  intro before x after heq
  simp [init] at heq

/-- **A recording is saved once.**  Every upload but one has failed, and the last one is still going
on or has put the recording into the list; every upload sends the file of the last stop, which the
user has not agreed to lose; and the recording is in the list under the title that was uploaded,
with the time that the timer showed. -/
theorem recording_saved_once (h : (recordingSession toLocaleDateString).Reachable s) :
    s.log.countP SessionEvent.isUpload =
      s.log.countP SessionEvent.isFailed + s.inserted + s.inFlight ∧
    s.inserted + s.inFlight ≤ 1 ∧
    UploadsSound toLocaleDateString s.log ∧
    ∀ confId x, .inserted confId x ∈ s.log → .upload x ∈ s.log ∧
      ∀ screens : Screens, x.elapsed ≠ 0 →
        formatTimer x.elapsed =
          padStart 5 (formatDuration (screens.savedItem confId x.title x.elapsed).durationMs) ∧
        durationStr (screens.savedItem confId x.title x.elapsed).durationMs =
          some (toString (x.elapsed / 60) ++ "분 " ++ toString (x.elapsed % 60) ++ "초") := by
  have hs := SavedOnce.of_reachable h
  exact ⟨hs.count, hs.once, hs.sound, fun confId x hx => ⟨hs.settled confId x hx,
    fun _ helapsed => ⟨formatTimer_eq helapsed, durationStr_eq helapsed⟩⟩⟩

/-- A recording of a minute; its first upload fails, the second one succeeds. -/
def secondTry : List SessionLabel :=
  [.started true, .position 61000, .onStop, .stopped (some "file:///rec_1.m4a"),
    .setTitle " 주간회의 ", .onSave ⟨2026, 5, 27, 14, 22⟩, .answered none,
    .onSave ⟨2026, 5, 27, 14, 23⟩, .answered (some ⟨true, some "m1"⟩)]

theorem recording_saved_once_secondTry :
    ∃ s, (recordingSession fun _ => "2026. 5. 27.").Reachable s ∧
      s.log.countP SessionEvent.isUpload = 2 ∧ s.inserted = 1 ∧
      UploadsSound (fun _ => "2026. 5. 27.") s.log := by
  have hrun : (LTS.exec (step fun _ => "2026. 5. 27.") init secondTry).map (fun s =>
      (s.log.countP SessionEvent.isUpload, s.inserted)) = some (2, 1) := by decide +kernel
  obtain ⟨s, hs, he⟩ := Option.map_eq_some_iff.1 hrun
  simp only [Prod.mk.injEq] at he
  have hr : (recordingSession fun _ => "2026. 5. 27.").Reachable s :=
    LTS.reachable_of_exec (.start rfl) hs
  exact ⟨s, hr, he.1, he.2, (recording_saved_once hr).2.2.1⟩

end RecordingScreen

end FCord
