import FCord.Upload.Evidence

/-!
# Consent before speech-to-text

`_requestSTTIfConsented` reads the stored consent before every request, and only an entry with
`cross_border: true` lets the request through.  The request button of the detail screen calls
`requestTranscription` directly.  So a run asks for consent before each of its requests exactly
if that button is never used (`requests_consented_iff`).
-/

namespace FCord

namespace UploadService

/-- Every request in the log comes after a read of the consent entry, in the same operation,
that found consent. -/
def RequestsConsented (log : List Event) : Prop :=
  ∀ later op serverId earlier, log = later ++ .requestTranscription op serverId :: earlier →
    ∃ entry, .consentRead op entry ∈ earlier ∧ GivesConsent entry

namespace RequestsConsented

variable {log : List Event}

theorem nil : RequestsConsented [] := by
  intro later op serverId earlier he
  simp at he

theorem cons_iff {event : Event} : RequestsConsented (event :: log) ↔
    (∀ op serverId, event = .requestTranscription op serverId →
      ∃ entry, .consentRead op entry ∈ log ∧ GivesConsent entry) ∧ RequestsConsented log := by
  constructor
  · intro h
    refine ⟨fun op serverId he => h [] op serverId log (by rw [he]; rfl), ?_⟩
    intro later op serverId earlier he
    exact h (event :: later) op serverId earlier (by rw [he]; rfl)
  · rintro ⟨hhead, htail⟩ later op serverId earlier he
    cases later with
    | nil =>
      cases he
      exact hhead op serverId rfl
    | cons event' later =>
      cases he
      exact htail later op serverId earlier rfl

theorem append {new : List Event} (h : RequestsConsented log)
    (hnew : ∀ op serverId, .requestTranscription op serverId ∉ new) :
    RequestsConsented (new ++ log) := by
  induction new with
  | nil => exact h
  | cons event new ih =>
    refine cons_iff.2 ⟨fun op serverId he => ?_, ih fun op serverId hm =>
      hnew op serverId (List.mem_cons_of_mem _ hm)⟩
    exact absurd (he ▸ List.mem_cons_self) (hnew op serverId)

theorem of_append {new : List Event} (h : RequestsConsented (new ++ log)) :
    RequestsConsented log := by
  induction new with
  | nil => exact h
  | cons event new ih => exact ih (cons_iff.1 h).2

end RequestsConsented

/-! ### What a step records -/

section Turns

variable {who : Owner} {row : RowId} {item : UploadQueueItem} {now : ℕ}
variable {store : UploadQueueStore} {consent : ConsentEntry} {effects : List Effect}
variable {log : List Event}

theorem HandlerTurn.requestsConsented {pc : HandlerPc} {next : HandlerNext}
    (h : HandlerTurn who row item consent pc next effects) (hlog : RequestsConsented log) :
    RequestsConsented (logAfter effects log) := by
  cases h with
  | @request serverId hc =>
    refine RequestsConsented.cons_iff.2 ⟨?_, RequestsConsented.cons_iff.2 ⟨nofun, hlog⟩⟩
    rintro op serverId' he
    cases he
    exact ⟨consent, List.mem_cons_self, hc⟩
  | _ => exact hlog.append (by simp [recordedEvent])

theorem TaskTurn.requestsConsented {pc pc' : TaskPc}
    (h : TaskTurn who row item now store consent pc pc' effects)
    (hlog : RequestsConsented log) : RequestsConsented (logAfter effects log) := by
  cases h with
  | handler hh => exact hh.requestsConsented hlog
  | _ => exact hlog.append (by simp [recordedEvent])

/-- The detail screen never reads the consent entry. -/
def ScreenNeverReads (log : List Event) : Prop :=
  ∀ entry, .consentRead .detailScreen entry ∉ log

theorem HandlerTurn.screenNeverReads {pc : HandlerPc} {next : HandlerNext}
    (h : HandlerTurn who row item consent pc next effects) (hlog : ScreenNeverReads log) :
    ScreenNeverReads (logAfter effects log) := by
  intro entry hm
  obtain hm | hm := List.mem_append.1 hm
  · cases h <;> simp [recordedEvent] at hm
  · exact hlog entry hm

theorem TaskTurn.screenNeverReads {pc pc' : TaskPc}
    (h : TaskTurn who row item now store consent pc pc' effects)
    (hlog : ScreenNeverReads log) : ScreenNeverReads (logAfter effects log) := by
  cases h with
  | handler hh => exact hh.screenNeverReads hlog
  | _ =>
    intro entry hm
    obtain hm | hm := List.mem_append.1 hm
    · simp [recordedEvent] at hm
    · exact hlog entry hm

end Turns

/-! ### Runs -/

variable {s s' : State}

theorem RequestsConsented.recorded {l : Label} {log : List Event} (hr : Recorded s l log)
    (h : RequestsConsented s.log) (hl : ∀ recording, l ≠ .onRequestTranscription recording) :
    RequestsConsented log := by
  cases hr with
  | nothing => exact h
  | screen recording he => exact absurd he (hl recording)
  | handler hp ht => exact ht.requestsConsented h
  | task hp ht => exact ht.requestsConsented h

theorem ScreenNeverReads.recorded {l : Label} {log : List Event} (hr : Recorded s l log)
    (h : ScreenNeverReads s.log) : ScreenNeverReads log := by
  cases hr with
  | nothing => exact h
  | screen recording he =>
    intro entry hm
    exact h entry (by simpa using hm)
  | handler hp ht => exact ht.screenNeverReads h
  | task hp ht => exact ht.screenNeverReads h

theorem screenNeverReads_of_reachable (h : uploadService.Reachable s) : ScreenNeverReads s.log := by
  refine h.invariant_of (I := fun s => ScreenNeverReads s.log) ?_ fun s l s' hr hn hst =>
    hn.recorded ((Move.of_step hst).recorded (.of_reachable hr))
  rintro s ⟨consent, now, rfl⟩ entry hm
  cases hm

/-- The log only grows. -/
theorem exists_log_append {l : Label} (h : uploadService.Reachable s) (hst : step s l = some s') :
    ∃ new, s'.log = new ++ s.log := by
  have hr := (Move.of_step hst).recorded (.of_reachable h)
  generalize s'.log = log at hr
  cases hr with
  | nothing => exact ⟨[], rfl⟩
  | screen recording hl => exact ⟨[_], rfl⟩
  | handler hp ht => exact ⟨_, rfl⟩
  | task hp ht => exact ⟨_, rfl⟩

/-- **Every request is preceded by a read that found consent, exactly in the runs in which the
request button of the detail screen is not used.** -/
theorem requests_consented_iff {tr : List (State × Label)} (h : uploadService.Run tr s) :
    RequestsConsented s.log ↔
      ∀ x ∈ tr, ∀ recording, x.2 ≠ .onRequestTranscription recording := by
  induction h with
  | start hs =>
    obtain ⟨consent, now, rfl⟩ := hs
    exact ⟨fun _ x hx => absurd hx List.not_mem_nil, fun _ => RequestsConsented.nil⟩
  | @step tr s s' l hrun hst ih =>
    have hr := hrun.reachable
    simp only [List.mem_append, List.mem_singleton, or_imp, forall_and, forall_eq, ← ih]
    constructor
    · intro hc
      obtain ⟨new, hnew⟩ := exists_log_append hr hst
      refine ⟨(hnew ▸ hc).of_append, ?_⟩
      rintro recording rfl
      simp only [uploadService, LTS.ofFn_step, step] at hst
      split_ifs at hst
      cases hst
      obtain ⟨entry, hread, -⟩ := (RequestsConsented.cons_iff.1 hc).1 _ _ rfl
      exact screenNeverReads_of_reachable hr entry hread
    · rintro ⟨hc, hl⟩
      exact hc.recorded ((Move.of_step hst).recorded (.of_reachable hr)) hl

/-- The user consents, and an upload runs up to the request. -/
def consentedUpload : List Label :=
  .saveCrossBorderConsent true :: uploadDone ++ [.resume (.task 2) .ok, .resume (.task 2) .ok]

theorem requests_consented_iff_consentedUpload :
    ∃ tr s, uploadService.Run tr s ∧ tr.map Prod.snd = consentedUpload ∧
      .requestTranscription (.completion (.task 2) "q1") "srv-a" ∈ s.log ∧
      RequestsConsented s.log := by
  have hm : (LTS.exec step (init .missing 0) consentedUpload).map (fun s =>
      decide (.requestTranscription (.completion (.task 2) "q1") "srv-a" ∈ s.log)) =
        some true := by decide +kernel
  obtain ⟨s, hs, hm⟩ := Option.map_eq_some_iff.1 hm
  obtain ⟨tr, hrun, hls⟩ := run_of_exec consentedUpload hs
  refine ⟨tr, s, hrun, hls, of_decide_eq_true hm, (requests_consented_iff hrun).2 ?_⟩
  have hno : ∀ l ∈ consentedUpload, ∀ recording, l ≠ .onRequestTranscription recording := by
    simp [consentedUpload, uploadDone, transferUnderWay]
  exact fun x hx => hno x.2 (hls ▸ List.mem_map_of_mem hx)

/-- A recording whose upload is complete, as the detail screen shows it. -/
def uploadedMeeting : ServerRecordingCache where
  id := "srv-a"
  title := "회의"
  uploadState := .uploaded
  transcriptionState := .notRequested
  recordingState := .savedLocal
  createdAt := 0
  updatedAt := 0
  cachedAt := 0

/-- The button works without any stored consent. -/
theorem request_without_consent :
    ¬ ∀ tr s, uploadService.Run tr s → RequestsConsented s.log := by
  intro h
  have hst : step (init .missing 0) (.onRequestTranscription uploadedMeeting) = some
      { init .missing 0 with log := [.requestTranscription .detailScreen "srv-a"] } := rfl
  have hrun := (LTS.Run.start (A := uploadService) ⟨.missing, 0, rfl⟩).step hst
  obtain ⟨entry, hm, -⟩ := h _ _ hrun [] .detailScreen "srv-a" [] rfl
  cases hm

end UploadService

end FCord
