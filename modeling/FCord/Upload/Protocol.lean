import FCord.Upload.Evidence

/-!
# The upload protocol

What the servers and the upload library may rely on, whatever the queue does: a file is sent to an
issued URL, one transfer of a row at a time; a session is completed after the file has been sent to
a URL of it; and a caller asks for a transcription after it has completed the session and has found
the consent.  `uploadProtocol` knows nothing of queue rows, slots, promises and writes: only what
every caller has under way (`Stage`) and what has happened.

The service refines it (`refines_uploadProtocol`), also when the app is killed.  Hence its log has
an order that does not depend on the interleaving: every event is justified by those before it
(`history_justified`).
-/

namespace FCord

/-- What a caller has under way. -/
inductive Stage where
  | idle
  /-- The file of the row is being sent to the URL. -/
  | sending (row : RowId) (url : String)
  /-- It waits for `completeUploadSession`. -/
  | completing (row : RowId) (sessionId : String)
  /-- The session is complete, and the consent has not been read. -/
  | completed (row : RowId)
  deriving DecidableEq, Repr

/-- What has happened, the latest first, and what every caller has under way. -/
structure UploadProtocol where
  log : List Event
  stage : Owner → Stage

namespace UploadProtocol

/-- In `k` the events may happen next (the latest first), and lead to these stages. -/
inductive Allowed (k : UploadProtocol) : List Event → (Owner → Stage) → Prop
  | issue (sessionId url : String) : Allowed k [.issued sessionId url] k.stage
  | start {who : Owner} {row : RowId} {options : UploadOptions} {sessionId : String}
      (hidle : k.stage who = .idle) (hfree : ∀ who' url, k.stage who' ≠ .sending row url)
      (hissued : .issued sessionId options.url ∈ k.log) :
      Allowed k [.startUpload row options]
        (Function.update k.stage who (.sending row options.url))
  | sent {who : Owner} {row : RowId} {url : String} (responseCode : ℕ)
      (hsending : k.stage who = .sending row url) :
      Allowed k [.putCompleted row url responseCode] (Function.update k.stage who .idle)
  | call {who : Owner} {row : RowId} {sessionId url : String} {responseCode : ℕ}
      (checksum : String) (bytesUploaded : ℕ) (hidle : k.stage who = .idle)
      (hissued : .issued sessionId url ∈ k.log)
      (hsent : .putCompleted row url responseCode ∈ k.log) :
      Allowed k [.completeCall who row sessionId checksum bytesUploaded]
        (Function.update k.stage who (.completing row sessionId))
  | done {who : Owner} {row : RowId} {sessionId : String}
      (hcompleting : k.stage who = .completing row sessionId) :
      Allowed k [.completeDone who row sessionId] (Function.update k.stage who (.completed row))
  | refuse {who : Owner} {row : RowId} (entry : ConsentEntry)
      (hcompleted : k.stage who = .completed row) :
      Allowed k [.consentRead (.completion who row) entry] (Function.update k.stage who .idle)
  | request {who : Owner} {row : RowId} {entry : ConsentEntry} (serverId : String)
      (hcompleted : k.stage who = .completed row) (hconsent : GivesConsent entry) :
      Allowed k [.requestTranscription (.completion who row) serverId,
        .consentRead (.completion who row) entry] (Function.update k.stage who .idle)
  /-- The user asks for a transcription. -/
  | screen (serverId : String) : Allowed k [.requestTranscription .detailScreen serverId] k.stage
  /-- A caller gives up what it has under way. -/
  | stop (who : Owner) : Allowed k [] (Function.update k.stage who .idle)
  /-- The process dies. -/
  | die : Allowed k [] fun _ => .idle

end UploadProtocol

/-- The upload protocol; a step adds the events of its label. -/
def uploadProtocol : LTS UploadProtocol (List Event) where
  start k := k = ⟨[], fun _ => .idle⟩
  step k events k' := k'.log = events ++ k.log ∧ k.Allowed events k'.stage

/-! ### What the protocol guarantees -/

/-- The call of `_handleCompleting` that an event belongs to. -/
def Event.caller : Event → Option Owner
  | .completeCall who _ _ _ _ => some who
  | .completeDone who _ _ => some who
  | .consentRead (.completion who _) _ => some who
  | .requestTranscription (.completion who _) _ => some who
  | _ => none

/-- The row whose transfer starts or completes. -/
def Event.transferOf : Event → Option RowId
  | .startUpload row _ => some row
  | .putCompleted row _ _ => some row
  | _ => none

/-- The latest event of a caller. -/
def latestBy (who : Owner) (log : List Event) : Option Event :=
  log.find? fun event => event.caller = some who

/-- The latest event of the transfers of a row. -/
def latestTransfer (row : RowId) (log : List Event) : Option Event :=
  log.find? fun event => event.transferOf = some row

/-- The event may follow what has happened `earlier`. -/
def Justified (earlier : List Event) : Event → Prop
  | .issued _ _ => True
  | .startUpload _ options => ∃ sessionId, .issued sessionId options.url ∈ earlier
  | .putCompleted row url _ =>
    ∃ options, latestTransfer row earlier = some (.startUpload row options) ∧ options.url = url
  | .completeCall _ row sessionId _ _ =>
    ∃ url responseCode, .issued sessionId url ∈ earlier ∧
      .putCompleted row url responseCode ∈ earlier
  | .completeDone who row sessionId => ∃ checksum bytesUploaded,
    latestBy who earlier = some (.completeCall who row sessionId checksum bytesUploaded)
  | .consentRead (.completion who row) _ =>
    ∃ sessionId, latestBy who earlier = some (.completeDone who row sessionId)
  | .requestTranscription (.completion who row) _ => ∃ entry, GivesConsent entry ∧
    latestBy who earlier = some (.consentRead (.completion who row) entry)
  | .consentRead .detailScreen _ => True
  | .requestTranscription .detailScreen _ => True

/-- Every event is justified by those before it. -/
def History : List Event → Prop
  | [] => True
  | event :: earlier => Justified earlier event ∧ History earlier

theorem History.justified {later earlier : List Event} {event : Event}
    (h : History (later ++ event :: earlier)) : Justified earlier event := by
  induction later with
  | nil => exact h.1
  | cons e later ih => exact ih h.2

theorem History.of_append {later earlier : List Event} (h : History (later ++ earlier)) :
    History earlier := by
  induction later with
  | nil => exact h
  | cons e later ih => exact ih h.2

/-- What lies before an event of the log. -/
theorem History.before {log : List Event} {event : Event} (h : History log) (hm : event ∈ log) :
    ∃ earlier, event :: earlier <:+ log ∧ Justified earlier event ∧ History earlier := by
  obtain ⟨later, earlier, rfl⟩ := List.append_of_mem hm
  exact ⟨earlier, List.suffix_append later _, h.justified, h.of_append.2⟩

/-- An event that was found comes after what comes before it. -/
theorem sublist_cons_of_suffix {log earlier events : List Event} {event : Event}
    (h : event :: earlier <:+ log) (hevents : List.Sublist events earlier) :
    List.Sublist (event :: events) log :=
  (hevents.cons_cons event).trans h.sublist

/-- What `who` has done to the row before it asks for a transcription, the latest first. -/
def CompletedBy (who : Owner) (row : RowId) (earlier : List Event) : Prop :=
  ∃ entry sessionId checksum bytesUploaded responseCode options, GivesConsent entry ∧
    .issued sessionId options.url ∈ earlier ∧
    List.Sublist [.consentRead (.completion who row) entry, .completeDone who row sessionId,
      .completeCall who row sessionId checksum bytesUploaded,
      .putCompleted row options.url responseCode, .startUpload row options] earlier

/-- The whole upload lies before the request for its transcription. -/
theorem History.completedBy {earlier : List Event} {who : Owner} {row : RowId} {serverId : String}
    (h : History (.requestTranscription (.completion who row) serverId :: earlier)) :
    CompletedBy who row earlier := by
  obtain ⟨⟨entry, hconsent, hread⟩, h⟩ := h
  obtain ⟨log₁, hlog₁, ⟨sessionId, hdone⟩, h₁⟩ := h.before (List.mem_of_find?_eq_some hread)
  obtain ⟨log₂, hlog₂, ⟨checksum, bytesUploaded, hcall⟩, h₂⟩ :=
    h₁.before (List.mem_of_find?_eq_some hdone)
  obtain ⟨log₃, hlog₃, ⟨url, responseCode, hissued, hput⟩, h₃⟩ :=
    h₂.before (List.mem_of_find?_eq_some hcall)
  obtain ⟨log₄, hlog₄, ⟨options, hstart, rfl⟩, h₄⟩ := h₃.before hput
  have hstarted : List.Sublist [.startUpload row options] log₄ :=
    List.singleton_sublist.2 (List.mem_of_find?_eq_some hstart)
  have hsub := sublist_cons_of_suffix hlog₃ (sublist_cons_of_suffix hlog₄ hstarted)
  refine ⟨entry, sessionId, checksum, bytesUploaded, responseCode, options, hconsent, ?_,
    sublist_cons_of_suffix hlog₁ (sublist_cons_of_suffix hlog₂ hsub)⟩
  have hmem₂ : .issued sessionId options.url ∈ log₂ := hlog₃.subset (List.mem_cons_of_mem _ hissued)
  have hmem₁ : .issued sessionId options.url ∈ log₁ := hlog₂.subset (List.mem_cons_of_mem _ hmem₂)
  exact hlog₁.subset (List.mem_cons_of_mem _ hmem₁)

/-- What has happened last, when `who` is in this stage. -/
def Stage.Shown (who : Owner) (log : List Event) : Stage → Prop
  | .idle => True
  | .sending row url =>
    ∃ options, latestTransfer row log = some (.startUpload row options) ∧ options.url = url
  | .completing row sessionId => ∃ checksum bytesUploaded,
    latestBy who log = some (.completeCall who row sessionId checksum bytesUploaded)
  | .completed row => ∃ sessionId, latestBy who log = some (.completeDone who row sessionId)

/-- An event of another caller, and of another row if a file is being sent. -/
theorem Stage.Shown.cons {who : Owner} {log : List Event} {stage : Stage} {event : Event}
    (h : stage.Shown who log) (hcaller : event.caller ≠ some who)
    (htransfer : ∀ row url, stage = .sending row url → event.transferOf ≠ some row) :
    stage.Shown who (event :: log) := by
  have hby : latestBy who (event :: log) = latestBy who log := by
    simp [latestBy, hcaller]
  cases stage with
  | idle => trivial
  | sending row url =>
    have hrow : latestTransfer row (event :: log) = latestTransfer row log := by
      simp [latestTransfer, htransfer row url rfl]
    rw [Shown, hrow]
    exact h
  | completing row sessionId =>
    rw [Shown, hby]
    exact h
  | completed row =>
    rw [Shown, hby]
    exact h

namespace UploadProtocol

variable {k k' : UploadProtocol} {events : List Event}

/-- The invariant of the protocol. -/
structure Orderly (k : UploadProtocol) : Prop where
  history : History k.log
  alone : ∀ who who' row url url', k.stage who = .sending row url →
    k.stage who' = .sending row url' → who = who'
  shown : ∀ who, (k.stage who).Shown who k.log

theorem Orderly.init : Orderly ⟨[], fun _ => .idle⟩ where
  history := trivial
  alone _ _ _ _ _ h := by cases h
  shown _ := trivial

/-- One event of the caller `who`, which goes on to a stage that the event shows. -/
theorem Orderly.cons (h : Orderly k) {who : Owner} {event : Event} {stage : Stage}
    (hjust : Justified k.log event)
    (hcaller : event.caller = none ∨ event.caller = some who)
    (htransfer : ∀ row, event.transferOf = some row →
      ∀ who' url, k.stage who' = .sending row url → who' = who)
    (hshown : stage.Shown who (event :: k.log))
    (hsending : ∀ row url, stage = .sending row url →
      ∀ who' url', k.stage who' = .sending row url' → who' = who) :
    Orderly ⟨event :: k.log, Function.update k.stage who stage⟩ where
  history := ⟨hjust, h.history⟩
  alone a b row url url' ha hb := by
    simp only [Function.update_apply] at ha hb
    split_ifs at ha hb with hwa hwb hwb
    · rw [hwa, hwb]
    · rw [hwa, hsending row url ha b url' hb]
    · rw [hwb, hsending row url' hb a url ha]
    · exact h.alone a b row url url' ha hb
  shown who' := by
    simp only [Function.update_apply]
    split_ifs with hw
    · exact hw ▸ hshown
    · refine (h.shown who').cons ?_ fun row url hs ht => hw (htransfer row ht who' url hs)
      rcases hcaller with he | he
      · simp [he]
      · simpa [he] using Ne.symm hw

/-- Nobody begins a transfer. -/
theorem Orderly.cons_quiet (h : Orderly k) {who : Owner} {event : Event} {stage : Stage}
    (hjust : Justified k.log event) (hcaller : event.caller = some who)
    (htransfer : event.transferOf = none) (hshown : stage.Shown who (event :: k.log))
    (hstage : ∀ row url, stage ≠ .sending row url) :
    Orderly ⟨event :: k.log, Function.update k.stage who stage⟩ :=
  h.cons hjust (.inr hcaller) (fun row he => by cases htransfer.symm.trans he) hshown
    fun row url he => absurd he (hstage row url)

theorem Orderly.cons_free (h : Orderly k) {event : Event} (hjust : Justified k.log event)
    (hcaller : event.caller = none) (htransfer : event.transferOf = none) :
    Orderly ⟨event :: k.log, k.stage⟩ where
  history := ⟨hjust, h.history⟩
  alone := h.alone
  shown who := (h.shown who).cons (by simp [hcaller]) (by simp [htransfer])

theorem Orderly.of_idle (h : Orderly k) {stage : Owner → Stage}
    (hstage : ∀ who, stage who = k.stage who ∨ stage who = .idle) : Orderly ⟨k.log, stage⟩ where
  history := h.history
  alone who who' row url url' hw hw' := by
    refine h.alone who who' row url url' ?_ ?_
    · exact (hstage who).elim (fun he => he ▸ hw) fun he => by cases he.symm.trans hw
    · exact (hstage who').elim (fun he => he ▸ hw') fun he => by cases he.symm.trans hw'
  shown who := by
    show (stage who).Shown who k.log
    rcases hstage who with he | he
    · rw [he]
      exact h.shown who
    · rw [he]
      trivial

/-- **One step of the protocol.** -/
theorem Orderly.step (h : Orderly k) (hst : uploadProtocol.step k events k') : Orderly k' := by
  obtain ⟨log, stage⟩ := k'
  obtain ⟨rfl, hallowed⟩ := hst
  cases hallowed with
  | issue sessionId url => exact h.cons_free trivial rfl rfl
  | screen serverId => exact h.cons_free trivial rfl rfl
  | @start who row options sessionId hidle hfree hissued =>
    refine h.cons ⟨sessionId, hissued⟩ (.inl rfl) ?_ ⟨options, by simp [latestTransfer,
      Event.transferOf], rfl⟩ ?_
    · rintro row' he who' url hs
      cases he
      exact absurd hs (hfree who' url)
    · rintro row' url' he who' url hs
      cases he
      exact absurd hs (hfree who' url)
  | @sent who row url code hsending =>
    refine h.cons ?_ (.inl rfl) ?_ trivial nofun
    · have hshown := h.shown who
      rw [hsending] at hshown
      exact hshown
    · rintro row' he who' url' hs
      cases he
      exact h.alone who' who row url' url hs hsending
  | @call who row sessionId url code checksum bytes hidle hissued hsent =>
    exact h.cons_quiet ⟨url, code, hissued, hsent⟩ rfl rfl
      ⟨checksum, bytes, by simp [latestBy, Event.caller]⟩ nofun
  | @done who row sessionId hcompleting =>
    have hshown := h.shown who
    rw [hcompleting] at hshown
    exact h.cons_quiet hshown rfl rfl ⟨sessionId, by simp [latestBy, Event.caller]⟩ nofun
  | @refuse who row entry hcompleted =>
    have hshown := h.shown who
    rw [hcompleted] at hshown
    exact h.cons_quiet hshown rfl rfl trivial nofun
  | @request who row entry serverId hcompleted hconsent =>
    have hshown := h.shown who
    rw [hcompleted] at hshown
    have hread : Orderly ⟨.consentRead (.completion who row) entry :: k.log,
        Function.update k.stage who .idle⟩ :=
      h.cons_quiet hshown rfl rfl trivial nofun
    have hrequest : Orderly ⟨.requestTranscription (.completion who row) serverId ::
          .consentRead (.completion who row) entry :: k.log,
        Function.update (Function.update k.stage who .idle) who .idle⟩ :=
      hread.cons_quiet ⟨entry, hconsent, by simp [latestBy, Event.caller]⟩ rfl rfl trivial nofun
    rw [Function.update_idem] at hrequest
    exact hrequest
  | stop who =>
    refine h.of_idle fun who' => ?_
    by_cases hw : who' = who
    · subst hw
      exact .inr (Function.update_self _ _ _)
    · exact .inl (Function.update_of_ne hw _ _)
  | die => exact h.of_idle fun who => .inr rfl

theorem Orderly.of_reachable (h : uploadProtocol.Reachable k) : Orderly k := by
  refine h.invariant ?_ fun k events k' hk hst => hk.step hst
  rintro k rfl
  exact .init

end UploadProtocol

/-! ### The service refines the protocol -/

def HandlerPc.stage (row : RowId) : HandlerPc → Stage
  | .completing _ sessionId => .completing row sessionId
  | .writingDone _ _ _ => .completed row
  | .readingConsent _ => .completed row
  | _ => .idle

def TaskPc.stage (row : RowId) : TaskPc → Stage
  | .starting _ url => .sending row url
  | .transferring _ url => .sending row url
  | .handling pc => pc.stage row
  | _ => .idle

/-- The stage of a caller whose `_handleCompleting` has made a turn. -/
def HandlerNext.stage (row : RowId) : HandlerNext → Stage
  | .await pc => pc.stage row
  | .returned => .idle
  | .threw => .idle

theorem HandlerPc.stage_settle {row : RowId} {promise : Promise} (pc : HandlerPc) :
    (pc.settle promise).stage row = pc.stage row := by
  unfold HandlerPc.settle
  split <;> rfl

theorem TaskPc.stage_settle {row : RowId} {promise : Promise} (pc : TaskPc) :
    (pc.settle promise).stage row = pc.stage row := by
  unfold TaskPc.settle
  split
  · rfl
  · exact HandlerPc.stage_settle _
  · rfl

namespace UploadService

def DrainPc.stage : DrainPc → Stage
  | .handling row pc _ => pc.stage row
  | _ => .idle

theorem DrainPc.stage_settle {promise : Promise} (pc : DrainPc) :
    (pc.settle promise).stage = pc.stage := by
  cases pc with
  | handling row pc rest => exact HandlerPc.stage_settle pc
  | _ => rfl

theorem DrainPc.stage_afterHandler {row : RowId} {rest : List RowId} (next : HandlerNext) :
    (DrainPc.afterHandler row rest next).stage = next.stage row := by
  cases next <;> rfl

theorem stage_taskPcAfterHandler {row : RowId} (next : HandlerNext) :
    (taskPcAfterHandler next).stage row = next.stage row := by
  cases next <;> rfl

/-! ### The stages of a table of calls -/

section StageIn

variable {α : Type} {t : Table Pid α} {stage : α → Stage} {p : Pid} {v w : α}

/-- The stage of the call `p`; a call that has ended has nothing under way. -/
def stageIn (t : Table Pid α) (stage : α → Stage) (p : Pid) : Stage := (t.get? p).elim .idle stage

theorem stageIn_of_get? (h : t.get? p = some v) : stageIn t stage p = stage v := by
  rw [stageIn, h]
  rfl

theorem stageIn_set (h : t.get? p = some v) :
    stageIn (t.set p w) stage = Function.update (stageIn t stage) p (stage w) := by
  funext q
  by_cases hq : q = p
  · subst hq
    rw [Function.update_self, stageIn_of_get? (Table.get?_set_self h)]
  · rw [Function.update_of_ne hq, stageIn, Table.get?_set_of_ne hq, stageIn]

theorem stageIn_erase :
    stageIn (t.erase p) stage = Function.update (stageIn t stage) p .idle := by
  funext q
  by_cases hq : q = p
  · subst hq
    simp [stageIn, Table.get?_erase]
  · simp [stageIn, Table.get?_erase, hq]

theorem stageIn_push (hp : p ∉ t.keys) (hidle : stage v = .idle) :
    stageIn (t.push p v) stage = stageIn t stage := by
  funext q
  by_cases hq : q = p
  · subst hq
    simp [stageIn, Table.get?_push hp, hidle, Table.get?_eq_none_iff.2 hp]
  · simp [stageIn, Table.get?_push hp, hq]

theorem stageIn_modify {f : α → α} (hf : ∀ v, stage (f v) = stage v) :
    stageIn (t.modify p f) stage = stageIn t stage := by
  funext q
  rw [stageIn, Table.get?_modify, stageIn]
  split_ifs
  · cases t.get? q with
    | none => rfl
    | some v => exact hf v
  · rfl

end StageIn

/-- What a call of the service has under way. -/
def stageOf (s : State) : Owner → Stage
  | .drain p => stageIn s.drains DrainPc.stage p
  | .task p => stageIn s.tasks (fun t => t.pc.stage t.row) p
  | .call _ => .idle

/-- The service, as the protocol sees it. -/
def protocol (s : State) : UploadProtocol := ⟨s.log, stageOf s⟩

/-- A step of the protocol, or none. -/
def Follows (k k' : UploadProtocol) : Prop := k' = k ∨ ∃ events, uploadProtocol.step k events k'

theorem Follows.stop {k : UploadProtocol} (who : Owner) :
    Follows k ⟨k.log, Function.update k.stage who .idle⟩ := .inr ⟨[], rfl, .stop who⟩

theorem Follows.of_same {k : UploadProtocol} {who : Owner} {stage : Stage}
    (h : k.stage who = stage) : Follows k ⟨k.log, Function.update k.stage who stage⟩ := by
  left
  rw [← h, Function.update_eq_self]

theorem Follows.issue {k : UploadProtocol} {who : Owner} (h : k.stage who = .idle)
    (sessionId url : String) :
    Follows k ⟨.issued sessionId url :: k.log, Function.update k.stage who .idle⟩ := by
  rw [← h, Function.update_eq_self]
  exact .inr ⟨[_], rfl, .issue sessionId url⟩

section Turns

variable {k : UploadProtocol} {who : Owner} {row : RowId} {item : UploadQueueItem} {now : ℕ}
variable {store : UploadQueueStore} {consent : ConsentEntry} {effects : List Effect}

theorem HandlerTurn.follows {pc : HandlerPc} {next : HandlerNext}
    (h : HandlerTurn who row item consent pc next effects) (hstage : k.stage who = pc.stage row)
    (hsent : pc = .findRecording → ∀ sessionId, item.uploadSessionId = some sessionId →
      Uploaded k.log row sessionId) :
    Follows k ⟨logAfter effects k.log, Function.update k.stage who (next.stage row)⟩ := by
  cases h with
  | @call serverId sessionId checksum hs =>
    obtain ⟨url, recording, code, hissued, -, hput⟩ := hsent rfl sessionId hs
    exact .inr ⟨[_], rfl, .call checksum item.bytesUploaded hstage hissued hput⟩
  | completed conflict => exact .inr ⟨[_], rfl, .done hstage⟩
  | written => exact .of_same hstage
  | @request serverId hc => exact .inr ⟨[_, _], rfl, .request serverId hstage hc⟩
  | refuse => exact .inr ⟨[_], rfl, .refuse consent hstage⟩
  | stop hpc => exact .stop who
  | throw => exact .stop who

theorem TaskTurn.follows {pc pc' : TaskPc}
    (h : TaskTurn who row item now store consent pc pc' effects)
    (hstage : k.stage who = pc.stage row) (hev : pc.Evidence k.log row item.uploadSessionId)
    (hsent : pc = .handling .findRecording → ∀ sessionId, item.uploadSessionId = some sessionId →
      Uploaded k.log row sessionId)
    (halone : ∀ who' url, k.stage who' = .sending row url → who' = who) :
    Follows k ⟨logAfter effects k.log, Function.update k.stage who (pc'.stage row)⟩ := by
  cases h with
  | reissued sessionId url expiresAt => exact .issue hstage sessionId url
  | issued sessionId url expiresAt => exact .issue hstage sessionId url
  | start =>
    obtain ⟨sessionId, -, hissued⟩ := hev
    refine .inr ⟨[_], rfl, .start hstage (fun who' url hs => ?_) hissued⟩
    -- the caller itself would be sending
    cases halone who' url hs
    cases hstage.symm.trans hs
  | started => exact .of_same hstage
  | progress loaded total => exact .of_same hstage
  | putCompleted code => exact .inr ⟨[_], rfl, .sent code hstage⟩
  | handler hh =>
    rw [stage_taskPcAfterHandler]
    exact hh.follows hstage fun hpc => hsent (congrArg TaskPc.handling hpc)
  | _ => exact .stop who

end Turns

section Moves

variable {s s' : State}

/-- Only the stage of one drain may change. -/
theorem stageOf_drain {p : Pid} {stage : Stage} (hd : stageIn s'.drains DrainPc.stage =
    Function.update (stageIn s.drains DrainPc.stage) p stage) (ht : s'.tasks = s.tasks) :
    stageOf s' = Function.update (stageOf s) (.drain p) stage := by
  funext who
  cases who with
  | drain q => simp only [stageOf, hd, Function.update_apply, Owner.drain.injEq]
  | task q => simp [stageOf, ht]
  | call q => rfl

/-- Only the stage of one task may change. -/
theorem stageOf_task {p : Pid} {stage : Stage} (hd : s'.drains = s.drains)
    (ht : stageIn s'.tasks (fun t => t.pc.stage t.row) =
      Function.update (stageIn s.tasks fun t => t.pc.stage t.row) p stage) :
    stageOf s' = Function.update (stageOf s) (.task p) stage := by
  funext who
  cases who with
  | drain q => simp [stageOf, hd]
  | task q => simp only [stageOf, ht, Function.update_apply, Owner.task.injEq]
  | call q => rfl

theorem stageOf_processQueue (hp : s.nextPid ∉ s.drains.keys) :
    stageOf s.processQueue = stageOf s := by
  unfold State.processQueue
  split_ifs
  · rfl
  · funext who
    cases who with
    | drain q => exact congrFun (stageIn_push hp rfl) q
    | _ => rfl

theorem stageOf_settle (promise : Promise) (owner : Option Owner) :
    stageOf (s.settle promise owner) = stageOf s := by
  funext who
  cases owner with
  | none => rfl
  | some owner =>
    cases owner with
    | drain p =>
      cases who with
      | drain q => exact congrFun (stageIn_modify DrainPc.stage_settle) q
      | _ => rfl
    | task p =>
      cases who with
      | task q => exact congrFun (stageIn_modify fun t => TaskPc.stage_settle t.pc) q
      | _ => rfl
    | call p => cases who <;> rfl

/-- A transferred row has the session for which its file has been sent. -/
theorem Evidence.uploaded (h : Evidence s) {row : RowId} {item : UploadQueueItem}
    (hrow : s.rows.get? row = some item) (htr : Transferred (statusOf s.rows) row)
    (sessionId : String) (hs : item.uploadSessionId = some sessionId) :
    Uploaded s.log row sessionId := by
  have hsent : ∃ sessionId', sessionOf s.rows row = some sessionId' ∧
      Uploaded s.log row sessionId' := by
    rcases htr with hst | hst
    · exact (h.rows row _ hst).1 (.inl rfl)
    · exact (h.rows row _ hst).1 (.inr rfl)
  obtain ⟨sessionId', hs', hsent⟩ := hsent
  rw [sessionOf_eq hrow, hs] at hs'
  cases hs'
  exact hsent

/-- Only the task of a row sends its file. -/
theorem Slots.sending_unique (hs : Slots s) {p : Pid} {t : Task} (hp : s.tasks.get? p = some t)
    {who : Owner} {url : String} (h : stageOf s who = .sending t.row url) : who = .task p := by
  cases who with
  | drain q =>
    simp only [stageOf, stageIn] at h
    cases hq : s.drains.get? q with
    | none => simp [hq] at h
    | some pc =>
      rw [hq] at h
      cases pc with
      | handling row pc rest => cases pc <;> cases h
      | _ => cases h
  | task q =>
    simp only [stageOf, stageIn] at h
    cases hq : s.tasks.get? q with
    | none => simp [hq] at h
    | some u =>
      rw [hq] at h
      obtain ⟨row, id, pc⟩ := u
      have hrow : row = t.row := by
        cases pc with
        | starting recording url' => cases h; rfl
        | transferring recording url' => cases h; rfl
        | handling pc => cases pc <;> cases h
        | _ => cases h
      rw [hs.task_unique_row hq hp hrow]
  | call q => cases h

theorem follows_of {log : List Event} {stage : Owner → Stage} (hlog : s'.log = log)
    (hstage : stageOf s' = stage) (h : Follows (protocol s) ⟨log, stage⟩) :
    Follows (protocol s) (protocol s') := by
  subst hlog hstage
  exact h

theorem follows_same (hlog : s'.log = s.log) (hstage : stageOf s' = stageOf s) :
    Follows (protocol s) (protocol s') := follows_of hlog hstage (.inl rfl)

/-- **Every transition of the service follows the protocol.** -/
theorem Move.follows {l : Label} (h : Move s l s') (hs : Slots s) (ho : Ownership s)
    (he : Evidence s) : Follows (protocol s) (protocol s') := by
  cases h with
  | outside consent listening hnow => exact .inl rfl
  | screen recording => exact .inr ⟨[_], rfl, .screen recording.id⟩
  | wake listening =>
    exact follows_same (State.processQueue_log _) (stageOf_processQueue hs.nextPid_fresh_drain)
  | enqueue recordingId bytesTotal => exact .inl rfl
  | retry row => exact .inl rfl
  | @drain l p pc pc' hp ht =>
    refine follows_of rfl (stageOf_drain (stageIn_set hp) rfl) ?_
    cases ht <;> exact .stop (.drain p)
  | @queryFailed p pc hp hpc =>
    exact follows_of rfl (stageOf_drain (stageIn_set hp) rfl) (.stop (.drain p))
  | @handler o p row pc rest item next effects hp hrow ht ho' =>
    refine follows_of rfl (stageOf_drain (stageIn_set hp) rfl) ?_
    rw [DrainPc.stage_afterHandler]
    exact ht.follows (stageIn_of_get? hp) fun _ => he.uploaded hrow (ho.transferred hp)
  | @start o p row item hp hrow =>
    have hstart : stageOf (s.startTask row item.recordingId) = stageOf s := by
      funext who
      cases who with
      | task q => exact congrFun (stageIn_push hs.nextPid_fresh_task rfl) q
      | _ => rfl
    have htest : stageOf ((s.startTask row item.recordingId).testSlots p) =
        Function.update (stageOf s) (.drain p) .idle := by
      rw [← hstart]
      unfold State.testSlots
      split_ifs <;> exact stageOf_drain (stageIn_set hp) rfl
    exact follows_of rfl htest (.stop (.drain p))
  | @leave o p hp => exact follows_of rfl (stageOf_drain stageIn_erase rfl) (.stop (.drain p))
  | @task l p t pc effects hp ht hl =>
    obtain ⟨item, hrow, -⟩ := hs.taskRows p t hp
    have hev := he.tasks p t hp
    rw [sessionOf_eq hrow] at hev
    have hturn : stageOf (s.taskTurn p t pc effects) =
        Function.update (stageOf s) (.task p) (pc.stage t.row) := stageOf_task rfl (stageIn_set hp)
    refine follows_of rfl hturn ((ht item hrow).follows (stageIn_of_get? hp) hev (fun hpc => ?_)
      fun who url => hs.sending_unique hp)
    obtain ⟨row, id, pc₀⟩ := t
    cases hpc
    exact he.uploaded hrow (ho.task_transferred hs hp)
  | @finish p t hp hpc =>
    have hfinish : stageOf (s.finishTask p t.recordingId) =
        Function.update (stageOf s) (.task p) .idle :=
      (stageOf_processQueue (hs.releaseTask hp).nextPid_fresh_drain).trans
        (stageOf_task rfl stageIn_erase)
    exact follows_of (State.processQueue_log _) hfinish (.stop (.task p))
  | @wakeCall p pc hp hpc =>
    exact follows_same (State.processQueue_log _) (stageOf_processQueue hs.nextPid_fresh_drain)
  | reset hp hrow hst => exact .inl rfl
  | endCall hp hpc hidle => exact .inl rfl
  | commit hw hnew => exact follows_same (State.settle_log _ _ _) (stageOf_settle _ _)
  | reject hw => exact follows_same (State.settle_log _ _ _) (stageOf_settle _ _)
  | kill =>
    have hdie : stageOf s.die = fun _ => .idle := by
      funext who
      cases who <;> rfl
    have hkill : stageOf s.kill = fun _ => .idle :=
      (stageOf_processQueue List.not_mem_nil).trans hdie
    exact follows_of (State.processQueue_log _) hkill (.inr ⟨[], rfl, .die⟩)

end Moves

/-- **The service refines the upload protocol.** -/
theorem refines_uploadProtocol : uploadService.Refines uploadProtocol protocol where
  start := by
    rintro s ⟨consent, now, rfl⟩
    show protocol _ = _
    rw [protocol]
    congr 1
    funext who
    cases who <;> rfl
  step s l s' hr hst :=
    (Move.of_step hst).follows (.of_reachable hr) (.of_reachable hr) (.of_reachable hr)

/-- **The servers see an orderly upload**, whatever the queue, the calls and the kills interleave:
every event is justified by those before it, and before the transcription of an upload the whole
upload has taken place, in this order. -/
theorem history_justified {s : State} (h : uploadService.Reachable s) {later earlier : List Event}
    {event : Event} (hlog : s.log = later ++ event :: earlier) :
    Justified earlier event ∧ ∀ who row serverId,
      event = .requestTranscription (.completion who row) serverId →
      CompletedBy who row earlier := by
  have hprotocol : uploadProtocol.Reachable (protocol s) := refines_uploadProtocol.reachable h
  have hhistory : History s.log := (UploadProtocol.Orderly.of_reachable hprotocol).history
  rw [hlog] at hhistory
  refine ⟨hhistory.justified, fun who row serverId he => ?_⟩
  subst he
  exact hhistory.of_append.completedBy

/-- The process is killed after the transfer, and the next one completes the upload. -/
def completedAfterKill : List Label :=
  .saveCrossBorderConsent true :: transferUnderWay ++
    [.native 2 (.completed 200), .resume (.task 2) .ok, .commit "q2", .kill, .query 3,
      .resume (.drain 3) .ok, .resume (.drain 3) (.found (some meeting)), .resume (.drain 3) .ok,
      .commit "q2", .resume (.drain 3) .ok, .resume (.drain 3) .ok]

theorem history_justified_completedAfterKill :
    ∃ s ∈ LTS.exec step (init .missing 0) completedAfterKill, ∃ earlier,
      s.log = .requestTranscription (.completion (.drain 3) "q1") "srv-a" :: earlier ∧
        CompletedBy (.drain 3) "q1" earlier := by
  have hrun : (LTS.exec step (init .missing 0) completedAfterKill).map (fun s => s.log.head?) =
      some (some (.requestTranscription (.completion (.drain 3) "q1") "srv-a")) := by
    decide +kernel
  obtain ⟨s, hs, hhead⟩ := Option.map_eq_some_iff.1 hrun
  obtain ⟨earlier, hlog⟩ := List.head?_eq_some_iff.1 hhead
  refine ⟨s, hs, earlier, hlog, ?_⟩
  have hreach := reachable_of_exec completedAfterKill hs
  have hlog' : s.log = [] ++ .requestTranscription (.completion (.drain 3) "q1") "srv-a" ::
    earlier := hlog
  exact (history_justified hreach hlog').2 _ _ _ rfl

end UploadService

end FCord
