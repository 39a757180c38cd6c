import FCord.Upload.Stranding

/-!
# The promise of one transfer

`_doUpload` wraps the upload library in a promise: when the transfer has started it registers four
listeners, of which three settle the promise, and it settles it itself when the transfer does not
start or a listener cannot be registered.  `settled` makes the settling happen once, and
`subscriptions` is the array from which the listeners are removed.

Events come between the turns of JavaScript, so what one turn does is one step here, the callbacks
of settled promises included.  Whatever events come, and wherever the registration fails, the
promise settles with the first outcome, and nothing of the transfer is left
(`settles_once_and_cleans_up`).  The tasks of the upload service make the same turns
(`Transfer.taskTurn_of_step`).
-/

namespace FCord

/-- The kinds of events that `_doUpload` listens to. -/
inductive EventKind where
  | progress | error | completed | cancelled
  deriving DecidableEq, Repr

def NativeEvent.kind : NativeEvent → EventKind
  | .progress _ _ => .progress
  | .error _ => .error
  | .completed _ => .completed
  | .cancelled => .cancelled

/-- A listener that the upload library has registered. -/
structure Listener where
  id : ℕ
  kind : EventKind
  deriving DecidableEq, Repr

/-- A running `_doUpload`, with what it shares. -/
structure Transfer where
  /-- `Upload.startUpload` has not settled. -/
  starting : Bool
  settled : Bool
  /-- The subscriptions to remove. -/
  subscriptions : List ℕ
  /-- The listeners that are registered for this transfer. -/
  listeners : List Listener
  nextListener : ℕ
  store : UploadQueueStore
  /-- The count stored in the row. -/
  bytesUploaded : ℕ
  /-- The requested writes of the count, the next one first. -/
  writes : List ℕ
  /-- The calls of `resolve` (`none`) and `reject`. -/
  settlements : List (Option UploadError)

namespace Transfer

/-! ### The code -/

section Code

variable (recording : LocalRecording) (s : Transfer)

/-- `Upload.addListener`, whose subscription is pushed. -/
def addListener (kind : EventKind) : Transfer :=
  { s with
    listeners := s.listeners ++ [⟨s.nextListener, kind⟩]
    subscriptions := s.subscriptions ++ [s.nextListener]
    nextListener := s.nextListener + 1 }

/-- `subscription.remove()`. -/
def removeListener (id : ℕ) : Transfer :=
  { s with listeners := s.listeners.filter fun listener => listener.id ≠ id }

/-- `cleanupListeners`. -/
def cleanupListeners : Transfer :=
  { s.subscriptions.foldl removeListener s with subscriptions := [] }

/-- What `settleSuccess` and `settleFailure` do. -/
def settle (outcome : Option UploadError) : Transfer :=
  if s.settled then s
  else
    { s.cleanupListeners with
      settled := true
      store := s.store.clearProgress (progressKey recording)
      settlements := s.settlements ++ [outcome] }

def settleSuccess : Transfer := s.settle recording none

def settleFailure (error : UploadError) : Transfer := s.settle recording (some error)

/-- The callback of the listener for an event. -/
def callback : NativeEvent → Transfer
  | .progress loaded total =>
    { s with
      store := s.store.setProgress (progressKey recording) loaded total
      writes := s.writes ++ [loaded] }
  | .error error => s.settleFailure recording (.other error)
  | .completed _ => s.settleSuccess recording
  | .cancelled => s.settleFailure recording (.other "UPLOAD_CANCELLED")

/-- The library reports an event to the listeners that are registered for it. -/
def emit (event : NativeEvent) : Transfer :=
  (s.listeners.filter fun listener => listener.kind = event.kind).foldl
    (fun s _ => s.callback recording event) s

/-- Register listeners of these kinds; if one cannot be registered, the `catch` settles the
promise. -/
def addListeners (throws : EventKind → Option UploadError) : List EventKind → Transfer → Transfer
  | [], s => s
  | kind :: kinds, s =>
    match throws kind with
    | some error => s.settleFailure recording error
    | none => addListeners throws kinds (s.addListener kind)

/-- The kinds in the order of their registration. -/
def kinds : List EventKind := [.progress, .error, .completed, .cancelled]

/-- `Upload.startUpload` resolves; `throws` says which calls of `addListener` throw. -/
def onStarted (throws : EventKind → Option UploadError) : Transfer :=
  addListeners recording throws kinds { s with starting := false }

/-- `Upload.startUpload` rejects. -/
def onStartFailed (error : UploadError) : Transfer :=
  { s with starting := false }.settleFailure recording error

end Code

/-- What can happen during a transfer, and after it. -/
inductive Label where
  | started (throws : EventKind → Option UploadError)
  | startFailed (error : UploadError)
  /-- The library has an event of this transfer. -/
  | event (event : NativeEvent)
  /-- The database performs the next write of the count. -/
  | commit
  /-- The next write fails. -/
  | reject
  /-- A transfer of another recording reports or clears its progress. -/
  | other (recordingId : String) (progress : Option UploadProgress)

/-- The step function of a transfer. -/
def step (recording : LocalRecording) (s : Transfer) : Label → Option Transfer
  | .started throws => if s.starting then some (s.onStarted recording throws) else none
  | .startFailed error => if s.starting then some (s.onStartFailed recording error) else none
  | .event event => some (s.emit recording event)
  | .commit =>
    match s.writes with
    | [] => none
    | loaded :: writes => some { s with bytesUploaded := loaded, writes := writes }
  | .reject =>
    match s.writes with
    | [] => none
    | _ :: writes => some { s with writes := writes }
  | .other recordingId progress =>
    if recordingId = progressKey recording then none
    else
      some { s with store := { s.store with
        progressMap := Function.update s.store.progressMap recordingId progress } }

/-- `_doUpload` has called `Upload.startUpload`. -/
def init (store : UploadQueueStore) (bytesUploaded : ℕ) : Transfer where
  starting := true
  settled := false
  subscriptions := []
  listeners := []
  nextListener := 0
  store := store
  bytesUploaded := bytesUploaded
  writes := []
  settlements := []

end Transfer

open Transfer in
/-- The transfers of a recording. -/
def uploadTransfer (recording : LocalRecording) : LTS Transfer Label :=
  LTS.ofFn (fun s => ∃ store bytesUploaded, s = init store bytesUploaded) (step recording)

namespace Transfer

/-- The outcome that an event ends a transfer with. -/
def terminal : NativeEvent → Option (Option UploadError)
  | .progress _ _ => none
  | .error error => some (some (.other error))
  | .completed _ => some none
  | .cancelled => some (some (.other "UPLOAD_CANCELLED"))

/-- The outcome that a step ends the transfer with: it does not start, a listener cannot be
registered, or after its start there is an event that ends it. -/
def outcomeOf (s : Transfer) : Label → Option (Option UploadError)
  | .started throws => (kinds.findSome? throws).map some
  | .startFailed error => some (some error)
  | .event event => if s.starting then none else terminal event
  | _ => none

/-- A step of the transfer itself. -/
def Label.isOwn : Label → Bool
  | .started _ => true
  | .startFailed _ => true
  | .event _ => true
  | _ => false

/-- The recording whose progress a step of another transfer changes. -/
def Label.otherKey : Label → Option String
  | .other recordingId _ => some recordingId
  | _ => none

/-! ### What the functions do -/

section Functions

variable {recording : LocalRecording} {s : Transfer}

/-- The array holds the listeners that are registered. -/
def Subscribed (s : Transfer) : Prop := s.subscriptions = s.listeners.map Listener.id

theorem foldl_removeListener (ids : List ℕ) :
    ids.foldl removeListener s =
      { s with listeners := s.listeners.filter fun listener => listener.id ∉ ids } := by
  induction ids generalizing s with
  | nil => simp
  | cons id ids ih =>
    rw [List.foldl_cons, ih]
    simp only [removeListener, List.filter_filter, List.mem_cons, not_or]
    congr 2
    funext listener
    simp [Bool.and_comm]

theorem cleanupListeners_eq (h : Subscribed s) :
    s.cleanupListeners = { s with subscriptions := [], listeners := [] } := by
  unfold cleanupListeners
  rw [foldl_removeListener, h]
  have hnil :
      s.listeners.filter (fun listener => listener.id ∉ s.listeners.map Listener.id) = [] := by
    refine List.filter_eq_nil_iff.2 fun listener hm => ?_
    simpa using ⟨listener, hm, rfl⟩
  rw [hnil]

/-- A transfer that settles is cleaned up. -/
theorem settle_of_open (hsub : Subscribed s) (h : s.settled = false)
    (outcome : Option UploadError) :
    s.settle recording outcome =
      { s with
        settled := true, subscriptions := [], listeners := []
        store := s.store.clearProgress (progressKey recording)
        settlements := s.settlements ++ [outcome] } := by
  unfold settle
  rw [if_neg (by simp [h]), cleanupListeners_eq hsub]

theorem Subscribed.addListener (h : Subscribed s) (kind : EventKind) :
    Subscribed (s.addListener kind) := by
  unfold Subscribed at h ⊢
  simp [Transfer.addListener, h]

/-- All listeners are registered, or the promise settles with what was thrown first. -/
theorem addListeners_cases (recording : LocalRecording) (throws : EventKind → Option UploadError)
    (kinds : List EventKind)
    (hsub : Subscribed s) (hopen : s.settled = false) :
    (∃ error n, kinds.findSome? throws = some error ∧
      addListeners recording throws kinds s =
        { s with
          settled := true, subscriptions := [], listeners := [], nextListener := n
          store := s.store.clearProgress (progressKey recording)
          settlements := s.settlements ++ [some error] }) ∨
    (kinds.findSome? throws = none ∧ ∃ listeners n, listeners.map Listener.kind = kinds ∧
      addListeners recording throws kinds s =
        { s with
          listeners := s.listeners ++ listeners
          subscriptions := s.subscriptions ++ listeners.map Listener.id
          nextListener := n }) := by
  induction kinds generalizing s with
  | nil => exact .inr ⟨rfl, [], s.nextListener, rfl, by simp [addListeners]⟩
  | cons kind kinds ih =>
    cases ht : throws kind with
    | some error =>
      refine .inl ⟨error, s.nextListener, by simp [ht], ?_⟩
      simp only [addListeners, ht]
      exact settle_of_open hsub hopen (some error)
    | none =>
      simp only [addListeners, ht, List.findSome?_cons]
      rcases ih (hsub.addListener kind) hopen with
        ⟨error, n, hfind, he⟩ | ⟨hfind, listeners, n, hkinds, he⟩
      · exact .inl ⟨error, n, hfind, he⟩
      · refine .inr ⟨hfind, ⟨s.nextListener, kind⟩ :: listeners, n, by simp [hkinds], ?_⟩
        rw [he]
        simp [addListener]

end Functions

/-! ### The phases of a transfer -/

/-- Where a transfer stands. -/
inductive Phase (recording : LocalRecording) (s : Transfer) : Prop
  | starting (hstarting : s.starting = true) (hsettled : s.settled = false)
      (hlisteners : s.listeners = []) (hnone : s.settlements = [])
  | listening (hstarting : s.starting = false) (hsettled : s.settled = false)
      (hlisteners : s.listeners.map Listener.kind = kinds) (hnone : s.settlements = [])
  | settled (hstarting : s.starting = false) (hsettled : s.settled = true)
      (hlisteners : s.listeners = [])
      (hprogress : s.store.progressMap (progressKey recording) = none)
      (outcome : Option UploadError) (hone : s.settlements = [outcome])

/-- A transfer in one of its phases. -/
structure Clean (recording : LocalRecording) (s : Transfer) : Prop where
  subscribed : Subscribed s
  phase : Phase recording s

section Steps

variable {recording : LocalRecording} {s s' : Transfer} {l : Label} {event : NativeEvent}

/-- Without a listener an event does nothing. -/
theorem emit_of_nil (h : s.listeners = []) : s.emit recording event = s := by
  unfold emit
  rw [h]
  rfl

/-- With all four of them it runs one callback. -/
theorem emit_of_kinds (h : s.listeners.map Listener.kind = kinds) :
    s.emit recording event = s.callback recording event := by
  have hone : ∃ listener, (s.listeners.filter fun listener => listener.kind = event.kind) =
      [listener] := by
    have hf : ((s.listeners.filter fun listener => listener.kind = event.kind).map
        Listener.kind).length = 1 := by
      have hcomp := List.filter_map (l := s.listeners) (f := Listener.kind)
        (p := fun kind => decide (kind = event.kind))
      rw [h] at hcomp
      rw [show (fun listener : Listener => decide (listener.kind = event.kind)) =
        (fun kind => decide (kind = event.kind)) ∘ Listener.kind from rfl, ← hcomp]
      cases event <;> rfl
    rw [List.length_map] at hf
    exact List.length_eq_one_iff.1 hf
  obtain ⟨listener, hl⟩ := hone
  unfold emit
  rw [hl]
  rfl

/-- A callback reports progress, or it settles the promise. -/
theorem callback_cases (recording : LocalRecording) (event : NativeEvent)
    (hsub : Subscribed s) (hopen : s.settled = false) :
    (∃ loaded total, event = .progress loaded total ∧ s.callback recording event =
      { s with
        store := s.store.setProgress (progressKey recording) loaded total
        writes := s.writes ++ [loaded] }) ∨
    ∃ outcome, terminal event = some outcome ∧ s.callback recording event =
      { s with
        settled := true, subscriptions := [], listeners := []
        store := s.store.clearProgress (progressKey recording)
        settlements := s.settlements ++ [outcome] } := by
  cases event with
  | progress loaded total => exact .inl ⟨loaded, total, rfl, rfl⟩
  | error error => exact .inr ⟨_, rfl, settle_of_open hsub hopen _⟩
  | completed code => exact .inr ⟨_, rfl, settle_of_open hsub hopen _⟩
  | cancelled => exact .inr ⟨_, rfl, settle_of_open hsub hopen _⟩

/-- The promise has settled. -/
def ended (recording : LocalRecording) (s : Transfer) (nextListener : ℕ)
    (outcome : Option UploadError) : Transfer where
  starting := false
  settled := true
  subscriptions := []
  listeners := []
  nextListener := nextListener
  store := s.store.clearProgress (progressKey recording)
  bytesUploaded := s.bytesUploaded
  writes := s.writes
  settlements := [outcome]

/-- What a step of a transfer itself can do. -/
inductive Turn (recording : LocalRecording) (s : Transfer) : Label → Transfer → Prop
  /-- Nobody listens. -/
  | unheard {event : NativeEvent} (h : s.starting = true ∨ s.settled = true) :
      Turn recording s (.event event) s
  | listens {throws : EventKind → Option UploadError} {listeners : List Listener} {n : ℕ}
      (hstarting : s.starting = true) (hfind : kinds.findSome? throws = none)
      (hkinds : listeners.map Listener.kind = kinds) :
      Turn recording s (.started throws)
        { s with
          starting := false, listeners := listeners, subscriptions := listeners.map Listener.id
          nextListener := n }
  | progress {loaded total : ℕ} (hstarting : s.starting = false) (hopen : s.settled = false) :
      Turn recording s (.event (.progress loaded total))
        { s with
          store := s.store.setProgress (progressKey recording) loaded total
          writes := s.writes ++ [loaded] }
  /-- It does not start, or a listener cannot be registered. -/
  | fails {l : Label} {error : UploadError} {n : ℕ} (hstarting : s.starting = true)
      (hopen : s.settled = false) (houtcome : outcomeOf s l = some (some error)) :
      Turn recording s l (s.ended recording n (some error))
  | ends {event : NativeEvent} {outcome : Option UploadError} (hstarting : s.starting = false)
      (hopen : s.settled = false) (hterminal : terminal event = some outcome) :
      Turn recording s (.event event) (s.ended recording s.nextListener outcome)

/-- **There are no other turns.** -/
theorem Turn.of_step (h : Clean recording s) (hst : step recording s l = some s')
    (hl : l.isOwn = true) : Turn recording s l s' := by
  obtain ⟨hsub, hphase⟩ := h
  cases l with
  | started throws =>
    obtain ⟨hstart, he⟩ := Option.ite_none_right_eq_some.1 hst
    cases he
    cases hphase with
    | starting hstarting hopen hlisteners hnone =>
      rcases addListeners_cases recording throws kinds
        (s := { s with starting := false }) hsub hopen with
        ⟨error, n, hfind, he⟩ | ⟨hfind, listeners, n, hkinds, he⟩
      · rw [onStarted, he]
        simp only [hnone, List.nil_append]
        exact .fails hstarting hopen (by simp [outcomeOf, hfind])
      · rw [Subscribed, hlisteners, List.map_nil] at hsub
        rw [onStarted, he]
        simp only [hlisteners, hsub, List.nil_append]
        exact .listens hstarting hfind hkinds
    | listening hstarting => cases hstarting.symm.trans hstart
    | settled hstarting => cases hstarting.symm.trans hstart
  | startFailed error =>
    obtain ⟨hstart, he⟩ := Option.ite_none_right_eq_some.1 hst
    cases he
    cases hphase with
    | starting hstarting hopen hlisteners hnone =>
      rw [onStartFailed, settleFailure,
        settle_of_open (s := { s with starting := false }) hsub hopen]
      simp only [hnone, List.nil_append]
      exact .fails (n := s.nextListener) hstarting hopen rfl
    | listening hstarting => cases hstarting.symm.trans hstart
    | settled hstarting => cases hstarting.symm.trans hstart
  | event event =>
    cases hst
    cases hphase with
    | starting hstarting hopen hlisteners hnone =>
      rw [emit_of_nil hlisteners]
      exact .unheard (.inl hstarting)
    | listening hstarting hopen hlisteners hnone =>
      rw [emit_of_kinds hlisteners]
      rcases callback_cases recording event hsub hopen with
        ⟨loaded, total, rfl, he⟩ | ⟨outcome, hterminal, he⟩
      · rw [he]
        exact .progress hstarting hopen
      · rw [he, hnone, List.nil_append, hstarting]
        exact .ends hstarting hopen hterminal
    | settled hstarting hsettled hlisteners =>
      rw [emit_of_nil hlisteners]
      exact .unheard (.inr hsettled)
  | _ => cases hl

theorem Phase.settlements_of_open (h : Phase recording s) (hopen : s.settled = false) :
    s.settlements = [] := by
  cases h with
  | starting _ _ _ hnone => exact hnone
  | listening _ _ _ hnone => exact hnone
  | settled _ hsettled => cases hopen.symm.trans hsettled

theorem Phase.not_starting (h : Phase recording s) (hsettled : s.settled = true) :
    s.starting = false := by
  cases h with
  | starting _ hopen => cases hopen.symm.trans hsettled
  | listening hstarting => exact hstarting
  | settled hstarting => exact hstarting

/-- The outcome of the promise after a step. -/
def settlementsAfter (s : Transfer) (l : Label) : List (Option UploadError) :=
  if s.settled then s.settlements else (outcomeOf s l).toList

theorem Clean.settlements_of_none (h : Clean recording s) (hl : outcomeOf s l = none) :
    s.settlements = settlementsAfter s l := by
  unfold settlementsAfter
  split_ifs with hsettled
  · rfl
  · rw [h.phase.settlements_of_open (by simpa using hsettled), hl, Option.toList_none]

theorem Clean.ended {n : ℕ} {outcome : Option UploadError} :
    Clean recording (s.ended recording n outcome) := by
  refine ⟨rfl, .settled rfl rfl rfl ?_ outcome rfl⟩
  simp [Transfer.ended, UploadQueueStore.clearProgress]

/-- **What a turn preserves.** -/
theorem Clean.turn (h : Clean recording s) (ht : Turn recording s l s') :
    Clean recording s' ∧ s'.settlements = settlementsAfter s l := by
  cases ht with
  | @unheard event hor =>
    refine ⟨h, ?_⟩
    rcases hor with hstarting | hsettled
    · exact h.settlements_of_none (by simp [outcomeOf, hstarting])
    · rw [settlementsAfter, if_pos hsettled]
  | listens hstarting hfind hkinds =>
    have hnone := h.settlements_of_none (l := .started _) (by simpa [outcomeOf] using hfind)
    cases h.phase with
    | starting _ hopen _ hempty => exact ⟨⟨rfl, .listening rfl hopen hkinds hempty⟩, hnone⟩
    | listening hstarted => cases hstarted.symm.trans hstarting
    | settled hstarted => cases hstarted.symm.trans hstarting
  | @progress loaded total hstarting hopen =>
    have hnone := h.settlements_of_none (l := .event (.progress loaded total))
      (by simp [outcomeOf, terminal])
    cases h.phase with
    | starting hstart => cases hstarting.symm.trans hstart
    | listening _ _ hlisteners hempty =>
      exact ⟨⟨h.subscribed, .listening hstarting hopen hlisteners hempty⟩, hnone⟩
    | settled _ hsettled => cases hopen.symm.trans hsettled
  | fails hstarting hopen houtcome =>
    refine ⟨.ended, ?_⟩
    rw [settlementsAfter, hopen, houtcome]
    rfl
  | ends hstarting hopen hterminal =>
    refine ⟨.ended, ?_⟩
    rw [settlementsAfter, hopen, outcomeOf, hstarting, hterminal]
    rfl

/-- The database and the other transfers do not concern the phase. -/
theorem Clean.frame (h : Clean recording s) {store : UploadQueueStore} {bytesUploaded : ℕ}
    {writes : List ℕ}
    (hprogress : store.progressMap (progressKey recording) =
      s.store.progressMap (progressKey recording)) :
    Clean recording
      { s with store := store, bytesUploaded := bytesUploaded, writes := writes } := by
  refine ⟨h.subscribed, ?_⟩
  cases h.phase with
  | starting hstarting hopen hlisteners hnone =>
    exact .starting hstarting hopen hlisteners hnone
  | listening hstarting hopen hlisteners hnone =>
    exact .listening hstarting hopen hlisteners hnone
  | settled hstarting hsettled hlisteners hnothing outcome hone =>
    exact .settled hstarting hsettled hlisteners (hprogress.trans hnothing) outcome hone

/-- **What a step preserves.**  A transfer stays in one of its phases; a step settles its promise if
it has an outcome and the promise is not settled. -/
theorem Clean.step (h : Clean recording s) (hst : Transfer.step recording s l = some s') :
    Clean recording s' ∧ s'.settlements = settlementsAfter s l := by
  cases l with
  | commit =>
    have hnone := h.settlements_of_none (l := .commit) rfl
    simp only [Transfer.step] at hst
    split at hst
    · cases hst
    · cases hst
      exact ⟨h.frame rfl, hnone⟩
  | reject =>
    have hnone := h.settlements_of_none (l := .reject) rfl
    simp only [Transfer.step] at hst
    split at hst
    · cases hst
    · cases hst
      exact ⟨h.frame rfl, hnone⟩
  | other recordingId progress =>
    have hnone := h.settlements_of_none (l := .other recordingId progress) rfl
    obtain ⟨hne, he⟩ := Option.ite_none_left_eq_some.1 hst
    cases he
    exact ⟨h.frame (Function.update_of_ne (Ne.symm hne) _ _), hnone⟩
  | _ => exact h.turn (Turn.of_step h hst rfl)

theorem Clean.of_reachable (hr : (uploadTransfer recording).Reachable s) : Clean recording s := by
  refine hr.invariant ?_ fun s l s' h hst => (h.step hst).1
  rintro s ⟨store, bytesUploaded, rfl⟩
  exact ⟨rfl, .starting rfl rfl rfl rfl⟩

/-- The events of a transfer that has settled do nothing any more. -/
theorem Turn.eq_of_settled (h : Turn recording s l s') (hp : Phase recording s)
    (hsettled : s.settled = true) : s' = s := by
  cases h with
  | unheard hor => rfl
  | listens hstarting => cases (hp.not_starting hsettled).symm.trans hstarting
  | progress hstarting hopen => cases hopen.symm.trans hsettled
  | fails hstarting hopen => cases hopen.symm.trans hsettled
  | ends hstarting hopen => cases hopen.symm.trans hsettled

theorem Turn.progressMap_of_ne (h : Turn recording s l s') {key : String}
    (hkey : key ≠ progressKey recording) : s'.store.progressMap key = s.store.progressMap key := by
  cases h with
  | progress hstarting hopen => exact Function.update_of_ne hkey _ _
  | fails hstarting hopen => exact Function.update_of_ne hkey _ _
  | ends hstarting hopen => exact Function.update_of_ne hkey _ _
  | _ => rfl

/-- The progress of other recordings is untouched. -/
theorem Clean.progressMap_of_ne (h : Clean recording s)
    (hst : Transfer.step recording s l = some s') {key : String}
    (hkey : key ≠ progressKey recording) (hl : l.otherKey ≠ some key) :
    s'.store.progressMap key = s.store.progressMap key := by
  cases l with
  | commit =>
    simp only [Transfer.step] at hst
    split at hst <;> cases hst
    rfl
  | reject =>
    simp only [Transfer.step] at hst
    split at hst <;> cases hst
    rfl
  | other recordingId progress =>
    obtain ⟨-, he⟩ := Option.ite_none_left_eq_some.1 hst
    cases he
    exact Function.update_of_ne (fun he => hl (congrArg some he.symm)) _ _
  | _ => exact (Turn.of_step h hst rfl).progressMap_of_ne hkey

/-! ### The task of the service -/

/-- Where the task waits whose transfer this is. -/
def pc (recording : LocalRecording) (url : String) (s : Transfer) : TaskPc :=
  match s.settlements with
  | outcome :: _ => .settled recording url outcome
  | [] => if s.starting then .starting recording url else .transferring recording url

/-- The effects of a turn on what the transfer shares. -/
structure Performs (row : RowId) (s s' : Transfer) (effects : List Effect) : Prop where
  store : s'.store = effects.foldl UploadService.onStore s.store
  writes : ∀ who, effects.filterMap (UploadService.requestedJob who) =
    (s'.writes.drop s.writes.length).map fun loaded => ⟨none, .update row (.bytesUploaded loaded)⟩

/-- **The task of a transfer makes the same turns**, with the same effects. -/
theorem taskTurn_of_step (hr : (uploadTransfer recording).Reachable s)
    (hst : Transfer.step recording s l = some s') (hl : l.isOwn = true) (url : String)
    (who : Owner) (row : RowId) (item : UploadQueueItem) (now : ℕ) (consent : ConsentEntry) :
    s' = s ∨ ∃ effects, Performs row s s' effects ∧
      UploadService.TaskTurn who row item now s.store consent (s.pc recording url)
        (s'.pc recording url) effects := by
  have h := Clean.of_reachable hr
  cases Turn.of_step h hst hl with
  | unheard hor => exact .inl rfl
  | listens hstarting hfind hkinds =>
    right
    have hnone : s.settlements = [] := by
      cases h.phase with
      | starting _ _ _ hnone => exact hnone
      | listening hstarted => cases hstarted.symm.trans hstarting
      | settled hstarted => cases hstarted.symm.trans hstarting
    refine ⟨[], ⟨rfl, fun _ => by simp⟩, ?_⟩
    simp only [pc, hnone, hstarting]
    exact .started
  | @progress loaded total hstarting hopen =>
    right
    have hnone := h.phase.settlements_of_open hopen
    refine ⟨[.setProgress (progressKey recording) loaded total,
      .writeDetached (.update row (.bytesUploaded loaded))], ⟨rfl, fun who => ?_⟩, ?_⟩
    · simp [UploadService.requestedJob, List.filterMap_cons]
    · simp only [pc, hnone, hstarting]
      exact .progress loaded total
  | fails hstarting hopen houtcome =>
    right
    have hnone := h.phase.settlements_of_open hopen
    refine ⟨[.clearProgress (progressKey recording)], ⟨rfl, fun who => ?_⟩, ?_⟩
    · simp [UploadService.requestedJob, List.filterMap_cons, ended]
    · simp only [pc, hnone, hstarting, ended]
      exact .startFailed _
  | @ends event outcome hstarting hopen hterminal =>
    right
    have hnone := h.phase.settlements_of_open hopen
    simp only [pc, hnone, hstarting]
    cases event with
    | progress loaded total => cases hterminal
    | completed code =>
      cases hterminal
      refine ⟨_, ⟨?_, fun who => ?_⟩, .putCompleted code⟩
      · rfl
      · simp [UploadService.requestedJob, List.filterMap_cons, ended]
    | error error =>
      cases hterminal
      refine ⟨_, ⟨?_, fun who => ?_⟩, .interrupted _⟩
      · rfl
      · simp [UploadService.requestedJob, List.filterMap_cons, ended]
    | cancelled =>
      cases hterminal
      refine ⟨_, ⟨?_, fun who => ?_⟩, .interrupted _⟩
      · rfl
      · simp [UploadService.requestedJob, List.filterMap_cons, ended]

end Steps

/-! ### The result -/

section Runs

variable {recording : LocalRecording} {tr : List (Transfer × Label)} {s : Transfer}

/-- The first outcome in a run. -/
def firstOutcome (tr : List (Transfer × Label)) : Option (Option UploadError) :=
  tr.findSome? fun x => outcomeOf x.1 x.2

/-- The promise is settled with the first outcome. -/
theorem settlements_of_run (hrun : (uploadTransfer recording).Run tr s) :
    s.settlements = (firstOutcome tr).toList := by
  induction hrun with
  | start hs =>
    obtain ⟨store, bytesUploaded, rfl⟩ := hs
    rfl
  | @step tr s s' l hrun hst ih =>
    have hclean := Clean.of_reachable hrun.reachable
    rw [(hclean.step hst).2, settlementsAfter, firstOutcome, List.findSome?_append,
      List.findSome?_singleton, ← firstOutcome]
    cases hfirst : firstOutcome tr with
    | some outcome =>
      rw [hfirst] at ih
      have hsettled : s.settled = true := by
        by_contra hopen
        rw [hclean.phase.settlements_of_open (by simpa using hopen)] at ih
        cases ih
      rw [if_pos hsettled, ih, Option.some_or]
    | none =>
      rw [hfirst] at ih
      have hopen : ¬ s.settled = true := by
        intro hsettled
        cases hclean.phase with
        | starting _ hopen => cases hopen.symm.trans hsettled
        | listening _ hopen => cases hopen.symm.trans hsettled
        | settled _ _ _ _ outcome hone => cases hone.symm.trans ih
      rw [if_neg hopen, Option.none_or]

end Runs

/-- **A transfer settles once and cleans up.**  In every run, whatever events come and wherever the
start or a registration fails: `resolve` and `reject` are called at most once, with the first
outcome; from then on no listener is registered, there is no progress under the server id of the
recording, and no step of the transfer itself changes anything; and no step but those of the other
transfers touches the progress of another recording. -/
theorem settles_once_and_cleans_up {recording : LocalRecording} {tr : List (Transfer × Label)}
    {s : Transfer} (hrun : (uploadTransfer recording).Run tr s) :
    s.settlements = (firstOutcome tr).toList ∧
    (s.settlements ≠ [] →
      s.listeners = [] ∧ s.store.progressMap (progressKey recording) = none ∧
        ∀ l s', l.isOwn = true → step recording s l = some s' → s' = s) ∧
    ∀ l s' key, step recording s l = some s' → key ≠ progressKey recording →
      l.otherKey ≠ some key → s'.store.progressMap key = s.store.progressMap key := by
  have h := Clean.of_reachable hrun.reachable
  refine ⟨settlements_of_run hrun, fun hsome => ?_,
    fun l s' key hst hkey hl => h.progressMap_of_ne hst hkey hl⟩
  cases h.phase with
  | starting _ _ _ hnone => exact absurd hnone hsome
  | listening _ _ _ hnone => exact absurd hnone hsome
  | settled _ hsettled hlisteners hprogress =>
    exact ⟨hlisteners, hprogress,
      fun l s' hl hst => (Turn.of_step h hst hl).eq_of_settled h.phase hsettled⟩

/-- A transfer that completes twice, with an error and a report afterwards. -/
def lateEvents : List Label :=
  [.started fun _ => none, .event (.progress 5 10), .event (.completed 200),
    .event (.completed 200), .event (.error "late"), .event (.progress 6 10)]

theorem settles_once_and_cleans_up_lateEvents :
    ∃ tr s, (uploadTransfer UploadService.meeting).Run tr s ∧ tr.map Prod.snd = lateEvents ∧
      s.settlements = [none] ∧ s.listeners = [] ∧
      s.store.progressMap (progressKey UploadService.meeting) = none := by
  have hrun : (LTS.exec (step UploadService.meeting) (init .initial 0) lateEvents).map settlements =
      some [none] := rfl
  obtain ⟨s, hs, hone⟩ := Option.map_eq_some_iff.1 hrun
  obtain ⟨tr, htr, hls⟩ := LTS.run_of_exec
    (LTS.Run.start (A := uploadTransfer UploadService.meeting) ⟨.initial, 0, rfl⟩) hs
  obtain ⟨-, hclean, -⟩ := settles_once_and_cleans_up htr
  obtain ⟨hlisteners, hprogress, -⟩ := hclean (by rw [hone]; exact List.cons_ne_nil _ _)
  exact ⟨tr, s, htr, hls, hone, hlisteners, hprogress⟩

/-- The third listener cannot be registered: the first two are removed. -/
example : (LTS.exec (step UploadService.meeting) (init .initial 0)
      [.started fun kind => if kind = .completed then some (.other "dead") else none,
        .event (.error "late")]).map (fun s => (s.settlements, s.listeners)) =
    some ([some (.other "dead")], []) := rfl

end Transfer

end FCord
