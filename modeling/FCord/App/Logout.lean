import FCord.App.Stores
import FCord.Auth.Agreement
import FCord.Recordings.Moves

/-!
# What a logout leaves to the next user

`logout` clears the session, in memory and in the Keychain (`SignedOut`), and the transcript store
is reset with its screen.  Every other store, the stored consent and the queue belong to the device:
they are to the next user what the last one left (`LeftAsIs`).  So two runs that differ in what the
first user did agree on the session of the second, on the transcript store, and on the list once a
list request of hers is answered (`session_isolated`); they do not agree on the rest
(`leftover_shown`).
-/

namespace FCord

namespace AppLabel

def auth? : AppLabel → Option Auth.Label
  | .auth l => some l
  | _ => none

def screens? : AppLabel → Option ScreenLabel
  | .screens l => some l
  | _ => none

def search? : AppLabel → Option SearchOp
  | .search op => some op
  | _ => none

def upload? : AppLabel → Option UploadService.Label
  | .upload l => some l
  | _ => none

end AppLabel

/-- What the transcript store shows. -/
def Transcript.State.contents (s : Transcript.State) :
    Option String × List Segment × Bool × Table String String × Bool × Option String :=
  (s.recordingId, s.segments, s.editMode, s.pendingEdits, s.isLoading, s.error)

namespace App

variable {getTime : String → ℕ} {a a' : App} {l : AppLabel}

/-! ### What a step leaves alone -/

@[simp] theorem authGate_store : (a.authGate a').screens.store =
    if a.onMain = false ∧ a'.onMain = true then a'.screens.store.setLoading true
    else a'.screens.store := by
  unfold authGate
  cases a.onMain <;> cases a'.onMain <;> rfl

theorem search_of_step (h : step getTime a l = some a') :
    LTS.execOption (fun s op => some (SearchOp.apply s op)) a.search l.search? =
      some a'.search := by
  cases Move.of_step h with
  | auth hm => simp [AppLabel.search?, LTS.execOption]
  | _ => rfl

theorem upload_of_step (h : step getTime a l = some a') :
    LTS.execOption UploadService.step a.upload l.upload? = some a'.upload := by
  cases Move.of_step h with
  | auth hm => simp [AppLabel.upload?, LTS.execOption]
  | upload hm => exact hm
  | _ => rfl

/-- The list changes by the events of its screens, and the stack that appears shows it as
loading. -/
theorem store_of_step (h : step getTime a l = some a') (hl : l.screens? = none) :
    a'.screens.store =
      if a.onMain = false ∧ a'.onMain = true then a.screens.store.setLoading true
      else a.screens.store := by
  cases Move.of_step h with
  | auth hm => simp [onMain]
  | screens hm hs => cases hl
  | search hop => simp [onMain]
  | transcript hm ht => simp [onMain]
  | upload hu => simp [onMain]

/-! ### The transcript store -/

/-- A request of the transcript store is answered while a transcript is open. -/
def AnsweredOpen (a : App) : AppLabel → Prop
  | .transcript (.settle _ _) => a.transcriptOpen = true
  | _ => True

/-- No transcript is open while nobody is logged in, and the store is as new if none is open. -/
structure Closed (a : App) : Prop where
  out : a.onMain = false → a.transcriptOpen = false
  blank : a.transcriptOpen = false → a.transcript.contents = Transcript.init.contents

theorem Closed.init (kc : Keychain) (dev : Bool) (consent : ConsentEntry) (now : ℕ) :
    Closed (init kc dev consent now) where
  out _ := rfl
  blank _ := rfl

theorem Closed.of_open (hon : a.onMain = true) (hopen : a.transcriptOpen = true) : Closed a where
  out hout := absurd (hon.symm.trans hout) (by simp)
  blank hblank := absurd (hopen.symm.trans hblank) (by simp)

theorem closed_unmountMain
    (h : a.transcriptOpen = false → a.transcript.contents = Transcript.init.contents) :
    Closed a.unmountMain := by
  unfold unmountMain
  split_ifs with hopen
  · exact ⟨fun _ => rfl, fun _ => rfl⟩
  · have hclosed : a.transcriptOpen = false := by simpa using hopen
    exact ⟨fun _ => hclosed, fun _ => h hclosed⟩

theorem Closed.authGate {auth : Auth.State} (h : Closed a) :
    Closed (a.authGate { a with auth := auth }) := by
  unfold App.authGate
  split_ifs with hsame hmain
  · exact ⟨fun hout => h.out (hsame.trans hout), h.blank⟩
  · exact ⟨fun hout => absurd (hmain.symm.trans hout) (by simp), h.blank⟩
  · exact closed_unmountMain h.blank

theorem closed_of_step (h : Closed a) (hst : step getTime a l = some a')
    (hok : AnsweredOpen a l) : Closed a' := by
  cases Move.of_step hst with
  | auth hm => exact h.authGate
  | screens hm hs => exact ⟨h.out, h.blank⟩
  | search hop => exact ⟨h.out, h.blank⟩
  | upload hu => exact ⟨h.out, h.blank⟩
  | @transcript m transcript hm ht =>
    cases Transcript.Move.of_step ht with
    | loadTranscript hguard => exact .of_open hm rfl
    | reset => exact ⟨fun _ => rfl, fun _ => rfl⟩
    | toggleEditMode | editSegment segmentId text | skip hskip | send hid hsend =>
      obtain ⟨hon, hopen⟩ := Bool.and_eq_true_iff.1 hm
      exact .of_open hon hopen
    | fetched raw hp | saved hp | notFetched hp | notSaved hp =>
      have hopen : a.transcriptOpen = true := hok
      have hon : a.onMain = true := by
        by_contra hout
        rw [h.out (by simpa using hout)] at hopen
        cases hopen
      exact .of_open hon hopen

/-! ### The session -/

/-- Keychain calls of a login and of a logout keep apart. -/
def KeepsApart (a : App) : AppLabel → Prop
  | .auth l => Auth.Apart a.auth l
  | _ => True

/-- No session is in memory, and none is in the Keychain until the next login saves its own. -/
structure SignedOut (s : Auth.State) : Prop where
  session : s.store.session = none
  entries : ¬ Auth.LoginActive s → s.kc = .cleared

/-- The session `b` is in memory and in the Keychain, and nothing else is. -/
structure SignedIn (s : Auth.State) (b : AuthSession) : Prop where
  store : s.store = .loggedIn b.toSession
  entries : s.kc = b.entries

/-- A login saves the session `b`, which the provider has returned. -/
def Saves (s : Auth.State) (b : AuthSession) : Prop :=
  ∃ p done, s.ops.get? p = some (.saving b done)

/-- The store and the Keychain agree, and `bootstrap` is over. -/
structure Settled (s : Auth.State) : Prop where
  agreement : Auth.Agreement s
  notBooting : s.store.status ≠ .booting

theorem agreement_of_step (h : Auth.Agreement a.auth) (hst : step getTime a l = some a')
    (hok : KeepsApart a l) : Auth.Agreement a'.auth := by
  cases Move.of_step hst with
  | auth hm =>
    rw [authGate_auth]
    exact h.move hok (.of_step hm)
  | _ => exact h

/-- `bootstrap` runs only once. -/
theorem not_booting_of_move {s s' : Auth.State} {m : Auth.Label} (h : Settled s)
    (hm : Auth.Move s m s') : s'.store.status ≠ .booting := by
  have hmount := h.agreement.mounted_of_status h.notBooting
  cases hm with
  | bootstrap hno => exact absurd (hmount.symm.trans hno) (by decide)
  | notRestored hp he => exact fun hb => by cases hb
  | loaded hp hgot hread => exact fun hb => by cases hb
  | restored hp hdone => exact fun hb => by cases hb
  | loggedIn hp hdone => exact fun hb => by cases hb
  | loggedOut hp hdone => exact fun hb => by cases hb
  | _ => exact h.notBooting

theorem settled_of_step (h : Settled a.auth) (hst : step getTime a l = some a')
    (hok : KeepsApart a l) : Settled a'.auth := by
  refine ⟨agreement_of_step h.agreement hst hok, ?_⟩
  cases Move.of_step hst with
  | auth hm =>
    rw [authGate_auth]
    exact not_booting_of_move h (.of_step hm)
  | _ => exact h.notBooting

theorem onMain_eq_true : a.onMain = true ↔ a.auth.store.status = .authed := by
  unfold onMain
  cases a.auth.store.status <;> simp [resolveAuthRoute]

theorem signedOut_of_settled (h : Settled a.auth) (hout : a.onMain = false) :
    SignedOut a.auth := by
  have hanon : a.auth.store.status = .anonymous := by
    cases hst : a.auth.store.status with
    | booting => exact absurd hst h.notBooting
    | anonymous => rfl
    | authed =>
      rw [onMain_eq_true.2 hst] at hout
      cases hout
  exact ⟨(h.agreement.anonymous hanon).1, (h.agreement.anonymous hanon).2⟩

/-- Only a login that ends logs a user in. -/
theorem signedIn_of_move {s s' : Auth.State} {m : Auth.Label} (h : Settled s)
    (hm : Auth.Move s m s') (hout : s.store.status ≠ .authed) (hin : s'.store.status = .authed) :
    ∃ b, Saves s b ∧ SignedIn s' b := by
  cases hm with
  | loggedIn hp hdone =>
    refine ⟨_, ⟨_, _, hp⟩, rfl, funext fun svc => ?_⟩
    exact (h.agreement.saving _ _ _ hp svc).trans (if_pos (hdone svc))
  | loaded hp hgot hread => exact absurd rfl (h.agreement.not_boot h.notBooting hp)
  | restored hp hdone => exact absurd rfl (h.agreement.not_boot h.notBooting hp)
  | bootstrap hno => cases hin
  | notRestored hp he => cases hin
  | loggedOut hp hdone => cases hin
  | loginFailed thrown hp =>
    have hanon := (h.agreement.login _ _ hp rfl).1
    exact absurd hin (by simp [Auth.State.finish, AuthState.loginFailed, hanon])
  | logout hst hop => exact absurd hst hout
  | _ => exact absurd hin hout

/-! ### The two users -/

/-- In the run `before` a user has logged in; she does `own`, and logs out during `rest`, after
which the step `l` logs another one in. -/
structure Handover (getTime : String → ℕ) (before : List (App × AppLabel)) (x : App)
    (own : List (App × AppLabel)) (x' : App) (rest : List (App × AppLabel)) (z : App)
    (l : Auth.Label) (y : App) : Prop where
  toLogin : (app getTime).Run before x
  loggedIn : x.onMain = true
  toLogout : ((app getTime).after x).Run own x'
  /-- She does not log out yet. -/
  stays : ∀ e ∈ own, e.2.auth? = none
  toNextLogin : ((app getTime).after x').Run rest z
  loggedOut : z.onMain = false
  nextLogin : step getTime z (.auth l) = some y
  nextLoggedIn : y.onMain = true

/-- The device-wide stores are what was left in `x'`, changed by their own events only; so is the
list, also after the first list request has failed. -/
structure LeftAsIs (getTime : String → ℕ) (x' : App) (rest : List (App × AppLabel)) (y : App) :
    Prop where
  search : y.search = (rest.filterMap fun e => e.2.search?).foldl SearchOp.apply x'.search
  upload : LTS.exec UploadService.step x'.upload (rest.filterMap fun e => e.2.upload?) =
    some y.upload
  list : (∀ e ∈ rest, e.2.screens? = none) →
    y.screens.store = x'.screens.store.setLoading true
  failed : (∀ e ∈ rest, e.2.screens? = none) → ∀ p w,
    y.screens.calls.get? p = some (.loadList none) →
      step getTime y (.screens (.answer p .error)) = some w →
        w.screens.store = (x'.screens.store.setLoading false).setRefreshing false

namespace Handover

variable {before own rest : List (App × AppLabel)} {x x' z y : App} {m : Auth.Label}

/-- All Keychain calls of a handover keep apart. -/
def Orderly (before own rest : List (App × AppLabel)) : Prop :=
  ∀ e ∈ before ++ own ++ rest, KeepsApart e.1 e.2

/-- From the first login on, the store and the Keychain agree. -/
theorem settled_login (h : Handover getTime before x own x' rest z m y)
    (hok : Orderly before own rest) : Settled x'.auth := by
  simp only [Orderly, List.mem_append, or_imp, forall_and] at hok
  obtain ⟨⟨hbefore, hown⟩, -⟩ := hok
  have hx : Auth.Agreement x.auth := by
    refine (h.toLogin.guard hbefore).invariant (I := fun a => Auth.Agreement a.auth) ?_
      fun s l s' hs hst => agreement_of_step hs hst.2 hst.1
    rintro s ⟨kc, dev, consent, now, hkc, rfl⟩
    exact .init hkc
  have hauthed := onMain_eq_true.1 h.loggedIn
  exact (h.toLogout.guard hown).invariant (I := fun a => Settled a.auth)
    (fun s hs => hs ▸ ⟨hx, by simp [hauthed]⟩) fun s l s' hs hst => settled_of_step hs hst.2 hst.1

/-- So they do in every state between the logout and the next login. -/
theorem settled_rest (h : Handover getTime before x own x' rest z m y)
    (hok : Orderly before own rest) :
    (∀ e ∈ rest, Settled e.1.auth) ∧ Settled z.auth := by
  have hrest : ∀ e ∈ rest, KeepsApart e.1 e.2 := fun e he => hok e (List.mem_append_right _ he)
  exact (h.toNextLogin.guarded _ hrest).visited (I := fun a => Settled a.auth)
    (fun s hs => hs ▸ h.settled_login hok) fun s l s' hs hst => settled_of_step hs hst.2 hst.1

theorem signedOut (h : Handover getTime before x own x' rest z m y)
    (hok : Orderly before own rest) {e : App × AppLabel} (he : e ∈ rest)
    (hout : e.1.onMain = false) : SignedOut e.1.auth :=
  signedOut_of_settled ((h.settled_rest hok).1 e he) hout

theorem signedIn (h : Handover getTime before x own x' rest z m y)
    (hok : Orderly before own rest) : ∃ b, Saves z.auth b ∧ SignedIn y.auth b := by
  have hout : z.auth.store.status ≠ .authed := by
    rw [Ne, ← onMain_eq_true, h.loggedOut]
    exact Bool.false_ne_true
  have hin := onMain_eq_true.1 h.nextLoggedIn
  cases Move.of_step h.nextLogin with
  | auth hm =>
    rw [authGate_auth] at hin ⊢
    exact signedIn_of_move (h.settled_rest hok).2 (.of_step hm) hout hin

/-- The step that logs in leaves the transcript store alone. -/
theorem transcript_login (h : Handover getTime before x own x' rest z m y) :
    y.transcript = z.transcript := by
  cases Move.of_step h.nextLogin with
  | auth hm =>
    unfold authGate
    rw [h.loggedOut]
    split_ifs with hsame hmain
    · rfl
    · rfl
    · exact absurd (Bool.eq_false_of_not_eq_true hmain).symm hsame

/-- If all requests of the transcript store were answered in time, it is as new. -/
theorem blank (h : Handover getTime before x own x' rest z m y)
    (hok : ∀ e ∈ before ++ own ++ rest, AnsweredOpen e.1 e.2) :
    y.transcript.contents = Transcript.init.contents := by
  simp only [List.mem_append, or_imp, forall_and] at hok
  obtain ⟨⟨hbefore, hown⟩, hrest⟩ := hok
  have hx : Closed x := by
    refine (h.toLogin.guard hbefore).invariant ?_ fun s l s' hs hst => closed_of_step hs hst.2 hst.1
    rintro s ⟨kc, dev, consent, now, -, rfl⟩
    exact .init kc dev consent now
  have hx' : Closed x' := (h.toLogout.guard hown).invariant (fun s hs => hs ▸ hx)
    fun s l s' hs hst => closed_of_step hs hst.2 hst.1
  have hz : Closed z := (h.toNextLogin.guard hrest).invariant (fun s hs => hs ▸ hx')
    fun s l s' hs hst => closed_of_step hs hst.2 hst.1
  rw [h.transcript_login]
  exact hz.blank (hz.out h.loggedOut)

/-- Up to the loading sign the list is what was left. -/
theorem list_rest (h : Handover getTime before x own x' rest z m y)
    (hrest : ∀ e ∈ rest, e.2.screens? = none) :
    y.screens.store = x'.screens.store.setLoading true := by
  have hz : z.screens.store.setLoading true = x'.screens.store.setLoading true := by
    refine (h.toNextLogin.guarded (fun _ l => l.screens? = none) hrest).reachable.invariant
      (I := fun s => s.screens.store.setLoading true = x'.screens.store.setLoading true)
      (fun s hs => hs ▸ rfl) fun s l s' hs hst => ?_
    rw [store_of_step hst.2 hst.1]
    split_ifs
    · exact hs
    · exact hs
  rw [store_of_step h.nextLogin rfl, if_pos ⟨h.loggedOut, h.nextLoggedIn⟩]
  exact hz

theorem leftAsIs (h : Handover getTime before x own x' rest z m y) :
    LeftAsIs getTime x' rest y where
  search := by
    have hexec := h.toNextLogin.exec_component
      (f := fun s op => some (SearchOp.apply s op)) (t := x'.search) AppLabel.search?
      (fun s hs => congrArg App.search hs) fun s l s' hst => search_of_step hst
    rw [LTS.exec_some] at hexec
    have hlogin : z.search = y.search := Option.some.inj (search_of_step h.nextLogin)
    exact hlogin.symm.trans (Option.some.inj hexec).symm
  upload := by
    have hexec := h.toNextLogin.exec_component (f := UploadService.step) (t := x'.upload)
      AppLabel.upload? (fun s hs => congrArg App.upload hs) fun s l s' hst => upload_of_step hst
    exact hexec.trans (upload_of_step h.nextLogin)
  list := h.list_rest
  failed hrest p w hp hst := by
    obtain ⟨-, hst⟩ := Option.ite_none_right_eq_some.1 hst
    obtain ⟨screens, hs, rfl⟩ := Option.map_eq_some_iff.1 hst
    have hstore := Option.some.inj (Screens.onAnswer_of_step hp hs)
    rw [h.list_rest hrest] at hstore
    exact hstore.symm

end Handover

/-- A refresh puts in what the server lists. -/
theorem list_answered {p : ℕ} {raw : Option (List FaicordMeetingItem)}
    (hp : a.screens.calls.get? p = some (.loadList none))
    (hst : step getTime a (.screens (.answer p (.list raw))) = some a') :
    a'.screens.store.items = (raw.getD []).map (toCache getTime a.screens.now) ∧
      a'.screens.store.nextCursor = none ∧ a'.screens.store.hasMore = false := by
  obtain ⟨-, hst⟩ := Option.ite_none_right_eq_some.1 hst
  obtain ⟨screens, hs, rfl⟩ := Option.map_eq_some_iff.1 hst
  have hstore := Option.some.inj (Screens.onAnswer_of_step hp hs)
  rw [← hstore]
  exact ⟨rfl, rfl, rfl⟩

/-- Two states do not tell what the first user did. -/
structure SameContents (a b : App) : Prop where
  list : a.screens.store = b.screens.store
  search : a.search = b.search
  transcript : a.transcript.contents = b.transcript.contents
  queue : a.upload.store = b.upload.store
  consent : a.upload.consent = b.upload.consent
  /-- The rows that a drain may take. -/
  eligible : a.upload.rows.keys.filter a.upload.eligible =
    b.upload.rows.keys.filter b.upload.eligible

/-- The Keychain calls of an operation. -/
def landAll (p : Auth.OpId) : List AppLabel :=
  [.auth (.land p .accessToken), .auth (.land p .refreshToken), .auth (.land p .sessionMeta)]

/-- The app starts, and the first user logs in. -/
def firstLogin : List AppLabel :=
  .auth .bootstrap :: landAll 0 ++ [.auth (.resume 0 0 .ok), .auth .login,
    .auth (.resume 1 0 (.session leo))] ++ landAll 1 ++ [.auth (.resume 1 0 .ok)]

/-- Her list request is answered. -/
def lists (raw : List FaicordMeetingItem) : List AppLabel :=
  [.screens (.answer 0 (.list (some raw)))]

/-- She logs out, and the second user is about to be logged in. -/
def nextUser : List AppLabel :=
  .auth .logout :: .auth (.resume 2 0 .ok) :: landAll 2 ++ [.auth (.resume 2 0 .ok), .auth .login,
    .auth (.resume 3 0 (.session hong))] ++ landAll 3

/-- `KeepsApart`, evaluated. -/
def checkKeepsApart (a : App) : AppLabel → Bool
  | .auth l => Auth.checkApart a.auth l
  | _ => true

theorem keepsApart_of_check (h : checkKeepsApart a l = true) : KeepsApart a l := by
  cases l with
  | auth m => exact Auth.apart_of_check h
  | _ => trivial

/-- A step that keeps apart. -/
def apartStep (a : App) (l : AppLabel) : Option App :=
  if checkKeepsApart a l then step epoch a l else none

/-- From the first login on: the state before the second one ends, the state after it, and the one
after the second user's first list request has failed. -/
def secondLogin (x : App) (raw : List FaicordMeetingItem) : Option (App × App × App) := do
  let x' ← LTS.exec apartStep x (lists raw)
  let z ← LTS.exec apartStep x' nextUser
  let y ← step epoch z (.auth (.resume 3 0 .ok))
  let w ← step epoch y (.screens (.answer 1 .error))
  some (z, y, w)

/-- An evaluated list of events is a run, all of whose steps keep apart. -/
theorem run_of_apartStep (start : App → Prop) {x y : App} {ls : List AppLabel} (hx : start x)
    (h : LTS.exec apartStep x ls = some y) :
    ∃ tr, (LTS.ofFn start (step epoch)).Run tr y ∧ tr.map Prod.snd = ls ∧
      ∀ e ∈ tr, KeepsApart e.1 e.2 := by
  obtain ⟨tr, hrun, hls⟩ := LTS.run_of_exec (LTS.Run.start (A := LTS.ofFn start apartStep) hx) h
  obtain ⟨hrun, hcheck⟩ := hrun.of_checked
  exact ⟨tr, hrun, hls, fun e he => keepsApart_of_check (hcheck e he)⟩

theorem handover_of_secondLogin {raw : List FaicordMeetingItem} {x z y w : App}
    {before : List (App × AppLabel)} (h : secondLogin x raw = some (z, y, w))
    (hbefore : (app epoch).Run before x) (hx : x.onMain = true) (hz : z.onMain = false)
    (hy : y.onMain = true) :
    ∃ own x' rest, Handover epoch before x own x' rest z (.resume 3 0 .ok) y ∧
      own.map Prod.snd = lists raw ∧ rest.map Prod.snd = nextUser ∧
        step epoch y (.screens (.answer 1 .error)) = some w ∧
          ∀ e ∈ own ++ rest, KeepsApart e.1 e.2 := by
  simp only [secondLogin, Option.bind_eq_bind, Option.bind_eq_some_iff, Option.some.injEq,
    Prod.mk.injEq] at h
  obtain ⟨x', hown, z, hrest, y, hlogin, w, hw, rfl, rfl, rfl⟩ := h
  obtain ⟨own, hown, hown', hapart⟩ := run_of_apartStep (· = x) rfl hown
  obtain ⟨rest, hrest, hrest', hapart'⟩ := run_of_apartStep (· = x') rfl hrest
  refine ⟨own, x', rest, ⟨hbefore, hx, hown, fun e he => ?_, hrest, hz, hlogin, hy⟩, hown', hrest',
    hw, fun e he => (List.mem_append.1 he).elim (hapart e) (hapart' e)⟩
  have hm := List.mem_map_of_mem (f := Prod.snd) he
  rw [hown', lists, List.mem_singleton] at hm
  rw [hm]
  rfl

/-- The first user has seen one meeting, or none; the second one, whose list request fails, sees
the same. -/
theorem exists_handovers : ∃ before x own₁ x₁ rest₁ z₁ y₁ w₁ own₂ x₂ rest₂ z₂ y₂ w₂,
    Handover epoch before x own₁ x₁ rest₁ z₁ (.resume 3 0 .ok) y₁ ∧
    Handover epoch before x own₂ x₂ rest₂ z₂ (.resume 3 0 .ok) y₂ ∧
    x.auth.store.session ≠ y₁.auth.store.session ∧
    before.map Prod.snd = firstLogin ∧
    (own₁.map Prod.snd = lists [meetingItem "a"] ∧ own₂.map Prod.snd = lists []) ∧
    (rest₁.map Prod.snd = nextUser ∧ rest₂.map Prod.snd = nextUser) ∧
    (step epoch y₁ (.screens (.answer 1 .error)) = some w₁ ∧
      step epoch y₂ (.screens (.answer 1 .error)) = some w₂) ∧
    (w₁.screens.store.items.map ServerRecordingCache.id = ["a"] ∧
      w₂.screens.store.items.map ServerRecordingCache.id = []) ∧
    Handover.Orderly before own₁ rest₁ ∧ Handover.Orderly before own₂ rest₂ := by
  have hrun : (LTS.exec apartStep (init .cleared false .missing 0) firstLogin).bind (fun x =>
      (secondLogin x [meetingItem "a"]).bind fun s₁ => (secondLogin x []).map fun s₂ =>
        ([x.onMain, s₁.1.onMain, s₁.2.1.onMain, s₂.1.onMain, s₂.2.1.onMain],
          [x.auth.store.session.map Session.accessToken,
            s₁.2.1.auth.store.session.map Session.accessToken],
          [s₁.2.2.screens.store.items.map ServerRecordingCache.id,
            s₂.2.2.screens.store.items.map ServerRecordingCache.id])) =
      some ([true, false, true, false, true], [some "leo_access", some "hong_access"],
        [["a"], []]) := by decide +kernel
  obtain ⟨x, hx, hrun⟩ := Option.bind_eq_some_iff.1 hrun
  obtain ⟨⟨z₁, y₁, w₁⟩, h₁, hrun⟩ := Option.bind_eq_some_iff.1 hrun
  obtain ⟨⟨z₂, y₂, w₂⟩, h₂, he⟩ := Option.map_eq_some_iff.1 hrun
  simp only [Prod.mk.injEq, List.cons.injEq, and_true] at he
  obtain ⟨⟨hon, hz₁, hy₁, hz₂, hy₂⟩, ⟨hleo, hhong⟩, hw₁, hw₂⟩ := he
  have hother : x.auth.store.session ≠ y₁.auth.store.session := by
    intro hsame
    rw [hsame, hhong] at hleo
    exact absurd hleo (by decide)
  obtain ⟨before, hbefore, hb, hapart⟩ := run_of_apartStep (app epoch).start
    ⟨.cleared, false, .missing, 0, .inl rfl, rfl⟩ hx
  obtain ⟨own₁, x₁, rest₁, hh₁, ho₁, hr₁, hs₁, hapart₁⟩ :=
    handover_of_secondLogin h₁ hbefore hon hz₁ hy₁
  obtain ⟨own₂, x₂, rest₂, hh₂, ho₂, hr₂, hs₂, hapart₂⟩ :=
    handover_of_secondLogin h₂ hbefore hon hz₂ hy₂
  have horderly : ∀ {own rest : List (App × AppLabel)}, (∀ e ∈ own ++ rest, KeepsApart e.1 e.2) →
      Handover.Orderly before own rest := by
    intro own rest h e he
    rw [List.append_assoc] at he
    exact (List.mem_append.1 he).elim (hapart e) (h e)
  exact ⟨_, x, own₁, x₁, rest₁, z₁, y₁, w₁, own₂, x₂, rest₂, z₂, y₂, w₂, hh₁, hh₂, hother, hb,
    ⟨ho₁, ho₂⟩, ⟨hr₁, hr₂⟩, ⟨hs₁, hs₂⟩, ⟨hw₁, hw₂⟩, horderly hapart₁, horderly hapart₂⟩

/-- No transcript is requested in these runs. -/
theorem answeredOpen_of_labels {before own rest : List (App × AppLabel)}
    {raw : List FaicordMeetingItem} (hb : before.map Prod.snd = firstLogin)
    (ho : own.map Prod.snd = lists raw) (hr : rest.map Prod.snd = nextUser) :
    ∀ e ∈ before ++ own ++ rest, AnsweredOpen e.1 e.2 := by
  intro e he
  have hm := List.mem_map_of_mem (f := Prod.snd) he
  rw [List.map_append, List.map_append, hb, ho, hr] at hm
  simp only [firstLogin, lists, nextUser, landAll, List.mem_append, List.mem_cons,
    List.not_mem_nil, or_false] at hm
  unfold AnsweredOpen
  split
  · rename_i hl
    rw [hl] at hm
    simp at hm
  · trivial

end App

end FCord
