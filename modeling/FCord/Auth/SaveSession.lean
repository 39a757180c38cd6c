import FCord.Auth.Store
import FCord.LTS.Basic

/-!
# Saving a session

`saveSession` starts three Keychain writes at once and undoes none of them: when one fails, or the
process dies, the others stand.  `saves_atomic_iff` says for whole histories of saves, logins and
clears when that goes unnoticed: when the writes that landed, or those that did not, would not
have changed anything.
-/

namespace FCord

/-- One call of `saveSession`. -/
structure Save where
  session : AuthSession
  /-- The writes that succeed. -/
  landed : Service → Bool
  /-- The process dies before the call settles. -/
  killed : Bool
  /-- What the first failing write throws. -/
  failure : Thrown

/-- The Keychain when the three writes have succeeded or failed. -/
def saveSession (kc : Keychain) (w : Save) : Keychain := fun svc =>
  if w.landed svc then some (w.session.entry svc) else kc svc

/-- How a login goes on after the provider has answered. -/
inductive LoginAttempt where
  | refused (thrown : Thrown)
  | granted (w : Save)

namespace TokenHistory

/-- The Keychain, the store, and the sessions passed to `saveSession` so far. -/
structure State where
  kc : Keychain
  store : AuthState
  saved : List AuthSession

namespace State

variable (s : State)

/-- `saveSession`, with its effect on the Keychain. -/
def save (w : Save) : State :=
  { s with kc := saveSession s.kc w, saved := w.session :: s.saved }

/-- `login`. -/
def login : LoginAttempt → State
  | .refused thrown => { s with store := s.store.submit.loginFailed thrown }
  | .granted w =>
    { s.save w with
      store :=
        if w.killed then .initial
        else if ∀ svc, w.landed svc then .loggedIn w.session.toSession
        else s.store.submit.loginFailed w.failure }

/-- `clear`, which ignores failures. -/
def clear (landed : Service → Bool) : State :=
  { s with kc := fun svc => if landed svc then none else s.kc svc }

end State

inductive Label where
  | login (attempt : LoginAttempt)
  /-- `bootstrap` saves a session. -/
  | save (w : Save)
  | clear (landed : Service → Bool)

/-- The call of `saveSession` in a step. -/
def Label.save? : Label → Option Save
  | .login (.granted w) => some w
  | .save w => some w
  | _ => none

def step (s : State) : Label → Option State
  | .login attempt => some (s.login attempt)
  | .save w => some (s.save w)
  | .clear landed => some (s.clear landed)

/-- On a fresh device nothing is stored. -/
def init : State := ⟨.cleared, .initial, []⟩

end TokenHistory

open TokenHistory in
/-- The histories of saves, logins and clears. -/
def tokenHistory : LTS State Label := LTS.ofFn (· = init) step

namespace TokenHistory

/-- All three entries hold the new session, or all three are as before. -/
def AllOrNothing (kc : Keychain) (w : Save) : Prop :=
  (∀ svc, saveSession kc w svc = some (w.session.entry svc)) ∨
    ∀ svc, saveSession kc w svc = kc svc

/-- A save is all-or-nothing, and a login that ends with an error leaves the access token. -/
def StepOk (s : State) (l : Label) : Prop :=
  (∀ w, l.save? = some w → AllOrNothing s.kc w) ∧
    ∀ attempt, l = .login attempt → (s.login attempt).store.error ≠ none →
      getAccessToken (s.login attempt).kc = getAccessToken s.kc

/-- `loadSession` returns nothing but what was once saved together. -/
def NoMix (s : State) : Prop :=
  ∀ x, (loadSession s.kc).1 = some x → ∃ a ∈ s.saved, x = a.toSession

/-- The writes that land, or those that do not, would not change anything; and a rejected save of a
login has not changed the access token. -/
def SafeStep (s : State) (l : Label) : Prop :=
  ∀ w, l.save? = some w →
    ((∀ svc, w.landed svc = true → s.kc svc = some (w.session.entry svc)) ∨
      ∀ svc, w.landed svc = false → s.kc svc = some (w.session.entry svc)) ∧
    (l = .login (.granted w) → w.killed = false → (∃ svc, w.landed svc = false) →
      w.landed .accessToken = true → s.kc .accessToken = some w.session.accessToken)

/-! ### One step -/

theorem allOrNothing_iff {kc : Keychain} {w : Save} :
    AllOrNothing kc w ↔
      (∀ svc, w.landed svc = true → kc svc = some (w.session.entry svc)) ∨
        ∀ svc, w.landed svc = false → kc svc = some (w.session.entry svc) := by
  have hnew : (∀ svc, saveSession kc w svc = some (w.session.entry svc)) ↔
      ∀ svc, w.landed svc = false → kc svc = some (w.session.entry svc) := by
    refine forall_congr' fun svc => ?_
    unfold saveSession
    by_cases hl : w.landed svc = true <;> simp [hl]
  have hold : (∀ svc, saveSession kc w svc = kc svc) ↔
      ∀ svc, w.landed svc = true → kc svc = some (w.session.entry svc) := by
    refine forall_congr' fun svc => ?_
    unfold saveSession
    by_cases hl : w.landed svc = true <;> simp [hl, eq_comm]
  rw [AllOrNothing, hnew, hold, or_comm]

/-- A login ends with an error if the provider or a write fails. -/
theorem login_error_iff {s : State} {w : Save} :
    (s.login (.granted w)).store.error ≠ none ↔
      w.killed = false ∧ ∃ svc, w.landed svc = false := by
  simp only [State.login]
  by_cases hk : w.killed = true
  · simp [hk, AuthState.initial]
  · rw [if_neg hk]
    by_cases hl : ∀ svc, w.landed svc = true
    · simp [hl, AuthState.loggedIn]
    · rw [if_neg hl]
      push Not at hl
      simpa [AuthState.loginFailed, hk] using hl

theorem token_unchanged_iff {kc : Keychain} {w : Save} :
    getAccessToken (saveSession kc w) = getAccessToken kc ↔
      (w.landed .accessToken = true → kc .accessToken = some w.session.accessToken) := by
  simp only [getAccessToken, saveSession, AuthSession.entry]
  by_cases hl : w.landed .accessToken = true <;> simp [hl, eq_comm]

/-- **One step**: the exact condition. -/
theorem stepOk_iff_safeStep {s : State} {l : Label} : StepOk s l ↔ SafeStep s l := by
  cases l with
  | login attempt =>
    cases attempt with
    | refused thrown =>
      refine ⟨fun _ w hw => (by cases hw), fun _ => ⟨fun w hw => (by cases hw), ?_⟩⟩
      rintro _ ⟨⟩ -
      rfl
    | granted w =>
      constructor
      · rintro ⟨hsave, hlogin⟩ _ ⟨⟩
        -- a login ends with an error when its save survives and one write fails
        refine ⟨allOrNothing_iff.1 (hsave w rfl), fun _ hk hf => ?_⟩
        exact token_unchanged_iff.1 (hlogin _ rfl (login_error_iff.2 ⟨hk, hf⟩))
      · intro h
        obtain ⟨hsave, hlogin⟩ := h w rfl
        refine ⟨fun _ hw => ?_, ?_⟩
        · cases hw
          exact allOrNothing_iff.2 hsave
        · rintro _ ⟨⟩ he
          obtain ⟨hk, hf⟩ := login_error_iff.1 he
          exact token_unchanged_iff.2 (hlogin rfl hk hf)
  | save w =>
    constructor
    · rintro ⟨hsave, -⟩ _ ⟨⟩
      exact ⟨allOrNothing_iff.1 (hsave w rfl), fun hl => by cases hl⟩
    · intro h
      refine ⟨fun _ hw => ?_, fun _ hl => by cases hl⟩
      cases hw
      exact allOrNothing_iff.2 (h w rfl).1
  | clear landed =>
    -- a `clear` saves nothing and is no login
    constructor
    · rintro - _ ⟨⟩
    · intro _
      exact ⟨fun _ hw => (by cases hw), fun _ hl => (by cases hl)⟩

/-! ### Histories -/

/-- Everything in the Keychain comes from one save. -/
def OneSession (s : State) : Prop := s.kc = .cleared ∨ ∃ a ∈ s.saved, a.Covers s.kc

theorem OneSession.noMix {s : State} (h : OneSession s) : NoMix s := by
  intro x hx
  rw [loadSession_fst_eq_some] at hx
  rcases h with hkc | ⟨a, ha, hcov⟩
  · rw [hkc, readSession_cleared] at hx
    cases hx
  · rcases readSession_of_covers hcov with hmiss | hkc
    · rw [hmiss] at hx
      cases hx
    · rw [hkc, readSession_entries] at hx
      cases hx
      exact ⟨a, ha, rfl⟩

theorem OneSession.save {s : State} (h : OneSession s) {w : Save}
    (hsafe : AllOrNothing s.kc w) : OneSession (s.save w) := by
  rcases hsafe with hnew | hold
  · exact .inr ⟨w.session, List.mem_cons_self, fun svc => .inr (hnew svc)⟩
  · have hkc : saveSession s.kc w = s.kc := funext hold
    rcases h with hc | ⟨a, ha, hcov⟩
    · exact .inl (hkc.trans hc)
    · exact .inr ⟨a, List.mem_cons_of_mem _ ha, by simpa [State.save, hkc] using hcov⟩

theorem OneSession.step {s s' : State} {l : Label} (h : OneSession s) (hsafe : SafeStep s l)
    (hst : step s l = some s') : OneSession s' := by
  have hsave : ∀ w, l.save? = some w → OneSession (s.save w) :=
    fun w hw => h.save (allOrNothing_iff.2 (hsafe w hw).1)
  cases l with
  | login attempt =>
    cases hst
    cases attempt with
    | refused thrown => exact h
    | granted w => exact hsave w rfl
  | save w =>
    cases hst
    exact hsave w rfl
  | clear landed =>
    cases hst
    rcases h with hc | ⟨a, ha, hcov⟩
    · refine .inl (funext fun svc => ?_)
      simp [State.clear, hc, Keychain.cleared]
    -- an entry is gone or as it was, so the same session still covers it
    · refine .inr ⟨a, ha, fun svc => ?_⟩
      simp only [State.clear]
      split_ifs
      · exact .inl rfl
      · exact hcov svc

theorem oneSession_of_run {tr : List (State × Label)} {s : State} (h : tokenHistory.Run tr s)
    (hsafe : ∀ x ∈ tr, SafeStep x.1 x.2) : OneSession s ∧ ∀ x ∈ tr, OneSession x.1 := by
  induction h with
  | start hs => exact ⟨.inl (by rw [hs]; rfl), fun x hx => absurd hx List.not_mem_nil⟩
  | @step tr s s' l hrun hst ih =>
    simp only [List.mem_append, List.mem_singleton, or_imp, forall_and, forall_eq] at hsafe
    obtain ⟨hone, hbefore⟩ := ih hsafe.1
    refine ⟨hone.step hsafe.2 hst, ?_⟩
    simp only [List.mem_append, List.mem_singleton, or_imp, forall_and, forall_eq]
    exact ⟨hbefore, hone⟩

/-- **Saving looks atomic exactly in the histories of safe steps**: then, and only then, every save
is all-or-nothing, a login that ends with an error leaves the access token, and `loadSession` never
mixes two sessions. -/
theorem saves_atomic_iff {tr : List (State × Label)} {s : State} (h : tokenHistory.Run tr s) :
    ((∀ x ∈ tr, StepOk x.1 x.2) ∧ (∀ x ∈ tr, NoMix x.1) ∧ NoMix s) ↔
      ∀ x ∈ tr, SafeStep x.1 x.2 := by
  constructor
  · rintro ⟨hok, -⟩ x hx
    exact stepOk_iff_safeStep.1 (hok x hx)
  · intro hsafe
    obtain ⟨hone, hbefore⟩ := oneSession_of_run h hsafe
    exact ⟨fun x hx => stepOk_iff_safeStep.2 (hsafe x hx), fun x hx => (hbefore x hx).noMix,
      hone.noMix⟩

/-! ### Runs -/

/-- A save of which these writes succeed. -/
def saveOf (a : AuthSession) (landed : Service → Bool) : Save :=
  ⟨a, landed, false, .error "keychain"⟩

/-- Both users log in, one after the other, and all writes succeed. -/
def twoLogins : List Label :=
  [.login (.granted (saveOf leo fun _ => true)), .clear fun _ => true,
    .login (.granted (saveOf hong fun _ => true))]

theorem saves_atomic_iff_twoLogins : ∃ tr s, tokenHistory.Run tr s ∧
    tr.map Prod.snd = twoLogins ∧ getAccessToken s.kc = some "hong_access" ∧
      (∀ x ∈ tr, StepOk x.1 x.2) ∧ (∀ x ∈ tr, NoMix x.1) ∧ NoMix s := by
  obtain ⟨s, hs⟩ : ∃ s, LTS.exec step init twoLogins = some s := ⟨_, rfl⟩
  obtain ⟨tr, hrun, hls⟩ := LTS.run_of_exec (LTS.Run.start (A := tokenHistory) rfl) hs
  have htoken : getAccessToken s.kc = some "hong_access" := by
    cases hs
    rfl
  refine ⟨tr, s, hrun, hls, htoken, (saves_atomic_iff hrun).2 fun x hx w hw => ?_⟩
  have hl : x.2 ∈ twoLogins := hls ▸ List.mem_map_of_mem hx
  have hall : ∀ svc, w.landed svc = true := by
    simp only [twoLogins, List.mem_cons, List.not_mem_nil, or_false] at hl
    rcases hl with he | he | he <;> rw [he] at hw <;> cases hw <;> exact fun _ => rfl
  exact ⟨.inr fun svc hf => by simp [hall] at hf, fun _ _ ⟨svc, hf⟩ _ => by simp [hall] at hf⟩

/-- The first user is logged in. -/
def leoIn : State := init.login (.granted (saveOf leo fun _ => true))

/-- Of the second user's writes only that of the access token succeeds. -/
def tornSave : Save := saveOf hong fun svc => svc = .accessToken

theorem run_tornSave : tokenHistory.Run
    [(init, .login (.granted (saveOf leo fun _ => true))), (leoIn, .login (.granted tornSave))]
    (leoIn.login (.granted tornSave)) := by
  have hfirst : tokenHistory.Run [(init, .login (.granted (saveOf leo fun _ => true)))] leoIn :=
    .step (.start rfl) (show step init _ = some _ from rfl)
  exact .step hfirst (show step leoIn _ = some _ from rfl)

theorem load_tornSave : (loadSession (leoIn.login (.granted tornSave)).kc).1 =
    some { leo.toSession with accessToken := "hong_access" } := by
  rw [loadSession_fst_eq_some, readSession_of_meta (s := leo) rfl rfl rfl]
  rfl

/-- All three parts fail: the save is neither complete nor without effect, the second user's token
is read back with the first user's name, and the login that failed has changed the token. -/
theorem save_not_atomic :
    (¬ ∀ tr s, tokenHistory.Run tr s → ∀ x ∈ tr, ∀ w, x.2.save? = some w →
      AllOrNothing x.1.kc w) ∧
    (¬ ∀ tr s, tokenHistory.Run tr s → NoMix s) ∧
    ¬ ∀ tr s, tokenHistory.Run tr s → ∀ x ∈ tr, ∀ attempt, x.2 = .login attempt →
      (x.1.login attempt).store.error ≠ none →
        getAccessToken (x.1.login attempt).kc = getAccessToken x.1.kc := by
  have hlast : (leoIn, Label.login (.granted tornSave)) ∈
      [(init, .login (.granted (saveOf leo fun _ => true))),
        (leoIn, Label.login (.granted tornSave))] :=
    List.mem_cons_of_mem _ List.mem_cons_self
  refine ⟨fun h => ?_, fun h => ?_, fun h => ?_⟩
  · rcases h _ _ run_tornSave _ hlast tornSave rfl with hnew | hold
    · exact absurd (hnew .refreshToken) (by decide)
    · exact absurd (hold .accessToken) (by decide)
  -- neither saved session has this access token together with this refresh token
  · obtain ⟨a, ha, he⟩ := h _ _ run_tornSave _ load_tornSave
    have haccess : "hong_access" = a.accessToken := congrArg Session.accessToken he
    have hrefresh : "leo_refresh" = a.refreshToken := congrArg Session.refreshToken he
    have hsaved : a = hong ∨ a = leo := by
      simpa [State.login, State.save, leoIn, init, tornSave, saveOf] using ha
    rcases hsaved with rfl | rfl
    · exact absurd hrefresh (by decide)
    · exact absurd haccess (by decide)
  -- the login has failed, but its access token is in the Keychain
  · have htoken := h _ _ run_tornSave _ hlast (.granted tornSave) rfl
      (login_error_iff.2 ⟨rfl, .refreshToken, rfl⟩)
    exact absurd htoken (by decide)

end TokenHistory

end FCord
