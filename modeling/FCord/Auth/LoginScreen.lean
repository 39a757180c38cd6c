import FCord.Api.Endpoints
import FCord.Auth.Restarts

/-!
# The login screen

The login screen is a form over the store: its fields can be edited and its buttons pressed unless a
login is going on, and it is shown only while nobody is logged in.  It may also be replaced by a new
one.  What it says is true (`login_screen_true`): while a login is going on the form holds what the
provider was asked, an error is the one of the last attempt, and whoever is logged in through the
form has the session that the provider has issued for the last attempt.
-/

namespace FCord

open Auth

/-- The fields. -/
structure LoginScreen where
  employeeId : String
  password : String
  deriving DecidableEq, Repr

/-- A call of `login`. -/
structure LoginCall where
  op : OpId
  /-- Identifies the screen. -/
  screen : ℕ
  credentials : LoginCredentials
  deriving DecidableEq, Repr

/-- The screen over the store. -/
structure LoginFlow where
  auth : Auth.State
  screen : Option LoginScreen
  /-- Identifies the screen that has been shown last. -/
  key : ℕ
  /-- The last call of `login`. -/
  last : Option LoginCall

/-- What can happen. -/
inductive LoginLabel where
  /-- A new login screen is shown. -/
  | mount
  | setEmployeeId (text : String)
  | setPassword (text : String)
  | onSSOPress
  | onPasswordSubmit
  /-- The store makes another step. -/
  | auth (l : Auth.Label)

namespace LoginFlow

variable (s : LoginFlow)

/-- The screen, if it can be used. -/
def enabled : Option LoginScreen := if s.auth.store.isSubmitting then none else s.screen

/-- `clearError` and then `login`. -/
def login (credentials : LoginCredentials) : Option LoginFlow :=
  (Auth.step { s.auth with store := s.auth.store.clearError } .login).map fun auth =>
    { s with auth := auth, last := some ⟨s.auth.nextId, s.key, credentials⟩ }

/-- `AuthGate` shows the screens of the login only to somebody who is not logged in. -/
def authGate (auth : Auth.State) : LoginFlow :=
  { s with auth := auth, screen := if auth.store.status = .anonymous then s.screen else none }

/-- The step function. -/
def step (s : LoginFlow) : LoginLabel → Option LoginFlow
  | .mount =>
    if s.auth.store.status = .anonymous then
      some { s with screen := some ⟨"", ""⟩, key := s.key + 1 }
    else none
  | .setEmployeeId text =>
    s.enabled.map fun x => { s with screen := some { x with employeeId := text } }
  | .setPassword text =>
    s.enabled.map fun x => { s with screen := some { x with password := text } }
  | .onSSOPress => s.enabled.bind fun _ => s.login .sso
  | .onPasswordSubmit =>
    s.enabled.bind fun x =>
      if trim x.employeeId = "" ∨ x.password = "" then none
      else s.login (.password (trim x.employeeId) x.password)
  -- only the buttons call `login` and `clearError`
  | .auth .login => none
  | .auth .clearError => none
  | .auth l => (Auth.step s.auth l).map s.authGate

def init (kc : Keychain) (devAutoLogin : Bool) : LoginFlow where
  auth := Auth.init kc devAutoLogin
  screen := none
  key := 0
  last := none

end LoginFlow

/-- The screen over the store of a process. -/
def loginFlow : LTS LoginFlow LoginLabel :=
  LTS.ofFn (fun s => ∃ kc dev, Complete kc ∧ s = LoginFlow.init kc dev) LoginFlow.step

/-! ### What the store does by itself -/

namespace Auth

variable {s s' : State} {l : Label}

/-- A step of the store that is not a `login`, as far as the login screen can tell. -/
structure Background (s s' : State) : Prop where
  booting : s'.store.status = .booting → s.store.status = .booting
  submitting : s'.store.isSubmitting = true → s.store.isSubmitting = true
  login : ∀ p op, s'.ops.get? p = some op → op.isLogin = true →
    ∃ op, s.ops.get? p = some op ∧ op.isLogin = true
  authed : s'.store.status = .authed →
    (s.store.status = .authed ∧ s'.store.session = s.store.session) ∨ s.store.status = .booting ∨
      ∃ p a done, s.ops.get? p = some (.saving a done) ∧ s'.store.session = some a.toSession

theorem login_of_set {p : OpId} {op op' : Op} (hp : s.ops.get? p = some op)
    (h : op'.isLogin = true → op.isLogin = true) :
    ∀ q new, (s.ops.set p op').get? q = some new → new.isLogin = true →
      ∃ op, s.ops.get? q = some op ∧ op.isLogin = true := by
  intro q new hq hnew
  rcases Table.of_get?_set hq with ⟨rfl, rfl⟩ | ⟨-, hq⟩
  · exact ⟨op, hp, h hnew⟩
  · exact ⟨new, hq, hnew⟩

theorem login_of_erase {p : OpId} :
    ∀ q new, (s.ops.erase p).get? q = some new → new.isLogin = true →
      ∃ op, s.ops.get? q = some op ∧ op.isLogin = true :=
  fun _ new hq hnew => ⟨new, (Table.of_get?_erase hq).2, hnew⟩

/-- A new operation that is no login. -/
theorem login_of_push {op : Op} (h : op.isLogin = false) :
    ∀ q new, (s.ops.push s.nextId op).get? q = some new → new.isLogin = true →
      ∃ op, s.ops.get? q = some op ∧ op.isLogin = true := by
  intro q new hq hnew
  rcases Table.eq_or_get?_of_push hq with rfl | hq
  · rw [h] at hnew
    cases hnew
  · exact ⟨new, hq, hnew⟩

/-- The store is left alone. -/
theorem Background.of_store (hstore : s'.store = s.store)
    (hlogin : ∀ p op, s'.ops.get? p = some op → op.isLogin = true →
      ∃ op, s.ops.get? p = some op ∧ op.isLogin = true) : Background s s' where
  booting h := hstore ▸ h
  submitting h := hstore ▸ h
  login := hlogin
  authed h := .inl ⟨hstore ▸ h, by rw [hstore]⟩

theorem Background.of_step (ha : Agreement s) (h : step s l = some s') (hl : l ≠ .login) :
    Background s s' := by
  cases Move.of_step h with
  | bootstrap hm =>
    have hbooting := (ha.unmounted hm).2.1
    exact ⟨fun _ => hbooting, id, login_of_push rfl, fun _ => .inr (.inl hbooting)⟩
  | login => exact absurd rfl hl
  | logout _ hop => exact .of_store rfl (login_of_push (by rcases hop with rfl | rfl <;> rfl))
  | clearError => exact ⟨id, id, fun p op hp hop => ⟨op, hp, hop⟩, fun h => .inl ⟨h, rfl⟩⟩
  | boot hp ht =>
    refine .of_store rfl (login_of_set hp fun hlogin => ?_)
    cases ht <;> cases hlogin
  | drop svc hp => exact .of_store rfl (login_of_set hp nofun)
  | restore svc hp => exact .of_store rfl (login_of_set hp nofun)
  | notRestored => exact ⟨nofun, id, login_of_erase, nofun⟩
  | loaded hp =>
    exact ⟨nofun, id, login_of_erase, fun _ => .inr (.inl (ha.boot _ _ hp rfl).1)⟩
  | restored hp =>
    exact ⟨nofun, id, login_of_erase, fun _ => .inr (.inl (ha.boot _ _ hp rfl).1)⟩
  | granted a hp => exact .of_store rfl (login_of_set hp fun _ => rfl)
  | loginFailed thrown hp => exact ⟨id, nofun, login_of_erase, fun h => .inl ⟨h, rfl⟩⟩
  | save svc hp => exact .of_store rfl (login_of_set hp fun _ => rfl)
  | loggedIn hp => exact ⟨nofun, nofun, login_of_erase, fun _ => .inr (.inr ⟨_, _, _, hp, rfl⟩)⟩
  | revoked hp => exact .of_store rfl (login_of_set hp nofun)
  | clear svc hp => exact .of_store rfl (login_of_set hp nofun)
  | loggedOut => exact ⟨nofun, id, login_of_erase, nofun⟩

theorem store_of_land {p : OpId} {svc : Service} {op : Op} (h : s.land p svc op = some s') :
    s'.store = s.store := by
  unfold State.land at h
  split at h
  · split at h <;> cases h
    rfl
  all_goals first | (split_ifs at h; cases h; rfl) | cases h

theorem error_noSession {p : OpId} : (s.noSession p).store.error = s.store.error := by
  unfold State.noSession
  split_ifs <;> rfl

theorem error_of_loaded {p : OpId} {entries : Keychain} {now : ℤ}
    (h : s.loaded p entries now = some s') : s'.store.error = s.store.error := by
  unfold State.loaded at h
  split at h
  · cases h; exact error_noSession
  · cases h; rfl
  · split at h <;> cases h <;> rfl

/-- An error is written when the provider refuses a login. -/
theorem error_of_step (h : step s l = some s') {e : AuthError} (he : s'.store.error = some e) :
    s.store.error = some e ∨ ∃ p now thrown, l = .resume p now (.error thrown) ∧
      s.ops.get? p = some .asking ∧ e = thrown.toAuthError := by
  cases l with
  | bootstrap =>
    obtain ⟨-, hs⟩ := Option.ite_none_left_eq_some.1 h
    cases hs
    cases he
  | login =>
    obtain ⟨-, hs⟩ := Option.ite_none_right_eq_some.1 h
    cases hs
    cases he
  | logout =>
    obtain ⟨-, hs⟩ := Option.ite_none_right_eq_some.1 h
    cases hs
    exact .inl he
  | clearError => cases h; cases he
  | land p svc =>
    obtain ⟨op, -, hland⟩ := Option.bind_eq_some_iff.1 h
    exact .inl (store_of_land hland ▸ he)
  | resume p now answer =>
    obtain ⟨op, hp, hresume⟩ := Option.bind_eq_some_iff.1 h
    unfold State.resume at hresume
    split at hresume
    · split_ifs at hresume
      exact .inl (error_of_loaded hresume ▸ he)
    · split_ifs at hresume
      · cases hresume
        exact .inl (error_noSession ▸ he)
      · cases hresume
        exact .inl he
    · cases hresume; exact .inl he
    · cases hresume; exact .inl he
    · cases hresume; exact .inl he
    · cases hresume; exact .inl he
    · split_ifs at hresume; cases hresume; exact .inl he
    · cases hresume; exact .inl he
    · rename_i thrown
      cases hresume
      exact .inr ⟨p, now, thrown, rfl, hp, (Option.some.inj he).symm⟩
    · split_ifs at hresume; cases hresume; cases he
    · cases hresume; exact .inl he
    · cases hresume; exact .inl he
    · split_ifs at hresume; cases hresume; cases he
    · cases hresume

end Auth

/-! ### What the screen says -/

/-- What the form holds. -/
def LoginCredentials.Typed (x : LoginScreen) : LoginCredentials → Prop
  | .sso => True
  | .password employeeId pass => employeeId = trim x.employeeId ∧ pass = x.password

/-- What the form can send. -/
def LoginCredentials.Sound : LoginCredentials → Prop
  | .sso => True
  | .password employeeId pass => employeeId ≠ "" ∧ trim employeeId = employeeId ∧ pass ≠ ""

namespace LoginFlow

variable {P : AuthProvider} {s s' : LoginFlow} {l : LoginLabel}

/-- The logout button is not pressed while a logout is going on, and it is the provider that answers
a login. -/
def Honest (P : AuthProvider) (s : LoginFlow) : LoginLabel → Prop
  | .auth l => OneLogout s.auth l ∧ ∀ p now answer, l = .resume p now answer →
      s.auth.ops.get? p = some .asking → ∃ x call, s.last = some x ∧ x.op = p ∧
        answer = toAnswer (P.login x.credentials call)
  | _ => True

/-- The steps of the store. -/
theorem auth_cases {l : Auth.Label} (h : s.step (.auth l) = some s') :
    l ≠ .login ∧ ∃ auth, Auth.step s.auth l = some auth ∧ s' = s.authGate auth := by
  have hl : l ≠ .login := by
    rintro rfl
    cases h
  have hmap : (Auth.step s.auth l).map s.authGate = some s' := by
    cases l with
    | login => cases h
    | clearError => cases h
    | _ => exact h
  obtain ⟨auth, hauth, rfl⟩ := Option.map_eq_some_iff.1 hmap
  exact ⟨hl, auth, hauth, rfl⟩

/-- The store runs as it does by itself. -/
theorem auth_reachable (h : (loginFlow.guard (Honest P)).Reachable s) :
    (authStore.guard OneLogout).Reachable s.auth := by
  refine h.invariant (I := fun s => (authStore.guard OneLogout).Reachable s.auth) ?_ ?_
  · rintro s ⟨kc, dev, hkc, rfl⟩
    exact .start ⟨kc, dev, hkc, rfl⟩
  · rintro s l s' hr ⟨hok, hst⟩
    have hlogin : ∀ credentials, s.login credentials = some s' →
        (authStore.guard OneLogout).Reachable s'.auth := by
      intro credentials h
      obtain ⟨auth, hauth, rfl⟩ := Option.map_eq_some_iff.1 h
      have hclear : (authStore.guard OneLogout).step s.auth .clearError
          { s.auth with store := s.auth.store.clearError } := ⟨trivial, rfl⟩
      have hsubmit : (authStore.guard OneLogout).step
          { s.auth with store := s.auth.store.clearError } .login auth := ⟨trivial, hauth⟩
      exact (hr.step hclear).step hsubmit
    cases l with
    | mount =>
      obtain ⟨-, he⟩ := Option.ite_none_right_eq_some.1 hst
      cases he
      exact hr
    | setEmployeeId text =>
      obtain ⟨x, -, rfl⟩ := Option.map_eq_some_iff.1 hst
      exact hr
    | setPassword text =>
      obtain ⟨x, -, rfl⟩ := Option.map_eq_some_iff.1 hst
      exact hr
    | onSSOPress =>
      obtain ⟨x, -, hst⟩ := Option.bind_eq_some_iff.1 hst
      exact hlogin _ hst
    | onPasswordSubmit =>
      obtain ⟨x, -, hst⟩ := Option.bind_eq_some_iff.1 hst
      obtain ⟨-, hst⟩ := Option.ite_none_left_eq_some.1 hst
      exact hlogin _ hst
    | auth l =>
      obtain ⟨-, auth, hauth, rfl⟩ := auth_cases hst
      exact hr.step ⟨hok.1, hauth⟩

/-- What the screen says is true. -/
structure Truthful (P : AuthProvider) (s : LoginFlow) : Prop where
  shown : ∀ y, s.screen = some y → s.auth.store.status = .anonymous
  booting : s.auth.store.status = .booting → s.last = none
  /-- The attempt that waits is the last one. -/
  waiting : ∀ p op, s.auth.ops.get? p = some op → op.isLogin = true →
    ∃ x, s.last = some x ∧ x.op = p
  /-- What it has been asked for is what the form holds. -/
  submitting : s.auth.store.isSubmitting = true → ∃ x, s.last = some x ∧
    (x.screen = s.key → ∀ y, s.screen = some y → x.credentials.Typed y)
  granted : ∀ p a done, s.auth.ops.get? p = some (.saving a done) →
    ∃ x call, s.last = some x ∧ P.login x.credentials call = .ok a
  error : ∀ e, s.auth.store.error = some e → s.auth.store.isSubmitting = false ∧
    ∃ x call thrown, s.last = some x ∧ P.login x.credentials call = .error thrown ∧
      e = thrown.toAuthError
  authed : s.auth.store.status = .authed → s.last = none ∨
    ∃ x call a, s.last = some x ∧ P.login x.credentials call = .ok a ∧
      s.auth.store.session = some a.toSession
  last : ∀ x, s.last = some x → x.screen ≤ s.key ∧ x.credentials.Sound

theorem enabled_eq_some {y : LoginScreen} :
    s.enabled = some y ↔ s.auth.store.isSubmitting = false ∧ s.screen = some y := by
  simp [enabled]

namespace Truthful

theorem init {kc : Keychain} {dev : Bool} : Truthful P (LoginFlow.init kc dev) where
  shown y hy := by cases hy
  booting _ := rfl
  waiting p op hp := by cases hp
  submitting h := by cases h
  granted p a done hp := by cases hp
  error e he := by cases he
  authed h := by cases h
  last x hx := by cases hx

/-- The fields are edited. -/
theorem edit (h : Truthful P s) {y : LoginScreen} (hy : s.enabled = some y) (y' : LoginScreen) :
    Truthful P { s with screen := some y' } := by
  obtain ⟨hsub, hscreen⟩ := enabled_eq_some.1 hy
  exact
    { h with
      shown := fun _ _ => h.shown y hscreen
      submitting := fun hsub' => by simp [hsub] at hsub' }

theorem mount (h : Truthful P s) (hst : s.auth.store.status = .anonymous) (y : LoginScreen) :
    Truthful P { s with screen := some y, key := s.key + 1 } where
  shown _ _ := hst
  booting := h.booting
  waiting := h.waiting
  submitting hsub := by
    obtain ⟨x, hx, -⟩ := h.submitting hsub
    refine ⟨x, hx, fun hkey => ?_⟩
    have hle := (h.last x hx).1
    simp only at hkey
    omega
  granted := h.granted
  error := h.error
  authed := h.authed
  last x hx := ⟨(h.last x hx).1.trans (Nat.le_succ _), (h.last x hx).2⟩

/-- A button is pressed. -/
theorem login (ha : Agreement s.auth) {y : LoginScreen} (hy : s.enabled = some y)
    {credentials : LoginCredentials} (htyped : credentials.Typed y) (hsound : credentials.Sound)
    (hst : s.login credentials = some s') : Truthful P s' := by
  obtain ⟨hsub, hscreen⟩ := enabled_eq_some.1 hy
  obtain ⟨auth, hauth, rfl⟩ := Option.map_eq_some_iff.1 hst
  obtain ⟨⟨hanon, -⟩, he⟩ := Option.ite_none_right_eq_some.1 hauth
  cases he
  have hnone : ∀ p op, s.auth.ops.get? p = some op → op.isLogin ≠ true := by
    intro p op hp hop
    have hbusy := (ha.login p op hp hop).2.1
    rw [hsub] at hbusy
    cases hbusy
  refine ⟨fun _ _ => hanon, fun hb => absurd (hanon.symm.trans hb) nofun, ?_, fun _ => ?_, ?_,
    nofun, fun hauthed => absurd (hanon.symm.trans hauthed) nofun, ?_⟩
  · intro p op hp hop
    rcases Table.of_get?_push ha.nextId_fresh hp with ⟨rfl, -⟩ | ⟨-, hp⟩
    · exact ⟨_, rfl, rfl⟩
    · exact absurd hop (hnone p op hp)
  · refine ⟨_, rfl, fun _ y' hy' => ?_⟩
    cases hscreen.symm.trans hy'
    exact htyped
  · intro p a done hp
    rcases Table.of_get?_push ha.nextId_fresh hp with ⟨-, hop⟩ | ⟨-, hp⟩
    · cases hop
    · exact absurd rfl (hnone p _ hp)
  · rintro x ⟨⟩
    exact ⟨Nat.le_refl _, hsound⟩

/-- A step of the store. -/
theorem auth (h : Truthful P s) (ha : Agreement s.auth) {l : Auth.Label}
    (hok : Honest P s (.auth l)) (hst : s.step (.auth l) = some s') : Truthful P s' := by
  obtain ⟨hl, auth, hauth, rfl⟩ := auth_cases hst
  have hback := Background.of_step ha hauth hl
  have hscreen : ∀ y, (s.authGate auth).screen = some y →
      auth.store.status = .anonymous ∧ s.screen = some y := fun y hy =>
    Option.ite_none_right_eq_some.1 hy
  refine ⟨fun y hy => (hscreen y hy).1, fun hb => h.booting (hback.booting hb), ?_, ?_, ?_, ?_, ?_,
    h.last⟩
  · intro p op hp hop
    obtain ⟨old, hold, hlogin⟩ := hback.login p op hp hop
    exact h.waiting p old hold hlogin
  · intro hsub
    obtain ⟨x, hx, htyped⟩ := h.submitting (hback.submitting hsub)
    exact ⟨x, hx, fun hkey y hy => htyped hkey y (hscreen y hy).2⟩
  · intro p a done hp
    obtain ⟨old, hold, hlogin⟩ := hback.login p _ hp rfl
    rcases session_of_step hauth ha.nextId_fresh hp rfl with
      ⟨op, hop, hsession⟩ | ⟨now, op, rfl, hop, hwaits⟩
    · cases hold.symm.trans hop
      -- a login that has a session is writing it
      cases old with
      | saving b done' =>
        obtain rfl := Option.some.inj hsession
        exact h.granted p b done' hold
      | restoring => cases hlogin
      | _ => cases hsession
    · cases hold.symm.trans hop
      cases old with
      | asking =>
        obtain ⟨x, call, hx, -, hanswer⟩ := hok.2 p now _ rfl hold
        exact ⟨x, call, hx, eq_ok_of_toAnswer hanswer⟩
      | saving => cases hwaits
      | _ => cases hlogin
  · intro e he
    rcases error_of_step hauth he with hold | ⟨p, now, thrown, rfl, hp, rfl⟩
    · obtain ⟨hsub, hx⟩ := h.error e hold
      refine ⟨?_, hx⟩
      by_contra hbusy
      rw [hback.submitting (Bool.eq_true_of_not_eq_false hbusy)] at hsub
      cases hsub
    · obtain ⟨x, call, hx, -, hanswer⟩ := hok.2 p now _ rfl hp
      have hidle : auth.store.isSubmitting = false := by
        simp only [Auth.step, hp, Option.bind_some, State.resume] at hauth
        cases hauth
        rfl
      exact ⟨hidle, x, call, thrown, hx, eq_error_of_toAnswer hanswer, rfl⟩
  · intro hauthed
    rcases hback.authed hauthed with ⟨hold, hsession⟩ | hbooting | ⟨p, a, done, hp, hsession⟩
    · rcases h.authed hold with hnone | ⟨x, call, a, hx, hok, hses⟩
      · exact .inl hnone
      · exact .inr ⟨x, call, a, hx, hok, hsession.trans hses⟩
    · exact .inl (h.booting hbooting)
    · obtain ⟨x, call, hx, hok⟩ := h.granted p a done hp
      exact .inr ⟨x, call, a, hx, hok, hsession⟩

theorem of_reachable (h : (loginFlow.guard (Honest P)).Reachable s) : Truthful P s := by
  refine h.invariant_of ?_ ?_
  · rintro s ⟨kc, dev, -, rfl⟩
    exact init
  · rintro s l s' hr h ⟨hok, hst⟩
    have ha := Agreement.of_reachable (apart_of_oneLogout (auth_reachable hr)).1
    cases l with
    | mount =>
      obtain ⟨hanon, he⟩ := Option.ite_none_right_eq_some.1 hst
      cases he
      exact h.mount hanon _
    | setEmployeeId text =>
      obtain ⟨y, hy, rfl⟩ := Option.map_eq_some_iff.1 hst
      exact h.edit hy _
    | setPassword text =>
      obtain ⟨y, hy, rfl⟩ := Option.map_eq_some_iff.1 hst
      exact h.edit hy _
    | onSSOPress =>
      obtain ⟨y, hy, hst⟩ := Option.bind_eq_some_iff.1 hst
      have htyped : LoginCredentials.sso.Typed y := trivial
      exact login ha hy htyped trivial hst
    | onPasswordSubmit =>
      obtain ⟨y, hy, hst⟩ := Option.bind_eq_some_iff.1 hst
      obtain ⟨hblank, hst⟩ := Option.ite_none_left_eq_some.1 hst
      rw [not_or] at hblank
      have htyped : (LoginCredentials.password (trim y.employeeId) y.password).Typed y :=
        ⟨rfl, rfl⟩
      exact login ha hy htyped ⟨hblank.1, trim_trim _, hblank.2⟩ hst
    | auth l => exact h.auth ha hok hst

end Truthful

/-- **The login screen tells the truth.**  A login that is going on has been asked for with what the
form still holds, unless the screen has been replaced; an error is what the last attempt has met
with, and is shown only when none is going on; and whoever is logged in through the form has the
session that the provider has issued for the last attempt. -/
theorem login_screen_true (h : (loginFlow.guard (Honest P)).Reachable s) :
    (∀ p op, s.auth.ops.get? p = some op → op.isLogin = true →
      ∃ x, s.last = some x ∧ x.op = p ∧ x.credentials.Sound ∧
        ∀ y, s.screen = some y → x.screen = s.key → x.credentials.Typed y) ∧
    (∀ e, s.auth.store.error = some e →
      (∀ p op, s.auth.ops.get? p = some op → op.isLogin = false) ∧
      ∃ x call thrown, s.last = some x ∧ P.login x.credentials call = .error thrown ∧
        e = thrown.toAuthError) ∧
    (s.auth.store.status = .authed → s.screen = none ∧ (s.last = none ∨
      ∃ x call a, s.last = some x ∧ P.login x.credentials call = .ok a ∧
        s.auth.store.session = some a.toSession)) := by
  have ht := Truthful.of_reachable h
  have ha := Agreement.of_reachable (apart_of_oneLogout (auth_reachable h)).1
  refine ⟨fun p op hp hop => ?_, fun e he => ?_, fun hauthed => ⟨?_, ht.authed hauthed⟩⟩
  · obtain ⟨x, hx, hxp⟩ := ht.waiting p op hp hop
    obtain ⟨x', hx', htyped⟩ := ht.submitting (ha.login p op hp hop).2.1
    cases hx.symm.trans hx'
    exact ⟨x, hx, hxp, (ht.last x hx).2, fun y hy hkey => htyped hkey y hy⟩
  · obtain ⟨hsub, hx⟩ := ht.error e he
    refine ⟨fun p op hp => ?_, hx⟩
    by_contra hop
    have hbusy := (ha.login p op hp (Bool.eq_true_of_not_eq_false hop)).2.1
    rw [hsub] at hbusy
    cases hbusy
  · cases hscreen : s.screen with
    | none => rfl
    | some y =>
      rw [ht.shown y hscreen] at hauthed
      cases hauthed

/-- The server lets in the user of `passwordSession`. -/
def checkReply (last : Option LoginCall) (p : OpId) : Auth.Op → Auth.Answer → Bool
  | .asking, .session a =>
    decide (last = some ⟨p, 1, .password "leo" "1234"⟩ ∧ a = passwordSession)
  | .asking, _ => false
  | _, _ => true

/-- `Honest`, evaluated. -/
def checkHonest (s : LoginFlow) : LoginLabel → Bool
  | .auth (.resume p _ answer) => (s.auth.ops.get? p).all fun op => checkReply s.last p op answer
  | .auth l => decide (OneLogout s.auth l)
  | _ => true

theorem honest_of_check (h : checkHonest s l = true) : Honest faicordAuthProvider s l := by
  cases l with
  | auth l =>
    cases l with
    | resume p now answer =>
      refine ⟨trivial, fun q now' answer' he hq => ?_⟩
      cases he
      simp only [checkHonest, hq, Option.all_some] at h
      cases answer with
      | session a =>
        obtain ⟨hlast, rfl⟩ := of_decide_eq_true h
        let server : Fetch → Option (Option FaicordLogin) := fun _ =>
          some (some ⟨true, some "t1", none, some ⟨"leo", "김레오"⟩⟩)
        exact ⟨_, ⟨0, server, "", ("", "")⟩, hlast, rfl, rfl⟩
      | ok => cases h
      | error => cases h
    | _ => exact ⟨of_decide_eq_true h, fun _ _ _ he => by cases he⟩
  | _ => trivial

/-- A user types the name with a space, and the password. -/
def typedLogin : List LoginLabel :=
  ([Auth.Label.bootstrap] ++ landAll 0 ++ [Auth.Label.resume 0 0 .ok]).map .auth ++
    [.mount, .setEmployeeId "leo ", .setPassword "1234", .onPasswordSubmit] ++
    ([Auth.Label.resume 1 0 (.session passwordSession)] ++ landAll 1 ++
      [Auth.Label.resume 1 0 .ok]).map .auth

theorem login_screen_true_typedLogin :
    ∃ s, (loginFlow.guard (Honest faicordAuthProvider)).Reachable s ∧ s.screen = none ∧
      ∃ x call a, s.last = some x ∧ faicordAuthProvider.login x.credentials call = .ok a ∧
        s.auth.store.session = some a.toSession := by
  have hrun : (LTS.exec (fun s l => if checkHonest s l then step s l else none)
      (LoginFlow.init .cleared false) typedLogin).map
      (fun s => (s.auth.store.status, s.last.isSome)) = some (.authed, true) := by decide +kernel
  obtain ⟨s, hs, he⟩ := Option.map_eq_some_iff.1 hrun
  simp only [Prod.mk.injEq] at he
  have hr : (loginFlow.guard (Honest faicordAuthProvider)).Reachable s :=
    LTS.guard_reachable_of_check (fun _ _ => honest_of_check)
      (.start ⟨.cleared, false, .inl rfl, rfl⟩) hs
  obtain ⟨hscreen, hnone | hlogin⟩ := (login_screen_true hr).2.2 he.1
  · rw [hnone] at he
    cases he.2
  · exact ⟨s, hr, hscreen, hlogin⟩

end LoginFlow

end FCord
