import FCord.Api.Client
import FCord.Auth.Store

/-!
# The providers

A provider issues the sessions.  There are three of them, and the build chooses one
(`Build.getAuthProvider`).  What a call of a provider depends on besides its arguments is a
`ProviderCall`: the clock, the answers of the server, and random texts.
-/

namespace FCord

inductive LoginCredentials where
  | sso
  | password (employeeId password : String)
  deriving DecidableEq, Repr

/-- The user in the answer of FAICORD to a login. -/
structure FaicordUser where
  username : String
  name : String
  deriving DecidableEq, Repr

/-- The answer of FAICORD to a login. -/
structure FaicordLogin where
  success : Bool
  token : Option String
  message : Option String
  user : Option FaicordUser
  deriving DecidableEq, Repr

/-- What a call of a provider depends on besides its arguments. -/
structure ProviderCall where
  /-- `Date.now()` -/
  now : ℤ
  /-- The answer of the server to a request: `none` if there is none or it is no JSON text, `some
  none` if it is `null`. -/
  answer : Fetch → Option (Option FaicordLogin)
  /-- What the engine says of a property of `null` or `undefined`. -/
  typeError : String
  /-- The ends of the two random tokens. -/
  random : String × String

/-- A provider; what it throws is an error. -/
structure AuthProvider where
  name : String
  login : LoginCredentials → ProviderCall → Except Thrown AuthSession
  refresh : String → ProviderCall → Except Thrown AuthSession

/-! ### FAICORD -/

namespace Faicord

/-- A year, in milliseconds. -/
def TTL_MS : ℤ := 365 * 24 * 60 * 60 * 1000

/-- The login request. -/
def request (employeeId password : String) : Fetch where
  url := "https://faicord.fingerservice.co.kr/api/auth/login"
  method := "POST"
  headers := [("Content-Type", "application/json")]
  credentials := "include"
  body := .text (Json.stringify
    (.obj [("username", .str employeeId), ("password", .str password)]))

/-- The token of a successful answer. -/
def tokenOf (data : FaicordLogin) : Option String :=
  if data.success then data.token.filter fun token => token ≠ "" else none

def session (token : String) (user : FaicordUser) (now : ℤ) : AuthSession where
  user := ⟨user.username, user.name, none, none⟩
  accessToken := token
  refreshToken := token
  expiresAt := .ofInt (now + TTL_MS)
  providerName := "faicord"

def login (credentials : LoginCredentials) (call : ProviderCall) : Except Thrown AuthSession :=
  match credentials with
  | .sso => .error (.authError ⟨.ssoUnavailable, "FAICORD는 사번/비밀번호로 로그인해주세요."⟩)
  | .password employeeId password =>
    match call.answer (request employeeId password) with
    | none => .error (.authError ⟨.networkError, "서버에 연결할 수 없습니다."⟩)
    | some none => .error (.error call.typeError)
    | some (some data) =>
      match tokenOf data with
      | none => .error (.authError ⟨.invalidCredentials,
          data.message.getD "아이디 또는 비밀번호가 올바르지 않습니다."⟩)
      | some token =>
        match data.user with
        | none => .error (.error call.typeError)
        | some user => .ok (session token user call.now)

/-- There is no endpoint for it. -/
def refresh (_refreshToken : String) (_call : ProviderCall) : Except Thrown AuthSession :=
  .error (.authError ⟨.tokenExpired, "세션이 만료되었습니다. 다시 로그인해주세요."⟩)

end Faicord

def faicordAuthProvider : AuthProvider := ⟨"faicord", Faicord.login, Faicord.refresh⟩

/-! ### The mock provider -/

namespace MockSSO

/-- An hour, in milliseconds. -/
def ACCESS_TTL_MS : ℤ := 60 * 60 * 1000

def MOCK_USERS : List AuthUser :=
  [⟨"00001", "김레오", some "디지털혁신본부", some "leo@ibk.test"⟩,
    ⟨"00002", "이테스트", some "IB영업본부", some "test@ibk.test"⟩,
    ⟨"99999", "관리자", some "IT기획부", some "admin@ibk.test"⟩]

def DEFAULT_PASSWORD : String := "test1234"

def REFRESH_PREFIX : String := "mock_refresh_"

def makeSession (employeeId : String) (call : ProviderCall) : Except Thrown AuthSession :=
  match MOCK_USERS.find? fun user => user.id = employeeId with
  | none => .error (.authError ⟨.unknown, "알 수 없는 사용자: " ++ employeeId⟩)
  | some user => .ok
      { user := user
        accessToken := "mock_access_" ++ call.random.1
        refreshToken := REFRESH_PREFIX ++ call.random.2
        expiresAt := .ofInt (call.now + ACCESS_TTL_MS)
        providerName := "mock-sso" }

def login (credentials : LoginCredentials) (call : ProviderCall) : Except Thrown AuthSession :=
  match credentials with
  | .sso => makeSession "00001" call
  | .password employeeId password =>
    if (MOCK_USERS.find? fun user => user.id = employeeId).isNone ∨ password ≠ DEFAULT_PASSWORD then
      .error (.authError ⟨.invalidCredentials, "사번 또는 비밀번호가 올바르지 않습니다."⟩)
    else makeSession employeeId call

/-- Whoever it was becomes the first user. -/
def refresh (refreshToken : String) (call : ProviderCall) : Except Thrown AuthSession :=
  if REFRESH_PREFIX.toList.isPrefixOf refreshToken.toList then makeSession "00001" call
  else .error (.authError ⟨.tokenExpired, "refresh token이 유효하지 않습니다."⟩)

end MockSSO

def mockSSOProvider : AuthProvider := ⟨"mock-sso", MockSSO.login, MockSSO.refresh⟩

/-! ### IBK -/

namespace IBKSSO

def login (_credentials : LoginCredentials) (_call : ProviderCall) : Except Thrown AuthSession :=
  .error (.authError ⟨.ssoUnavailable,
    "IBK SSO 어댑터 미구현. IdP 사양(authorize/token/userinfo + redirectUri) 수령 후 구현 예정."⟩)

def refresh (_refreshToken : String) (_call : ProviderCall) : Except Thrown AuthSession :=
  .error (.authError ⟨.ssoUnavailable, "IBK SSO refresh 미구현."⟩)

end IBKSSO

def ibkSSOProvider : AuthProvider := ⟨"ibk-sso", IBKSSO.login, IBKSSO.refresh⟩

/-! ### The choice -/

/-- How the app was built. -/
structure Build where
  /-- `__DEV__` -/
  dev : Bool
  /-- `AUTH_PROVIDER` -/
  authProvider : Option String

/-- `getAuthProvider` -/
def Build.getAuthProvider (toLowerCase : String → String) (build : Build) : AuthProvider :=
  let choice := toLowerCase (build.authProvider.getD (if build.dev then "mock" else "faicord"))
  if choice = "ibk" then ibkSSOProvider
  else if choice = "mock" then mockSSOProvider
  else faicordAuthProvider

/-- `bootstrap` logs in by itself. -/
def Build.devAutoLogin (toLowerCase : String → String) (build : Build) : Bool :=
  build.dev && decide ((build.getAuthProvider toLowerCase).name = "mock-sso")

/-! ### What a provider issues -/

/-- The provider has issued the session at this time. -/
def AuthProvider.Issued (P : AuthProvider) (a : AuthSession) (t : ℤ) : Prop :=
  ∃ call : ProviderCall, call.now = t ∧
    ((∃ credentials, P.login credentials call = .ok a) ∨ ∃ token, P.refresh token call = .ok a)

theorem MockSSO.makeSession_first (call : ProviderCall) :
    ∃ a, makeSession "00001" call = .ok a ∧ a.user.id = "00001" :=
  ⟨_, rfl, rfl⟩

theorem MockSSO.of_makeSession {employeeId : String} {call : ProviderCall} {a : AuthSession}
    (h : makeSession employeeId call = .ok a) :
    a.expiresAt = .ofInt (call.now + ACCESS_TTL_MS) ∧
      a.refreshToken = REFRESH_PREFIX ++ call.random.2 := by
  unfold makeSession at h
  split at h
  · cases h
  · cases h
    exact ⟨rfl, rfl⟩

/-- A session of FAICORD lasts a year. -/
theorem faicord_issued {a : AuthSession} {t : ℤ} (h : faicordAuthProvider.Issued a t) :
    a.expiresAt = .ofInt (t + Faicord.TTL_MS) := by
  obtain ⟨call, rfl, ⟨credentials, h⟩ | ⟨token, h⟩⟩ := h
  · simp only [faicordAuthProvider, Faicord.login] at h
    split at h
    · cases h
    · split at h
      · cases h
      · cases h
      · split at h
        · cases h
        · split at h
          · cases h
          · cases h
            rfl
  · cases h

/-- A session of the mock provider lasts an hour, and can be refreshed. -/
theorem mock_issued {a : AuthSession} {t : ℤ} (h : mockSSOProvider.Issued a t) :
    a.expiresAt = .ofInt (t + MockSSO.ACCESS_TTL_MS) ∧
      ∀ call, ∃ b, mockSSOProvider.refresh a.refreshToken call = .ok b ∧ b.user.id = "00001" := by
  have hmade : ∃ employeeId call, call.now = t ∧ MockSSO.makeSession employeeId call = .ok a := by
    obtain ⟨call, ht, ⟨credentials, h⟩ | ⟨token, h⟩⟩ := h
    · simp only [mockSSOProvider, MockSSO.login] at h
      split at h
      · exact ⟨_, call, ht, h⟩
      · split_ifs at h
        exact ⟨_, call, ht, h⟩
    · simp only [mockSSOProvider, MockSSO.refresh] at h
      split_ifs at h
      exact ⟨_, call, ht, h⟩
  obtain ⟨employeeId, call, rfl, hmade⟩ := hmade
  obtain ⟨hexpires, htoken⟩ := MockSSO.of_makeSession hmade
  refine ⟨hexpires, fun call' => ?_⟩
  obtain ⟨b, hb, hid⟩ := MockSSO.makeSession_first call'
  refine ⟨b, ?_, hid⟩
  simp only [mockSSOProvider, MockSSO.refresh]
  rw [if_pos, hb]
  rw [htoken, String.toList_append]
  exact List.isPrefixOf_iff_prefix.2 (List.prefix_append _ _)

/-- The provider of IBK issues nothing. -/
theorem not_ibk_issued {a : AuthSession} {t : ℤ} : ¬ ibkSSOProvider.Issued a t := by
  rintro ⟨call, -, ⟨credentials, h⟩ | ⟨token, h⟩⟩
  · cases h
  · cases h

theorem Build.getAuthProvider_cases (toLowerCase : String → String) (build : Build) :
    build.getAuthProvider toLowerCase = ibkSSOProvider ∨
      build.getAuthProvider toLowerCase = mockSSOProvider ∨
      build.getAuthProvider toLowerCase = faicordAuthProvider := by
  simp only [getAuthProvider]
  split_ifs <;> simp

end FCord
