import FCord.Auth.TokenStorage

/-!
# The authentication store

The state of `useAuthStore` and what its operations write to it.
-/

namespace FCord

/-- `AuthErrorCode` -/
inductive AuthErrorCode where
  | invalidCredentials | ssoCancelled | ssoUnavailable | tokenExpired | networkError | unknown
  deriving DecidableEq, Repr

structure AuthError where
  code : AuthErrorCode
  message : String
  deriving DecidableEq, Repr

/-- What a `catch` clause receives. -/
inductive Thrown where
  | authError (e : AuthError)
  /-- Another `Error`. -/
  | error (message : String)
  /-- A value that is no `Error`. -/
  | value
  deriving DecidableEq, Repr

/-- The error that `login` stores. -/
def Thrown.toAuthError : Thrown → AuthError
  | .authError e => e
  | .error message => ⟨.unknown, message⟩
  | .value => ⟨.unknown, "로그인 실패"⟩

inductive AuthStatus where
  | booting | anonymous | authed
  deriving DecidableEq, Repr

/-- The state of `useAuthStore`. -/
structure AuthState where
  status : AuthStatus
  session : Option Session
  error : Option AuthError
  isSubmitting : Bool

namespace AuthState

/-- The store of a fresh process. -/
def initial : AuthState where
  status := .booting
  session := none
  error := none
  isSubmitting := false

variable (st : AuthState)

/-- `bootstrap` starts. -/
def boot : AuthState := { st with status := .booting, error := none }

/-- `bootstrap` ends with a session. -/
def restored (x : Session) : AuthState := { st with status := .authed, session := some x }

/-- `bootstrap` ends without one. -/
def notRestored : AuthState := { st with status := .anonymous, session := none }

/-- `login` starts. -/
def submit : AuthState := { st with isSubmitting := true, error := none }

/-- `login` succeeds; every field is written. -/
def loggedIn (x : Session) : AuthState where
  status := .authed
  session := some x
  error := none
  isSubmitting := false

/-- `login` fails. -/
def loginFailed (thrown : Thrown) : AuthState :=
  { st with isSubmitting := false, error := some thrown.toAuthError }

/-- `logout` ends. -/
def loggedOut : AuthState := { st with status := .anonymous, session := none, error := none }

def clearError : AuthState := { st with error := none }

end AuthState

end FCord
