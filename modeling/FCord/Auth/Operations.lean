import FCord.Auth.Store
import FCord.Data.Table
import FCord.LTS.Basic

/-!
# Bootstrap, login and logout as a transition system

Each call of `bootstrap`, `login` or `logout` is an operation that waits for the provider or for
Keychain calls.  A Keychain call takes effect when it lands (`Label.land`), in any order with those
of the other operations; when everything an operation waits for has settled, it goes on
(`Label.resume`).  Every Keychain call succeeds here, and an operation starts only when the user
interface lets it.

## Main definitions

* `Auth.Op` : where an operation waits.
* `Auth.step` : the step function, `authStore` : the transition system.
* `Auth.Move` : the transitions, each with the facts that hold when it is taken.
-/

namespace FCord

namespace Auth

/-- Identifies an operation. -/
abbrev OpId := ℕ

/-- Where an operation waits.  `done` tells which Keychain calls have landed. -/
inductive Op where
  /-- `bootstrap`: for the reads of `loadSession`; `got` is what they have returned. -/
  | loading (got : Service → Option (Option String))
  /-- `bootstrap`: for `clear`, of a damaged session or of one that could not be refreshed. -/
  | dropping (damaged : Bool) (done : Service → Bool)
  /-- `bootstrap`: for the login of the mock provider in development. -/
  | autoLogin
  /-- `bootstrap`: for the provider to refresh the session. -/
  | refreshing
  /-- `bootstrap`: for `saveSession`. -/
  | restoring (session : AuthSession) (done : Service → Bool)
  /-- `login`: for the provider. -/
  | asking
  /-- `login`: for `saveSession`. -/
  | saving (session : AuthSession) (done : Service → Bool)
  /-- `logout`: for the provider. -/
  | revoking
  /-- `logout`: for `clear`. -/
  | clearing (done : Service → Bool)

/-- No Keychain call has landed. -/
def noneDone : Service → Bool := fun _ => false

structure State where
  kc : Keychain
  store : AuthState
  /-- `bootstrap` has been called. -/
  mounted : Bool
  /-- `bootstrap` logs in by itself: a development build with the mock provider. -/
  devAutoLogin : Bool
  ops : Table OpId Op
  nextId : OpId

/-- What the provider, or the Keychain calls together, answer. -/
inductive Answer where
  | ok
  | session (s : AuthSession)
  | error (thrown : Thrown)

namespace State

variable (s : State)

/-- A new operation. -/
def start (store : AuthState) (op : Op) : State :=
  { s with store := store, ops := s.ops.push s.nextId op, nextId := s.nextId + 1 }

/-- The operation `p` waits again. -/
def await (p : OpId) (op : Op) : State := { s with ops := s.ops.set p op }

/-- The operation `p` ends, having written the store. -/
def finish (p : OpId) (store : AuthState) : State :=
  { s with store := store, ops := s.ops.erase p }

/-- `bootstrap`, when there is no stored session. -/
def noSession (p : OpId) : State :=
  if s.devAutoLogin then s.await p .autoLogin else s.finish p s.store.notRestored

/-- `bootstrap`, when the reads have returned these entries. -/
def loaded (p : OpId) (entries : Keychain) (now : ℤ) : Option State :=
  match readSession entries with
  | .missing => some (s.noSession p)
  -- `loadSession` clears what it cannot parse before it returns `null`
  | .damaged => some (s.await p (.dropping true noneDone))
  | .session x =>
    match isExpiredOrSoon x now with
    | none => some (s.finish p s.store.notRestored)
    | some true => some (s.await p .refreshing)
    | some false => some (s.finish p (s.store.restored x))

/-- A Keychain call of the operation `p` at `op` lands. -/
def land (p : OpId) (svc : Service) : Op → Option State
  | .loading got =>
    match got svc with
    -- a read returns what the entry holds when it lands
    | none => some (s.await p (.loading (Function.update got svc (some (s.kc svc)))))
    | some _ => none
  | .dropping damaged done =>
    if done svc then none
    else some { s with
      kc := Function.update s.kc svc none
      ops := s.ops.set p (.dropping damaged (Function.update done svc true)) }
  | .restoring session done =>
    if done svc then none
    else some { s with
      kc := Function.update s.kc svc (some (session.entry svc))
      ops := s.ops.set p (.restoring session (Function.update done svc true)) }
  | .saving session done =>
    if done svc then none
    else some { s with
      kc := Function.update s.kc svc (some (session.entry svc))
      ops := s.ops.set p (.saving session (Function.update done svc true)) }
  | .clearing done =>
    if done svc then none
    else some { s with
      kc := Function.update s.kc svc none
      ops := s.ops.set p (.clearing (Function.update done svc true)) }
  | _ => none

/-- What the operation `p` at `op` waits for has settled. -/
def resume (p : OpId) (now : ℤ) : Op → Answer → Option State
  | .loading got, .ok =>
    if ∀ svc, (got svc).isSome then s.loaded p (fun svc => (got svc).join) now else none
  | .dropping damaged done, .ok =>
    if ∀ svc, done svc then
      -- only `loadSession` goes on to the development login, not a failed refresh
      some (if damaged then s.noSession p else s.finish p s.store.notRestored)
    else none
  | .autoLogin, .session session => some (s.await p (.restoring session noneDone))
  | .autoLogin, .error _ => some (s.finish p s.store.notRestored)
  | .refreshing, .session session => some (s.await p (.restoring session noneDone))
  | .refreshing, .error _ => some (s.await p (.dropping false noneDone))
  | .restoring session done, .ok =>
    if ∀ svc, done svc then some (s.finish p (s.store.restored session.toSession)) else none
  | .asking, .session session => some (s.await p (.saving session noneDone))
  | .asking, .error thrown => some (s.finish p (s.store.loginFailed thrown))
  | .saving session done, .ok =>
    if ∀ svc, done svc then some (s.finish p (.loggedIn session.toSession)) else none
  -- the provider's answer to a logout is ignored
  | .revoking, .ok => some (s.await p (.clearing noneDone))
  | .revoking, .error _ => some (s.await p (.clearing noneDone))
  | .clearing done, .ok =>
    if ∀ svc, done svc then some (s.finish p s.store.loggedOut) else none
  | _, _ => none

end State

/-- What can happen. -/
inductive Label where
  | bootstrap
  | login
  | logout
  | clearError
  /-- A Keychain call of an operation takes effect. -/
  | land (p : OpId) (svc : Service)
  /-- What an operation waits for has settled, and it goes on. -/
  | resume (p : OpId) (now : ℤ) (answer : Answer)

/-- The step function. -/
def step (s : State) : Label → Option State
  -- once, when the root component is mounted
  | .bootstrap =>
    if s.mounted then none
    else some { s.start s.store.boot (.loading fun _ => none) with mounted := true }
  | .login =>
    if s.store.status = .anonymous ∧ s.store.isSubmitting = false then
      some (s.start s.store.submit .asking)
    else none
  | .logout =>
    if s.store.status = .authed then
      some (s.start s.store (if s.store.session.isSome then .revoking else .clearing noneDone))
    else none
  | .clearError => some { s with store := s.store.clearError }
  | .land p svc => (s.ops.get? p).bind (s.land p svc)
  | .resume p now answer => (s.ops.get? p).bind fun op => s.resume p now op answer

/-- The Keychain holds nothing, or one complete session. -/
def Complete (kc : Keychain) : Prop := kc = .cleared ∨ ∃ a : AuthSession, kc = a.entries

/-- A process that has just been started. -/
def init (kc : Keychain) (devAutoLogin : Bool) : State where
  kc := kc
  store := .initial
  mounted := false
  devAutoLogin := devAutoLogin
  ops := .empty
  nextId := 0

end Auth

open Auth in
/-- The authentication store over a Keychain that is empty or holds a complete session. -/
def authStore : LTS State Label :=
  LTS.ofFn (fun s => ∃ kc dev, Complete kc ∧ s = init kc dev) step

namespace Auth

/-! ### What a step can do -/

/-- The operation belongs to `bootstrap`. -/
def Op.isBoot : Op → Bool
  | .loading _ => true
  | .dropping _ _ => true
  | .autoLogin => true
  | .refreshing => true
  | .restoring _ _ => true
  | _ => false

/-- The operation belongs to `login`. -/
def Op.isLogin : Op → Bool
  | .asking => true
  | .saving _ _ => true
  | _ => false

theorem Op.isLogin_of_isBoot {op : Op} (h : op.isBoot = true) : op.isLogin = false := by
  cases op <;> first | rfl | cases h

/-- `bootstrap` waits again; nothing but its program point changes. -/
inductive BootTurn (s : State) : Op → Op → Prop
  | read {got : Service → Option (Option String)} (svc : Service) :
      BootTurn s (.loading got) (.loading (Function.update got svc (some (s.kc svc))))
  | damaged {got : Service → Option (Option String)} (hgot : ∀ svc, (got svc).isSome)
      (h : readSession (fun svc => (got svc).join) = .damaged) :
      BootTurn s (.loading got) (.dropping true noneDone)
  | expired {got : Service → Option (Option String)} :
      BootTurn s (.loading got) .refreshing
  | nothingRead {got : Service → Option (Option String)} (hgot : ∀ svc, (got svc).isSome)
      (h : readSession (fun svc => (got svc).join) = .missing) :
      BootTurn s (.loading got) .autoLogin
  | dropped {done : Service → Bool} (hdone : ∀ svc, done svc = true) :
      BootTurn s (.dropping true done) .autoLogin
  | autoLogin (session : AuthSession) : BootTurn s .autoLogin (.restoring session noneDone)
  | refreshed (session : AuthSession) : BootTurn s .refreshing (.restoring session noneDone)
  | notRefreshed : BootTurn s .refreshing (.dropping false noneDone)

/-- The program points at which `bootstrap` can end without a session. -/
inductive BootEnd : Op → Prop
  | nothingRead {got : Service → Option (Option String)} (hgot : ∀ svc, (got svc).isSome)
      (h : readSession (fun svc => (got svc).join) = .missing) : BootEnd (.loading got)
  | threw {got : Service → Option (Option String)} {x : Session} {now : ℤ}
      (hgot : ∀ svc, (got svc).isSome)
      (h : readSession (fun svc => (got svc).join) = .session x)
      (hthrow : isExpiredOrSoon x now = none) : BootEnd (.loading got)
  | dropped {damaged : Bool} {done : Service → Bool} (hdone : ∀ svc, done svc = true) :
      BootEnd (.dropping damaged done)
  | autoLoginFailed : BootEnd .autoLogin

/-- The transitions of the store. -/
inductive Move (s : State) : Label → State → Prop
  | bootstrap (h : s.mounted = false) :
      Move s .bootstrap { s.start s.store.boot (.loading fun _ => none) with mounted := true }
  | login (hst : s.store.status = .anonymous) (hsub : s.store.isSubmitting = false) :
      Move s .login (s.start s.store.submit .asking)
  | logout {op : Op} (hst : s.store.status = .authed)
      (hop : op = .revoking ∨ op = .clearing noneDone) :
      Move s .logout (s.start s.store op)
  | clearError : Move s .clearError { s with store := s.store.clearError }
  | boot {l : Label} {p : OpId} {op op' : Op} (hp : s.ops.get? p = some op)
      (h : BootTurn s op op') : Move s l (s.await p op')
  | drop {p : OpId} {damaged : Bool} {done : Service → Bool} (svc : Service)
      (hp : s.ops.get? p = some (.dropping damaged done)) :
      Move s (.land p svc) { s with
        kc := Function.update s.kc svc none
        ops := s.ops.set p (.dropping damaged (Function.update done svc true)) }
  | restore {p : OpId} {a : AuthSession} {done : Service → Bool} (svc : Service)
      (hp : s.ops.get? p = some (.restoring a done)) :
      Move s (.land p svc) { s with
        kc := Function.update s.kc svc (some (a.entry svc))
        ops := s.ops.set p (.restoring a (Function.update done svc true)) }
  | notRestored {l : Label} {p : OpId} {op : Op} (hp : s.ops.get? p = some op) (h : BootEnd op) :
      Move s l (s.finish p s.store.notRestored)
  | loaded {l : Label} {p : OpId} {got : Service → Option (Option String)} {x : Session}
      (hp : s.ops.get? p = some (.loading got)) (hgot : ∀ svc, (got svc).isSome)
      (h : readSession (fun svc => (got svc).join) = .session x) :
      Move s l (s.finish p (s.store.restored x))
  | restored {l : Label} {p : OpId} {a : AuthSession} {done : Service → Bool}
      (hp : s.ops.get? p = some (.restoring a done)) (hdone : ∀ svc, done svc = true) :
      Move s l (s.finish p (s.store.restored a.toSession))
  | granted {l : Label} {p : OpId} (a : AuthSession) (hp : s.ops.get? p = some .asking) :
      Move s l (s.await p (.saving a noneDone))
  | loginFailed {l : Label} {p : OpId} (thrown : Thrown) (hp : s.ops.get? p = some .asking) :
      Move s l (s.finish p (s.store.loginFailed thrown))
  | save {p : OpId} {a : AuthSession} {done : Service → Bool} (svc : Service)
      (hp : s.ops.get? p = some (.saving a done)) :
      Move s (.land p svc) { s with
        kc := Function.update s.kc svc (some (a.entry svc))
        ops := s.ops.set p (.saving a (Function.update done svc true)) }
  | loggedIn {l : Label} {p : OpId} {a : AuthSession} {done : Service → Bool}
      (hp : s.ops.get? p = some (.saving a done)) (hdone : ∀ svc, done svc = true) :
      Move s l (s.finish p (.loggedIn a.toSession))
  | revoked {l : Label} {p : OpId} (hp : s.ops.get? p = some .revoking) :
      Move s l (s.await p (.clearing noneDone))
  | clear {p : OpId} {done : Service → Bool} (svc : Service)
      (hp : s.ops.get? p = some (.clearing done)) :
      Move s (.land p svc) { s with
        kc := Function.update s.kc svc none
        ops := s.ops.set p (.clearing (Function.update done svc true)) }
  | loggedOut {l : Label} {p : OpId} {done : Service → Bool}
      (hp : s.ops.get? p = some (.clearing done)) (hdone : ∀ svc, done svc = true) :
      Move s l (s.finish p s.store.loggedOut)

theorem Move.of_land {s s' : State} {p : OpId} {svc : Service} {op : Op}
    (hp : s.ops.get? p = some op) (h : s.land p svc op = some s') : Move s (.land p svc) s' := by
  unfold State.land at h
  split at h
  · split at h
    · cases h
      exact .boot hp (.read svc)
    · cases h
  · split_ifs at h
    cases h
    exact .drop svc hp
  · split_ifs at h
    cases h
    exact .restore svc hp
  · split_ifs at h
    cases h
    exact .save svc hp
  · split_ifs at h
    cases h
    exact .clear svc hp
  · cases h

theorem Move.of_loaded {s s' : State} {l : Label} {p : OpId}
    {got : Service → Option (Option String)} {now : ℤ} (hp : s.ops.get? p = some (.loading got))
    (hgot : ∀ svc, (got svc).isSome)
    (h : s.loaded p (fun svc => (got svc).join) now = some s') : Move s l s' := by
  unfold State.loaded at h
  split at h
  · rename_i hread
    cases h
    unfold State.noSession
    split_ifs
    · exact .boot hp (.nothingRead hgot hread)
    · exact .notRestored hp (.nothingRead hgot hread)
  · rename_i hread
    cases h
    exact .boot hp (.damaged hgot hread)
  · rename_i hread
    split at h
    · rename_i hthrow
      cases h
      exact .notRestored hp (.threw hgot hread hthrow)
    · cases h
      exact .boot hp .expired
    · cases h
      exact .loaded hp hgot hread

theorem Move.of_resume {s s' : State} {l : Label} {p : OpId} {now : ℤ} {op : Op} {answer : Answer}
    (hp : s.ops.get? p = some op) (h : s.resume p now op answer = some s') : Move s l s' := by
  unfold State.resume at h
  split at h
  · split_ifs at h with hgot
    exact .of_loaded hp hgot h
  · rename_i damaged done
    split_ifs at h with hdone hdam
    · cases h
      subst hdam
      unfold State.noSession
      split_ifs
      · exact .boot hp (.dropped hdone)
      · exact .notRestored hp (.dropped hdone)
    · cases h
      exact .notRestored hp (.dropped hdone)
  · cases h
    exact .boot hp (.autoLogin _)
  · cases h
    exact .notRestored hp .autoLoginFailed
  · cases h
    exact .boot hp (.refreshed _)
  · cases h
    exact .boot hp .notRefreshed
  · split_ifs at h with hdone
    cases h
    exact .restored hp hdone
  · cases h
    exact .granted _ hp
  · cases h
    exact .loginFailed _ hp
  · split_ifs at h with hdone
    cases h
    exact .loggedIn hp hdone
  · cases h
    exact .revoked hp
  · cases h
    exact .revoked hp
  · split_ifs at h with hdone
    cases h
    exact .loggedOut hp hdone
  · cases h

/-- **There are no other transitions.** -/
theorem Move.of_step {s s' : State} {l : Label} (h : step s l = some s') : Move s l s' := by
  cases l with
  | bootstrap =>
    simp only [step] at h
    split_ifs at h with hm
    cases h
    exact .bootstrap (by simpa using hm)
  | login =>
    simp only [step] at h
    split_ifs at h with hst
    cases h
    exact .login hst.1 hst.2
  | logout =>
    simp only [step] at h
    split_ifs at h with hst hses
    · cases h
      exact .logout hst (.inl rfl)
    · cases h
      exact .logout hst (.inr rfl)
  | clearError =>
    cases h
    exact .clearError
  | land p svc =>
    obtain ⟨op, hp, hl⟩ := Option.bind_eq_some_iff.1 h
    exact .of_land hp hl
  | resume p now answer =>
    obtain ⟨op, hp, hr⟩ := Option.bind_eq_some_iff.1 h
    exact .of_resume hp hr

end Auth

end FCord
