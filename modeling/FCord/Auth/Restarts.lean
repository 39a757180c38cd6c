import FCord.Auth.Providers
import FCord.Auth.Requests

/-!
# How long does a login last?

A device runs one process after the other over the same Keychain.  Whoever is logged in has a
session that the provider has issued (`Held`), so it is known when it expires.  Until then the same
session is restored by every process; after that, the next process has it refreshed or drops it
(`login_lasts`).
-/

namespace FCord

namespace Auth

/-! ### Devices -/

/-- What can happen to a device. -/
inductive DeviceLabel where
  | auth (l : Label)
  /-- The process is killed, and the app is started again. -/
  | restart

/-- The step function of a device. -/
def deviceStep (s : State) : DeviceLabel → Option State
  | .auth l => step s l
  | .restart => some (init s.kc s.devAutoLogin)

/-- A device on which the app has just been installed. -/
def device (devAutoLogin : Bool) : LTS State DeviceLabel :=
  LTS.ofFn (· = init .cleared devAutoLogin) deviceStep

variable {P : AuthProvider} {s s' : State} {l : Label}

/-- What an operation asks the provider for. -/
inductive Asked (P : AuthProvider) (s : State) (call : ProviderCall) :
    Op → Except Thrown AuthSession → Prop
  | login (credentials : LoginCredentials) : Asked P s call .asking (P.login credentials call)
  | autoLogin : Asked P s call .autoLogin (P.login .sso call)
  /-- The refresh token is that of the stored session. -/
  | refresh {token : String} (h : getRefreshToken s.kc = some token) :
      Asked P s call .refreshing (P.refresh token call)

/-- What the provider returns, or throws. -/
def toAnswer : Except Thrown AuthSession → Answer
  | .ok a => .session a
  | .error thrown => .error thrown

/-- The operations that wait for a session. -/
def Op.waitsForProvider : Op → Bool
  | .asking => true
  | .autoLogin => true
  | .refreshing => true
  | _ => false

/-- The sessions and errors come from the provider. -/
def Answered (P : AuthProvider) (s : State) : Label → Prop
  | .resume p _ answer => ∀ op, s.ops.get? p = some op → op.waitsForProvider = true →
      ∃ call res, Asked P s call op res ∧ answer = toAnswer res
  | _ => True

/-- The logout button is not pressed while a logout is going on, and the process is killed only when
nothing is running. -/
def Orderly (P : AuthProvider) (s : State) : DeviceLabel → Prop
  | .auth l => OneLogout s l ∧ Answered P s l
  | .restart => Idle s

/-! ### Sessions come from the provider -/

/-- The session that an operation writes. -/
def Op.session : Op → Option AuthSession
  | .restoring a _ => some a
  | .saving a _ => some a
  | _ => none

/-- Nothing is stored but a session that the provider has issued. -/
def Stored (P : AuthProvider) (kc : Keychain) : Prop :=
  kc = .cleared ∨ ∃ a t, P.Issued a t ∧ kc = a.entries

/-- The invariant. -/
structure Held (P : AuthProvider) (s : State) : Prop where
  unmounted : s.mounted = false → Stored P s.kc
  booting : s.mounted = true → s.store.status = .booting → s.ops.keys ≠ []
  reading : ∀ p op, s.ops.get? p = some op → (∃ got, op = .loading got) ∨ op = .refreshing →
    Stored P s.kc
  sessions : ∀ p op a, s.ops.get? p = some op → op.session = some a → ∃ t, P.Issued a t
  authed : s.store.status = .authed →
    ∃ a t, P.Issued a t ∧ s.store.session = some a.toSession ∧ (¬ LogoutActive s → s.kc = a.entries)

theorem Stored.complete {kc : Keychain} (h : Stored P kc) : Complete kc := by
  rcases h with hkc | ⟨a, t, -, hkc⟩
  · exact .inl hkc
  · exact .inr ⟨a, hkc⟩

/-- A session that has been read is the stored one. -/
theorem Stored.of_readSession {kc : Keychain} {x : Session} (h : Stored P kc)
    (hread : readSession kc = .session x) :
    ∃ a t, P.Issued a t ∧ x = a.toSession ∧ kc = a.entries := by
  rcases h with rfl | ⟨a, t, hissued, rfl⟩
  · cases hread
  · rw [readSession_entries] at hread
    cases hread
    exact ⟨a, t, hissued, rfl, rfl⟩

/-- A Keychain call that lands leaves the operation its session. -/
theorem ops_of_land {p : OpId} {svc : Service} {op : Op} (h : s.land p svc op = some s') :
    ∃ op', s'.ops = s.ops.set p op' ∧ op'.session = op.session := by
  unfold State.land at h
  split at h
  · split at h
    · cases h; exact ⟨_, rfl, rfl⟩
    · cases h
  · split_ifs at h; cases h; exact ⟨_, rfl, rfl⟩
  · split_ifs at h; cases h; exact ⟨_, rfl, rfl⟩
  · split_ifs at h; cases h; exact ⟨_, rfl, rfl⟩
  · split_ifs at h; cases h; exact ⟨_, rfl, rfl⟩
  · cases h

/-- The operation `p` has ended, or goes on without a session or with the one in the answer. -/
def GoesOn (s s' : State) (p : OpId) (op : Op) (answer : Answer) : Prop :=
  s'.ops = s.ops.erase p ∨ ∃ op', s'.ops = s.ops.set p op' ∧ ∀ a, op'.session = some a →
    answer = .session a ∧ op.waitsForProvider = true

theorem GoesOn.noSession {p : OpId} {op : Op} {answer : Answer} :
    GoesOn s (s.noSession p) p op answer := by
  unfold State.noSession
  split_ifs
  · exact .inr ⟨_, rfl, nofun⟩
  · exact .inl rfl

theorem goesOn_of_resume {p : OpId} {now : ℤ} {op : Op} {answer : Answer}
    (h : s.resume p now op answer = some s') : GoesOn s s' p op answer := by
  unfold State.resume at h
  split at h
  · split_ifs at h
    unfold State.loaded at h
    split at h
    · cases h; exact .noSession
    · cases h; exact .inr ⟨_, rfl, nofun⟩
    · split at h
      · cases h; exact .inl rfl
      · cases h; exact .inr ⟨_, rfl, nofun⟩
      · cases h; exact .inl rfl
  · split_ifs at h
    · cases h; exact .noSession
    · cases h; exact .inl rfl
  · cases h; exact .inr ⟨_, rfl, fun a ha => ⟨by cases ha; rfl, rfl⟩⟩
  · cases h; exact .inl rfl
  · cases h; exact .inr ⟨_, rfl, fun a ha => ⟨by cases ha; rfl, rfl⟩⟩
  · cases h; exact .inr ⟨_, rfl, nofun⟩
  · split_ifs at h; cases h; exact .inl rfl
  · cases h; exact .inr ⟨_, rfl, fun a ha => ⟨by cases ha; rfl, rfl⟩⟩
  · cases h; exact .inl rfl
  · split_ifs at h; cases h; exact .inl rfl
  · cases h; exact .inr ⟨_, rfl, nofun⟩
  · cases h; exact .inr ⟨_, rfl, nofun⟩
  · split_ifs at h; cases h; exact .inl rfl
  · cases h

/-- A session that an operation writes was already its own, or the provider has just returned it. -/
theorem session_of_step (h : step s l = some s') (hfresh : s.nextId ∉ s.ops.keys) {p : OpId}
    {op' : Op} {a : AuthSession} (hp : s'.ops.get? p = some op') (ha : op'.session = some a) :
    (∃ op, s.ops.get? p = some op ∧ op.session = some a) ∨
      ∃ now op, l = .resume p now (.session a) ∧ s.ops.get? p = some op ∧
        op.waitsForProvider = true := by
  have hpush : ∀ {op : Op}, op.session = none → (s.ops.push s.nextId op).get? p = some op' →
      s.ops.get? p = some op' := by
    intro op hop hp
    rcases Table.of_get?_push hfresh hp with ⟨-, rfl⟩ | ⟨-, hp⟩
    · rw [hop] at ha
      cases ha
    · exact hp
  cases l with
  | bootstrap =>
    obtain ⟨-, he⟩ := Option.ite_none_left_eq_some.1 h
    cases he
    exact .inl ⟨op', hpush rfl hp, ha⟩
  | login =>
    obtain ⟨-, he⟩ := Option.ite_none_right_eq_some.1 h
    cases he
    exact .inl ⟨op', hpush rfl hp, ha⟩
  | logout =>
    obtain ⟨-, he⟩ := Option.ite_none_right_eq_some.1 h
    cases he
    refine .inl ⟨op', hpush ?_ hp, ha⟩
    split_ifs <;> rfl
  | clearError =>
    cases h
    exact .inl ⟨op', hp, ha⟩
  | land q svc =>
    obtain ⟨op, hq, hl⟩ := Option.bind_eq_some_iff.1 h
    obtain ⟨new, hops, hsession⟩ := ops_of_land hl
    rw [hops] at hp
    rcases Table.of_get?_set hp with ⟨rfl, rfl⟩ | ⟨-, hp⟩
    · exact .inl ⟨op, hq, hsession ▸ ha⟩
    · exact .inl ⟨op', hp, ha⟩
  | resume q now answer =>
    obtain ⟨op, hq, hr⟩ := Option.bind_eq_some_iff.1 h
    rcases goesOn_of_resume hr with hops | ⟨new, hops, hnew⟩
    · rw [hops] at hp
      exact .inl ⟨op', (Table.of_get?_erase hp).2, ha⟩
    · rw [hops] at hp
      rcases Table.of_get?_set hp with ⟨rfl, rfl⟩ | ⟨-, hp⟩
      · obtain ⟨rfl, hwaits⟩ := hnew a ha
        exact .inr ⟨now, op, rfl, hq, hwaits⟩
      · exact .inl ⟨op', hp, ha⟩

/-- What the provider returns, it has issued. -/
theorem Asked.issued {call : ProviderCall} {op : Op} {res : Except Thrown AuthSession}
    {a : AuthSession} (h : Asked P s call op res) (hres : res = .ok a) : P.Issued a call.now := by
  cases h with
  | login credentials => exact ⟨call, rfl, .inl ⟨credentials, hres⟩⟩
  | autoLogin => exact ⟨call, rfl, .inl ⟨.sso, hres⟩⟩
  | refresh htoken => exact ⟨call, rfl, .inr ⟨_, hres⟩⟩

theorem eq_ok_of_toAnswer {res : Except Thrown AuthSession} {a : AuthSession}
    (h : Answer.session a = toAnswer res) : res = .ok a := by
  cases res with
  | ok b => cases h; rfl
  | error thrown => cases h

theorem eq_error_of_toAnswer {res : Except Thrown AuthSession} {thrown : Thrown}
    (h : Answer.error thrown = toAnswer res) : res = .error thrown := by
  cases res with
  | ok b => cases h
  | error thrown' => cases h; rfl

theorem issued_of_answered {p : OpId} {now : ℤ} {a : AuthSession} {op : Op}
    (h : Answered P s (.resume p now (.session a))) (hp : s.ops.get? p = some op)
    (hop : op.waitsForProvider = true) : ∃ t, P.Issued a t := by
  obtain ⟨call, res, hasked, hres⟩ := h op hp hop
  exact ⟨call.now, hasked.issued (eq_ok_of_toAnswer hres)⟩

/-- The reads of `loadSession` return what is stored. -/
theorem Agreement.readSession_kc (ha : Agreement s) {p : OpId}
    {got : Service → Option (Option String)} (hp : s.ops.get? p = some (.loading got))
    (hgot : ∀ svc, (got svc).isSome) {x : Session}
    (h : readSession (fun svc => (got svc).join) = .session x) : readSession s.kc = .session x :=
  ha.got_eq hp hgot ▸ h

namespace Held

theorem stored_of_idle (h : Held P s) (ha : Agreement s) (hidle : Idle s) : Stored P s.kc := by
  have hin : ¬ LoginActive s := by
    rintro ⟨p, a, done, svc, hp, -⟩
    exact Table.get?_ne_some hidle hp
  have hout : ¬ LogoutActive s := by
    rintro ⟨p, done, svc, hp, -⟩
    exact Table.get?_ne_some hidle hp
  cases hst : s.store.status with
  | booting =>
    cases hm : s.mounted with
    | false => exact h.unmounted hm
    | true => exact absurd hidle (h.booting hm hst)
  | anonymous => exact .inl ((ha.anonymous hst).2 hin)
  | authed =>
    obtain ⟨a, t, hissued, -, hkc⟩ := h.authed hst
    exact .inr ⟨a, t, hissued, hkc hout⟩

theorem init {kc : Keychain} {dev : Bool} (h : Stored P kc) : Held P (Auth.init kc dev) where
  unmounted _ := h
  booting := nofun
  reading _ _ hp := nomatch hp
  sessions _ _ _ hp := nomatch hp
  authed := nofun

/-- `bootstrap` is over. -/
theorem of_running (ha : Agreement s) (hst : s.store.status ≠ .booting)
    (hsessions : ∀ p op a, s.ops.get? p = some op → op.session = some a → ∃ t, P.Issued a t)
    (hauthed : s.store.status = .authed → ∃ a t, P.Issued a t ∧
      s.store.session = some a.toSession ∧ (¬ LogoutActive s → s.kc = a.entries)) :
    Held P s where
  unmounted hm := absurd (ha.unmounted hm).2.1 hst
  booting _ hb := absurd hb hst
  reading p op hp hop := by
    refine absurd ?_ (ha.not_boot hst hp)
    rcases hop with ⟨got, rfl⟩ | rfl
    · rfl
    · rfl
  sessions := hsessions
  authed := hauthed

/-- `bootstrap` goes on. -/
theorem of_booting {p : OpId} {op : Op} (hmount : s.mounted = true)
    (hst : s.store.status = .booting) (hk : s.ops.keys = [p]) (hp : s.ops.get? p = some op)
    (hsessions : ∀ p op a, s.ops.get? p = some op → op.session = some a → ∃ t, P.Issued a t)
    (hreading : (∃ got, op = .loading got) ∨ op = .refreshing → Stored P s.kc) : Held P s where
  unmounted hm := by simp [hmount] at hm
  booting _ _ := by simp [hk]
  reading q op' hq hop := by
    obtain rfl := Table.eq_of_keys hk hq
    cases hp.symm.trans hq
    exact hreading hop
  sessions := hsessions
  authed hauthed := by simp [hst] at hauthed

/-- The Keychain and the session in the store are as before, and so are the logouts. -/
theorem authed_of_same (h : Held P s) (hkc : s'.kc = s.kc)
    (hst : s'.store.status = s.store.status) (hses : s'.store.session = s.store.session)
    (hout : ∀ p done, s.ops.get? p = some (.clearing done) →
      s'.ops.get? p = some (.clearing done)) (hauthed : s'.store.status = .authed) :
    ∃ a t, P.Issued a t ∧ s'.store.session = some a.toSession ∧
      (¬ LogoutActive s' → s'.kc = a.entries) := by
  obtain ⟨a, t, hissued, hx, hstored⟩ := h.authed (hst ▸ hauthed)
  refine ⟨a, t, hissued, hses.trans hx, fun hl => hkc.trans (hstored fun hl' => hl ?_)⟩
  obtain ⟨p, done, svc, hp, hd⟩ := hl'
  exact ⟨p, done, svc, hout p done hp, hd⟩

/-- A turn of `bootstrap` that does not end it. -/
theorem bootTurn (h : Held P s) (ha : Agreement s) {p : OpId} {op op' : Op}
    (hp : s.ops.get? p = some op) (ht : BootTurn s op op')
    (hsessions : ∀ q o a, (s.await p op').ops.get? q = some o → o.session = some a →
      ∃ t, P.Issued a t) : Held P (s.await p op') := by
  have hb : op.isBoot = true := by cases ht <;> rfl
  obtain ⟨hst, hk, -⟩ := ha.boot p op hp hb
  refine of_booting (ha.mounted_of_op hp) hst (by simpa [State.await] using hk)
    (Table.get?_set_self hp) hsessions fun hop => ?_
  cases ht with
  | read svc => exact h.reading p _ hp (.inl ⟨_, rfl⟩)
  | expired => exact h.reading p _ hp (.inl ⟨_, rfl⟩)
  | _ => simp at hop

/-- **Sessions come from the provider.** -/
theorem step (h : Held P s) (ha : Agreement s) (ha' : Agreement s') (hans : Answered P s l)
    (hst : Auth.step s l = some s') : Held P s' := by
  have hsessions : ∀ p op a, s'.ops.get? p = some op → op.session = some a →
      ∃ t, P.Issued a t := by
    intro p op a hp hop
    rcases session_of_step hst ha.nextId_fresh hp hop with
      ⟨old, hp, hold⟩ | ⟨now, old, rfl, hp, hold⟩
    · exact h.sessions p old a hp hold
    · exact issued_of_answered hans hp hold
  have hpush : ∀ {op : Op} {p : OpId} {done : Service → Bool},
      s.ops.get? p = some (.clearing done) →
      (s.ops.push s.nextId op).get? p = some (.clearing done) := by
    intro op p done hp
    rw [Table.get?_push ha.nextId_fresh, if_neg, hp]
    rintro rfl
    exact ha.nextId_fresh (Table.mem_keys_of_get? hp)
  cases Move.of_step hst with
  | bootstrap hm =>
    have hk := (ha.unmounted hm).1
    have hp : (s.ops.push s.nextId (.loading fun _ => none)).get? s.nextId =
        some (.loading fun _ => none) := by rw [Table.get?_push ha.nextId_fresh, if_pos rfl]
    refine of_booting rfl rfl ?_ hp hsessions fun _ => h.unmounted hm
    simp [State.start, Table.keys_push ha.nextId_fresh, hk]
  | login hanon hsub =>
    refine of_running ha' (by simp [State.start, AuthState.submit, hanon]) hsessions
      fun hauthed => ?_
    simp [State.start, AuthState.submit, hanon] at hauthed
  | logout hauthed hop =>
    refine of_running ha' (by simp [State.start, hauthed]) hsessions ?_
    exact h.authed_of_same rfl rfl rfl fun p done => hpush
  | clearError => exact ⟨h.unmounted, h.booting, h.reading, hsessions, h.authed⟩
  | boot hp ht => exact h.bootTurn ha hp ht hsessions
  | @drop p damaged done svc hp =>
    obtain ⟨hbooting, hk, -⟩ := ha.boot p _ hp rfl
    exact of_booting (ha.mounted_of_op hp) hbooting (by simpa using hk) (Table.get?_set_self hp)
      hsessions (by simp)
  | @restore p a done svc hp =>
    obtain ⟨hbooting, hk, -⟩ := ha.boot p _ hp rfl
    exact of_booting (ha.mounted_of_op hp) hbooting (by simpa using hk) (Table.get?_set_self hp)
      hsessions (by simp)
  | notRestored hp he =>
    exact of_running ha' (fun he => by cases he) hsessions fun he => by cases he
  | @loaded l p got x hp hgot hread =>
    obtain ⟨a, t, hissued, rfl, hkc⟩ :=
      (h.reading p _ hp (.inl ⟨got, rfl⟩)).of_readSession (ha.readSession_kc hp hgot hread)
    exact of_running ha' (fun he => by cases he) hsessions fun _ =>
      ⟨a, t, hissued, rfl, fun _ => hkc⟩
  | @restored l p a done hp hdone =>
    obtain ⟨t, hissued⟩ := h.sessions p _ a hp rfl
    have hkc : s.kc = a.entries := funext fun svc => (ha.boot p _ hp rfl).2.2 svc (hdone svc)
    exact of_running ha' (fun he => by cases he) hsessions fun _ =>
      ⟨a, t, hissued, rfl, fun _ => hkc⟩
  | @granted l p a hp =>
    have hanon := (ha.login p _ hp rfl).1
    refine of_running ha' (by simp [State.await, hanon]) hsessions fun hauthed => ?_
    simp [State.await, hanon] at hauthed
  | @loginFailed l p thrown hp =>
    have hanon := (ha.login p _ hp rfl).1
    refine of_running ha' (by simp [State.finish, AuthState.loginFailed, hanon]) hsessions
      fun hauthed => ?_
    simp [State.finish, AuthState.loginFailed, hanon] at hauthed
  | @save p a done svc hp =>
    have hanon := (ha.login p _ hp rfl).1
    refine of_running ha' (by simp [hanon]) hsessions fun hauthed => ?_
    simp [hanon] at hauthed
  | @loggedIn l p a done hp hdone =>
    obtain ⟨t, hissued⟩ := h.sessions p _ a hp rfl
    have hkc : s.kc = a.entries := funext fun svc =>
      (ha.saving p a done hp svc).trans (if_pos (hdone svc))
    exact of_running ha' (fun he => by cases he) hsessions fun _ =>
      ⟨a, t, hissued, rfl, fun _ => hkc⟩
  | @revoked l p hp =>
    refine of_running ha' (ha.not_booting hp rfl) hsessions ?_
    refine h.authed_of_same rfl rfl rfl fun q done hq => ?_
    rw [State.await, Table.get?_set_of_ne, hq]
    rintro rfl
    cases hp.symm.trans hq
  | @clear p done svc hp =>
    refine of_running ha' (ha.not_booting hp rfl) hsessions fun hauthed => ?_
    obtain ⟨a, t, hissued, hx, -⟩ := h.authed hauthed
    refine ⟨a, t, hissued, hx, fun hl => absurd ?_ hl⟩
    exact ⟨p, _, svc, Table.get?_set_self hp, by simp⟩
  | loggedOut hp hdone =>
    exact of_running ha' (fun he => by cases he) hsessions fun he => by cases he

end Held

/-- Each process of an orderly device runs as the store does by itself. -/
theorem held_of_orderly {dev : Bool} (h : ((device dev).guard (Orderly P)).Reachable s) :
    (authStore.guard OneLogout).Reachable s ∧ Held P s := by
  refine h.invariant (I := fun s => (authStore.guard OneLogout).Reachable s ∧ Held P s) ?_ ?_
  · rintro s rfl
    exact ⟨.start ⟨.cleared, dev, .inl rfl, rfl⟩, .init (.inl rfl)⟩
  · rintro s l s' ⟨hr, hh⟩ ⟨hok, hst⟩
    have ha := Agreement.of_reachable (apart_of_oneLogout hr).1
    cases l with
    | auth l =>
      have hr' := hr.step ⟨hok.1, hst⟩
      exact ⟨hr', hh.step ha (.of_reachable (apart_of_oneLogout hr').1) hok.2 hst⟩
    | restart =>
      cases hst
      have hstored := hh.stored_of_idle ha hok
      exact ⟨.start ⟨s.kc, s.devAutoLogin, hstored.complete, rfl⟩, .init hstored⟩

/-! ### Before the session expires -/

/-- The time values of `Date`. -/
def TimeValue (t : ℤ) : Prop := |t| ≤ 8640000000000000

/-- The session expires at the deadline, which double precision keeps. -/
structure Expires (a : AuthSession) (deadline : ℤ) : Prop where
  expiresAt : a.expiresAt = .ofInt deadline
  small : |deadline| < 2 ^ 53

/-- What `bootstrap` does once it has read a session. -/
theorem loaded_entries {a : AuthSession} {deadline : ℤ} (h : Expires a deadline) {p : OpId}
    {now : ℤ} :
    s.loaded p a.entries now = some (if deadline < now + 60000 then s.await p .refreshing
      else s.finish p (s.store.restored a.toSession)) := by
  simp only [State.loaded, readSession_entries, isExpiredOrSoon_toSession h.expiresAt h.small]
  by_cases hlate : deadline < now + 60000
  · simp only [hlate, decide_true, if_true]
  · simp only [hlate, decide_false, if_false]

/-- Nobody logs out, and the clock of every bootstrap is a minute before the deadline. -/
def Untouched (deadline : ℤ) (_ : State) : DeviceLabel → Prop
  | .auth .logout => False
  | .auth (.resume _ now _) => now + 60000 ≤ deadline
  | _ => True

/-- The session is stored, and nothing but `bootstrap` runs. -/
structure Restoring (a : AuthSession) (s : State) : Prop where
  kc : s.kc = a.entries
  ops : ∀ p op, s.ops.get? p = some op →
    ∃ got, op = .loading got ∧ ∀ svc v, got svc = some v → v = s.kc svc
  status : s.store.status = .booting ∨
    s.store.status = .authed ∧ s.store.session = some a.toSession

namespace Restoring

variable {a : AuthSession}

/-- All reads have returned what is stored. -/
theorem got_eq (h : Restoring a s) {p : OpId} {got : Service → Option (Option String)}
    (hp : s.ops.get? p = some (.loading got)) (hgot : ∀ svc, (got svc).isSome) :
    (fun svc => (got svc).join) = a.entries := by
  obtain ⟨got', he, hread⟩ := h.ops p _ hp
  cases he
  funext svc
  obtain ⟨v, hv⟩ := Option.isSome_iff_exists.1 (hgot svc)
  rw [hv, Option.join_some, hread svc v hv, h.kc]

theorem step {deadline : ℤ} (h : Restoring a s) (hexpires : Expires a deadline)
    {l : DeviceLabel} (hok : Untouched deadline s l) (hst : deviceStep s l = some s') :
    Restoring a s' := by
  cases l with
  | restart =>
    cases hst
    exact ⟨h.kc, fun p op hp => (by cases hp), .inl rfl⟩
  | auth l =>
    cases l with
    | bootstrap =>
      obtain ⟨-, he⟩ := Option.ite_none_left_eq_some.1 hst
      cases he
      refine ⟨h.kc, fun p op hp => ?_, .inl rfl⟩
      rcases Table.eq_or_get?_of_push hp with rfl | hp
      · exact ⟨_, rfl, nofun⟩
      · exact h.ops p op hp
    | login =>
      obtain ⟨⟨hanon, -⟩, -⟩ := Option.ite_none_right_eq_some.1 hst
      rcases h.status with hb | ⟨hauthed, -⟩
      · simp [hb] at hanon
      · simp [hauthed] at hanon
    | logout => exact hok.elim
    | clearError => cases hst; exact ⟨h.kc, h.ops, h.status⟩
    | land p svc =>
      obtain ⟨op, hp, hl⟩ := Option.bind_eq_some_iff.1 hst
      obtain ⟨got, rfl, hread⟩ := h.ops p op hp
      simp only [State.land] at hl
      split at hl
      · cases hl
        refine ⟨h.kc, fun q op hq => ?_, h.status⟩
        rcases Table.of_get?_set hq with ⟨-, rfl⟩ | ⟨-, hq⟩
        · refine ⟨_, rfl, fun svc' v hv => ?_⟩
          by_cases he : svc' = svc
          · subst he
            simpa [State.await, eq_comm] using hv
          · rw [Function.update_of_ne he] at hv
            exact hread svc' v hv
        · exact h.ops q op hq
      · cases hl
    | resume p now answer =>
      obtain ⟨op, hp, hr⟩ := Option.bind_eq_some_iff.1 hst
      obtain ⟨got, rfl, -⟩ := h.ops p op hp
      cases answer with
      | ok =>
        obtain ⟨hgot, hr⟩ := Option.ite_none_right_eq_some.1 hr
        rw [h.got_eq hp hgot, loaded_entries hexpires] at hr
        have hlate : ¬ deadline < now + 60000 := not_lt.2 hok
        simp only [hlate, if_false, Option.some.injEq] at hr
        cases hr
        exact ⟨h.kc, fun q op hq => h.ops q op (Table.of_get?_erase hq).2, .inr ⟨rfl, rfl⟩⟩
      | session b => cases hr
      | error thrown => cases hr

end Restoring

/-! ### After the session has expired -/

/-- The provider refreshes the session `a` to `b`. -/
def Refreshed (P : AuthProvider) (a b : AuthSession) : Prop :=
  ∃ call, P.refresh a.refreshToken call = .ok b

/-- The provider does not refresh the session. -/
def NotRefreshed (P : AuthProvider) (a : AuthSession) : Prop :=
  ∃ call thrown, P.refresh a.refreshToken call = .error thrown

/-- Nobody logs in or out, and the clock of every bootstrap is past the deadline. -/
def Late (P : AuthProvider) (deadline : ℤ) (s : State) : Label → Prop
  | .login => False
  | .logout => False
  | .resume p now answer => deadline < now + 60000 ∧ Answered P s (.resume p now answer)
  | _ => True

/-- What `bootstrap` knows of the session that has expired. -/
def ExpiredAt (P : AuthProvider) (a : AuthSession) (kc : Keychain) : Op → Prop
  | .loading _ => kc = a.entries
  | .refreshing => kc = a.entries
  | .restoring b _ => Refreshed P a b
  | .dropping damaged _ => damaged = false ∧ NotRefreshed P a
  | _ => False

/-- How a bootstrap ends after the session has expired. -/
inductive Expired (P : AuthProvider) (a : AuthSession) (s : State) : Prop
  | booting (h : s.store.status = .booting)
  | refreshed (b : AuthSession) (hst : s.store.status = .authed) (h : Refreshed P a b)
      (hses : s.store.session = some b.toSession) (hkc : s.kc = b.entries)
  | dropped (hst : s.store.status = .anonymous) (h : NotRefreshed P a) (hkc : s.kc = .cleared)

/-- The invariant of such a bootstrap. -/
structure Expiring (P : AuthProvider) (a : AuthSession) (s : State) : Prop where
  agreement : Agreement s
  kc : s.mounted = false → s.kc = a.entries
  ops : ∀ p op, s.ops.get? p = some op → ExpiredAt P a s.kc op
  status : Expired P a s

namespace Expiring

variable {a : AuthSession} {deadline : ℤ}

/-- The provider is asked to refresh the stored session. -/
theorem refresh_of_asked {call : ProviderCall} {res : Except Thrown AuthSession}
    (h : Asked P s call .refreshing res) (hkc : s.kc = a.entries) :
    res = P.refresh a.refreshToken call := by
  cases h with
  | refresh htoken =>
    rw [getRefreshToken, hkc] at htoken
    cases htoken
    rfl

theorem isBoot_of_expiredAt {kc : Keychain} {op : Op} (h : ExpiredAt P a kc op) :
    op.isBoot = true := by
  cases op <;> first | rfl | cases h

/-- Only `bootstrap` runs. -/
theorem apart (h : Expiring P a s) (l : Label) : Apart s l := by
  cases l with
  | land p svc =>
    refine ⟨fun b done hp => ?_, fun done hp => ?_⟩
    · cases h.ops p _ hp
    · cases h.ops p _ hp
  | _ => trivial

/-- The operation of `bootstrap` goes on. -/
theorem of_set (h : Expiring P a s) (ha' : Agreement s') {p : OpId} {op op' : Op}
    (hp : s.ops.get? p = some op) (hops : s'.ops = s.ops.set p op')
    (hst : s'.store.status = s.store.status) (hmount : s'.mounted = s.mounted)
    (hop' : ExpiredAt P a s'.kc op') : Expiring P a s' := by
  obtain ⟨hbooting, hk, -⟩ := h.agreement.boot p op hp (isBoot_of_expiredAt (h.ops p op hp))
  refine ⟨ha', fun hm => ?_, fun q new hq => ?_, .booting (hst.trans hbooting)⟩
  · rw [hmount, h.agreement.mounted_of_op hp] at hm
    cases hm
  · rw [hops] at hq
    rcases Table.of_get?_set hq with ⟨-, rfl⟩ | ⟨hqp, hq⟩
    · exact hop'
    · exact absurd (Table.eq_of_keys hk hq) hqp

/-- `bootstrap` ends. -/
theorem of_finish (h : Expiring P a s) {p : OpId} {op : Op} {store : AuthState}
    (hp : s.ops.get? p = some op) (ha' : Agreement (s.finish p store))
    (hend : Expired P a (s.finish p store)) : Expiring P a (s.finish p store) := by
  obtain ⟨-, hk, -⟩ := h.agreement.boot p op hp (isBoot_of_expiredAt (h.ops p op hp))
  refine ⟨ha', fun hm => ?_, fun q new hq => ?_, hend⟩
  · have hmount := h.agreement.mounted_of_op hp
    simp [State.finish, hmount] at hm
  · exact absurd hq (Table.get?_ne_some (keys_finish hk store))

theorem move (h : Expiring P a s) (hexpires : Expires a deadline)
    (hok : Late P deadline s l) (hst : Auth.step s l = some s') : Expiring P a s' := by
  have ha' : Agreement s' := h.agreement.move (h.apart l) (.of_step hst)
  cases l with
  | bootstrap =>
    obtain ⟨hm, he⟩ := Option.ite_none_left_eq_some.1 hst
    cases he
    refine ⟨ha', nofun, fun p op hp => ?_, .booting rfl⟩
    rcases Table.eq_or_get?_of_push hp with rfl | hp
    · exact h.kc (by simpa using hm)
    · exact h.ops p op hp
  | login => exact hok.elim
  | logout => exact hok.elim
  | clearError =>
    cases hst
    refine ⟨ha', h.kc, h.ops, ?_⟩
    cases h.status with
    | booting hb => exact .booting hb
    | refreshed b hauthed href hses hkc => exact .refreshed b hauthed href hses hkc
    | dropped hanon hnot hkc => exact .dropped hanon hnot hkc
  | land p svc =>
    obtain ⟨op, hp, hl⟩ := Option.bind_eq_some_iff.1 hst
    have hop := h.ops p op hp
    cases op with
    | loading got =>
      simp only [State.land] at hl
      split at hl
      · cases hl
        exact h.of_set ha' hp rfl rfl rfl hop
      · cases hl
    | dropping damaged done =>
      obtain ⟨-, he⟩ := Option.ite_none_left_eq_some.1 hl
      cases he
      exact h.of_set ha' hp rfl rfl rfl hop
    | restoring b done =>
      obtain ⟨-, he⟩ := Option.ite_none_left_eq_some.1 hl
      cases he
      exact h.of_set ha' hp rfl rfl rfl hop
    | refreshing => cases hl
    | _ => cases hop
  | resume p now answer =>
    obtain ⟨op, hp, hr⟩ := Option.bind_eq_some_iff.1 hst
    have hop := h.ops p op hp
    cases op with
    | loading got =>
      cases answer with
      | ok =>
        obtain ⟨hgot, hr⟩ := Option.ite_none_right_eq_some.1 hr
        have hkc : s.kc = a.entries := hop
        rw [h.agreement.got_eq hp hgot, hkc, loaded_entries hexpires] at hr
        simp only [hok.1, if_true, Option.some.injEq] at hr
        cases hr
        exact h.of_set ha' hp rfl rfl rfl hop
      | _ => cases hr
    | refreshing =>
      obtain ⟨call, res, hasked, rfl⟩ := hok.2 _ hp rfl
      have hrefresh := refresh_of_asked hasked hop
      cases res with
      | ok b =>
        cases hr
        exact h.of_set ha' hp rfl rfl rfl ⟨call, hrefresh.symm⟩
      | error thrown =>
        cases hr
        exact h.of_set ha' hp rfl rfl rfl ⟨rfl, call, thrown, hrefresh.symm⟩
    | restoring b done =>
      cases answer with
      | ok =>
        obtain ⟨hdone, he⟩ := Option.ite_none_right_eq_some.1 hr
        cases he
        have hkc : s.kc = b.entries :=
          funext fun svc => (h.agreement.boot p _ hp rfl).2.2 svc (hdone svc)
        exact h.of_finish hp ha' (.refreshed b rfl hop rfl hkc)
      | _ => cases hr
    | dropping damaged done =>
      obtain ⟨rfl, hnot⟩ := hop
      cases answer with
      | ok =>
        obtain ⟨hdone, he⟩ := Option.ite_none_right_eq_some.1 hr
        cases he
        exact h.of_finish hp ha' (.dropped rfl hnot (h.agreement.cleared_of_dropped hp hdone))
      | _ => cases hr
    | _ => cases hop

end Expiring

/-! ### Logins -/

/-- How long the login of the session `a` lasts. -/
structure Lasts (P : AuthProvider) (dev : Bool) (a : AuthSession) (deadline : ℤ) (s : State) :
    Prop where
  /-- Every process until then restores the session. -/
  before : ∀ s', (((device dev).guard (Untouched deadline)).after s).Reachable s' →
    s'.store.status = .booting ∨
      s'.store.status = .authed ∧ s'.store.session = some a.toSession
  /-- The next process has it refreshed, or drops it. -/
  after : ∀ s',
    ((authStore.guard (Late P deadline)).after (init s.kc s.devAutoLogin)).Reachable s' →
      Expired P a s'

theorem lasts_of_idle {dev : Bool} {a : AuthSession} {deadline : ℤ} (hidle : Idle s)
    (hst : s.store.status = .authed) (hses : s.store.session = some a.toSession)
    (hkc : s.kc = a.entries) (hexpires : Expires a deadline) :
    Lasts P dev a deadline s where
  before s' h' := by
    have hs : Restoring a s :=
      ⟨hkc, fun p op hp => absurd hp (Table.get?_ne_some hidle), .inr ⟨hst, hses⟩⟩
    have hs' : Restoring a s' := h'.invariant (fun t ht => ht ▸ hs)
      fun t l t' ht htt => ht.step hexpires htt.1 htt.2
    exact hs'.status
  after s' h' := by
    have hs : Expiring P a (init s.kc s.devAutoLogin) :=
      ⟨.init (.inr ⟨a, hkc⟩), fun _ => hkc, fun p op hp => (by cases hp), .booting rfl⟩
    have hs' : Expiring P a s' := h'.invariant (fun t ht => ht ▸ hs)
      fun t l t' ht htt => ht.move hexpires htt.1 htt.2
    exact hs'.status

/-- A production build. -/
def production : Build := ⟨false, none⟩

theorem production_provider : production.getAuthProvider id = faicordAuthProvider := by
  simp [Build.getAuthProvider, production]

/-- The session of a user who has given the right password. -/
def passwordSession : AuthSession := Faicord.session "t1" ⟨"leo", "김레오"⟩ 0

/-- The server lets nobody in but that user. -/
def checkAnswer : Op → Answer → Bool
  | .asking, .session a => decide (a = passwordSession)
  | op, _ => !op.waitsForProvider

/-- `Orderly`, evaluated. -/
def checkOrderly (s : State) : DeviceLabel → Bool
  | .auth (.resume p _ answer) => (s.ops.get? p).all fun op => checkAnswer op answer
  | .auth l => decide (OneLogout s l)
  | .restart => decide (s.ops.keys = [])

theorem asked_of_check {op : Op} {answer : Answer} (h : checkAnswer op answer = true)
    (hop : op.waitsForProvider = true) :
    ∃ call res, Asked faicordAuthProvider s call op res ∧ answer = toAnswer res := by
  unfold checkAnswer at h
  split at h
  · obtain rfl := of_decide_eq_true h
    let server : Fetch → Option (Option FaicordLogin) := fun _ =>
      some (some ⟨true, some "t1", none, some ⟨"leo", "김레오"⟩⟩)
    exact ⟨⟨0, server, "", ("", "")⟩, _, .login (.password "leo" "1234"), rfl⟩
  · simp [hop] at h

theorem orderly_of_check {l : DeviceLabel} (h : checkOrderly s l = true) :
    Orderly faicordAuthProvider s l := by
  cases l with
  | restart =>
    have hidle : s.ops.keys = [] := of_decide_eq_true h
    exact hidle
  | auth l =>
    cases l with
    | resume p now answer =>
      refine ⟨trivial, fun op hp => asked_of_check ?_⟩
      simpa [checkOrderly, hp] using h
    | _ => exact ⟨of_decide_eq_true h, trivial⟩

/-- A user logs in with the password. -/
def passwordLogin : List DeviceLabel :=
  ([Label.bootstrap] ++ landAll 0 ++ [Label.resume 0 0 .ok, .login,
    .resume 1 0 (.session passwordSession)] ++ landAll 1 ++ [Label.resume 1 0 .ok]).map .auth

/-- The number at which the session in the store expires. -/
def expiryOf (s : State) : Option Decimal :=
  match s.store.session.bind Session.expiresAt with
  | some (.num d) => some d
  | _ => none

end Auth

end FCord
