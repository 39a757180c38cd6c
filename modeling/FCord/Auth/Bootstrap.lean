import FCord.Auth.Store

/-!
# A bootstrap by itself

`bootstrap` restores the stored session, refreshes it, or does without one.  With nothing else going
on it is a function of what is stored, of the clock and of how each of its calls ends (`BootCalls`).
The stored text is trusted once it has been parsed: an `expiresAt` that is missing is no number, and
no number is early enough to be refreshed, so `{}` is restored as a session without a user
(`restores_session_without_user`).  `bootstrap_usable_iff` says exactly when only a usable session
is restored.
-/

namespace FCord

/-- How the calls of a `bootstrap` end. -/
structure BootCalls where
  /-- The reads of `loadSession` that return. -/
  read : Service → Bool
  /-- What the login of the mock provider returns. -/
  login : Option AuthSession
  /-- What the refresh returns. -/
  refresh : Option AuthSession
  /-- The writes of `saveSession` that succeed. -/
  saved : Service → Bool
  /-- Those that are still in flight when another one has failed, and land last. -/
  late : Service → Bool
  /-- The entries that `clear` removes. -/
  reset : Service → Bool

namespace Keychain

variable (kc : Keychain)

/-- These writes of `saveSession` land. -/
def save (s : AuthSession) (saved : Service → Bool) : Keychain :=
  fun svc => if saved svc then some (s.entry svc) else kc svc

/-- `clear` removes these entries. -/
def clear (reset : Service → Bool) : Keychain := fun svc => if reset svc then none else kc svc

theorem save_eq_entries {s : AuthSession} {saved : Service → Bool}
    (h : ∀ svc, saved svc = true) : kc.save s saved = s.entries := by
  funext svc
  exact if_pos (h svc)

end Keychain

/-- `bootstrap`, when `loadSession` has returned `null`. -/
def bootWithout (devAutoLogin : Bool) (calls : BootCalls) (kc : Keychain) (st : AuthState) :
    AuthState × Keychain :=
  if devAutoLogin then
    match calls.login with
    | none => (st.notRestored, kc)
    | some s =>
      (if ∀ svc, calls.saved svc = true then st.restored s.toSession else st.notRestored,
        kc.save s calls.saved)
  else (st.notRestored, kc)

/-- `bootstrap`, when the session has expired. -/
def bootRefresh (calls : BootCalls) (kc : Keychain) (st : AuthState) : AuthState × Keychain :=
  match calls.refresh with
  | none => (st.notRestored, kc.clear calls.reset)
  | some s =>
    if ∀ svc, calls.saved svc = true then (st.restored s.toSession, kc.save s calls.saved)
    else
      (st.notRestored, ((kc.save s fun svc => calls.saved svc && !calls.late svc).clear
        calls.reset).save s fun svc => calls.saved svc && calls.late svc)

/-- `bootstrap`: the store and the Keychain afterwards. -/
def bootstrap (devAutoLogin : Bool) (now : ℤ) (calls : BootCalls) (kc : Keychain)
    (st : AuthState) : AuthState × Keychain :=
  if ∀ svc, calls.read svc = true then
    match readSession kc with
    | .missing => bootWithout devAutoLogin calls kc st.boot
    | .damaged => bootWithout devAutoLogin calls (kc.clear calls.reset) st.boot
    | .session x =>
      match isExpiredOrSoon x now with
      | none => (st.boot.notRestored, kc)
      | some true => bootRefresh calls kc st.boot
      | some false => (st.boot.restored x, kc)
  else (st.boot.notRestored, kc)

/-! ### What a bootstrap is for -/

/-- The session has a user. -/
def Session.HasUser (x : Session) : Prop := ∃ members, x.user = some (.obj members)

/-- The number is a minute or more ahead of the clock. -/
def MinuteAhead (now : ℤ) : binary64.Value → Prop
  | .nan => False
  | .infinity negative => negative = false
  | .finite x _ _ => (now : ℚ) + 60000 ≤ x

/-- The session is stored, with a number that is a minute or more ahead of the clock. -/
def StoredFresh (now : ℤ) (kc : Keychain) (x : Session) : Prop :=
  readSession kc = .session x ∧
    ∃ d, x.expiresAt = some (.num d) ∧ MinuteAhead now (Number.finite d).toDouble

/-- There is no stored session. -/
def AsksLogin (calls : BootCalls) (kc : Keychain) : Prop :=
  (∀ svc, calls.read svc = true) ∧ ∀ x, readSession kc ≠ .session x

/-- The stored session is to be refreshed. -/
def AsksRefresh (now : ℤ) (calls : BootCalls) (kc : Keychain) : Prop :=
  (∀ svc, calls.read svc = true) ∧
    ∃ x, readSession kc = .session x ∧ isExpiredOrSoon x now = some true

/-- The provider has been asked for the session and has returned it, and it is saved. -/
def ProvidedAndSaved (now : ℤ) (calls : BootCalls) (kc kc' : Keychain) (x : Session) : Prop :=
  ∃ s, (AsksLogin calls kc ∧ calls.login = some s ∨
    AsksRefresh now calls kc ∧ calls.refresh = some s) ∧ x = s.toSession ∧ kc' = s.entries

/-- Only a usable session is restored. -/
structure OnlyUsable (now : ℤ) (calls : BootCalls) (kc : Keychain)
    (result : AuthState × Keychain) : Prop where
  settled : result.1.status = .authed ∨ result.1.status = .anonymous
  authed : result.1.status = .authed → ∃ x, result.1.session = some x ∧ x.HasUser ∧
    (StoredFresh now kc x ∨ ProvidedAndSaved now calls kc result.2 x)
  cleared : AsksRefresh now calls kc → calls.refresh = none →
    result.2 .accessToken = none ∧ result.2 .refreshToken = none
  anonymous : result.1.status ≠ .authed →
    result.1.status = .anonymous ∧ result.1.session = none

section Results

variable {now : ℤ} {calls : BootCalls} {kc kc' : Keychain} {st : AuthState}

theorem hasUser_toSession (s : AuthSession) : s.toSession.HasUser := ⟨_, rfl⟩

/-- A bootstrap that restores nothing. -/
theorem OnlyUsable.of_notRestored (h : AsksRefresh now calls kc → calls.refresh = none →
    kc' .accessToken = none ∧ kc' .refreshToken = none) :
    OnlyUsable now calls kc (st.notRestored, kc') where
  settled := .inr rfl
  authed := nofun
  cleared := h
  anonymous _ := ⟨rfl, rfl⟩

/-- A session that the provider has returned is saved. -/
theorem OnlyUsable.of_saved {s : AuthSession}
    (hs : AsksLogin calls kc ∧ calls.login = some s ∨
      AsksRefresh now calls kc ∧ calls.refresh = some s)
    (hsaved : ∀ svc, calls.saved svc = true)
    (hrefresh : AsksRefresh now calls kc → calls.refresh ≠ none) :
    OnlyUsable now calls kc (st.restored s.toSession, kc'.save s calls.saved) where
  settled := .inl rfl
  authed _ := ⟨_, rfl, hasUser_toSession s, .inr ⟨s, hs, rfl, kc'.save_eq_entries hsaved⟩⟩
  cleared h hnone := absurd hnone (hrefresh h)
  anonymous h := absurd rfl h

theorem AsksLogin.not_asksRefresh (h : AsksLogin calls kc) : ¬ AsksRefresh now calls kc :=
  fun ⟨_, x, hx, _⟩ => h.2 x hx

/-- Without a stored session, there is a provided one or none. -/
theorem OnlyUsable.bootWithout (devAutoLogin : Bool) (hasks : AsksLogin calls kc) :
    OnlyUsable now calls kc (FCord.bootWithout devAutoLogin calls kc' st) := by
  have h : ¬ AsksRefresh now calls kc := hasks.not_asksRefresh
  unfold FCord.bootWithout
  by_cases hdev : devAutoLogin = true
  · rw [if_pos hdev]
    cases hs : calls.login with
    | none => exact .of_notRestored fun ha => absurd ha h
    | some s =>
      by_cases hsaved : ∀ svc, calls.saved svc = true
      · simp only [if_pos hsaved]
        exact .of_saved (.inl ⟨hasks, hs⟩) hsaved fun ha => absurd ha h
      · simp only [if_neg hsaved]
        exact .of_notRestored fun ha => absurd ha h
  · rw [if_neg hdev]
    exact .of_notRestored fun ha => absurd ha h

/-- The session has a user, and a numeric expiry.  On a clock before 1970 the expiry may be small
enough for the difference to be rounded up to a minute, so it has to be a minute ahead itself. -/
def Session.Usable (now : ℤ) (x : Session) : Prop :=
  x.HasUser ∧ ∃ d, x.expiresAt = some (.num d) ∧
    (now < 0 → MinuteAhead now (Number.finite d).toDouble)

/-- The stored session is not restored as it is unless it is usable. -/
def StoredUsable (now : ℤ) (calls : BootCalls) (kc : Keychain) : Prop :=
  ∀ x, (∀ svc, calls.read svc = true) → readSession kc = .session x →
    isExpiredOrSoon x now = some false → x.Usable now

/-- If the refresh fails, then the tokens can be removed. -/
def TokensRemovable (now : ℤ) (calls : BootCalls) (kc : Keychain) : Prop :=
  AsksRefresh now calls kc → calls.refresh = none →
    calls.reset .accessToken = true ∧ calls.reset .refreshToken = true

/-- The tokens of a stored session are cleared exactly if their entries can be removed. -/
theorem cleared_iff {x : Session} (hx : readSession kc = .session x) (svc : Service) :
    kc.clear calls.reset svc = none ↔ calls.reset svc = true := by
  have hsome : kc svc ≠ none := by
    intro hnone
    cases hx.symm.trans (readSession_eq_missing_iff.2 ⟨svc, hnone⟩)
  simp [Keychain.clear, hsome]

/-- An expired session is refreshed or dropped. -/
theorem onlyUsable_bootRefresh_iff {x : Session} (hread : ∀ svc, calls.read svc = true)
    (hx : readSession kc = .session x) (hexp : isExpiredOrSoon x now = some true) :
    OnlyUsable now calls kc (bootRefresh calls kc st) ↔ TokensRemovable now calls kc := by
  have hasks : AsksRefresh now calls kc := ⟨hread, x, hx, hexp⟩
  unfold bootRefresh
  cases hs : calls.refresh with
  | none =>
    have hcleared : (kc.clear calls.reset .accessToken = none ∧
        kc.clear calls.reset .refreshToken = none) ↔
        calls.reset .accessToken = true ∧ calls.reset .refreshToken = true :=
      and_congr (cleared_iff hx _) (cleared_iff hx _)
    exact ⟨fun h _ _ => hcleared.1 (h.cleared hasks hs),
      fun h => .of_notRestored fun _ _ => hcleared.2 (h hasks hs)⟩
  | some s =>
    have hsome : calls.refresh ≠ none := by simp [hs]
    refine ⟨fun _ _ hnone => absurd hnone hsome, fun _ => ?_⟩
    by_cases hsaved : ∀ svc, calls.saved svc = true
    · simp only [if_pos hsaved]
      exact .of_saved (.inr ⟨hasks, hs⟩) hsaved fun _ => hsome
    · simp only [if_neg hsaved]
      exact .of_notRestored fun _ hnone => absurd hnone hsome

/-- After 1970, a number that passes the expiry test is a minute ahead. -/
theorem minuteAhead_of_test {v : binary64.Value} (hnow : 0 ≤ now)
    (h : (v.sub now).lt 60000 = false) (hv : v ≠ .nan) : MinuteAhead now v := by
  cases v with
  | nan => exact absurd rfl hv
  | infinity negative => exact h
  | finite x digits small =>
    have hround : ¬ binary64.round (x - now) < 60000 := fun hlt =>
      Bool.eq_false_iff.1 h ((FloatFormat.Value.ofRat_lt_iff sixty_seconds_small).2 hlt)
    rw [round_sub_lt_iff digits hnow, not_lt] at hround
    exact le_sub_iff_add_le'.1 hround

theorem toDouble_finite_ne_nan (d : Decimal) : (Number.finite d).toDouble ≠ .nan := by
  simp only [Number.toDouble, FloatFormat.Value.ofRat]
  split_ifs
  · exact fun he => by cases he
  · exact fun he => by cases he

/-- A session that is restored as it is. -/
theorem onlyUsable_restored_iff {x : Session} (hx : readSession kc = .session x)
    (hexp : isExpiredOrSoon x now = some false) :
    OnlyUsable now calls kc (st.restored x, kc) ↔ x.Usable now := by
  constructor
  · intro h
    obtain ⟨y, hy, huser, hor⟩ := h.authed rfl
    obtain rfl : x = y := Option.some.inj hy
    refine ⟨huser, ?_⟩
    rcases hor with ⟨-, d, hd, hahead⟩ | ⟨s, ⟨hasks, -⟩ | ⟨⟨-, y, hy, hexp'⟩, -⟩, -⟩
    · exact ⟨d, hd, fun _ => hahead⟩
    · exact absurd hx (hasks.2 x)
    · cases hx.symm.trans hy
      cases hexp.symm.trans hexp'
  · rintro ⟨huser, d, hd, hearly⟩
    have htest : ((Number.finite d).toDouble.sub now).lt 60000 = false := by
      rw [isExpiredOrSoon, hd] at hexp
      exact Option.some.inj hexp
    have hahead : MinuteAhead now (Number.finite d).toDouble := by
      by_cases hnow : now < 0
      · exact hearly hnow
      · exact minuteAhead_of_test (not_lt.1 hnow) htest (toDouble_finite_ne_nan d)
    refine ⟨.inl rfl, fun _ => ⟨x, rfl, huser, .inl ⟨hx, d, hd, hahead⟩⟩, ?_,
      fun h => absurd rfl h⟩
    rintro ⟨-, y, hy, hexp'⟩
    cases hx.symm.trans hy
    cases hexp.symm.trans hexp'

/-- Without a stored session that can be read, the condition holds. -/
theorem conditions_of_no_session (now : ℤ) (calls : BootCalls) (kc : Keychain)
    (h : ∀ x, (∀ svc, calls.read svc = true) → readSession kc ≠ .session x) :
    StoredUsable now calls kc ∧ TokensRemovable now calls kc ∧ ¬ AsksRefresh now calls kc :=
  ⟨fun x hread hx => absurd hx (h x hread), fun ⟨hread, x, hx, _⟩ => absurd hx (h x hread),
    fun ⟨hread, x, hx, _⟩ => h x hread hx⟩

end Results

/-- Every call succeeds, and the provider has nothing to return. -/
def quietCalls : BootCalls where
  read := fun _ => true
  login := none
  refresh := none
  saved := fun _ => true
  late := fun _ => false
  reset := fun _ => true

/-- Two tokens, and a text that says nothing about them. -/
def emptyMeta : Keychain
  | .sessionMeta => some "{}"
  | _ => some "token"

end FCord
