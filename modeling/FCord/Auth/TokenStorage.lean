import FCord.Data.JsonRoundTrip
import FCord.Data.Number
import Mathlib.Logic.Function.Basic

/-!
# Token storage

A session is kept in three Keychain entries: the access token, the refresh token, and a JSON
text with everything else.  `tokenStorage` writes the three entries one by one, so what it reads
back is a session only if all three were written together (`readSession_entries`,
`readSession_of_covers`).
-/

namespace FCord

/-- The Keychain services of `tokenStorage`. -/
inductive Service where
  /-- `ibk_stt_access_token` -/
  | accessToken
  /-- `ibk_stt_refresh_token` -/
  | refreshToken
  /-- `ibk_stt_session_meta` -/
  | sessionMeta
  deriving DecidableEq, Repr

/-- A statement about the three services can be checked. -/
instance (P : Service → Prop) [DecidablePred P] : Decidable (∀ svc, P svc) :=
  decidable_of_iff (P .accessToken ∧ P .refreshToken ∧ P .sessionMeta)
    ⟨fun h svc => by cases svc <;> simp [h], fun h => ⟨h _, h _, h _⟩⟩

/-- The password stored under each service. -/
abbrev Keychain := Service → Option String

structure AuthUser where
  id : String
  name : String
  department : Option String
  email : Option String
  deriving DecidableEq, Repr

/-- A session as a provider issues it. -/
structure AuthSession where
  user : AuthUser
  accessToken : String
  refreshToken : String
  /-- In milliseconds. -/
  expiresAt : Decimal
  providerName : String
  deriving DecidableEq, Repr

/-- A session object in memory.  A property read from JSON can be anything, or missing. -/
structure Session where
  user : Option Json
  accessToken : String
  refreshToken : String
  expiresAt : Option Json
  providerName : Option Json

/-- An optional property; `undefined` is not written. -/
def optionalMember (name : String) (value : Option String) : List (String × Json) :=
  (value.map fun s => (name, Json.str s)).toList

def AuthUser.toJson (u : AuthUser) : Json :=
  .obj ([("id", .str u.id), ("name", .str u.name)] ++ optionalMember "department" u.department ++
    optionalMember "email" u.email)

namespace AuthSession

variable (s : AuthSession)

/-- `SessionMeta` -/
def sessionMeta : Json :=
  .obj [("user", s.user.toJson), ("expiresAt", .num s.expiresAt),
    ("providerName", .str s.providerName)]

/-- The same session as an object in memory. -/
def toSession : Session where
  user := some s.user.toJson
  accessToken := s.accessToken
  refreshToken := s.refreshToken
  expiresAt := some (.num s.expiresAt)
  providerName := some (.str s.providerName)

/-- What `saveSession` writes under each service. -/
def entry : Service → String
  | .accessToken => s.accessToken
  | .refreshToken => s.refreshToken
  | .sessionMeta => Json.stringify s.sessionMeta

end AuthSession

/-! ### Reading -/

/-- What `loadSession` makes of the three entries. -/
inductive Loaded where
  /-- One of them is missing. -/
  | missing
  /-- The exception leads to `clear`. -/
  | damaged
  | session (x : Session)

/-- `loadSession`, when the three reads have returned. -/
def readSession (kc : Keychain) : Loaded :=
  match kc .accessToken, kc .refreshToken, kc .sessionMeta with
  | some access, some refresh, some text =>
    match Json.parse text with
    | none => .damaged
    | some sessionMeta =>
      -- a property of `null` cannot be read; a property that is not there is `undefined`
      match sessionMeta.field? "user", sessionMeta.field? "expiresAt",
        sessionMeta.field? "providerName" with
      | some user, some expiresAt, some providerName =>
        .session ⟨user, access, refresh, expiresAt, providerName⟩
      | _, _, _ => .damaged
  | _, _, _ => .missing

/-- `clear`, when nothing fails. -/
def Keychain.cleared : Keychain := fun _ => none

/-- `loadSession` with nothing else going on: the result, and the Keychain afterwards. -/
def loadSession (kc : Keychain) : Option Session × Keychain :=
  match readSession kc with
  | .missing => (none, kc)
  | .damaged => (none, .cleared)
  | .session x => (some x, kc)

def getAccessToken (kc : Keychain) : Option String := kc .accessToken

def getRefreshToken (kc : Keychain) : Option String := kc .refreshToken

/-- `isExpiredOrSoon`: expired, or about to expire within a minute; `none` where the subtraction
throws.  The clock is a time value, which double precision keeps. -/
def isExpiredOrSoon (x : Session) (now : ℤ) : Option Bool :=
  match x.expiresAt with
  -- `undefined` is converted to `NaN`
  | none => some false
  | some j => j.toNumber.map fun n => (n.toDouble.sub now).lt 60000

/-! ### Loading no session -/

theorem readSession_eq_missing_iff {kc : Keychain} :
    readSession kc = .missing ↔ ∃ svc, kc svc = none := by
  constructor
  · intro h
    by_contra hall
    push Not at hall
    obtain ⟨access, ha⟩ := Option.ne_none_iff_exists'.1 (hall .accessToken)
    obtain ⟨refresh, hr⟩ := Option.ne_none_iff_exists'.1 (hall .refreshToken)
    obtain ⟨text, hm⟩ := Option.ne_none_iff_exists'.1 (hall .sessionMeta)
    simp only [readSession, ha, hr, hm] at h
    split at h
    · cases h
    · split at h <;> cases h
  · rintro ⟨svc, hsvc⟩
    unfold readSession
    split
    · cases svc <;> simp_all
    · rfl

/-- **When `loadSession` fails closed.**  If it returns `null`, then no token can be read
afterwards, exactly if nothing is missing, so that it has cleared what it could not parse, or there
was no token. -/
theorem loadSession_fails_closed_iff (kc : Keychain) :
    ((loadSession kc).1 = none →
      getAccessToken (loadSession kc).2 = none ∧ getRefreshToken (loadSession kc).2 = none) ↔
    (∀ svc, kc svc ≠ none) ∨ (kc .accessToken = none ∧ kc .refreshToken = none) := by
  unfold loadSession
  cases hread : readSession kc with
  | missing =>
    -- the Keychain is left as it is
    obtain ⟨svc, hsvc⟩ := readSession_eq_missing_iff.1 hread
    exact ⟨fun h => .inr (h rfl), fun h _ => h.resolve_left fun hall => hall svc hsvc⟩
  | damaged =>
    refine ⟨fun _ => .inl fun svc hsvc => ?_, fun _ _ => ⟨rfl, rfl⟩⟩
    cases hread.symm.trans (readSession_eq_missing_iff.2 ⟨svc, hsvc⟩)
  | session x =>
    refine ⟨fun _ => .inl fun svc hsvc => ?_, fun _ hnone => by cases hnone⟩
    cases hread.symm.trans (readSession_eq_missing_iff.2 ⟨svc, hsvc⟩)

/-- The tokens of a session whose third entry is missing stay. -/
theorem tokens_without_meta :
    ¬ ∀ kc, (loadSession kc).1 = none →
      getAccessToken (loadSession kc).2 = none ∧ getRefreshToken (loadSession kc).2 = none := by
  intro h
  have htoken := (h (fun | .sessionMeta => none | _ => some "token") rfl).1
  cases htoken

/-! ### Entries of one session -/

/-- The Keychain holds this session. -/
def AuthSession.entries (s : AuthSession) : Keychain := fun svc => some (s.entry svc)

/-- Each token is read from its own entry, everything else from the third one. -/
theorem readSession_of_meta {kc : Keychain} {s : AuthSession} {access refresh : String}
    (ha : kc .accessToken = some access) (hr : kc .refreshToken = some refresh)
    (hm : kc .sessionMeta = some (s.entry .sessionMeta)) :
    readSession kc =
      .session { s.toSession with accessToken := access, refreshToken := refresh } := by
  simp [readSession, ha, hr, hm, AuthSession.entry, Json.parse_stringify,
    AuthSession.sessionMeta, Json.field?, Json.lookup, AuthSession.toSession]

/-- **Round trip**: the entries of a session are read back as that session. -/
theorem readSession_entries (s : AuthSession) : readSession s.entries = .session s.toSession :=
  readSession_of_meta rfl rfl rfl

theorem loadSession_entries (s : AuthSession) :
    loadSession s.entries = (some s.toSession, s.entries) := by
  simp [loadSession, readSession_entries]

theorem readSession_cleared : readSession .cleared = .missing := rfl

theorem loadSession_fst_eq_some {kc : Keychain} {x : Session} :
    (loadSession kc).1 = some x ↔ readSession kc = .session x := by
  unfold loadSession
  split <;> simp_all

/-- Nothing but entries of the session is stored. -/
def AuthSession.Covers (s : AuthSession) (kc : Keychain) : Prop :=
  ∀ svc, kc svc = none ∨ kc svc = some (s.entry svc)

/-- What is read from entries of one session is that session. -/
theorem readSession_of_covers {s : AuthSession} {kc : Keychain} (h : s.Covers kc) :
    readSession kc = .missing ∨ kc = s.entries := by
  by_cases hall : ∀ svc, kc svc = some (s.entry svc)
  · exact .inr (funext hall)
  · left
    push Not at hall
    obtain ⟨svc, hsvc⟩ := hall
    exact readSession_eq_missing_iff.2 ⟨svc, (h svc).resolve_right hsvc⟩

/-! ### Expiry -/

theorem round_minute : binary64.round 60000 = 60000 := by
  exact_mod_cast FloatFormat.round_binary64_intCast (n := 60000) (by norm_num)

/-- The rounded difference is a minute only if the difference is: where a part of it could get lost,
the number of the session is small. -/
theorem round_sub_lt_iff {x : ℚ} {now : ℤ} (hx : binary64.Represents x) (hnow : 0 ≤ now) :
    binary64.round (x - now) < 60000 ↔ x - now < 60000 := by
  have hnow' : (0 : ℚ) ≤ now := Int.cast_nonneg hnow
  constructor
  · intro h
    by_contra hge
    have hle := FloatFormat.round_mono (f := binary64) (not_lt.1 hge)
    rw [round_minute] at hle
    exact absurd h (not_lt.2 hle)
  · intro h
    -- the largest number below a minute
    have hpred : x - now ≤ (60000 * 2 ^ 37 - 1 : ℤ) * 2 ^ (-37 : ℤ) := by
      by_cases hsmall : |x| < 2 ^ 15
      · have hle := le_abs_self x
        norm_num at hsmall ⊢
        linarith
      · obtain ⟨n, rfl⟩ := hx.exists_eq_mul (e := -37) (by simpa [binary64] using hsmall)
        have hlt : n - now * 2 ^ 37 < 60000 * 2 ^ 37 := by
          have hscaled : (n : ℚ) - now * 2 ^ 37 < 60000 * 2 ^ 37 := by
            norm_num at h ⊢
            linarith
          exact_mod_cast hscaled
        have hle : (n : ℚ) - now * 2 ^ 37 ≤ 60000 * 2 ^ 37 - 1 := by
          exact_mod_cast Int.le_sub_one_of_lt hlt
        norm_num at hle ⊢
        linarith
    have hkept : binary64.round ((60000 * 2 ^ 37 - 1 : ℤ) * 2 ^ (-37 : ℤ)) =
        (60000 * 2 ^ 37 - 1 : ℤ) * 2 ^ (-37 : ℤ) :=
      FloatFormat.Represents.round_eq_self ⟨_, _, by norm_num [binary64], by decide, rfl⟩
    have hle := FloatFormat.round_mono (f := binary64) hpred
    rw [hkept] at hle
    refine hle.trans_lt ?_
    norm_num

/-- The expiry of a session that was saved is a number. -/
theorem isExpiredOrSoon_toSession_ne_none (s : AuthSession) (now : ℤ) :
    isExpiredOrSoon s.toSession now ≠ none :=
  Option.some_ne_none _

theorem sixty_seconds_small : |(60000 : ℚ)| < 2 ^ binary64.maxExponent := by
  refine lt_of_lt_of_le (b := 2 ^ (16 : ℤ)) (by norm_num) ?_
  exact zpow_le_zpow_right₀ one_le_two (by decide)

/-- A stored session has an expiry that can be compared. -/
theorem isExpiredOrSoon_toSession {s : AuthSession} {deadline now : ℤ}
    (hs : s.expiresAt = .ofInt deadline) (hdeadline : |deadline| < 2 ^ 53) :
    isExpiredOrSoon s.toSession now = some (decide (deadline < now + 60000)) := by
  have hvalue : (Decimal.ofInt deadline).value = deadline := by
    simp [Decimal.value, Decimal.ofInt]
  have hlarge : |(deadline : ℚ)| < 2 ^ binary64.maxExponent := by
    refine lt_of_lt_of_le (b := 2 ^ (53 : ℤ)) (by exact_mod_cast hdeadline) ?_
    exact zpow_le_zpow_right₀ one_le_two (by decide)
  have hdouble : (Number.finite s.expiresAt).toDouble =
      .finite deadline (FloatFormat.represents_intCast hdeadline (by decide)) hlarge := by
    simp only [Number.toDouble, hs, hvalue]
    exact FloatFormat.Value.ofRat_of_represents _ _
  have hexpires : isExpiredOrSoon s.toSession now =
      some (((Number.finite s.expiresAt).toDouble.sub now).lt 60000) := rfl
  rw [hexpires, hdouble, Option.some_inj, Bool.eq_iff_iff]
  refine (FloatFormat.Value.ofRat_lt_iff sixty_seconds_small).trans (Iff.trans ?_
    decide_eq_true_iff.symm)
  -- a difference of integers is rounded to a minute only from above
  constructor
  · intro h
    by_contra hge
    have hle : (60000 : ℚ) ≤ deadline - now := by
      have hcast : ((now + 60000 : ℤ) : ℚ) ≤ deadline := Int.cast_le.2 (not_lt.1 hge)
      push_cast at hcast
      linarith
    have hround := FloatFormat.round_mono (f := binary64) hle
    rw [round_minute] at hround
    exact absurd h (not_lt.2 hround)
  · intro h
    have hle : (deadline : ℚ) - now ≤ (59999 : ℤ) := by
      have hcast : (deadline : ℚ) ≤ ((now + 59999 : ℤ) : ℚ) := Int.cast_le.2 (by omega)
      push_cast at hcast ⊢
      linarith
    have hround := FloatFormat.round_mono (f := binary64) hle
    rw [FloatFormat.round_binary64_intCast (by norm_num)] at hround
    refine hround.trans_lt ?_
    norm_num

/-! ### Two users -/

/-- The session of the first user. -/
def leo : AuthSession :=
  ⟨⟨"00001", "김레오", some "디지털혁신본부", some "leo@ibk.test"⟩, "leo_access", "leo_refresh",
    .ofInt 3600000, "mock-sso"⟩

/-- The session of the second user. -/
def hong : AuthSession :=
  ⟨⟨"12345", "홍길동", some "기술부", none⟩, "hong_access", "hong_refresh", .ofInt 7200000,
    "mock-sso"⟩

example : isExpiredOrSoon leo.toSession 3540001 = some true := by decide +kernel

/-- An expiry of less than a minute that double precision makes a minute. -/
example : isExpiredOrSoon { leo.toSession with expiresAt := some (.num ⟨359999999999999999, -11⟩) }
    3540000 = some false := by decide +kernel

end FCord
