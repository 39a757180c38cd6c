import FCord.Api.Client
import FCord.Auth.Agreement

/-!
# Whose token does a request carry?

A request carries the token that the Keychain holds when `getAccessToken` reads it.  What is said of
a request here is said of that moment; its `fetch` follows an await later.  The calls of the
Keychain succeed, in any order.  If nobody presses the logout button while a logout is going on
(`OneLogout`), then logins and logouts never write at the same time (`apart_of_oneLogout`), and no
request ever reads the token of another user (`requests_carry_own_token`).
-/

namespace FCord

namespace Auth

/-- The operation belongs to `logout`. -/
def Op.isLogout : Op → Bool
  | .revoking => true
  | .clearing _ => true
  | _ => false

/-- A logout starts only when none is going on. -/
def OneLogout (s : State) : Label → Prop
  | .logout => ∀ op ∈ s.ops.values, op.isLogout = false
  | _ => True

/-- A logout runs alone: nobody has logged in since it started. -/
def LogoutAlone (s : State) : Prop :=
  ∀ p op, s.ops.get? p = some op → op.isLogout = true →
    s.store.status = .authed ∧ ∀ q op', s.ops.get? q = some op' → op'.isLogout = true → q = p

/-- While a session is in the store, its token is in the Keychain until a logout erases it. -/
def TokenKept (s : State) : Prop :=
  ∀ x, s.store.status = .authed → s.store.session = some x →
    s.kc .accessToken = some x.accessToken ∨ (s.kc .accessToken = none ∧ LogoutActive s)

variable {s s' : State}

/-! ### Logins and logouts exclude each other -/

/-- The logouts of `s'` were going on in `s`. -/
def SameLogouts (s s' : State) : Prop :=
  ∀ q op', s'.ops.get? q = some op' → op'.isLogout = true →
    ∃ op, s.ops.get? q = some op ∧ op.isLogout = true

section SameLogouts

variable {ops : Table OpId Op} {p : OpId} {op op' : Op}

theorem sameLogouts_set (hp : s.ops.get? p = some op)
    (h : op'.isLogout = true → op.isLogout = true) (hops : s'.ops = s.ops.set p op') :
    SameLogouts s s' := by
  intro q new hq hnew
  rw [hops] at hq
  rcases Table.of_get?_set hq with ⟨rfl, rfl⟩ | ⟨-, hq⟩
  · exact ⟨op, hp, h hnew⟩
  · exact ⟨new, hq, hnew⟩

theorem sameLogouts_erase (hops : s'.ops = s.ops.erase p) : SameLogouts s s' := by
  intro q new hq hnew
  rw [hops] at hq
  exact ⟨new, (Table.of_get?_erase hq).2, hnew⟩

theorem sameLogouts_push (ha : Agreement s) (h : op.isLogout = false)
    (hops : s'.ops = s.ops.push s.nextId op) : SameLogouts s s' := by
  intro q new hq hnew
  rw [hops] at hq
  rcases Table.of_get?_push ha.nextId_fresh hq with ⟨-, rfl⟩ | ⟨-, hq⟩
  · rw [h] at hnew
    cases hnew
  · exact ⟨new, hq, hnew⟩

end SameLogouts

namespace LogoutAlone

theorem not_logoutActive (h : LogoutAlone s) (hst : s.store.status ≠ .authed) :
    ¬ LogoutActive s := by
  rintro ⟨p, done, svc, hp, -⟩
  exact hst (h p _ hp rfl).1

/-- Logins and logouts do not write at the same time. -/
theorem apart (h : LogoutAlone s) (ha : Agreement s) (l : Label) : Apart s l := by
  cases l with
  | land p svc =>
    refine ⟨fun a done hp => h.not_logoutActive ?_, ?_⟩
    · rw [(ha.login p _ hp rfl).1]
      exact nofun
    · rintro done hp ⟨q, a, done', svc', hq, -⟩
      have hst := (h p _ hp rfl).1
      rw [(ha.login q _ hq rfl).1] at hst
      cases hst
  | _ => trivial

/-- No logout starts, and nobody is logged out. -/
theorem of_same (h : LogoutAlone s) (hsame : SameLogouts s s')
    (hst : s.store.status = .authed → s'.store.status = .authed) : LogoutAlone s' := by
  intro p op hp hop
  obtain ⟨op₀, hp₀, hop₀⟩ := hsame p op hp hop
  refine ⟨hst (h p op₀ hp₀ hop₀).1, fun q op' hq hop' => ?_⟩
  obtain ⟨op₁, hq₁, hop₁⟩ := hsame q op' hq hop'
  exact (h p op₀ hp₀ hop₀).2 q op₁ hq₁ hop₁

theorem move (h : LogoutAlone s) (ha : Agreement s) {l : Label} (hok : OneLogout s l)
    (hm : Move s l s') : LogoutAlone s' := by
  cases hm with
  | bootstrap hmount =>
    refine h.of_same (sameLogouts_push ha rfl rfl) fun hst => ?_
    rw [(ha.unmounted hmount).2.1] at hst
    cases hst
  | login hst hsub => exact h.of_same (sameLogouts_push ha rfl rfl) id
  | @logout op hst hop =>
    -- it is the only one
    have hall : ∀ q op', (s.ops.push s.nextId op).get? q = some op' → op'.isLogout = true →
        q = s.nextId := by
      intro q op' hq hop'
      rcases Table.of_get?_push ha.nextId_fresh hq with ⟨hq, -⟩ | ⟨-, hq⟩
      · exact hq
      · rw [hok op' (Table.mem_values_iff.2 ⟨q, hq⟩)] at hop'
        cases hop'
    intro p op' hp hop'
    exact ⟨hst, fun q op'' hq hop'' => (hall q op'' hq hop'').trans (hall p op' hp hop').symm⟩
  | clearError => exact h
  | @boot l p op op' hp ht =>
    refine h.of_same (sameLogouts_set hp ?_ rfl) id
    cases ht <;> exact nofun
  | drop svc hp => exact h.of_same (sameLogouts_set hp (by simp [Op.isLogout]) rfl) id
  | restore svc hp => exact h.of_same (sameLogouts_set hp (by simp [Op.isLogout]) rfl) id
  | @notRestored l p op hp he =>
    refine h.of_same (sameLogouts_erase rfl) fun hst => ?_
    have hb : op.isBoot = true := by cases he <;> rfl
    rw [(ha.boot p op hp hb).1] at hst
    cases hst
  | loaded hp hgot hread => exact h.of_same (sameLogouts_erase rfl) fun _ => rfl
  | restored hp hdone => exact h.of_same (sameLogouts_erase rfl) fun _ => rfl
  | granted a hp => exact h.of_same (sameLogouts_set hp (by simp [Op.isLogout]) rfl) id
  | loginFailed thrown hp => exact h.of_same (sameLogouts_erase rfl) id
  | save svc hp => exact h.of_same (sameLogouts_set hp (by simp [Op.isLogout]) rfl) id
  | loggedIn hp hdone => exact h.of_same (sameLogouts_erase rfl) fun _ => rfl
  | revoked hp => exact h.of_same (sameLogouts_set hp (fun _ => rfl) rfl) id
  | clear svc hp => exact h.of_same (sameLogouts_set hp (fun _ => rfl) rfl) id
  | @loggedOut l p done hp hdone =>
    -- it was the only one
    intro q op hq hop
    obtain ⟨hqp, hq⟩ := Table.of_get?_erase hq
    exact absurd ((h p _ hp rfl).2 q op hq hop) hqp

end LogoutAlone

/-- **One logout at a time is enough**: then no login and no logout write at the same time. -/
theorem apart_of_oneLogout (h : (authStore.guard OneLogout).Reachable s) :
    (authStore.guard Apart).Reachable s ∧ LogoutAlone s := by
  refine h.invariant (I := fun s => (authStore.guard Apart).Reachable s ∧ LogoutAlone s) ?_ ?_
  · rintro s ⟨kc, dev, hkc, rfl⟩
    exact ⟨.start ⟨kc, dev, hkc, rfl⟩, fun p op hp => nomatch hp⟩
  · rintro s l s' ⟨hr, hl⟩ ⟨hok, hst⟩
    have ha := Agreement.of_reachable hr
    exact ⟨hr.step ⟨hl.apart ha l, hst⟩, hl.move ha hok (.of_step hst)⟩

/-! ### Tokens -/

theorem accessToken_of_readSession {kc : Keychain} {x : Session}
    (h : readSession kc = .session x) : kc .accessToken = some x.accessToken := by
  unfold readSession at h
  split at h
  · rename_i access refresh text haccess hrefresh htext
    split at h
    · cases h
    · split at h
      · cases h
        exact haccess
      · cases h
  · cases h

namespace TokenKept

/-- Neither the session in the store nor the Keychain changes. -/
theorem of_same (h : TokenKept s) (hkc : s'.kc = s.kc) (hst : s'.store.status = s.store.status)
    (hses : s'.store.session = s.store.session) (hout : LogoutActive s') : TokenKept s' := by
  intro x hauthed hx
  rw [hkc]
  rcases h x (hst ▸ hauthed) (hses ▸ hx) with hkept | ⟨hnone, -⟩
  · exact .inl hkept
  · exact .inr ⟨hnone, hout⟩

/-- Nobody is logged in. -/
theorem of_status (hst : s.store.status ≠ .authed) : TokenKept s := fun _ hauthed =>
  absurd hauthed hst

/-- No logout has erased anything. -/
theorem of_agreement (ha : Agreement s) (hout : ¬ LogoutActive s) : TokenKept s := by
  intro x hauthed hx
  obtain ⟨x', hx', hread⟩ := ha.authed hauthed
  cases hx.symm.trans hx'
  exact .inl (accessToken_of_readSession (hread hout))

theorem move (h : TokenKept s) (ha : Agreement s) (ha' : Agreement s') (hl : LogoutAlone s)
    {l : Label} (hm : Move s l s') : TokenKept s' := by
  by_cases hout : LogoutActive s'
  swap
  · exact of_agreement ha' hout
  -- an active logout has been going on with this session
  have hold : SameLogouts s s' → s.store.status = .authed := by
    intro hsame
    obtain ⟨p, done, svc, hp, -⟩ := hout
    obtain ⟨op, hop, hlog⟩ := hsame p _ hp rfl
    exact (hl p op hop hlog).1
  have hboot : ∀ {p op}, s.ops.get? p = some op → op.isBoot = true →
      ¬ s.store.status = .authed := by
    intro p op hp hb
    simp [(ha.boot p op hp hb).1]
  cases hm with
  | bootstrap hmount => exact of_status nofun
  | login hst hsub => exact h.of_same rfl rfl rfl hout
  | logout hst hop => exact h.of_same rfl rfl rfl hout
  | clearError => exact h.of_same rfl rfl rfl hout
  | boot hp ht => exact h.of_same rfl rfl rfl hout
  | drop svc hp => exact of_status (hboot hp rfl)
  | restore svc hp => exact of_status (hboot hp rfl)
  | notRestored hp he => exact of_status nofun
  | loaded hp hgot hread => exact absurd (hold (sameLogouts_erase rfl)) (hboot hp rfl)
  | restored hp hdone => exact absurd (hold (sameLogouts_erase rfl)) (hboot hp rfl)
  | granted a hp => exact h.of_same rfl rfl rfl hout
  | loginFailed thrown hp => exact h.of_same rfl rfl rfl hout
  | @save p a done svc hp =>
    refine of_status ?_
    simp [(ha.login p _ hp rfl).1]
  | @loggedIn l p a done hp hdone =>
    have hst := hold (sameLogouts_erase rfl)
    rw [(ha.login p _ hp rfl).1] at hst
    cases hst
  | revoked hp => exact h.of_same rfl rfl rfl hout
  | clear svc hp =>
    intro x hauthed hx
    by_cases he : svc = .accessToken
    · subst he
      exact .inr ⟨by simp, hout⟩
    · simp only [Function.update_of_ne (Ne.symm he)]
      exact (h x hauthed hx).imp_right fun hnone => ⟨hnone.1, hout⟩
  | loggedOut hp hdone => exact of_status nofun

end TokenKept

theorem tokenKept_of_oneLogout (h : (authStore.guard OneLogout).Reachable s) : TokenKept s := by
  refine h.invariant_of ?_ ?_
  · rintro s ⟨kc, dev, hkc, rfl⟩
    exact TokenKept.of_status nofun
  · rintro s l s' hr hi ⟨hok, hst⟩
    obtain ⟨hapart, hl⟩ := apart_of_oneLogout hr
    obtain ⟨hapart', -⟩ := apart_of_oneLogout (hr.step ⟨hok, hst⟩)
    exact hi.move (.of_reachable hapart) (.of_reachable hapart') hl (.of_step hst)

/-- Who is behind a request whose token is read now. -/
structure OwnRequest (s : State) (f : Fetch) : Prop where
  /-- The user of the session; or nobody, because a logout has erased the token or because the
  session never had one. -/
  authed : s.store.status = .authed → ∃ x, s.store.session = some x ∧
    (f.Signed x.accessToken ∨ f.Unsigned ∧ (LogoutActive s ∨ x.accessToken = ""))
  /-- Nobody; or the user who is just logging in. -/
  anonymous : s.store.status = .anonymous →
    f.Unsigned ∨ ∃ p a done, s.ops.get? p = some (.saving a done) ∧ f.Signed a.accessToken

theorem OwnRequest.of_token {call : ApiCall} {baseUrl : String}
    (hauthed : s.store.status = .authed → ∃ x, s.store.session = some x ∧
      (s.kc .accessToken = some x.accessToken ∨ (s.kc .accessToken = none ∧ LogoutActive s)))
    (hanon : s.store.status = .anonymous → s.kc .accessToken = none ∨
      ∃ p a done, s.ops.get? p = some (.saving a done) ∧ s.kc .accessToken = some a.accessToken) :
    OwnRequest s (call.fetch baseUrl (getAccessToken s.kc)) where
  authed hst := by
    obtain ⟨x, hx, htoken | ⟨hnone, hout⟩⟩ := hauthed hst
    · rw [getAccessToken, htoken]
      by_cases he : x.accessToken = ""
      · exact ⟨x, hx, .inr ⟨call.unsigned baseUrl (.inr (by rw [he])), .inr he⟩⟩
      · exact ⟨x, hx, .inl (call.signed baseUrl he)⟩
    · rw [getAccessToken, hnone]
      exact ⟨x, hx, .inr ⟨call.unsigned baseUrl (.inl rfl), .inl hout⟩⟩
  anonymous hst := by
    obtain hnone | ⟨p, a, done, hp, htoken⟩ := hanon hst
    · rw [getAccessToken, hnone]
      exact .inl (call.unsigned baseUrl (.inl rfl))
    · rw [getAccessToken, htoken]
      by_cases he : a.accessToken = ""
      · exact .inl (call.unsigned baseUrl (.inr (by rw [he])))
      · exact .inr ⟨p, a, done, hp, call.signed baseUrl he⟩

/-- **No request reads the token of another user**, as long as the logout button is not pressed
while a logout is going on; and then the store and the Keychain agree whenever nothing runs. -/
theorem requests_carry_own_token (h : (authStore.guard OneLogout).Reachable s) (baseUrl : String)
    (call : ApiCall) :
    OwnRequest s (call.fetch baseUrl (getAccessToken s.kc)) ∧ (Idle s → Agree s) := by
  have ha := Agreement.of_reachable (apart_of_oneLogout h).1
  refine ⟨.of_token (fun hst => ?_) fun hst => ?_, ha.agree⟩
  · obtain ⟨x, hx, -⟩ := ha.authed hst
    exact ⟨x, hx, tokenKept_of_oneLogout h x hst hx⟩
  · by_cases hin : LoginActive s
    · obtain ⟨p, a, done, svc, hp, -⟩ := hin
      have htoken := ha.saving p a done hp .accessToken
      split_ifs at htoken
      · exact .inr ⟨p, a, done, hp, htoken⟩
      · exact .inl htoken
    · rw [(ha.anonymous hst).2 hin]
      exact .inl rfl

instance (s : State) (l : Label) : Decidable (OneLogout s l) := by
  unfold OneLogout
  split <;> infer_instance

/-- `BASE_URL` -/
def faicord : String := "https://faicord.fingerservice.co.kr"

/-- The request of `getRecordingList`. -/
def listMeetings : ApiCall := .request "GET" "/api/meetings" none

/-- A user logs in, and a logout has just erased the access token. -/
def tokenErased : List Label :=
  .bootstrap :: landAll 0 ++ [.resume 0 0 .ok, .login, .resume 1 0 (.session leo)] ++ landAll 1 ++
    [.resume 1 0 .ok, .logout, .resume 2 0 .ok, .land 2 .accessToken]

/-- A request of the list screen is then sent in nobody's name. -/
theorem requests_carry_own_token_erased :
    ∃ s, (authStore.guard OneLogout).Reachable s ∧ s.store.status = .authed ∧
      ((listMeetings.fetch faicord (getAccessToken s.kc)).Unsigned) ∧
      OwnRequest s (listMeetings.fetch faicord (getAccessToken s.kc)) := by
  have hrun : (LTS.exec (fun s l => if decide (OneLogout s l) then step s l else none)
      (init .cleared false) tokenErased).map (fun s => (s.store.status, s.kc .accessToken)) =
      some (.authed, none) := by decide +kernel
  obtain ⟨s, hs, he⟩ := Option.map_eq_some_iff.1 hrun
  simp only [Prod.mk.injEq] at he
  have hr : (authStore.guard OneLogout).Reachable s :=
    LTS.guard_reachable_of_check (fun _ _ => of_decide_eq_true)
      (.start ⟨.cleared, false, .inl rfl, rfl⟩) hs
  exact ⟨s, hr, he.1, listMeetings.unsigned _ (.inl he.2), (requests_carry_own_token hr _ _).1⟩

end Auth

end FCord
