import FCord.Auth.Operations

/-!
# Do the store and the Keychain agree?

`logout` has no guard of its own, so a second one can still be clearing the Keychain when a later
`login` saves its session, and then the store and the Keychain keep what different operations wrote
last (`disagreement`).  Everything is well as long as the two never write at the same time
(`Apart`, `agree_of_apart`).
-/

namespace FCord

namespace Auth

/-- A login has written to the Keychain, but not yet to the store. -/
def LoginActive (s : State) : Prop :=
  ∃ p a done svc, s.ops.get? p = some (.saving a done) ∧ done svc = true

/-- A logout has reset Keychain entries, but not yet written to the store. -/
def LogoutActive (s : State) : Prop :=
  ∃ p done svc, s.ops.get? p = some (.clearing done) ∧ done svc = true

/-- Keychain calls of a login land only while no logout is active, and the other way round. -/
def Apart (s : State) : Label → Prop
  | .land p _ => (∀ a done, s.ops.get? p = some (.saving a done) → ¬ LogoutActive s) ∧
      ∀ done, s.ops.get? p = some (.clearing done) → ¬ LoginActive s
  | _ => True

/-- No operation is running. -/
def Idle (s : State) : Prop := s.ops.keys = []

/-- The store and the Keychain agree. -/
def Agree (s : State) : Prop :=
  (s.store.status = .authed → ∃ x, s.store.session = some x ∧ (loadSession s.kc).1 = some x) ∧
    (s.store.status = .anonymous → s.store.session = none ∧ getAccessToken s.kc = none)

/-- What `bootstrap` relies on. -/
def BootOk (kc : Keychain) : Op → Prop
  | .loading got => Complete kc ∧ ∀ svc v, got svc = some v → v = kc svc
  | .dropping _ done => ∀ svc, done svc = true → kc svc = none
  | .autoLogin => kc = .cleared
  | .restoring a done => ∀ svc, done svc = true → kc svc = some (a.entry svc)
  | _ => True

/-- The invariant. -/
structure Agreement (s : State) : Prop where
  ids : ∀ p ∈ s.ops.keys, p < s.nextId
  unmounted : s.mounted = false →
    s.ops.keys = [] ∧ s.store.status = .booting ∧ Complete s.kc
  /-- `bootstrap` runs alone. -/
  boot : ∀ p op, s.ops.get? p = some op → op.isBoot = true →
    s.store.status = .booting ∧ s.ops.keys = [p] ∧ BootOk s.kc op
  booting : s.store.status = .booting →
    ∀ p op, s.ops.get? p = some op → op.isBoot = true
  anonymous : s.store.status = .anonymous →
    s.store.session = none ∧ (¬ LoginActive s → s.kc = .cleared)
  authed : s.store.status = .authed →
    ∃ x, s.store.session = some x ∧ (¬ LogoutActive s → readSession s.kc = .session x)
  /-- There is at most one login. -/
  login : ∀ p op, s.ops.get? p = some op → op.isLogin = true →
    s.store.status = .anonymous ∧ s.store.isSubmitting = true ∧
      ∀ q op', s.ops.get? q = some op' → op'.isLogin = true → q = p
  saving : ∀ p a done, s.ops.get? p = some (.saving a done) →
    ∀ svc, s.kc svc = if done svc then some (a.entry svc) else none
  clearing : ∀ p done, s.ops.get? p = some (.clearing done) →
    ∀ svc, done svc = true → s.kc svc = none
  apart : ¬ (LoginActive s ∧ LogoutActive s)

/-! ### Operations that have landed nothing -/

/-- An operation of `login` or `logout` none of whose Keychain calls has landed. -/
def Op.quiet : Op → Bool
  | .asking => true
  | .saving _ done => decide (∀ svc, done svc = false)
  | .revoking => true
  | .clearing done => decide (∀ svc, done svc = false)
  | _ => false

theorem Op.quiet_of_isBoot {op : Op} (h : op.isBoot = true) : op.quiet = false := by
  cases op <;> first | rfl | cases h

theorem Op.not_quiet_saving {a : AuthSession} {done : Service → Bool} {svc : Service}
    (h : done svc = true) : (Op.saving a done).quiet ≠ true := by
  intro hq
  have := of_decide_eq_true hq svc
  simp [h] at this

theorem Op.not_quiet_clearing {done : Service → Bool} {svc : Service} (h : done svc = true) :
    (Op.clearing done).quiet ≠ true := by
  intro hq
  have := of_decide_eq_true hq svc
  simp [h] at this

/-! ### The table of operations -/

section Ops

variable {s : State} {p q : OpId} {op op' : Op}

theorem get?_set_op (h : s.ops.get? p = some op) :
    (s.ops.set p op').get? q = if q = p then some op' else s.ops.get? q := by
  rw [Table.get?_set]
  split_ifs with he
  · rw [he, h, Option.map_some]
  · rfl

theorem get?_of_set {new : Op}
    (hq : (s.ops.set p op').get? q = some new) (hne : new ≠ op') : s.ops.get? q = some new := by
  rcases Table.of_get?_set hq with ⟨-, he⟩ | ⟨-, hq⟩
  · exact absurd he hne
  · exact hq

theorem keys_finish (hk : s.ops.keys = [p]) (store : AuthState) :
    (s.finish p store).ops.keys = [] := by
  simp [State.finish, Table.keys_erase, hk]

end Ops

namespace Agreement

variable {s s' : State}

theorem nextId_fresh (h : Agreement s) : s.nextId ∉ s.ops.keys := Table.not_mem_of_lt h.ids

theorem mounted_of_op (h : Agreement s) {p : OpId} {op : Op} (hp : s.ops.get? p = some op) :
    s.mounted = true := by
  by_contra hm
  exact Table.get?_ne_some (h.unmounted (by simpa using hm)).1 hp

theorem mounted_of_status (h : Agreement s) (hst : s.store.status ≠ .booting) :
    s.mounted = true := by
  by_contra hm
  exact hst (h.unmounted (by simpa using hm)).2.1

theorem not_boot (h : Agreement s) (hst : s.store.status ≠ .booting) {p : OpId} {op : Op}
    (hp : s.ops.get? p = some op) : op.isBoot ≠ true :=
  fun hb => hst (h.boot p op hp hb).1

theorem not_booting (h : Agreement s) {p : OpId} {op : Op} (hp : s.ops.get? p = some op)
    (hb : op.isBoot = false) : s.store.status ≠ .booting := by
  intro hst
  simp [h.booting hst p op hp] at hb

/-! ### Bootstrap -/

/-- Only `bootstrap` runs. -/
theorem of_boot {p : OpId} {op : Op} (hids : ∀ q ∈ s.ops.keys, q < s.nextId)
    (hmount : s.mounted = true) (hst : s.store.status = .booting) (hk : s.ops.keys = [p])
    (hp : s.ops.get? p = some op) (hb : op.isBoot = true) (hok : BootOk s.kc op) :
    Agreement s := by
  have honly : ∀ q op', s.ops.get? q = some op' → q = p ∧ op' = op := by
    intro q op' hq
    obtain rfl := Table.eq_of_keys hk hq
    exact ⟨rfl, Option.some.inj (hq.symm.trans hp)⟩
  refine ⟨hids, by simp [hmount], ?_, ?_, by simp [hst], by simp [hst], ?_, ?_, ?_, ?_⟩
  · intro q op' hq _
    obtain ⟨rfl, rfl⟩ := honly q op' hq
    exact ⟨hst, hk, hok⟩
  · intro _ q op' hq
    obtain ⟨rfl, rfl⟩ := honly q op' hq
    exact hb
  · intro q op' hq hl
    obtain ⟨rfl, rfl⟩ := honly q op' hq
    simp [Op.isLogin_of_isBoot hb] at hl
  · intro q a done hq
    obtain ⟨rfl, rfl⟩ := honly q _ hq
    cases hb
  · intro q done hq
    obtain ⟨rfl, rfl⟩ := honly q _ hq
    cases hb
  · rintro ⟨⟨q, a, done, svc, hq, -⟩, -⟩
    obtain ⟨rfl, rfl⟩ := honly q _ hq
    cases hb

/-- Nothing runs. -/
theorem of_idle (hmount : s.mounted = true) (hk : s.ops.keys = [])
    (hanon : s.store.status = .anonymous → s.store.session = none ∧ s.kc = .cleared)
    (hauthed : s.store.status = .authed →
      ∃ x, s.store.session = some x ∧ readSession s.kc = .session x) : Agreement s where
  ids p hp := by simp [hk] at hp
  unmounted hm := by simp [hmount] at hm
  boot p op hp := absurd hp (Table.get?_ne_some hk)
  booting _ p op hp := absurd hp (Table.get?_ne_some hk)
  anonymous hst := ⟨(hanon hst).1, fun _ => (hanon hst).2⟩
  authed hst := by
    obtain ⟨x, hx, hkc⟩ := hauthed hst
    exact ⟨x, hx, fun _ => hkc⟩
  login p op hp := absurd hp (Table.get?_ne_some hk)
  saving p a done hp := absurd hp (Table.get?_ne_some hk)
  clearing p done hp := absurd hp (Table.get?_ne_some hk)
  apart := by
    rintro ⟨⟨p, a, done, svc, hp, -⟩, -⟩
    exact Table.get?_ne_some hk hp

/-- The operation of `bootstrap` goes on, perhaps with a changed Keychain. -/
theorem bootTo (h : Agreement s) {p : OpId} {op op' : Op} {kc : Keychain}
    (hp : s.ops.get? p = some op) (hb : op.isBoot = true) (hb' : op'.isBoot = true)
    (hok : BootOk kc op') : Agreement { s with kc := kc, ops := s.ops.set p op' } := by
  obtain ⟨hst, hk, -⟩ := h.boot p op hp hb
  exact of_boot (by simpa using h.ids) (h.mounted_of_op hp) hst (by simpa using hk)
    (Table.get?_set_self hp) hb' hok

/-- Once all reads have returned, they are what the Keychain holds. -/
theorem got_eq (h : Agreement s) {p : OpId} {got : Service → Option (Option String)}
    (hp : s.ops.get? p = some (.loading got)) (hgot : ∀ svc, (got svc).isSome) :
    (fun svc => (got svc).join) = s.kc := by
  obtain ⟨-, -, -, hread⟩ := h.boot p _ hp rfl
  funext svc
  obtain ⟨v, hv⟩ := Option.isSome_iff_exists.1 (hgot svc)
  rw [hv, Option.join_some, hread svc v hv]

/-- Nothing to read in a Keychain that is complete means that it is empty. -/
theorem cleared_of_missing (h : Agreement s) {p : OpId}
    {got : Service → Option (Option String)} (hp : s.ops.get? p = some (.loading got))
    (hgot : ∀ svc, (got svc).isSome)
    (hread : readSession (fun svc => (got svc).join) = .missing) : s.kc = .cleared := by
  rw [h.got_eq hp hgot] at hread
  obtain ⟨-, -, hcomplete, -⟩ := h.boot p _ hp rfl
  rcases hcomplete with hkc | ⟨a, hkc⟩
  · exact hkc
  · rw [hkc, readSession_entries] at hread
    cases hread

/-- The comparison of a stored expiry does not throw. -/
theorem not_threw (h : Agreement s) {p : OpId} {got : Service → Option (Option String)}
    (hp : s.ops.get? p = some (.loading got)) (hgot : ∀ svc, (got svc).isSome) {x : Session}
    (hread : readSession (fun svc => (got svc).join) = .session x) (now : ℤ) :
    isExpiredOrSoon x now ≠ none := by
  rw [h.got_eq hp hgot] at hread
  obtain ⟨-, -, hcomplete, -⟩ := h.boot p _ hp rfl
  rcases hcomplete with hkc | ⟨a, hkc⟩
  · rw [hkc] at hread
    cases hread
  · rw [hkc, readSession_entries] at hread
    cases hread
    exact isExpiredOrSoon_toSession_ne_none a now

theorem cleared_of_dropped (h : Agreement s) {p : OpId} {damaged : Bool} {done : Service → Bool}
    (hp : s.ops.get? p = some (.dropping damaged done)) (hdone : ∀ svc, done svc = true) :
    s.kc = .cleared := by
  obtain ⟨-, -, hok⟩ := h.boot p _ hp rfl
  exact funext fun svc => hok svc (hdone svc)

theorem bootTurn (h : Agreement s) {p : OpId} {op op' : Op} (hp : s.ops.get? p = some op)
    (ht : BootTurn s op op') : Agreement (s.await p op') := by
  cases ht with
  | @read got svc =>
    obtain ⟨-, -, hcomplete, hread⟩ := h.boot p _ hp rfl
    refine h.bootTo hp rfl rfl ⟨hcomplete, fun svc' v hv => ?_⟩
    by_cases he : svc' = svc
    · subst he
      simpa [eq_comm] using hv
    · rw [Function.update_of_ne he] at hv
      exact hread svc' v hv
  | damaged hgot hread => exact h.bootTo hp rfl rfl nofun
  | expired => exact h.bootTo hp rfl rfl trivial
  | nothingRead hgot hread => exact h.bootTo hp rfl rfl (h.cleared_of_missing hp hgot hread)
  | dropped hdone => exact h.bootTo hp rfl rfl (h.cleared_of_dropped hp hdone)
  | autoLogin a => exact h.bootTo hp rfl rfl nofun
  | refreshed a => exact h.bootTo hp rfl rfl nofun
  | notRefreshed => exact h.bootTo hp rfl rfl nofun

theorem notRestored (h : Agreement s) {p : OpId} {op : Op} (hp : s.ops.get? p = some op)
    (he : BootEnd op) : Agreement (s.finish p s.store.notRestored) := by
  have hkc : s.kc = .cleared ∧ op.isBoot = true := by
    cases he with
    | nothingRead hgot hread => exact ⟨h.cleared_of_missing hp hgot hread, rfl⟩
    | threw hgot hread hthrow => exact absurd hthrow (h.not_threw hp hgot hread _)
    | dropped hdone => exact ⟨h.cleared_of_dropped hp hdone, rfl⟩
    | autoLoginFailed => exact ⟨(h.boot p _ hp rfl).2.2, rfl⟩
  obtain ⟨-, hk, -⟩ := h.boot p op hp hkc.2
  exact of_idle (h.mounted_of_op hp) (keys_finish hk _) (fun _ => ⟨rfl, hkc.1⟩) nofun

theorem restored (h : Agreement s) {p : OpId} {op : Op} {x : Session}
    (hp : s.ops.get? p = some op) (hb : op.isBoot = true) (hread : readSession s.kc = .session x) :
    Agreement (s.finish p (s.store.restored x)) := by
  obtain ⟨-, hk, -⟩ := h.boot p op hp hb
  exact of_idle (h.mounted_of_op hp) (keys_finish hk _) nofun fun _ => ⟨x, rfl, hread⟩

/-! ### Login and logout -/

/-- One operation that has landed nothing comes, goes, or changes its program point. -/
theorem of_quiet (h : Agreement s) {p : OpId} {new : Option Op} {ops : Table OpId Op}
    {store : AuthState} {nextId : OpId}
    (hget : ∀ q, ops.get? q = if q = p then new else s.ops.get? q)
    (hids : ∀ q ∈ ops.keys, q < nextId) (hst : s.store.status ≠ .booting)
    (hstatus : store.status = s.store.status) (hsession : store.session = s.store.session)
    (hold : ∀ op, s.ops.get? p = some op → op.quiet = true)
    (hnew : ∀ op, new = some op → op.quiet = true)
    (hlogin : ∀ op, new = some op → op.isLogin = true →
      s.store.status = .anonymous ∧ store.isSubmitting = true ∧
        ∀ q op', q ≠ p → s.ops.get? q = some op' → op'.isLogin ≠ true)
    (hsub : store.isSubmitting = s.store.isSubmitting ∨
      ∀ q op', q ≠ p → s.ops.get? q = some op' → op'.isLogin ≠ true)
    (hsaving : ∀ a done, new = some (.saving a done) → s.kc = .cleared) :
    Agreement { s with store := store, ops := ops, nextId := nextId } := by
  -- what has landed something is the same as before
  have hsame : ∀ q op, op.quiet ≠ true → (ops.get? q = some op ↔ s.ops.get? q = some op) := by
    intro q op hq
    rw [hget]
    split_ifs with he
    · rw [he]
      exact ⟨fun hs => absurd (hnew op hs) hq, fun hs => absurd (hold op hs) hq⟩
    · rfl
  have hin : LoginActive { s with store := store, ops := ops, nextId := nextId } ↔
      LoginActive s := by
    constructor <;> rintro ⟨q, a, done, svc, hq, hd⟩
    · exact ⟨q, a, done, svc, (hsame q _ (Op.not_quiet_saving hd)).1 hq, hd⟩
    · exact ⟨q, a, done, svc, (hsame q _ (Op.not_quiet_saving hd)).2 hq, hd⟩
  have hout : LogoutActive { s with store := store, ops := ops, nextId := nextId } ↔
      LogoutActive s := by
    constructor <;> rintro ⟨q, done, svc, hq, hd⟩
    · exact ⟨q, done, svc, (hsame q _ (Op.not_quiet_clearing hd)).1 hq, hd⟩
    · exact ⟨q, done, svc, (hsame q _ (Op.not_quiet_clearing hd)).2 hq, hd⟩
  constructor
  · exact hids
  · intro hm
    rw [h.mounted_of_status hst] at hm
    cases hm
  · intro q op hq hb
    have hq := (hsame q op (by simp [Op.quiet_of_isBoot hb])).1 hq
    exact absurd hb (h.not_boot hst hq)
  · exact fun hb => absurd (hstatus ▸ hb) hst
  · intro ha
    obtain ⟨hnone, hkc⟩ := h.anonymous (hstatus ▸ ha)
    exact ⟨hsession.trans hnone, fun hl => hkc fun hl' => hl (hin.2 hl')⟩
  · intro ha
    obtain ⟨x, hx, hkc⟩ := h.authed (hstatus ▸ ha)
    exact ⟨x, hsession.trans hx, fun hl => hkc fun hl' => hl (hout.2 hl')⟩
  · intro q op hq hl
    simp only [hget] at hq ⊢
    by_cases he : q = p
    · subst he
      obtain ⟨hs, hsubm, hnone⟩ := hlogin op (by simpa using hq) hl
      refine ⟨hstatus.trans hs, hsubm, fun q' op' hq' hl' => ?_⟩
      by_contra hne
      rw [if_neg hne] at hq'
      exact hnone q' op' hne hq' hl'
    · rw [if_neg he] at hq
      obtain ⟨hs, hsubm, huniq⟩ := h.login q op hq hl
      rcases hsub with hsub | hsub
      · refine ⟨hstatus.trans hs, hsub.trans hsubm, fun q' op' hq' hl' => ?_⟩
        by_cases he' : q' = p
        · subst he'
          exact absurd hl ((hlogin op' (by simpa using hq') hl').2.2 q op he hq)
        · rw [if_neg he'] at hq'
          exact huniq q' op' hq' hl'
      · exact absurd hl (hsub q op he hq)
  · intro q a done hq svc
    by_cases hd : ∃ svc, done svc = true
    · obtain ⟨svc', hd⟩ := hd
      exact h.saving q a done ((hsame q _ (Op.not_quiet_saving hd)).1 hq) svc
    · have hdone : done svc = false := Bool.eq_false_iff.2 fun hs => hd ⟨svc, hs⟩
      rw [hget] at hq
      split_ifs at hq
      · simp [hsaving a done hq, hdone, Keychain.cleared]
      · simpa [hdone] using h.saving q a done hq svc
  · intro q done hq svc hd
    exact h.clearing q done ((hsame q _ (Op.not_quiet_clearing hd)).1 hq) svc hd
  · rw [hin, hout]
    exact h.apart

theorem ids_push (h : Agreement s) {op : Op} :
    ∀ q ∈ (s.ops.push s.nextId op).keys, q < s.nextId + 1 :=
  fun _ hq => Table.lt_of_mem_push h.ids hq

theorem not_old (h : Agreement s) {op : Op} : s.ops.get? s.nextId ≠ some op :=
  fun hq => h.nextId_fresh (Table.mem_keys_of_get? hq)

theorem ids_erase (h : Agreement s) {p : OpId} : ∀ q ∈ (s.ops.erase p).keys, q < s.nextId :=
  fun q hq => h.ids q (Table.mem_keys_of_erase hq)

/-- The Keychain is empty while nobody is logged in and no login has landed anything. -/
theorem cleared_of_asking (h : Agreement s) {p : OpId} (hp : s.ops.get? p = some .asking) :
    s.kc = .cleared := by
  obtain ⟨hst, -, huniq⟩ := h.login p _ hp rfl
  refine (h.anonymous hst).2 ?_
  rintro ⟨q, a, done, svc, hq, -⟩
  obtain rfl := huniq q _ hq rfl
  cases hp.symm.trans hq

theorem beginLogin (h : Agreement s) (hst : s.store.status = .anonymous)
    (hsub : s.store.isSubmitting = false) : Agreement (s.start s.store.submit .asking) := by
  have hnone : ∀ q op, q ≠ s.nextId → s.ops.get? q = some op → op.isLogin ≠ true := by
    intro q op _ hq hl
    have := (h.login q op hq hl).2.1
    simp [hsub] at this
  refine h.of_quiet (fun q => Table.get?_push h.nextId_fresh) h.ids_push (by simp [hst]) rfl rfl
    (fun op hop => absurd hop h.not_old) ?_ (fun _ _ _ => ⟨hst, rfl, hnone⟩) (.inr hnone) nofun
  rintro _ ⟨⟩
  rfl

theorem beginLogout (h : Agreement s) (hst : s.store.status = .authed) {op : Op}
    (hop : op = .revoking ∨ op = .clearing noneDone) : Agreement (s.start s.store op) := by
  have hquiet : op.quiet = true ∧ op.isLogin = false ∧ ∀ a done, op ≠ .saving a done := by
    rcases hop with rfl | rfl <;> exact ⟨rfl, rfl, nofun⟩
  refine h.of_quiet (fun q => Table.get?_push h.nextId_fresh) h.ids_push (by simp [hst]) rfl rfl
    (fun op hop => absurd hop h.not_old) ?_ ?_ (.inl rfl) ?_
  · rintro _ ⟨⟩
    exact hquiet.1
  · rintro _ ⟨⟩ hl
    simp [hquiet.2.1] at hl
  · intro a done he
    exact absurd (Option.some.inj he) (hquiet.2.2 a done)

/-- The provider has granted a login. -/
theorem granted (h : Agreement s) {p : OpId} (a : AuthSession)
    (hp : s.ops.get? p = some .asking) : Agreement (s.await p (.saving a noneDone)) := by
  obtain ⟨hst, hsub, huniq⟩ := h.login p _ hp rfl
  refine h.of_quiet (fun q => get?_set_op hp) (by simpa using h.ids) (by simp [hst]) rfl rfl
    ?_ ?_ ?_ (.inl rfl) fun _ _ _ => h.cleared_of_asking hp
  · intro op hop
    cases hp.symm.trans hop
    rfl
  · rintro _ ⟨⟩
    rfl
  · exact fun _ _ _ => ⟨hst, hsub, fun q op hne hq hl => hne (huniq q op hq hl)⟩

/-- The provider has answered a logout. -/
theorem revoked (h : Agreement s) {p : OpId} (hp : s.ops.get? p = some .revoking) :
    Agreement (s.await p (.clearing noneDone)) := by
  have hst := h.not_booting hp rfl
  refine h.of_quiet (fun q => get?_set_op hp) (by simpa using h.ids) hst rfl rfl
    ?_ ?_ ?_ (.inl rfl) nofun
  · intro op hop
    cases hp.symm.trans hop
    rfl
  · rintro _ ⟨⟩
    rfl
  · rintro _ ⟨⟩ hl
    cases hl

theorem loginFailed (h : Agreement s) {p : OpId} (thrown : Thrown)
    (hp : s.ops.get? p = some .asking) :
    Agreement (s.finish p (s.store.loginFailed thrown)) := by
  obtain ⟨hst, -, huniq⟩ := h.login p _ hp rfl
  refine h.of_quiet (fun q => Table.get?_erase) h.ids_erase (by simp [hst]) rfl rfl
    ?_ ?_ ?_ (.inr fun q op hne hq hl => hne (huniq q op hq hl)) ?_
  · intro op hop
    cases hp.symm.trans hop
    rfl
  · rintro _ ⟨⟩
  · rintro _ ⟨⟩
  · rintro _ _ ⟨⟩

/-- A Keychain write of a login lands while no logout is active. -/
theorem save (h : Agreement s) {p : OpId} {a : AuthSession} {done : Service → Bool}
    (hp : s.ops.get? p = some (.saving a done)) (hout : ¬ LogoutActive s) (svc : Service) :
    Agreement { s with
      kc := Function.update s.kc svc (some (a.entry svc))
      ops := s.ops.set p (.saving a (Function.update done svc true)) } := by
  obtain ⟨hst, hsub, huniq⟩ := h.login p _ hp rfl
  have hne : s.store.status ≠ .booting := by simp [hst]
  constructor
  · simpa using h.ids
  · intro hm
    rw [h.mounted_of_op hp] at hm
    cases hm
  · intro q op hq hb
    rcases Table.of_get?_set hq with ⟨-, rfl⟩ | ⟨-, hq⟩
    · cases hb
    · exact absurd hb (h.not_boot hne hq)
  · exact fun hb => absurd hb hne
  · refine fun _ => ⟨(h.anonymous hst).1, fun hl => absurd ?_ hl⟩
    exact ⟨p, a, _, svc, Table.get?_set_self hp, by simp⟩
  · intro ha
    rw [hst] at ha
    cases ha
  · -- the login is still the only one
    have honly : ∀ q op,
        (s.ops.set p (.saving a (Function.update done svc true))).get? q = some op →
        op.isLogin = true → q = p := by
      intro q op hq hl
      rcases Table.of_get?_set hq with ⟨hqp, -⟩ | ⟨-, hq⟩
      · exact hqp
      · exact huniq q op hq hl
    intro q op hq hl
    exact ⟨hst, hsub, fun q' op' hq' hl' => (honly q' op' hq' hl').trans (honly q op hq hl).symm⟩
  · intro q a' done' hq svc'
    rcases Table.of_get?_set hq with ⟨-, he⟩ | ⟨hqp, hq⟩
    · cases he
      by_cases he : svc' = svc
      · subst he
        simp
      · simpa only [Function.update_of_ne he] using h.saving p a done hp svc'
    · exact absurd (huniq q _ hq rfl) hqp
  · intro q done' hq svc' hd
    exact absurd ⟨q, done', svc', get?_of_set hq (by simp), hd⟩ hout
  · rintro ⟨-, q, done', svc', hq, hd⟩
    exact hout ⟨q, done', svc', get?_of_set hq (by simp), hd⟩

/-- A Keychain reset of a logout lands while no login is active. -/
theorem clear (h : Agreement s) {p : OpId} {done : Service → Bool}
    (hp : s.ops.get? p = some (.clearing done)) (hin : ¬ LoginActive s) (svc : Service) :
    Agreement { s with
      kc := Function.update s.kc svc none
      ops := s.ops.set p (.clearing (Function.update done svc true)) } := by
  have hne := h.not_booting hp rfl
  have hnone : ∀ svc', s.kc svc' = none → Function.update s.kc svc none svc' = none := by
    intro svc' hkc
    by_cases he : svc' = svc
    · rw [he, Function.update_self]
    · rw [Function.update_of_ne he, hkc]
  constructor
  · simpa using h.ids
  · intro hm
    rw [h.mounted_of_op hp] at hm
    cases hm
  · intro q op hq hb
    rcases Table.of_get?_set hq with ⟨-, rfl⟩ | ⟨-, hq⟩
    · cases hb
    · exact absurd hb (h.not_boot hne hq)
  · exact fun hb => absurd hb hne
  · refine fun ha => ⟨(h.anonymous ha).1, fun _ => funext fun svc' => hnone svc' ?_⟩
    exact congrFun ((h.anonymous ha).2 hin) svc'
  · intro ha
    obtain ⟨x, hx, -⟩ := h.authed ha
    refine ⟨x, hx, fun hl => absurd ?_ hl⟩
    exact ⟨p, _, svc, Table.get?_set_self hp, by simp⟩
  · intro q op hq hl
    rcases Table.of_get?_set hq with ⟨-, rfl⟩ | ⟨-, hq⟩
    · cases hl
    · obtain ⟨hst, hsub, huniq⟩ := h.login q op hq hl
      refine ⟨hst, hsub, fun q' op' hq' hl' => ?_⟩
      rcases Table.of_get?_set hq' with ⟨-, rfl⟩ | ⟨-, hq'⟩
      · cases hl'
      · exact huniq q' op' hq' hl'
  · intro q a done' hq svc'
    have hq := get?_of_set hq (by simp)
    have hd : done' svc' = false := Bool.eq_false_iff.2 fun hs => hin ⟨q, a, done', svc', hq, hs⟩
    have hkc := h.saving q a done' hq svc'
    rw [if_neg (by simp [hd])] at hkc ⊢
    exact hnone svc' hkc
  · intro q done' hq svc' hd
    rcases Table.of_get?_set hq with ⟨-, he⟩ | ⟨-, hq⟩
    · cases he
      by_cases he : svc' = svc
      · subst he
        exact Function.update_self ..
      · rw [Function.update_of_ne he] at hd
        exact hnone svc' (h.clearing p done hp svc' hd)
    · exact hnone svc' (h.clearing q done' hq svc' hd)
  · rintro ⟨⟨q, a, done', svc', hq, hd⟩, -⟩
    exact hin ⟨q, a, done', svc', get?_of_set hq (by simp), hd⟩

/-- A login ends; the Keychain holds its session. -/
theorem loggedIn (h : Agreement s) {p : OpId} {a : AuthSession} {done : Service → Bool}
    (hp : s.ops.get? p = some (.saving a done)) (hdone : ∀ svc, done svc = true) :
    Agreement (s.finish p (.loggedIn a.toSession)) := by
  obtain ⟨hst, hsub, huniq⟩ := h.login p _ hp rfl
  have hkc : s.kc = a.entries := funext fun svc =>
    (h.saving p a done hp svc).trans (if_pos (hdone svc))
  have hget : ∀ q op, (s.ops.erase p).get? q = some op → s.ops.get? q = some op ∧
      op.isLogin ≠ true := by
    intro q op hq
    obtain ⟨hqp, hq⟩ := Table.of_get?_erase hq
    exact ⟨hq, fun hl => hqp (huniq q op hq hl)⟩
  constructor
  · exact h.ids_erase
  · intro hm
    have := h.mounted_of_op hp
    simp [State.finish, this] at hm
  · exact fun q op hq hb => absurd hb (h.not_boot (by simp [hst]) (hget q op hq).1)
  · intro hst
    cases hst
  · intro hst
    cases hst
  · exact fun _ => ⟨a.toSession, rfl, fun _ => by rw [State.finish, hkc, readSession_entries]⟩
  · exact fun q op hq hl => absurd hl (hget q op hq).2
  · exact fun q a' done' hq => absurd rfl (hget q _ hq).2
  · exact fun q done' hq => h.clearing q done' (hget q _ hq).1
  · rintro ⟨⟨q, a', done', svc, hq, -⟩, -⟩
    exact (hget q _ hq).2 rfl

/-- A logout ends; the Keychain is empty. -/
theorem loggedOut (h : Agreement s) {p : OpId} {done : Service → Bool}
    (hp : s.ops.get? p = some (.clearing done)) (hdone : ∀ svc, done svc = true) :
    Agreement (s.finish p s.store.loggedOut) := by
  have hne := h.not_booting hp rfl
  have hkc : s.kc = .cleared := funext fun svc => h.clearing p done hp svc (hdone svc)
  have hget : ∀ q op, (s.ops.erase p).get? q = some op → s.ops.get? q = some op := by
    intro q op hq
    obtain ⟨-, hq⟩ := Table.of_get?_erase hq
    exact hq
  constructor
  · exact h.ids_erase
  · intro hm
    have := h.mounted_of_op hp
    simp [State.finish, this] at hm
  · exact fun q op hq hb => absurd hb (h.not_boot hne (hget q op hq))
  · intro hst
    cases hst
  · exact fun _ => ⟨rfl, fun _ => hkc⟩
  · intro hst
    cases hst
  · intro q op hq hl
    obtain ⟨-, hsub, huniq⟩ := h.login q op (hget q op hq) hl
    exact ⟨rfl, hsub, fun q' op' hq' => huniq q' op' (hget q' op' hq')⟩
  · exact fun q a done' hq => h.saving q a done' (hget q _ hq)
  · exact fun q done' hq => h.clearing q done' (hget q _ hq)
  · rintro ⟨⟨q, a, done', svc, hq, hd⟩, q', done'', svc', hq', hd'⟩
    exact h.apart ⟨⟨q, a, done', svc, hget q _ hq, hd⟩, q', done'', svc', hget q' _ hq', hd'⟩

/-! ### Runs -/

theorem init {kc : Keychain} {dev : Bool} (hkc : Complete kc) : Agreement (Auth.init kc dev) where
  ids p hp := absurd hp List.not_mem_nil
  unmounted _ := ⟨rfl, rfl, hkc⟩
  boot p op hp := nomatch hp
  booting _ p op hp := nomatch hp
  anonymous := nofun
  authed := nofun
  login p op hp := nomatch hp
  saving p a done hp := nomatch hp
  clearing p done hp := nomatch hp
  apart := by
    rintro ⟨⟨p, a, done, svc, hp, -⟩, -⟩
    cases hp

theorem move (h : Agreement s) {l : Label} (hok : Apart s l) (hm : Move s l s') :
    Agreement s' := by
  cases hm with
  | bootstrap hmount =>
    obtain ⟨hk, hst, hkc⟩ := h.unmounted hmount
    have hp : (s.ops.push s.nextId (.loading fun _ => none)).get? s.nextId =
        some (.loading fun _ => none) := by rw [Table.get?_push h.nextId_fresh, if_pos rfl]
    refine of_boot h.ids_push rfl rfl ?_ hp rfl ⟨hkc, nofun⟩
    simp [State.start, Table.keys_push h.nextId_fresh, hk]
  | login hst hsub => exact h.beginLogin hst hsub
  | logout hst hop => exact h.beginLogout hst hop
  | clearError => exact { h with }
  | boot hp ht => exact h.bootTurn hp ht
  | @drop p damaged done svc hp =>
    refine h.bootTo hp rfl rfl fun svc' hd => ?_
    by_cases he : svc' = svc
    · rw [he, Function.update_self]
    · rw [Function.update_of_ne he] at hd ⊢
      exact (h.boot p _ hp rfl).2.2 svc' hd
  | @restore p a done svc hp =>
    refine h.bootTo hp rfl rfl fun svc' hd => ?_
    by_cases he : svc' = svc
    · rw [he, Function.update_self]
    · rw [Function.update_of_ne he] at hd ⊢
      exact (h.boot p _ hp rfl).2.2 svc' hd
  | notRestored hp he => exact h.notRestored hp he
  | loaded hp hgot hread => exact h.restored hp rfl (h.got_eq hp hgot ▸ hread)
  | @restored l p a done hp hdone =>
    have hkc : s.kc = a.entries :=
      funext fun svc => (h.boot p _ hp rfl).2.2 svc (hdone svc)
    exact h.restored hp rfl (hkc ▸ readSession_entries a)
  | granted a hp => exact h.granted a hp
  | loginFailed thrown hp => exact h.loginFailed thrown hp
  | save svc hp => exact h.save hp (hok.1 _ _ hp) svc
  | loggedIn hp hdone => exact h.loggedIn hp hdone
  | revoked hp => exact h.revoked hp
  | clear svc hp => exact h.clear hp (hok.2 _ hp) svc
  | loggedOut hp hdone => exact h.loggedOut hp hdone

theorem of_reachable (h : (authStore.guard Apart).Reachable s) : Agreement s := by
  refine h.invariant ?_ fun s l s' hi hst => hi.move hst.1 (.of_step hst.2)
  rintro s ⟨kc, dev, hkc, rfl⟩
  exact init hkc

/-- When nothing runs, the invariant is agreement. -/
theorem agree (h : Agreement s) (hidle : Idle s) : Agree s := by
  constructor
  · intro hst
    obtain ⟨x, hx, hread⟩ := h.authed hst
    refine ⟨x, hx, loadSession_fst_eq_some.2 (hread ?_)⟩
    rintro ⟨p, done, svc, hp, -⟩
    exact Table.get?_ne_some hidle hp
  · intro hst
    obtain ⟨hnone, hkc⟩ := h.anonymous hst
    refine ⟨hnone, ?_⟩
    rw [hkc, getAccessToken, Keychain.cleared]
    rintro ⟨p, a, done, svc, hp, -⟩
    exact Table.get?_ne_some hidle hp

end Agreement

/-- **The store and the Keychain agree whenever nothing runs, as long as no login and no logout
write at the same time.** -/
theorem agree_of_apart {s : State} (h : (authStore.guard Apart).Reachable s) (hidle : Idle s) :
    Agree s := (Agreement.of_reachable h).agree hidle

/-- `Apart`, evaluated. -/
def checkApart (s : State) : Label → Bool
  | .land p _ => (s.ops.get? p).all fun op =>
      if op.isLogin then s.ops.values.all fun o => o.isLogin || o.isBoot || o.quiet
      else s.ops.values.all fun o => !o.isLogin || o.quiet
  | _ => true

theorem apart_of_check {s : State} {l : Label} (h : checkApart s l = true) : Apart s l := by
  cases l with
  | land p svc =>
    constructor
    · rintro a done hp ⟨q, done', svc', hq, hd⟩
      simp only [checkApart, hp, Option.all_some, Op.isLogin, if_true, List.all_eq_true] at h
      have hm := h _ (Table.mem_values_iff.2 ⟨q, hq⟩)
      simp [Op.isBoot, Op.not_quiet_clearing hd] at hm
    · rintro done hp ⟨q, a, done', svc', hq, hd⟩
      simp only [checkApart, hp, Option.all_some, Op.isLogin, Bool.false_eq_true, if_false,
        List.all_eq_true] at h
      have hm := h _ (Table.mem_values_iff.2 ⟨q, hq⟩)
      simp [Op.not_quiet_saving hd] at hm
  | _ => trivial

/-- The three Keychain calls of an operation land. -/
def landAll (p : OpId) : List Label :=
  [.land p .accessToken, .land p .refreshToken, .land p .sessionMeta]

/-- The first user logs in and presses the logout button twice; one logout is done, and the provider
lets the second user log in. -/
def secondLogout : List Label :=
  .bootstrap :: landAll 0 ++ [.resume 0 0 .ok, .login, .resume 1 0 (.session leo)] ++ landAll 1 ++
    [.resume 1 0 .ok, .logout, .logout, .resume 2 0 .ok] ++ landAll 2 ++
    [.resume 2 0 .ok, .login, .resume 4 0 (.session hong), .resume 3 0 .ok]

/-- Then the other logout ends before the login saves its session. -/
def oneAfterTheOther : List Label :=
  secondLogout ++ landAll 3 ++ [.resume 3 0 .ok] ++ landAll 4 ++ [.resume 4 0 .ok]

theorem agree_of_apart_oneAfterTheOther :
    ∃ s ∈ LTS.exec (fun s l => if checkApart s l then step s l else none) (init .cleared false)
      oneAfterTheOther, s.store.status = .authed ∧ getAccessToken s.kc = some "hong_access" ∧
        Agree s := by
  have hrun : (LTS.exec (fun s l => if checkApart s l then step s l else none)
      (init .cleared false) oneAfterTheOther).map (fun s =>
        (s.ops.keys, s.store.status, getAccessToken s.kc)) =
      some ([], .authed, some "hong_access") := by decide +kernel
  obtain ⟨s, hs, he⟩ := Option.map_eq_some_iff.1 hrun
  simp only [Prod.mk.injEq] at he
  have hreach : (authStore.guard Apart).Reachable s :=
    LTS.guard_reachable_of_check (fun _ _ => apart_of_check)
      (.start ⟨.cleared, false, .inl rfl, rfl⟩) hs
  exact ⟨s, hs, he.2.1, he.2.2, agree_of_apart hreach he.1⟩

/-- Or the login saves its session between the last reset of that logout and its store write. -/
def atTheSameTime : List Label :=
  secondLogout ++ landAll 3 ++ landAll 4 ++ [.resume 4 0 .ok, .resume 3 0 .ok]

/-- Then nobody is logged in, but the second user's token is still there. -/
theorem disagreement : ¬ ∀ s, authStore.Reachable s → Idle s → Agree s := by
  intro h
  have hrun : (LTS.exec step (init .cleared false) atTheSameTime).map (fun s =>
      (s.ops.keys, s.store.status, getAccessToken s.kc)) =
      some ([], .anonymous, some "hong_access") := by decide +kernel
  obtain ⟨s, hs, he⟩ := Option.map_eq_some_iff.1 hrun
  simp only [Prod.mk.injEq] at he
  have hreach : authStore.Reachable s :=
    LTS.reachable_of_exec (.start ⟨.cleared, false, .inl rfl, rfl⟩) hs
  have hnone := ((h s hreach he.1).2 he.2.1).2
  rw [he.2.2] at hnone
  cases hnone

end Auth

end FCord
