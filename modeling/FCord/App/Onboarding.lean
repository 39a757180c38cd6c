import FCord.Data.Table
import FCord.LTS.Basic

/-!
# The screens before the login

The stack of the screens for users who are not logged in holds one screen at a time: a screen is
always replaced by the next one.  Which screen comes after the landing screen depends on an entry of
the device, which the onboarding writes.  A handler that waits may find its screen replaced, or the
whole stack gone.  In the second case it replaces nothing; in the first, the library may replace
the screen that is shown now (`focused`) or nothing, and the results hold for both.  Whatever is
pressed, and whenever the app is killed or the user logs in or out, nobody gets past the onboarding
without the entry, nobody who has it sees the onboarding again, and no screen is a dead end
(`onboarding_once`).

## Main definitions

* `AuthStack` : the entry, the screen, and the handlers that wait.
* `AuthStack.step` : what a user action or a settled call does.
* `authStack` : the transition system; a run starts with any entry and without a screen.
-/

namespace FCord

/-- The screens of `AuthStackParamList`. -/
inductive AuthScreen where
  | landing | onboarding | permissionPrimer | biometricEnrollment | login
  deriving DecidableEq, Repr

/-- `RESULTS` of `react-native-permissions`. -/
inductive PermissionResult where
  | granted | denied | blocked | limited | unavailable
  deriving DecidableEq, Repr

/-- What a handler waits for. -/
inductive ScreenWait where
  /-- The landing screen: for `getItem`; `got` is what has been read. -/
  | getItem (got : Option (Option String))
  /-- The onboarding: for `setItem`, before it goes to `next`. -/
  | setItem (next : AuthScreen) (stored : Bool)
  /-- The permission screen: for `check`. -/
  | check
  /-- The permission screen: for `request`. -/
  | request
  /-- The enrollment: for `getSupportedBiometryType`. -/
  | supported
  /-- The enrollment: for `setGenericPassword`. -/
  | enroll
  deriving DecidableEq, Repr

/-- How it settles. -/
inductive ScreenAnswer where
  | ok
  | permission (result : PermissionResult)
  | biometry (supported : Bool)
  | error
  deriving DecidableEq, Repr

/-- A handler that waits, with the screen that has called it. -/
structure PendingHandler where
  origin : ℕ
  wait : ScreenWait
  deriving DecidableEq, Repr

/-- `SLIDES.length` -/
def SLIDES_LENGTH : ℕ := 3

structure AuthStack where
  /-- The entry `@ibk_stt:onboarded`. -/
  onboarded : Option String
  /-- The screen that is shown, if the stack is. -/
  route : Option AuthScreen
  /-- Identifies that screen. -/
  key : ℕ
  /-- The first screen of the stack; the later ones have greater keys. -/
  first : ℕ
  /-- The slide of the onboarding. -/
  current : ℕ
  waits : Table ℕ PendingHandler
  nextId : ℕ

/-- What can happen. -/
inductive AuthStackLabel where
  /-- The stack appears: nobody is logged in. -/
  | mount
  /-- The stack disappears: somebody is logged in. -/
  | unmount
  | kill
  | onNext
  | onSkip
  | onRequestPermissions
  | onEnroll
  /-- An operation of the storage takes effect. -/
  | land (p : ℕ)
  /-- What a handler waits for has settled, and it goes on. -/
  | settle (p : ℕ) (a : ScreenAnswer)
  deriving DecidableEq, Repr

namespace AuthStack

variable (s : AuthStack)

/-- A handler of the shown screen begins to wait. -/
def await (wait : ScreenWait) : AuthStack :=
  { s with waits := s.waits.push s.nextId ⟨s.key, wait⟩, nextId := s.nextId + 1 }

/-- `navigation.replace`, called by the screen `origin`. -/
def replace (focused : Bool) (origin : ℕ) (next : AuthScreen) : AuthStack :=
  if s.route.isSome ∧ (s.key = origin ∨ focused = true ∧ s.first ≤ origin) then
    { s with route := some next, key := s.key + 1, current := 0 }
  else s

/-- The handler `p` of the screen `origin` goes on. -/
def settle (focused : Bool) (p origin : ℕ) : ScreenWait → ScreenAnswer → Option AuthStack
  | .getItem (some val), .ok =>
    some ({ s with waits := s.waits.erase p }.replace focused origin
      (if val = some "true" then .login else .onboarding))
  | .getItem _, .error => some ({ s with waits := s.waits.erase p }.replace focused origin .login)
  | .setItem next true, .ok =>
    some ({ s with waits := s.waits.erase p }.replace focused origin next)
  | .setItem _ _, .error => some { s with waits := s.waits.erase p }
  | .check, .permission result =>
    some
      (if result = .granted then
        { s with waits := s.waits.erase p }.replace focused origin .biometricEnrollment
      else { s with waits := s.waits.set p ⟨origin, .request⟩ })
  | .request, .permission result =>
    some
      (if result = .blocked then { s with waits := s.waits.erase p }
      else { s with waits := s.waits.erase p }.replace focused origin .biometricEnrollment)
  | .check, .error => some { s with waits := s.waits.erase p }
  | .request, .error => some { s with waits := s.waits.erase p }
  | .supported, .biometry true => some { s with waits := s.waits.set p ⟨origin, .enroll⟩ }
  -- the second `replace`, in the `finally` clause, gives at most another login screen
  | .supported, .biometry false =>
    some ({ s with waits := s.waits.erase p }.replace focused origin .login)
  | .supported, .error => some ({ s with waits := s.waits.erase p }.replace focused origin .login)
  | .enroll, .ok => some ({ s with waits := s.waits.erase p }.replace focused origin .login)
  | .enroll, .error => some ({ s with waits := s.waits.erase p }.replace focused origin .login)
  | _, _ => none

/-- The step function. -/
def step (focused : Bool) (s : AuthStack) : AuthStackLabel → Option AuthStack
  | .mount =>
    if s.route = none then
      some ({ s with
        route := some .landing, key := s.key + 1, first := s.key + 1, current := 0 }.await
          (.getItem none))
    else none
  | .unmount => if s.route.isSome then some { s with route := none } else none
  | .kill => some { s with route := none, waits := .empty }
  | .onNext =>
    if s.route = some .onboarding then
      if s.current = SLIDES_LENGTH - 1 then some (s.await (.setItem .permissionPrimer false))
      else some { s with current := s.current + 1 }
    else none
  | .onSkip =>
    match s.route with
    | some .onboarding => some (s.await (.setItem .login false))
    | some .permissionPrimer => some (s.replace focused s.key .login)
    | some .biometricEnrollment => some (s.replace focused s.key .login)
    | _ => none
  | .onRequestPermissions =>
    if s.route = some .permissionPrimer then some (s.await .check) else none
  | .onEnroll => if s.route = some .biometricEnrollment then some (s.await .supported) else none
  | .land p =>
    (s.waits.get? p).bind fun h =>
      match h.wait with
      | .getItem none =>
        some { s with waits := s.waits.set p ⟨h.origin, .getItem (some s.onboarded)⟩ }
      | .setItem next false =>
        some { s with
          onboarded := some "true"
          waits := s.waits.set p ⟨h.origin, .setItem next true⟩ }
      | _ => none
  | .settle p a => (s.waits.get? p).bind fun h => s.settle focused p h.origin h.wait a

/-- The device before the app is started. -/
def init (onboarded : Option String) : AuthStack where
  onboarded := onboarded
  route := none
  key := 0
  first := 0
  current := 0
  waits := .empty
  nextId := 0

end AuthStack

open AuthStack in
/-- The screens before the login.  With `focused`, a screen that has been replaced still replaces
the one that is shown in its stack. -/
def authStack (focused : Bool) : LTS AuthStack AuthStackLabel :=
  LTS.ofFn (fun s => ∃ onboarded, s = init onboarded) (step focused)

/-! ### What a step can do -/

/-- The screen comes after the onboarding. -/
def AuthScreen.late : AuthScreen → Bool
  | .landing => false
  | .onboarding => false
  | _ => true

namespace AuthStack

variable {focused : Bool} {s s' : AuthStack} {l : AuthStackLabel}

/-- The onboarding has been finished or skipped. -/
def Onboarded (s : AuthStack) : Prop := s.onboarded = some "true"

/-- No call fails. -/
def NoError (_ : AuthStack) : AuthStackLabel → Prop
  | .settle _ .error => False
  | _ => True

/-- The entry can be read. -/
def EntryRead (s : AuthStack) : AuthStackLabel → Prop
  | .settle p .error => ∀ origin got, s.waits.get? p ≠ some ⟨origin, .getItem got⟩
  | _ => True

/-! ### Handlers -/

/-- The handlers that wait belong to screens that have been shown. -/
structure Handlers (s : AuthStack) : Prop where
  ids : ∀ p ∈ s.waits.keys, p < s.nextId
  first : s.first ≤ s.key
  known : ∀ p h, s.waits.get? p = some h →
    h.origin ≤ s.key ∧ ∀ stored, h.wait ≠ .setItem .landing stored
  landing : s.route = some .landing → ∃ p got, s.waits.get? p = some ⟨s.key, .getItem got⟩

theorem replace_waits {origin : ℕ} {next : AuthScreen} :
    (s.replace focused origin next).waits = s.waits := by
  unfold replace
  split_ifs <;> rfl

theorem replace_onboarded {origin : ℕ} {next : AuthScreen} :
    (s.replace focused origin next).onboarded = s.onboarded := by
  unfold replace
  split_ifs <;> rfl

/-- What a step does to the screen and the handlers that wait. -/
inductive StackMove (focused : Bool) (s : AuthStack) : AuthStackLabel → AuthStack → Prop
  | mount (h : s.route = none) : StackMove focused s .mount
      ({ s with
        route := some .landing, key := s.key + 1, first := s.key + 1, current := 0 }.await
          (.getItem none))
  | unmount : StackMove focused s .unmount { s with route := none }
  | kill : StackMove focused s .kill { s with route := none, waits := .empty }
  | slide {current : ℕ} (h : s.route = some .onboarding) :
      StackMove focused s .onNext { s with current := current }
  | finish {l : AuthStackLabel} {next : AuthScreen} (h : s.route = some .onboarding)
      (hnext : next.late = true) : StackMove focused s l (s.await (.setItem next false))
  | skip {r : AuthScreen} (h : s.route = some r)
      (hr : r = .permissionPrimer ∨ r = .biometricEnrollment) :
      StackMove focused s .onSkip (s.replace focused s.key .login)
  | begin {l : AuthStackLabel} {r : AuthScreen} {wait : ScreenWait} (h : s.route = some r)
      (hr : r = .permissionPrimer ∨ r = .biometricEnrollment)
      (hwait : wait = .check ∨ wait = .supported) : StackMove focused s l (s.await wait)
  | read {p origin : ℕ} (hp : s.waits.get? p = some ⟨origin, .getItem none⟩) :
      StackMove focused s (.land p)
        { s with waits := s.waits.set p ⟨origin, .getItem (some s.onboarded)⟩ }
  | stored {p origin : ℕ} {next : AuthScreen}
      (hp : s.waits.get? p = some ⟨origin, .setItem next false⟩) :
      StackMove focused s (.land p)
        { s with onboarded := some "true", waits := s.waits.set p ⟨origin, .setItem next true⟩ }
  | goOn {l : AuthStackLabel} {p origin : ℕ} {wait wait' : ScreenWait}
      (hp : s.waits.get? p = some ⟨origin, wait⟩)
      (hwait : wait = .check ∧ wait' = .request ∨ wait = .supported ∧ wait' = .enroll) :
      StackMove focused s l { s with waits := s.waits.set p ⟨origin, wait'⟩ }
  | stop {l : AuthStackLabel} {p origin : ℕ} {wait : ScreenWait}
      (hp : s.waits.get? p = some ⟨origin, wait⟩) (hwait : ∀ got, wait ≠ .getItem got) :
      StackMove focused s l { s with waits := s.waits.erase p }
  /-- The landing screen has read the entry. -/
  | landed {p origin : ℕ} {val : Option String}
      (hp : s.waits.get? p = some ⟨origin, .getItem (some val)⟩) :
      StackMove focused s (.settle p .ok)
        ({ s with waits := s.waits.erase p }.replace focused origin
          (if val = some "true" then .login else .onboarding))
  /-- The landing screen could not read it. -/
  | notRead {p origin : ℕ} {got : Option (Option String)}
      (hp : s.waits.get? p = some ⟨origin, .getItem got⟩) :
      StackMove focused s (.settle p .error)
        ({ s with waits := s.waits.erase p }.replace focused origin .login)
  /-- A later screen comes. -/
  | advance {l : AuthStackLabel} {p origin : ℕ} {wait : ScreenWait} {next : AuthScreen}
      (hp : s.waits.get? p = some ⟨origin, wait⟩)
      (hwait : wait = .setItem next true ∨ (next.late = true ∧ (wait = .check ∨ wait = .request ∨
        wait = .supported ∨ wait = .enroll))) :
      StackMove focused s l ({ s with waits := s.waits.erase p }.replace focused origin next)

theorem StackMove.of_settle {p origin : ℕ} {wait : ScreenWait} {a : ScreenAnswer}
    (hp : s.waits.get? p = some ⟨origin, wait⟩) (h : s.settle focused p origin wait a = some s') :
    StackMove focused s (.settle p a) s' := by
  unfold settle at h
  split at h
  · cases h; exact .landed hp
  · cases h; exact .notRead hp
  · cases h; exact .advance hp (.inl rfl)
  · cases h; exact .stop hp (by simp)
  · cases h
    split_ifs
    · exact .advance hp (.inr ⟨rfl, .inl rfl⟩)
    · exact .goOn hp (.inl ⟨rfl, rfl⟩)
  · cases h
    split_ifs
    · exact .stop hp (by simp)
    · exact .advance hp (.inr ⟨rfl, .inr (.inl rfl)⟩)
  · cases h; exact .stop hp (by simp)
  · cases h; exact .stop hp (by simp)
  · cases h; exact .goOn hp (.inr ⟨rfl, rfl⟩)
  · cases h; exact .advance hp (.inr ⟨rfl, .inr (.inr (.inl rfl))⟩)
  · cases h; exact .advance hp (.inr ⟨rfl, .inr (.inr (.inl rfl))⟩)
  · cases h; exact .advance hp (.inr ⟨rfl, .inr (.inr (.inr rfl))⟩)
  · cases h; exact .advance hp (.inr ⟨rfl, .inr (.inr (.inr rfl))⟩)
  · cases h

/-- **There are no other steps.** -/
theorem StackMove.of_step (h : step focused s l = some s') : StackMove focused s l s' := by
  cases l with
  | mount =>
    obtain ⟨hr, he⟩ := Option.ite_none_right_eq_some.1 h
    cases he
    exact .mount hr
  | unmount =>
    obtain ⟨-, he⟩ := Option.ite_none_right_eq_some.1 h
    cases he
    exact .unmount
  | kill => cases h; exact .kill
  | onNext =>
    obtain ⟨hr, he⟩ := Option.ite_none_right_eq_some.1 h
    split_ifs at he
    · cases he; exact .finish hr rfl
    · cases he; exact .slide hr
  | onSkip =>
    simp only [step] at h
    split at h
    · rename_i hr
      cases h; exact .finish hr rfl
    · rename_i hr
      cases h; exact .skip hr (.inl rfl)
    · rename_i hr
      cases h; exact .skip hr (.inr rfl)
    · cases h
  | onRequestPermissions =>
    obtain ⟨hr, he⟩ := Option.ite_none_right_eq_some.1 h
    cases he
    exact .begin hr (.inl rfl) (.inl rfl)
  | onEnroll =>
    obtain ⟨hr, he⟩ := Option.ite_none_right_eq_some.1 h
    cases he
    exact .begin hr (.inr rfl) (.inr rfl)
  | land p =>
    obtain ⟨⟨origin, wait⟩, hp, h⟩ := Option.bind_eq_some_iff.1 h
    simp only at h
    split at h
    · cases h; exact .read hp
    · cases h; exact .stored hp
    · cases h
  | settle p a =>
    obtain ⟨⟨origin, wait⟩, hp, h⟩ := Option.bind_eq_some_iff.1 h
    exact .of_settle hp h

theorem of_get?_await {wait : ScreenWait} {p : ℕ} {h : PendingHandler}
    (hp : (s.await wait).waits.get? p = some h) :
    s.waits.get? p = some h ∨ h = ⟨s.key, wait⟩ :=
  (Table.eq_or_get?_of_push hp).symm

/-- The screen after a `replace`. -/
theorem route_replace {origin : ℕ} {next r : AuthScreen}
    (h : (s.replace focused origin next).route = some r) : s.route = some r ∨ r = next := by
  unfold replace at h
  split_ifs at h
  · exact .inr (Option.some.inj h).symm
  · exact .inl h

/-! ### The onboarding comes first -/

theorem late_of_between {r : AuthScreen} (h : r = .permissionPrimer ∨ r = .biometricEnrollment) :
    r.late = true := by
  rcases h with rfl | rfl <;> rfl

/-- What a handler relies on. -/
def Allowed (done : Prop) : ScreenWait → Prop
  | .getItem got => got = some (some "true") → done
  | .setItem next stored => next.late = true ∧ (stored = true → done)
  | .check => done
  | .request => done
  | .supported => done
  | .enroll => done

theorem Allowed.mono {done done' : Prop} {wait : ScreenWait} (h : Allowed done wait)
    (hd : done → done') : Allowed done' wait := by
  cases wait with
  | getItem got => exact fun hgot => hd (h hgot)
  | setItem next stored => exact ⟨h.1, fun hstored => hd (h.2 hstored)⟩
  | _ => exact hd h

/-- Only somebody who has been onboarded is past the onboarding. -/
structure Gated (s : AuthStack) : Prop where
  route : ∀ r, s.route = some r → r.late = true → Onboarded s
  waits : ∀ p h, s.waits.get? p = some h → Allowed (Onboarded s) h.wait

namespace Gated

/-- Handlers go on or stop. -/
theorem of_waits (h : Gated s) {waits : Table ℕ PendingHandler}
    (hw : ∀ p h, waits.get? p = some h → s.waits.get? p = some h ∨ Allowed (Onboarded s) h.wait) :
    Gated { s with waits := waits } where
  route := h.route
  waits p w hp := (hw p w hp).elim (h.waits p w) id

theorem erase (h : Gated s) (p : ℕ) : Gated { s with waits := s.waits.erase p } :=
  h.of_waits fun _ _ hq => .inl (Table.of_get?_erase hq).2

theorem set (h : Gated s) (p : ℕ) {new : PendingHandler}
    (hnew : Allowed (Onboarded s) new.wait) : Gated { s with waits := s.waits.set p new } := by
  refine h.of_waits fun q w hq => ?_
  rcases Table.of_get?_set hq with ⟨-, rfl⟩ | ⟨-, hq⟩
  · exact .inr hnew
  · exact .inl hq

theorem await (h : Gated s) {wait : ScreenWait} (hwait : Allowed (Onboarded s) wait) :
    Gated (s.await wait) where
  route := h.route
  waits p w hp := by
    rcases of_get?_await hp with hp | rfl
    · exact h.waits p w hp
    · exact hwait

theorem replace (h : Gated s) (origin : ℕ) {next : AuthScreen}
    (hnext : next.late = true → Onboarded s) : Gated (s.replace focused origin next) where
  route r hr hlate := by
    rw [Onboarded, replace_onboarded]
    rcases route_replace hr with hr | rfl
    · exact h.route r hr hlate
    · exact hnext hlate
  waits p w hp := by
    rw [replace_waits] at hp
    rw [Onboarded, replace_onboarded]
    exact h.waits p w hp

theorem move (h : Gated s) (hok : EntryRead s l) (hm : StackMove focused s l s') : Gated s' := by
  cases hm with
  | mount hr =>
    have hshown : Gated { s with
        route := some .landing, key := s.key + 1, first := s.key + 1, current := 0 } := by
      refine ⟨?_, h.waits⟩
      rintro r ⟨⟩ hlate
      cases hlate
    exact hshown.await nofun
  | unmount => exact ⟨nofun, h.waits⟩
  | kill => exact ⟨nofun, fun p w hp => by cases hp⟩
  | slide hr => exact ⟨h.route, h.waits⟩
  | finish hr hnext => exact h.await ⟨hnext, nofun⟩
  | skip hr hbetween => exact h.replace _ fun _ => h.route _ hr (late_of_between hbetween)
  | begin hr hbetween hwait =>
    have hdone := h.route _ hr (late_of_between hbetween)
    rcases hwait with rfl | rfl
    · exact h.await hdone
    · exact h.await hdone
  | read hp => exact h.set _ fun hgot => Option.some.inj hgot
  | @stored p origin next hp =>
    have hlate := (h.waits p _ hp).1
    refine ⟨fun _ _ _ => rfl, fun q w hq => ?_⟩
    rcases Table.of_get?_set hq with ⟨-, rfl⟩ | ⟨-, hq⟩
    · exact ⟨hlate, fun _ => rfl⟩
    · exact (h.waits q w hq).mono fun _ => rfl
  | @goOn l p origin wait wait' hp hwait =>
    have hallowed := h.waits p _ hp
    refine h.set p ?_
    rcases hwait with ⟨rfl, rfl⟩ | ⟨rfl, rfl⟩
    · exact hallowed
    · exact hallowed
  | stop hp hwait => exact h.erase _
  | @landed p origin val hp =>
    refine (h.erase p).replace origin ?_
    split_ifs with hval
    · exact fun _ => h.waits p _ hp (by rw [hval])
    · exact nofun
  | notRead hp => exact absurd hp (hok _ _)
  | @advance l p origin wait next hp hwait =>
    refine (h.erase p).replace origin fun _ => ?_
    have hallowed := h.waits p _ hp
    rcases hwait with rfl | ⟨-, rfl | rfl | rfl | rfl⟩
    · exact hallowed.2 rfl
    · exact hallowed
    · exact hallowed
    · exact hallowed
    · exact hallowed

end Gated

/-! ### The onboarding does not come again -/

/-- The entry is there, and no handler of the stack leads anywhere but to the login. -/
structure Settled (s : AuthStack) : Prop where
  onboarded : Onboarded s
  route : s.route = none ∨ s.route = some .landing ∨ s.route = some .login
  first : s.first ≤ s.key
  waits : ∀ p h, s.waits.get? p = some h → h.origin ≤ s.key ∧
    (s.route.isSome = true → s.first ≤ h.origin →
      h.wait = .getItem none ∨ h.wait = .getItem (some (some "true")))

namespace Settled

/-- Nothing has replaced the screen. -/
theorem of_waits (h : Settled s) {waits : Table ℕ PendingHandler}
    (hw : ∀ p w, waits.get? p = some w → s.waits.get? p = some w ∨ w.origin ≤ s.key ∧
      (s.route.isSome = true → s.first ≤ w.origin →
        w.wait = .getItem none ∨ w.wait = .getItem (some (some "true")))) :
    Settled { s with waits := waits } where
  onboarded := h.onboarded
  route := h.route
  first := h.first
  waits p w hp := (hw p w hp).elim (h.waits p w) id

theorem erase (h : Settled s) (p : ℕ) : Settled { s with waits := s.waits.erase p } :=
  h.of_waits fun _ _ hq => .inl (Table.of_get?_erase hq).2

theorem set (h : Settled s) (p : ℕ) {new : PendingHandler} (hkey : new.origin ≤ s.key)
    (hnew : s.route.isSome = true → s.first ≤ new.origin →
      new.wait = .getItem none ∨ new.wait = .getItem (some (some "true"))) :
    Settled { s with waits := s.waits.set p new } := by
  refine h.of_waits fun q w hq => ?_
  rcases Table.of_get?_set hq with ⟨-, rfl⟩ | ⟨-, hq⟩
  · exact .inr ⟨hkey, hnew⟩
  · exact .inl hq

theorem replace (h : Settled s) {origin : ℕ} {next : AuthScreen}
    (hnext : s.route.isSome = true → s.first ≤ origin → next = .login) :
    Settled (s.replace focused origin next) := by
  unfold AuthStack.replace
  split_ifs with hand
  · obtain ⟨hshown, hacts⟩ := hand
    have hfirst : s.first ≤ origin := hacts.elim (fun hkey => hkey ▸ h.first) And.right
    refine ⟨h.onboarded, .inr (.inr ?_), Nat.le_succ_of_le h.first, fun p w hp => ?_⟩
    · rw [hnext hshown hfirst]
    · obtain ⟨hle, hwait⟩ := h.waits p w hp
      exact ⟨Nat.le_succ_of_le hle, fun _ => hwait hshown⟩
  · exact h

/-- The handlers of the stack that is shown read the entry. -/
theorem wait_eq (h : Settled s) {p origin : ℕ} {wait : ScreenWait}
    (hp : s.waits.get? p = some ⟨origin, wait⟩) (hshown : s.route.isSome = true)
    (hkey : s.first ≤ origin) : wait = .getItem none ∨ wait = .getItem (some (some "true")) :=
  (h.waits p _ hp).2 hshown hkey

theorem move (h : Settled s) (hm : StackMove focused s l s') : Settled s' := by
  have hlate : ∀ {r : AuthScreen}, s.route = some r →
      ¬ (r = .permissionPrimer ∨ r = .biometricEnrollment) := by
    intro r hr hbetween
    rcases h.route with hn | hn | hn <;> rw [hn] at hr <;> cases hr <;> simp at hbetween
  have honboarding : s.route ≠ some .onboarding := by
    rcases h.route with hn | hn | hn <;> simp [hn]
  cases hm with
  | mount hr =>
    refine ⟨h.onboarded, .inr (.inl rfl), Nat.le_refl _, fun p w hp => ?_⟩
    rcases of_get?_await hp with hp | rfl
    · have hle := (h.waits p w hp).1
      exact ⟨Nat.le_succ_of_le hle, fun _ he => absurd he (by simp only [await]; omega)⟩
    · exact ⟨Nat.le_refl _, fun _ _ => .inl rfl⟩
  | unmount => exact ⟨h.onboarded, .inl rfl, h.first, fun p w hp => ⟨(h.waits p w hp).1, nofun⟩⟩
  | kill => exact ⟨h.onboarded, .inl rfl, h.first, fun p w hp => by cases hp⟩
  | slide hr => exact absurd hr honboarding
  | finish hr hnext => exact absurd hr honboarding
  | skip hr hbetween => exact absurd hbetween (hlate hr)
  | begin hr hbetween hwait => exact absurd hbetween (hlate hr)
  | @read p origin hp =>
    refine h.set p (h.waits p _ hp).1 fun _ _ => .inr ?_
    rw [h.onboarded]
  | @stored p origin next hp =>
    have hset : Settled { s with waits := s.waits.set p ⟨origin, .setItem next true⟩ } :=
      h.set p (h.waits p _ hp).1 fun hshown hkey => by simpa using h.wait_eq hp hshown hkey
    exact ⟨rfl, hset.route, hset.first, hset.waits⟩
  | @goOn l p origin wait wait' hp hwait =>
    refine h.set p (h.waits p _ hp).1 fun hshown hkey => ?_
    rcases hwait with ⟨rfl, rfl⟩ | ⟨rfl, rfl⟩
    · simpa using h.wait_eq hp hshown hkey
    · simpa using h.wait_eq hp hshown hkey
  | stop hp hwait => exact h.erase _
  | @landed p origin val hp =>
    refine (h.erase p).replace fun hshown hkey => ?_
    rcases h.wait_eq hp hshown hkey with he | he
    · cases he
    · cases he
      rfl
  | notRead hp => exact (h.erase _).replace fun _ _ => rfl
  | @advance l p origin wait next hp hwait =>
    refine (h.erase p).replace fun hshown hkey => ?_
    rcases h.wait_eq hp hshown hkey with rfl | rfl
    · simp at hwait
    · simp at hwait

end Settled

/-! ### No screen is a dead end -/

namespace Handlers

theorem of_waits (h : Handlers s) {waits : Table ℕ PendingHandler}
    (hkeys : ∀ p ∈ waits.keys, p ∈ s.waits.keys)
    (hw : ∀ p w, waits.get? p = some w →
      w.origin ≤ s.key ∧ ∀ stored, w.wait ≠ .setItem .landing stored)
    (hlanding : ∀ p got, s.waits.get? p = some ⟨s.key, .getItem got⟩ →
      ∃ got', waits.get? p = some ⟨s.key, .getItem got'⟩) :
    Handlers { s with waits := waits } where
  ids p hp := h.ids p (hkeys p hp)
  first := h.first
  known := hw
  landing hr := by
    obtain ⟨p, got, hp⟩ := h.landing hr
    obtain ⟨got', hp'⟩ := hlanding p got hp
    exact ⟨p, got', hp'⟩

/-- A handler goes on to wait; the landing screen still reads the entry. -/
theorem set (h : Handlers s) {p origin : ℕ} {wait wait' : ScreenWait}
    (hp : s.waits.get? p = some ⟨origin, wait⟩)
    (hget : (∃ got, wait = .getItem got) → ∃ got, wait' = .getItem got)
    (hnext : ∀ stored, wait' ≠ .setItem .landing stored) :
    Handlers { s with waits := s.waits.set p ⟨origin, wait'⟩ } := by
  refine h.of_waits (by simp) (fun q w hq => ?_) fun q got hq => ?_
  · rcases Table.of_get?_set hq with ⟨-, rfl⟩ | ⟨-, hq⟩
    · exact ⟨(h.known p _ hp).1, hnext⟩
    · exact h.known q w hq
  · by_cases he : q = p
    · subst he
      cases hp.symm.trans hq
      obtain ⟨got', rfl⟩ := hget ⟨got, rfl⟩
      exact ⟨got', Table.get?_set_self hp⟩
    · exact ⟨got, by rw [Table.get?_set_of_ne he, hq]⟩

/-- A handler ends; it is none of the shown landing screen, or that screen is replaced. -/
theorem erase (h : Handlers s) {p origin : ℕ} {wait : ScreenWait}
    (hp : s.waits.get? p = some ⟨origin, wait⟩)
    (hne : s.route = some .landing → origin = s.key → ∀ got, wait ≠ .getItem got) :
    Handlers { s with waits := s.waits.erase p } where
  ids q hq := h.ids q (Table.mem_keys_of_erase hq)
  first := h.first
  known q w hq := h.known q w (Table.of_get?_erase hq).2
  landing hr := by
    obtain ⟨q, got, hq⟩ := h.landing hr
    have hqp : q ≠ p := by
      rintro rfl
      cases hp.symm.trans hq
      exact hne hr rfl got rfl
    exact ⟨q, got, by rw [Table.get?_erase, if_neg hqp, hq]⟩

/-- The screen is replaced by another one than the landing screen. -/
theorem shown (h : Handlers s) {p : ℕ} {next : AuthScreen} (hnext : next ≠ .landing) :
    Handlers { s with
      waits := s.waits.erase p, route := some next, key := s.key + 1, current := 0 } where
  ids q hq := h.ids q (Table.mem_keys_of_erase hq)
  first := Nat.le_succ_of_le h.first
  known q w hq := by
    obtain ⟨hle, hnext⟩ := h.known q w (Table.of_get?_erase hq).2
    exact ⟨Nat.le_succ_of_le hle, hnext⟩
  landing hr := absurd (Option.some.inj hr) hnext

theorem eraseReplace (h : Handlers s) {p origin : ℕ} {wait : ScreenWait} {next : AuthScreen}
    (hp : s.waits.get? p = some ⟨origin, wait⟩) (hnext : next ≠ .landing) :
    Handlers ({ s with waits := s.waits.erase p }.replace focused origin next) := by
  unfold replace
  split_ifs with hand
  · exact h.shown hnext
  · refine h.erase hp fun hr hkey => absurd ⟨?_, .inl hkey.symm⟩ hand
    simp [hr]

theorem await (h : Handlers s) {wait : ScreenWait} (hr : s.route ≠ some .landing)
    (hwait : ∀ stored, wait ≠ .setItem .landing stored) : Handlers (s.await wait) where
  ids _ hp := Table.lt_of_mem_push h.ids hp
  first := h.first
  known p w hp := by
    rcases of_get?_await hp with hp | rfl
    · exact h.known p w hp
    · exact ⟨Nat.le_refl _, hwait⟩
  landing hr' := absurd hr' hr

theorem move (h : Handlers s) (hm : StackMove focused s l s') : Handlers s' := by
  cases hm with
  | mount hr =>
    refine ⟨fun _ hp => Table.lt_of_mem_push h.ids hp, Nat.le_refl _, fun p w hp => ?_,
      fun _ => ?_⟩
    · rcases of_get?_await hp with hp | rfl
      · obtain ⟨hle, hnext⟩ := h.known p w hp
        exact ⟨Nat.le_succ_of_le hle, hnext⟩
      · exact ⟨Nat.le_refl _, by simp⟩
    · refine ⟨s.nextId, none, ?_⟩
      show (s.waits.push s.nextId ⟨s.key + 1, .getItem none⟩).get? s.nextId = _
      rw [Table.get?_push (Table.not_mem_of_lt h.ids), if_pos rfl]
      rfl
  | unmount => exact ⟨h.ids, h.first, h.known, nofun⟩
  | kill =>
    exact ⟨fun p hp => absurd hp List.not_mem_nil, h.first, fun p w hp => (by cases hp), nofun⟩
  | slide hr => exact ⟨h.ids, h.first, h.known, h.landing⟩
  | finish hr hnext =>
    refine h.await (by simp [hr]) ?_
    rintro stored ⟨⟩
    cases hnext
  | @skip r hr hbetween =>
    have hreplaced : s.replace focused s.key .login =
        { s with route := some .login, key := s.key + 1, current := 0 } := by
      simp [replace, hr]
    rw [hreplaced]
    refine ⟨h.ids, Nat.le_succ_of_le h.first, fun p w hp => ?_, nofun⟩
    obtain ⟨hle, hnext⟩ := h.known p w hp
    exact ⟨Nat.le_succ_of_le hle, hnext⟩
  | begin hr hbetween hwait =>
    refine h.await ?_ ?_
    · rcases hbetween with rfl | rfl <;> simp [hr]
    · rcases hwait with rfl | rfl <;> simp
  | read hp => exact h.set hp (fun _ => ⟨_, rfl⟩) (by simp)
  | @stored p origin next hp =>
    have hnext : next ≠ .landing := by
      rintro rfl
      exact (h.known p _ hp).2 false rfl
    have hset : Handlers { s with waits := s.waits.set p ⟨origin, .setItem next true⟩ } :=
      h.set hp (by simp) (by simpa using hnext)
    exact ⟨hset.ids, hset.first, hset.known, hset.landing⟩
  | goOn hp hwait =>
    rcases hwait with ⟨rfl, rfl⟩ | ⟨rfl, rfl⟩
    · exact h.set hp (by simp) (by simp)
    · exact h.set hp (by simp) (by simp)
  | stop hp hwait => exact h.erase hp fun _ _ => hwait
  | landed hp => exact h.eraseReplace hp (by split_ifs <;> simp)
  | notRead hp => exact h.eraseReplace hp (by simp)
  | @advance l p origin wait next hp hwait =>
    refine h.eraseReplace hp ?_
    rintro rfl
    rcases hwait with rfl | ⟨hlate, -⟩
    · exact (h.known p _ hp).2 true rfl
    · cases hlate

theorem of_reachable (h : (authStack focused).Reachable s) : Handlers s := by
  refine h.invariant ?_ fun s l s' hs hst => hs.move (.of_step hst)
  rintro s ⟨onboarded, rfl⟩
  exact ⟨fun p hp => absurd hp List.not_mem_nil, Nat.le_refl _, fun p w hp => (by cases hp), nofun⟩

end Handlers

section Forward

variable {s₀ : AuthStack}

/-- A call succeeds, or the user presses a button. -/
theorem forward (l : AuthStackLabel)
    (h : (((authStack focused).guard NoError).after s₀).Reachable s)
    (hok : NoError s l) (hst : step focused s l = some s') :
    (((authStack focused).guard NoError).after s₀).Reachable s' := h.step ⟨hok, hst⟩

/-- A handler of the shown screen replaces it. -/
theorem replace_shown {r next : AuthScreen} {waits : Table ℕ PendingHandler}
    (hr : s.route = some r) :
    (AuthStack.replace { s with waits := waits } focused s.key next).route = some next := by
  simp [replace, hr]

/-- The onboarding has stored the entry. -/
theorem login_of_stored {p : ℕ} {r : AuthScreen}
    (h : (((authStack focused).guard NoError).after s₀).Reachable s) (hr : s.route = some r)
    (hp : s.waits.get? p = some ⟨s.key, .setItem .login true⟩) :
    ∃ s', (((authStack focused).guard NoError).after s₀).Reachable s' ∧ s'.route = some .login := by
  have hst : step focused s (.settle p .ok) =
      some ({ s with waits := s.waits.erase p }.replace focused s.key .login) := by
    simp only [step, hp, Option.bind_some, settle]
  exact ⟨_, forward (.settle p .ok) h trivial hst, replace_shown hr⟩

/-- The onboarding is skipped. -/
theorem login_of_onboarding (h : (((authStack focused).guard NoError).after s₀).Reachable s)
    (hh : Handlers s) (hr : s.route = some .onboarding) :
    ∃ s', (((authStack focused).guard NoError).after s₀).Reachable s' ∧ s'.route = some .login := by
  have hskip : step focused s .onSkip = some (s.await (.setItem .login false)) := by
    simp [step, hr]
  have hp : (s.await (.setItem .login false)).waits.get? s.nextId =
      some ⟨s.key, .setItem .login false⟩ := by
    show (s.waits.push s.nextId _).get? s.nextId = _
    rw [Table.get?_push (Table.not_mem_of_lt hh.ids), if_pos rfl]
  have hland : step focused (s.await (.setItem .login false)) (.land s.nextId) =
      some { s.await (.setItem .login false) with
        onboarded := some "true"
        waits := (s.await (.setItem .login false)).waits.set s.nextId
          ⟨s.key, .setItem .login true⟩ } := by
    simp only [step, hp, Option.bind_some]
  exact login_of_stored (forward (.land s.nextId) (forward .onSkip h trivial hskip) trivial hland)
    hr (Table.get?_set_self hp)

/-- The landing screen has read the entry. -/
theorem login_of_read {p : ℕ} {val : Option String}
    (h : (((authStack focused).guard NoError).after s₀).Reachable s) (hh : Handlers s)
    (hr : s.route = some .landing) (hp : s.waits.get? p = some ⟨s.key, .getItem (some val)⟩) :
    ∃ s', (((authStack focused).guard NoError).after s₀).Reachable s' ∧ s'.route = some .login := by
  have hst : step focused s (.settle p .ok) =
      some ({ s with waits := s.waits.erase p }.replace focused s.key
        (if val = some "true" then .login else .onboarding)) := by
    simp only [step, hp, Option.bind_some, settle]
  have h₁ := forward (.settle p .ok) h trivial hst
  have hroute : ({ s with waits := s.waits.erase p }.replace focused s.key
      (if val = some "true" then .login else .onboarding)).route =
      some (if val = some "true" then .login else .onboarding) := replace_shown hr
  by_cases hval : val = some "true"
  · rw [if_pos hval] at hroute h₁
    exact ⟨_, h₁, hroute⟩
  · rw [if_neg hval] at hroute h₁ hst
    exact login_of_onboarding h₁ (hh.move (.of_step hst)) hroute

/-- **No screen is a dead end.** -/
theorem login_possible (hh : Handlers s) (hr : s.route ≠ none) :
    ∃ s', (((authStack focused).guard NoError).after s).Reachable s' ∧ s'.route = some .login := by
  have hstart : (((authStack focused).guard NoError).after s).Reachable s := .start rfl
  obtain ⟨r, hr⟩ := Option.ne_none_iff_exists'.1 hr
  cases r with
  | login => exact ⟨s, hstart, hr⟩
  | onboarding => exact login_of_onboarding hstart hh hr
  | permissionPrimer =>
    have hst : step focused s .onSkip = some (s.replace focused s.key .login) := by simp [step, hr]
    exact ⟨_, forward .onSkip hstart trivial hst, replace_shown hr⟩
  | biometricEnrollment =>
    have hst : step focused s .onSkip = some (s.replace focused s.key .login) := by simp [step, hr]
    exact ⟨_, forward .onSkip hstart trivial hst, replace_shown hr⟩
  | landing =>
    obtain ⟨p, got, hp⟩ := hh.landing hr
    cases got with
    | some val => exact login_of_read hstart hh hr hp
    | none =>
      have hst : step focused s (.land p) = some
          { s with waits := s.waits.set p ⟨s.key, .getItem (some s.onboarded)⟩ } := by
        simp only [step, hp, Option.bind_some]
      exact login_of_read (forward (.land p) hstart trivial hst) (hh.move (.of_step hst)) hr
        (Table.get?_set_self hp)

end Forward

/-- **The onboarding is shown once.**  As long as the entry can be read, nobody is past the
onboarding without it; whoever has it sees nothing but the landing screen and the login from the
next time on; and the login can be reached from every screen. -/
theorem onboarding_once (h : (authStack focused).Reachable s) :
    (((authStack focused).guard EntryRead).Reachable s →
      ∀ r, s.route = some r → r.late = true → Onboarded s) ∧
    (Onboarded s → s.route = none → ∀ s', ((authStack focused).after s).Reachable s' →
      s'.route = none ∨ s'.route = some .landing ∨ s'.route = some .login) ∧
    (s.route ≠ none →
      ∃ s', (((authStack focused).guard NoError).after s).Reachable s' ∧
        s'.route = some .login) := by
  have hh := Handlers.of_reachable h
  refine ⟨fun hread => ?_, fun hdone hr s' h' => ?_, login_possible hh⟩
  · have hg : Gated s := by
      refine hread.invariant ?_ fun s l s' hs hst => hs.move hst.1 (.of_step hst.2)
      rintro s ⟨onboarded, rfl⟩
      exact ⟨nofun, fun p w hp => by cases hp⟩
    exact hg.route
  · have hsettled : Settled s := by
      refine ⟨hdone, .inl hr, hh.first, fun p w hp => ⟨(hh.known p w hp).1, ?_⟩⟩
      simp [hr]
    have hs' : Settled s' :=
      h'.invariant (fun t ht => ht ▸ hsettled) fun t l t' ht hst => ht.move (.of_step hst)
    exact hs'.route

/-- A user skips the onboarding and logs in. -/
def skipAndLogin : List AuthStackLabel :=
  [.mount, .land 0, .settle 0 .ok, .onSkip, .land 1, .settle 1 .ok, .unmount]

theorem onboarding_once_skipped :
    ∃ s, (authStack true).Reachable s ∧ Onboarded s ∧ s.route = none ∧
      ∀ s', ((authStack true).after s).Reachable s' →
        s'.route = none ∨ s'.route = some .landing ∨ s'.route = some .login := by
  have hrun : (LTS.exec (step true) (init none) skipAndLogin).map
      (fun s => (s.onboarded, s.route)) = some (some "true", none) := by decide +kernel
  obtain ⟨s, hs, he⟩ := Option.map_eq_some_iff.1 hrun
  simp only [Prod.mk.injEq] at he
  have hr : (authStack true).Reachable s := LTS.reachable_of_exec (.start ⟨none, rfl⟩) hs
  exact ⟨s, hr, he.1, he.2, (onboarding_once hr).2.1 he.1 he.2⟩

end AuthStack

end FCord
