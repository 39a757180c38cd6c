import FCord.App.Onboarding
import FCord.Session.Saving
import Mathlib.Data.List.Chain

/-!
# The screens after the login

The stack of the screens for a user who is logged in starts with the list.  Only `onFabPress` of the
list opens a recording screen, once the microphone may be used; while it waits for that, the user
may have gone somewhere else, or pressed again.  A handler of a recording screen may go back after
its screen has been closed; the library then closes the screen that is shown now (`late`) or
nothing, and the results hold for both.  There is one recording screen at most, with no other screen
above it, and it is known which handlers can close it (`one_recording_screen`).

## Main definitions

* `MainStack` : the screens, with the recording screens that have been opened.
* `MainStack.step` : what a user action or a settled call does.
* `mainStack` : the transition system; a run starts with the list.
-/

namespace FCord

/-- A screen of `MainStackParamList`; `key` identifies a recording screen. -/
inductive MainRoute where
  | home | library | settings
  | recordingDetail (id : String)
  | transcript (id : String)
  | recordingModal (key : ℕ)
  deriving DecidableEq, Repr

/-- The header of the screen is `AppTopBar`. -/
def MainRoute.hasTopBar : MainRoute → Bool
  | library | settings | recordingDetail _ => true
  | home | transcript _ | recordingModal _ => false

/-- `FabNavRoute` -/
inductive FabNavRoute where
  | recordingModal | permissionDenied
  deriving DecidableEq, Repr

def resolveFabNavRoute (granted : Bool) : FabNavRoute :=
  if granted then .recordingModal else .permissionDenied

/-- What `onFabPress` waits for. -/
inductive FabWait where
  | check | request
  deriving DecidableEq, Repr

structure MainStack where
  /-- The screens, the one that is shown first. -/
  routes : List MainRoute
  /-- The recording screens that have been opened. -/
  sessions : Table ℕ RecordingScreen
  nextKey : ℕ
  fabs : Table ℕ FabWait
  nextPid : ℕ

/-- What can happen. -/
inductive MainLabel where
  /-- The user goes back: with a button, a key or a gesture. -/
  | back
  | onHome
  | onLibrary
  | onSettings
  /-- A card of the list is pressed. -/
  | onCard (id : String)
  /-- The detail screen opens the transcript. -/
  | onTranscript
  /-- `onDeleteConfirm` of the detail screen. -/
  | onDeleteConfirm
  | onFabPress
  /-- The permission has been checked or requested (`none`: that fails). -/
  | fab (p : ℕ) (result : Option PermissionResult)
  /-- A recording screen makes a step. -/
  | session (key : ℕ) (l : SessionLabel)
  deriving DecidableEq, Repr

/-- The step from `x` to `x'` has gone back. -/
def RecordingScreen.WentBack (x x' : RecordingScreen) : Prop :=
  .goBack ∈ x'.log.drop x.log.length

instance (x x' : RecordingScreen) : Decidable (x.WentBack x') :=
  inferInstanceAs (Decidable (.goBack ∈ x'.log.drop x.log.length))

namespace MainStack

variable (s : MainStack)

/-- `navigation.navigate` to a screen without parameters or of another name. -/
def navigate (r : MainRoute) : MainStack :=
  if s.routes.head? = some r then s else { s with routes := r :: s.routes }

/-- `navigation.navigate('RecordingModal')` -/
def openRecording : MainStack :=
  match s.routes with
  | .recordingModal _ :: _ => s
  | _ =>
    { s with
      routes := .recordingModal s.nextKey :: s.routes
      sessions := s.sessions.push s.nextKey .init
      nextKey := s.nextKey + 1 }

/-- `navigation.goBack` -/
def goBack : MainStack :=
  match s.routes with
  | _ :: r :: rs => { s with routes := r :: rs }
  | _ => s

/-- An icon of a header is pressed. -/
def iconPress (r : MainRoute) : Option MainStack :=
  s.routes.head?.bind fun top =>
    if top = .home ∨ top.hasTopBar then some (s.navigate r) else none

/-- The rest of `onFabPress`. -/
def onFab (p : ℕ) : FabWait → Option PermissionResult → MainStack
  | .check, some .granted => { s with fabs := s.fabs.erase p }.openRecording
  | .check, some _ => { s with fabs := s.fabs.set p .request }
  | .request, some result =>
    match resolveFabNavRoute (result = .granted) with
    | .recordingModal => { s with fabs := s.fabs.erase p }.openRecording
    | .permissionDenied => { s with fabs := s.fabs.erase p }
  | _, none => { s with fabs := s.fabs.erase p }

/-- The recording screen `key` has made a step from `x` to `x'`. -/
def onSession (late : Bool) (key : ℕ) (x x' : RecordingScreen) : MainStack :=
  if x.WentBack x' ∧ (.recordingModal key ∈ s.routes ∨ late) then
    { s with sessions := s.sessions.set key x' }.goBack
  else { s with sessions := s.sessions.set key x' }

/-- The step function. -/
def step (toLocaleDateString : LocalTime → String) (ios late : Bool) (s : MainStack) :
    MainLabel → Option MainStack
  | .back => some s.goBack
  | .onHome => s.iconPress .home
  | .onLibrary => s.iconPress .library
  | .onSettings => s.iconPress .settings
  | .onCard id =>
    if s.routes.head? = some .home then some (s.navigate (.recordingDetail id)) else none
  | .onTranscript =>
    match s.routes.head? with
    | some (.recordingDetail id) => some (s.navigate (.transcript id))
    | _ => none
  -- `softDeleteRecording` awaits nothing, so the screen is still shown when it goes back
  | .onDeleteConfirm =>
    match s.routes.head? with
    | some (.recordingDetail _) => some s.goBack
    | _ => none
  | .onFabPress =>
    if s.routes.head? = some .home then
      some { s with
        fabs := s.fabs.push s.nextPid (if ios then .check else .request)
        nextPid := s.nextPid + 1 }
    else none
  | .fab p result => (s.fabs.get? p).map fun wait => s.onFab p wait result
  | .session key l =>
    -- a screen that has been closed is unmounted when it has disappeared
    if l = .unmount ∧ .recordingModal key ∈ s.routes then none
    else
      (s.sessions.get? key).bind fun x =>
        (x.step toLocaleDateString l).map fun x' => s.onSession late key x x'

def init : MainStack where
  routes := [.home]
  sessions := .empty
  nextKey := 0
  fabs := .empty
  nextPid := 0

end MainStack

open MainStack in
/-- The screens after the login, on one of the two platforms.  With `late`, a screen that has been
closed still closes the one that is shown. -/
def mainStack (toLocaleDateString : LocalTime → String) (ios late : Bool) :
    LTS MainStack MainLabel :=
  LTS.ofFn (· = init) (step toLocaleDateString ios late)

/-! ### What a recording screen does -/

namespace RecordingScreen

variable {toLocaleDateString : LocalTime → String} {x x' : RecordingScreen} {l : SessionLabel}

/-- A handler that may go back waits. -/
def Pending (x : RecordingScreen) : Prop :=
  x.saving.isSome = true ∨ x.asking = true ∨ x.micError = true

/-- The step `l` to `x'` unmounts the screen only if it says so, and goes back only if a handler of
`x` was waiting for that. -/
structure Continues (l : SessionLabel) (x x' : RecordingScreen) : Prop where
  active : l ≠ .unmount → x'.active = x.active
  pending : x.WentBack x' → Pending x

theorem wentBack_iff {events : List SessionEvent} (h : x'.log = x.log ++ events) :
    x.WentBack x' ↔ .goBack ∈ events := by
  rw [WentBack, h, List.drop_left]

theorem Continues.of_same (hactive : l ≠ .unmount → x'.active = x.active)
    (hlog : x'.log = x.log) : Continues l x x' where
  active := hactive
  pending := by
    intro hback
    have hnil : x'.log = x.log ++ [] := by rw [hlog, List.append_nil]
    rw [wentBack_iff hnil] at hback
    cases hback

theorem Continues.of_record {y : RecordingScreen} (events : List SessionEvent)
    (hactive : y.active = x.active) (hlog : y.log = x.log)
    (hpending : .goBack ∈ events → Pending x) : Continues l x (y.record events) where
  active _ := hactive
  pending hback := hpending ((wentBack_iff (by rw [record, hlog])).1 hback)

theorem setState_active (x : RecordingScreen) {update : RecordingScreen → RecordingScreen}
    (h : (update x).active = x.active) : (x.setState update).active = x.active := by
  unfold setState
  split_ifs
  · exact h
  · rfl

theorem setState_log (x : RecordingScreen) {update : RecordingScreen → RecordingScreen}
    (h : (update x).log = x.log) : (x.setState update).log = x.log := by
  unfold setState
  split_ifs
  · exact h
  · rfl

/-- **What a step of a recording screen can do** to its being mounted, and when it goes back. -/
theorem Continues.of_step (h : x.step toLocaleDateString l = some x') : Continues l x x' := by
  cases l with
  | started ok =>
    obtain ⟨-, he⟩ := Option.ite_none_right_eq_some.1 h
    cases he
    split_ifs <;> exact .of_same (fun _ => rfl) rfl
  | closeMicError =>
    obtain ⟨hmic, he⟩ := Option.ite_none_right_eq_some.1 h
    cases he
    exact .of_record [.goBack] rfl rfl fun _ => .inr (.inr hmic)
  | position ms =>
    obtain ⟨-, he⟩ := Option.ite_none_right_eq_some.1 h
    cases he
    exact .of_same (fun _ => setState_active x rfl) (setState_log x rfl)
  | onTogglePause =>
    obtain ⟨-, he⟩ := Option.ite_none_right_eq_some.1 h
    cases he
    exact .of_same (fun _ => rfl) rfl
  | toggled wasPaused ok =>
    obtain ⟨-, he⟩ := Option.ite_none_right_eq_some.1 h
    cases he
    exact .of_same (fun _ => setState_active _ rfl) (setState_log _ rfl)
  | onStop =>
    obtain ⟨-, he⟩ := Option.ite_none_right_eq_some.1 h
    cases he
    exact .of_same (fun _ => rfl) rfl
  | stopped uri =>
    obtain ⟨-, he⟩ := Option.ite_none_left_eq_some.1 h
    cases uri with
    | none =>
      cases he
      exact .of_same (fun _ => rfl) rfl
    | some uri =>
      cases he
      exact .of_record _ (setState_active _ rfl) (setState_log _ rfl) (by simp)
  | setTitle title =>
    obtain ⟨-, he⟩ := Option.ite_none_right_eq_some.1 h
    cases he
    exact .of_same (fun _ => rfl) rfl
  | onSave now =>
    obtain ⟨-, he⟩ := Option.ite_none_right_eq_some.1 h
    cases he
    unfold onSave
    split
    · exact .of_same (fun _ => rfl) rfl
    · split_ifs
      · exact .of_same (fun _ => rfl) rfl
      · exact .of_record _ rfl rfl (by simp)
  | answered res =>
    obtain ⟨y, hy, rfl⟩ := Option.map_eq_some_iff.1 h
    have hsaving : Pending x := .inl (by rw [hy]; rfl)
    unfold onAnswer
    split
    · exact .of_record _ (setState_active _ rfl) (setState_log _ rfl) fun _ => hsaving
    · exact .of_record _ (setState_active _ rfl) (setState_log _ rfl) fun _ => hsaving
  | onCancelSave =>
    obtain ⟨-, he⟩ := Option.ite_none_right_eq_some.1 h
    cases he
    exact .of_same (fun _ => rfl) rfl
  | decide discard =>
    obtain ⟨hasking, he⟩ := Option.ite_none_right_eq_some.1 h
    cases discard with
    | false =>
      cases he
      exact .of_same (fun _ => rfl) rfl
    | true =>
      cases he
      exact .of_record _ (setState_active _ rfl) (setState_log _ rfl) fun _ =>
        .inr (.inl hasking)
  | unmount =>
    obtain ⟨-, he⟩ := Option.ite_none_right_eq_some.1 h
    cases he
    exact .of_same (fun hne => absurd rfl hne) rfl

/-- A handler that may go back can do so. -/
theorem exists_wentBack (h : Pending x) :
    ∃ l x', x.step toLocaleDateString l = some x' ∧ x.WentBack x' := by
  rcases h with hsaving | hasking | hmic
  · obtain ⟨y, hy⟩ := Option.isSome_iff_exists.1 hsaving
    refine ⟨.answered (some ⟨true, some "id"⟩), x.saved "id" y, ?_, ?_⟩
    · rw [step, hy]
      rfl
    · exact (wentBack_iff (by rw [saved, record, setState_log _ rfl])).2 (by simp)
  · refine ⟨.decide true, _, if_pos hasking, ?_⟩
    exact (wentBack_iff (by rw [if_pos rfl, record, setState_log _ rfl])).2 (by simp)
  · exact ⟨.closeMicError, _, if_pos hmic, (wentBack_iff rfl).2 (by simp)⟩

end RecordingScreen

/-! ### The stack -/

/-- The screen can have been opened from the other. -/
def MainRoute.Over : MainRoute → MainRoute → Prop
  | .home, r => r.hasTopBar = true
  | .library, r => r = .home ∨ r.hasTopBar = true
  | .settings, r => r = .home ∨ r.hasTopBar = true
  | .recordingDetail _, r => r = .home
  | .transcript id, r => r = .recordingDetail id
  | .recordingModal _, r => ∀ key, r ≠ .recordingModal key

/-- Nothing is opened from a recording screen. -/
theorem MainRoute.Over.ne {r r' : MainRoute} (h : r.Over r') (key : ℕ) :
    r' ≠ .recordingModal key := by
  rintro rfl
  cases r with
  | home => cases h
  | library => rcases h with h | h <;> cases h
  | settings => rcases h with h | h <;> cases h
  | recordingDetail => cases h
  | transcript => cases h
  | recordingModal => exact h key rfl

theorem MainRoute.not_mem_of_over {r : MainRoute} {rs : List MainRoute}
    (h : (r :: rs).IsChain MainRoute.Over) (key : ℕ) : .recordingModal key ∉ rs := by
  induction rs generalizing r with
  | nil => exact List.not_mem_nil
  | cons r' rs ih =>
    obtain ⟨hr, hrs⟩ := List.isChain_cons_cons.1 h
    rw [List.mem_cons, not_or]
    exact ⟨(hr.ne key).symm, ih hrs⟩

namespace MainStack

variable {toLocaleDateString : LocalTime → String} {ios late : Bool} {s s' : MainStack}
  {l : MainLabel} {k : ℕ}

/-- A step of a recording screen. -/
theorem session_cases {key : ℕ} {l : SessionLabel}
    (h : step toLocaleDateString ios late s (.session key l) = some s') :
    (l = .unmount → .recordingModal key ∉ s.routes) ∧ ∃ x x', s.sessions.get? key = some x ∧
      x.step toLocaleDateString l = some x' ∧ s' = s.onSession late key x x' := by
  obtain ⟨hl, h⟩ := Option.ite_none_left_eq_some.1 h
  obtain ⟨x, hx, hmap⟩ := Option.bind_eq_some_iff.1 h
  obtain ⟨x', hx', rfl⟩ := Option.map_eq_some_iff.1 hmap
  exact ⟨fun hu hmem => hl ⟨hu, hmem⟩, x, x', hx, hx', rfl⟩

/-- The recording screen `k` is the screen that is shown. -/
def Shows (s : MainStack) (k : ℕ) : Prop := s.routes.head? = some (.recordingModal k)

/-- Nothing is above a recording screen, and the one that is shown is mounted. -/
structure Alone (toLocaleDateString : LocalTime → String) (s : MainStack) : Prop where
  bottom : s.routes.getLast? = some .home
  ordered : s.routes.IsChain MainRoute.Over
  opened : ∀ k, s.Shows k → k ∈ s.sessions.keys
  fresh : ∀ k ∈ s.sessions.keys, k < s.nextKey
  active : ∀ k x, s.sessions.get? k = some x → s.Shows k → x.active = true
  session : ∀ k x, s.sessions.get? k = some x → (recordingSession toLocaleDateString).Reachable x

namespace Alone

variable (h : Alone toLocaleDateString s)

include h

/-- A recording screen is nowhere in the stack but on top. -/
theorem shows_of_mem (hk : .recordingModal k ∈ s.routes) : s.Shows k := by
  have hover := h.ordered
  obtain ⟨r, rs, hroutes⟩ := List.exists_cons_of_ne_nil (List.ne_nil_of_mem hk)
  rw [hroutes] at hk hover
  rw [Shows, hroutes]
  rcases List.mem_cons.1 hk with rfl | hk
  · rfl
  · exact absurd hk (MainRoute.not_mem_of_over hover k)

/-- What a step keeps that changes only the calls of `onFabPress`. -/
theorem of_fabs (fabs : Table ℕ FabWait) (nextPid : ℕ) :
    Alone toLocaleDateString { s with fabs := fabs, nextPid := nextPid } :=
  ⟨h.bottom, h.ordered, h.opened, h.fresh, h.active, h.session⟩

theorem push {r : MainRoute} (hr : ∀ key, r ≠ .recordingModal key)
    (hover : ∀ top, s.routes.head? = some top → r.Over top) :
    Alone toLocaleDateString { s with routes := r :: s.routes } where
  bottom := by rw [List.getLast?_cons, h.bottom]; rfl
  ordered := List.isChain_cons.2 ⟨fun top htop => hover top htop, h.ordered⟩
  opened k hk := absurd (Option.some.inj hk) (hr k)
  fresh := h.fresh
  active k _ _ hk := absurd (Option.some.inj hk) (hr k)
  session := h.session

theorem navigate {r : MainRoute} (hr : ∀ key, r ≠ .recordingModal key)
    (hover : ∀ top, s.routes.head? = some top → top ≠ r → r.Over top) :
    Alone toLocaleDateString (s.navigate r) := by
  unfold MainStack.navigate
  split_ifs with hsame
  · exact h
  · exact h.push hr fun top htop => hover top htop fun he => hsame (he ▸ htop)

theorem openRecording : Alone toLocaleDateString s.openRecording := by
  unfold MainStack.openRecording
  split
  · exact h
  · rename_i hnot
    have hfresh := Table.not_mem_of_lt h.fresh
    have hother : ∀ k, ¬ s.Shows k := by
      intro k hk
      obtain ⟨rs, hrs⟩ := List.head?_eq_some_iff.1 hk
      exact hnot k rs hrs
    refine ⟨?_, ?_, ?_, fun k hk => Table.lt_of_mem_push h.fresh hk, ?_, ?_⟩
    · rw [List.getLast?_cons, h.bottom]
      rfl
    · refine List.isChain_cons.2 ⟨fun top htop key he => ?_, h.ordered⟩
      exact hother key (by rw [Shows, ← he]; exact htop)
    · intro k hk
      obtain rfl : s.nextKey = k := by simpa [Shows] using hk
      show s.nextKey ∈ (s.sessions.push s.nextKey .init).keys
      rw [Table.keys_push hfresh]
      simp
    · intro k x hx
      rw [Table.get?_push hfresh] at hx
      split_ifs at hx with hk
      · subst hk
        obtain rfl := Option.some.inj hx
        exact fun _ => rfl
      · exact fun hs => absurd (MainRoute.recordingModal.inj (Option.some.inj hs)).symm hk
    · intro k x hx
      rcases Table.eq_or_get?_of_push hx with rfl | hx
      · exact .start rfl
      · exact h.session k x hx

theorem goBack : Alone toLocaleDateString s.goBack := by
  unfold MainStack.goBack
  split
  · rename_i top r rs hroutes
    have hover := h.ordered
    have hbottom := h.bottom
    rw [hroutes] at hover hbottom
    obtain ⟨hr, hrs⟩ := List.isChain_cons_cons.1 hover
    have hnot : ∀ k, ¬ (r :: rs).head? = some (.recordingModal k) := fun k hk =>
      hr.ne k (Option.some.inj hk)
    rw [List.getLast?_cons_cons] at hbottom
    exact ⟨hbottom, hrs, fun k hk => absurd hk (hnot k), h.fresh,
      fun k _ _ hk => absurd hk (hnot k), h.session⟩
  · exact h

theorem set {key : ℕ} {x x' : RecordingScreen} (hx : s.sessions.get? key = some x)
    (hactive : s.Shows key → x'.active = true)
    (hr : (recordingSession toLocaleDateString).Reachable x') :
    Alone toLocaleDateString { s with sessions := s.sessions.set key x' } where
  bottom := h.bottom
  ordered := h.ordered
  opened k hk := by
    rw [Table.keys_set]
    exact h.opened k hk
  fresh k hk := by
    rw [Table.keys_set] at hk
    exact h.fresh k hk
  active k y hy := by
    rcases Table.of_get?_set hy with ⟨rfl, rfl⟩ | ⟨-, hy⟩
    · exact hactive
    · exact h.active k y hy
  session k y hy := by
    rcases Table.of_get?_set hy with ⟨rfl, rfl⟩ | ⟨-, hy⟩
    · exact hr
    · exact h.session k y hy

theorem set_step {key : ℕ} {x x' : RecordingScreen} {l : SessionLabel}
    (hx : s.sessions.get? key = some x) (hstep : x.step toLocaleDateString l = some x')
    (hl : l = .unmount → .recordingModal key ∉ s.routes) :
    Alone toLocaleDateString { s with sessions := s.sessions.set key x' } := by
  refine h.set hx (fun hk => ?_) ((h.session key x hx).step hstep)
  have hne : l ≠ .unmount := fun hu => hl hu (List.mem_of_mem_head? hk)
  rw [(RecordingScreen.Continues.of_step hstep).active hne]
  exact h.active key x hx hk

theorem iconPress {r : MainRoute} (hr : ∀ key, r ≠ .recordingModal key)
    (hover : ∀ top : MainRoute, top = .home ∨ top.hasTopBar = true → top ≠ r → r.Over top)
    (hst : s.iconPress r = some s') : Alone toLocaleDateString s' := by
  obtain ⟨top, htop, hst⟩ := Option.bind_eq_some_iff.1 hst
  obtain ⟨hbar, he⟩ := Option.ite_none_right_eq_some.1 hst
  cases he
  refine h.navigate hr fun top' htop' => ?_
  obtain rfl := Option.some.inj (htop.symm.trans htop')
  exact hover top hbar

theorem onFab (p : ℕ) (wait : FabWait) (result : Option PermissionResult) :
    Alone toLocaleDateString (s.onFab p wait result) := by
  unfold MainStack.onFab
  split
  · exact (h.of_fabs _ s.nextPid).openRecording
  · exact h.of_fabs _ s.nextPid
  · split
    · exact (h.of_fabs _ s.nextPid).openRecording
    · exact h.of_fabs _ s.nextPid
  · exact h.of_fabs _ s.nextPid

theorem step (hst : step toLocaleDateString ios late s l = some s') :
    Alone toLocaleDateString s' := by
  cases l with
  | back => cases hst; exact h.goBack
  | onHome =>
    exact h.iconPress (r := .home) nofun (fun _ htop hne => htop.resolve_left hne) hst
  | onLibrary => exact h.iconPress (r := .library) nofun (fun _ htop _ => htop) hst
  | onSettings => exact h.iconPress (r := .settings) nofun (fun _ htop _ => htop) hst
  | onCard id =>
    obtain ⟨htop, he⟩ := Option.ite_none_right_eq_some.1 hst
    cases he
    refine h.navigate nofun fun top htop' _ => ?_
    exact Option.some.inj (htop'.symm.trans htop)
  | onTranscript =>
    simp only [MainStack.step] at hst
    split at hst
    · rename_i id htop
      cases hst
      refine h.navigate nofun fun top htop' _ => ?_
      exact Option.some.inj (htop'.symm.trans htop)
    · cases hst
  | onDeleteConfirm =>
    simp only [MainStack.step] at hst
    split at hst
    · cases hst; exact h.goBack
    · cases hst
  | onFabPress =>
    obtain ⟨-, he⟩ := Option.ite_none_right_eq_some.1 hst
    cases he
    exact h.of_fabs _ _
  | fab p result =>
    obtain ⟨wait, -, rfl⟩ := Option.map_eq_some_iff.1 hst
    exact h.onFab p wait result
  | session key l =>
    obtain ⟨hl, x, x', hx, hstep, rfl⟩ := session_cases hst
    have hset := h.set_step hx hstep hl
    unfold onSession
    split_ifs
    · exact hset.goBack
    · exact hset

end Alone

theorem Alone.of_reachable (h : (mainStack toLocaleDateString ios late).Reachable s) :
    Alone toLocaleDateString s := by
  refine h.invariant ?_ fun s l s' hs hst => hs.step hst
  rintro s rfl
  have hnone : ∀ k x, (Table.empty : Table ℕ RecordingScreen).get? k ≠ some x := fun k x =>
    Table.get?_ne_some rfl
  exact
    { bottom := rfl
      ordered := List.isChain_singleton _
      opened := fun k hk => by cases hk
      fresh := fun k hk => absurd hk List.not_mem_nil
      active := fun k x hx => absurd hx (hnone k x)
      session := fun k x hx => absurd hx (hnone k x) }

/-! ### Who opens a recording screen -/

/-- The user presses the button that starts a recording. -/
def isFabPress : MainLabel → Bool
  | .onFabPress => true
  | _ => false

/-- The microphone may be used. -/
def isGrant : MainLabel → Bool
  | .fab _ (some .granted) => true
  | _ => false

theorem sessions_navigate {r : MainRoute} : (s.navigate r).sessions = s.sessions := by
  unfold navigate
  split_ifs <;> rfl

theorem fabs_navigate {r : MainRoute} : (s.navigate r).fabs = s.fabs := by
  unfold navigate
  split_ifs <;> rfl

theorem sessions_goBack : s.goBack.sessions = s.sessions := by
  unfold goBack
  split <;> rfl

theorem fabs_goBack : s.goBack.fabs = s.fabs := by
  unfold goBack
  split <;> rfl

theorem length_openRecording :
    s.openRecording.sessions.keys.length ≤ s.sessions.keys.length + 1 := by
  unfold openRecording
  split
  · omega
  · exact Table.length_keys_push_le

theorem fabs_openRecording : s.openRecording.fabs = s.fabs := by
  unfold openRecording
  split <;> rfl

/-- A step opens a recording screen only for a press that has been granted, and such a press is
used up. -/
structure Opens (s : MainStack) (l : MainLabel) (s' : MainStack) : Prop where
  sessions : s'.sessions.keys.length ≤ s.sessions.keys.length + (isGrant l).toNat
  fabs : s'.fabs.keys.length + (isGrant l).toNat ≤ s.fabs.keys.length + (isFabPress l).toNat

theorem Opens.of_same (hsessions : s'.sessions.keys = s.sessions.keys) (hfabs : s'.fabs = s.fabs)
    (hl : isGrant l = false) : Opens s l s' where
  sessions := by rw [hsessions]; omega
  fabs := by rw [hfabs, hl]; simp

theorem Opens.iconPress {r : MainRoute} (hst : s.iconPress r = some s')
    (hl : isGrant l = false) : Opens s l s' := by
  obtain ⟨top, -, hst⟩ := Option.bind_eq_some_iff.1 hst
  obtain ⟨-, he⟩ := Option.ite_none_right_eq_some.1 hst
  cases he
  exact .of_same (congrArg Table.keys sessions_navigate) fabs_navigate hl

/-- A press that waits no more. -/
theorem Opens.opened {p : ℕ} {wait : FabWait} (hp : s.fabs.get? p = some wait) :
    Opens s (.fab p (some .granted)) { s with fabs := s.fabs.erase p }.openRecording where
  sessions := length_openRecording
  fabs := by
    rw [fabs_openRecording]
    exact (Table.length_keys_erase (Table.mem_keys_of_get? hp)).le

theorem Opens.erased {p : ℕ} {wait : FabWait} (hp : s.fabs.get? p = some wait)
    (hl : isGrant l = false) : Opens s l { s with fabs := s.fabs.erase p } where
  sessions := by simp
  fabs := by
    have herase := Table.length_keys_erase (Table.mem_keys_of_get? hp)
    rw [hl]
    simp only [Bool.toNat_false]
    omega

theorem Opens.fab {p : ℕ} {wait : FabWait} (hp : s.fabs.get? p = some wait)
    (result : Option PermissionResult) : Opens s (.fab p result) (s.onFab p wait result) := by
  cases result with
  | none => cases wait <;> exact .erased hp rfl
  | some result =>
    cases wait with
    | check =>
      cases result with
      | granted => exact .opened hp
      | _ => exact ⟨by simp [onFab], by simp [onFab, isGrant]⟩
    | request =>
      cases result with
      | granted => exact .opened hp
      | _ => exact .erased hp rfl

theorem Opens.of_step (hst : step toLocaleDateString ios late s l = some s') : Opens s l s' := by
  cases l with
  | back => cases hst; exact .of_same (congrArg Table.keys sessions_goBack) fabs_goBack rfl
  | onHome => exact .iconPress (r := .home) hst rfl
  | onLibrary => exact .iconPress (r := .library) hst rfl
  | onSettings => exact .iconPress (r := .settings) hst rfl
  | onCard id =>
    obtain ⟨-, he⟩ := Option.ite_none_right_eq_some.1 hst
    cases he
    exact .of_same (congrArg Table.keys sessions_navigate) fabs_navigate rfl
  | onTranscript =>
    simp only [step] at hst
    split at hst
    · cases hst
      exact .of_same (congrArg Table.keys sessions_navigate) fabs_navigate rfl
    · cases hst
  | onDeleteConfirm =>
    simp only [step] at hst
    split at hst
    · cases hst
      exact .of_same (congrArg Table.keys sessions_goBack) fabs_goBack rfl
    · cases hst
  | onFabPress =>
    obtain ⟨-, he⟩ := Option.ite_none_right_eq_some.1 hst
    cases he
    exact ⟨by simp, Table.length_keys_push_le⟩
  | fab p result =>
    obtain ⟨wait, hp, rfl⟩ := Option.map_eq_some_iff.1 hst
    exact .fab hp result
  | session key l =>
    obtain ⟨-, x, x', -, -, rfl⟩ := session_cases hst
    unfold onSession
    split_ifs
    · exact .of_same ((congrArg Table.keys sessions_goBack).trans Table.keys_set) fabs_goBack rfl
    · exact .of_same Table.keys_set rfl rfl

theorem countP_append {tr : List (MainStack × MainLabel)} (p : MainLabel → Bool) :
    (tr ++ [(s, l)]).countP (fun y => p y.2) = tr.countP (fun y => p y.2) + (p l).toNat := by
  rw [List.countP_append, List.countP_singleton]
  cases p l <;> rfl

/-- **A recording screen has been opened by a press.** -/
theorem opened_by_press {tr : List (MainStack × MainLabel)}
    (h : (mainStack toLocaleDateString ios late).Run tr s) :
    s.sessions.keys.length ≤ tr.countP (fun y => isGrant y.2) ∧
      s.fabs.keys.length + tr.countP (fun y => isGrant y.2) ≤
        tr.countP (fun y => isFabPress y.2) := by
  induction h with
  | start hs => subst hs; exact ⟨Nat.le_refl _, Nat.le_refl _⟩
  | step hrun hst ih =>
    have hopens := Opens.of_step hst
    have hsessions := hopens.sessions
    have hfabs := hopens.fabs
    rw [countP_append, countP_append]
    omega

/-! ### Who closes a recording screen -/

theorem shows_of_routes {r : MainRoute} (h : s.routes.head? = some r) (hk : s.Shows k) :
    r = .recordingModal k :=
  Option.some.inj (h.symm.trans hk)

theorem not_shows_goBack (h : Alone toLocaleDateString s) (hk : s.Shows k) :
    ¬ s.goBack.Shows k := by
  have hover := h.ordered
  have hbottom := h.bottom
  obtain ⟨rs, hroutes⟩ := List.head?_eq_some_iff.1 hk
  rw [hroutes] at hover hbottom
  cases rs with
  | nil => cases hbottom
  | cons r rs =>
    obtain ⟨hr, -⟩ := List.isChain_cons_cons.1 hover
    have hback : s.goBack.routes = r :: rs := by rw [goBack, hroutes]
    rw [Shows, hback]
    exact fun he => hr.ne k (Option.some.inj he)

theorem openRecording_of_shows (hk : s.Shows k) : s.openRecording = s := by
  obtain ⟨rs, hroutes⟩ := List.head?_eq_some_iff.1 hk
  rw [openRecording, hroutes]

theorem shows_onFab (hk : s.Shows k) (p : ℕ) (wait : FabWait) (result : Option PermissionResult) :
    (s.onFab p wait result).Shows k := by
  have hopen : ∀ fabs, ({ s with fabs := fabs } : MainStack).openRecording.Shows k := by
    intro fabs
    rw [openRecording_of_shows (k := k) (by exact hk)]
    exact hk
  unfold onFab
  split
  · exact hopen _
  · exact hk
  · split
    · exact hopen _
    · exact hk
  · exact hk

/-- A recording screen is closed by the user or by a recording screen. -/
theorem closed_cases (hst : step toLocaleDateString ios late s l = some s') (hk : s.Shows k)
    (hnot : ¬ s'.Shows k) : l = .back ∨ ∃ key l', l = .session key l' := by
  have hicon : ∀ {r}, s.iconPress r ≠ some s' := by
    intro r hr
    obtain ⟨top, htop, hr⟩ := Option.bind_eq_some_iff.1 hr
    obtain ⟨hbar, -⟩ := Option.ite_none_right_eq_some.1 hr
    rw [shows_of_routes htop hk] at hbar
    rcases hbar with hbar | hbar <;> cases hbar
  cases l with
  | back => exact .inl rfl
  | session key l' => exact .inr ⟨key, l', rfl⟩
  | onHome => exact absurd hst hicon
  | onLibrary => exact absurd hst hicon
  | onSettings => exact absurd hst hicon
  | onCard id =>
    obtain ⟨htop, -⟩ := Option.ite_none_right_eq_some.1 hst
    cases shows_of_routes htop hk
  | onTranscript =>
    simp only [step] at hst
    split at hst
    · rename_i id htop
      cases shows_of_routes htop hk
    · cases hst
  | onDeleteConfirm =>
    simp only [step] at hst
    split at hst
    · rename_i id htop
      cases shows_of_routes htop hk
    · cases hst
  | onFabPress =>
    obtain ⟨htop, -⟩ := Option.ite_none_right_eq_some.1 hst
    cases shows_of_routes htop hk
  | fab p result =>
    obtain ⟨wait, -, rfl⟩ := Option.map_eq_some_iff.1 hst
    exact absurd (shows_onFab hk p wait result) hnot

/-- **When another recording screen can close the one that is shown**: if a handler of it is still
waiting. -/
theorem closed_by_other_iff (h : Alone toLocaleDateString s) (hk : s.Shows k) :
    (∃ key l s', key ≠ k ∧ step toLocaleDateString ios late s (.session key l) = some s' ∧
      ¬ s'.Shows k) ↔
    late = true ∧ ∃ key x, key ≠ k ∧ s.sessions.get? key = some x ∧ x.Pending := by
  have hother : ∀ key, key ≠ k → .recordingModal key ∉ s.routes := by
    intro key hne hmem
    exact hne (MainRoute.recordingModal.inj (shows_of_routes (h.shows_of_mem hmem) hk))
  constructor
  · rintro ⟨key, l, s', hne, hst, hnot⟩
    obtain ⟨-, x, x', hx, hstep, rfl⟩ := session_cases hst
    unfold onSession at hnot
    split_ifs at hnot with hback
    · exact ⟨hback.2.resolve_left (hother key hne), key, x, hne, hx,
        (RecordingScreen.Continues.of_step hstep).pending hback.1⟩
    · exact absurd hk hnot
  · rintro ⟨rfl, key, x, hne, hx, hpending⟩
    obtain ⟨l, x', hstep, hback⟩ :
        ∃ l x', x.step toLocaleDateString l = some x' ∧ x.WentBack x' :=
      RecordingScreen.exists_wentBack hpending
    refine ⟨key, l, s.onSession true key x x', hne, ?_, ?_⟩
    · simp [step, hother key hne, hx, hstep]
    · rw [onSession, if_pos ⟨hback, .inr rfl⟩]
      exact not_shows_goBack (h.set_step hx hstep fun _ => hother key hne) hk

/-- **At most one recording screen, and nothing above it.**  Every recording screen has been opened
by a press of its own for which the microphone may be used, and saves its recording once; as long as
it is in the stack, it is mounted and the screen that is shown; and it is closed only if the user
goes back, if one of its own handlers does, or if a handler does that waits for another recording
screen. -/
theorem one_recording_screen {tr : List (MainStack × MainLabel)}
    (h : (mainStack toLocaleDateString ios late).Run tr s) :
    (s.sessions.keys.length ≤ tr.countP (fun y => isGrant y.2) ∧
      tr.countP (fun y => isGrant y.2) ≤ tr.countP (fun y => isFabPress y.2)) ∧
    (∀ k, .recordingModal k ∈ s.routes → s.Shows k ∧
      ∃ x, s.sessions.get? k = some x ∧ x.active = true) ∧
    (∀ k x, s.sessions.get? k = some x → x.inserted + x.inFlight ≤ 1) ∧
    (s.routes.IsChain MainRoute.Over ∧ s.routes.getLast? = some .home) ∧
    ∀ k, s.Shows k →
      (∀ l s', step toLocaleDateString ios late s l = some s' → ¬ s'.Shows k →
        l = .back ∨ ∃ key l', l = .session key l') ∧
      ((∃ key l s', key ≠ k ∧ step toLocaleDateString ios late s (.session key l) = some s' ∧
        ¬ s'.Shows k) ↔
      late = true ∧ ∃ key x, key ≠ k ∧ s.sessions.get? key = some x ∧ x.Pending) := by
  have halone := Alone.of_reachable h.reachable
  obtain ⟨hgrants, hpresses⟩ := opened_by_press h
  refine ⟨⟨hgrants, by omega⟩, fun k hk => ?_, fun k x hx => ?_, ⟨halone.ordered, halone.bottom⟩,
    fun k hk => ⟨fun l s' hst hnot => closed_cases hst hk hnot, closed_by_other_iff halone hk⟩⟩
  · have hshows := halone.shows_of_mem hk
    obtain ⟨x, hx⟩ := Option.ne_none_iff_exists'.1 fun hnone =>
      Table.get?_eq_none_iff.1 hnone (halone.opened k hshows)
    exact ⟨hshows, x, hx, halone.active k x hx hshows⟩
  · exact (RecordingScreen.SavedOnce.of_reachable (halone.session k x hx)).once

/-- A recording is discarded while it is uploaded, and the next one is started. -/
def nextRecording : List MainLabel :=
  [.onFabPress, .fab 0 (some .denied), .fab 0 (some .granted), .session 0 (.started true),
    .session 0 .onStop, .session 0 (.stopped (some "rec_1.m4a")),
    .session 0 (.onSave ⟨2026, 5, 27, 14, 22⟩), .session 0 .onCancelSave,
    .session 0 (.decide true), .onFabPress, .fab 1 (some .granted), .session 1 (.started true)]

/-- The upload of the first recording closes the second one. -/
theorem one_recording_screen_nextRecording :
    ∃ tr s, (mainStack (fun _ => "2026. 5. 27.") true true).Run tr s ∧ s.Shows 1 ∧
      ∃ key l s', key ≠ 1 ∧
        step (fun _ => "2026. 5. 27.") true true s (.session key l) = some s' ∧ ¬ s'.Shows 1 := by
  have hrun : (LTS.exec (step (fun _ => "2026. 5. 27.") true true) init nextRecording).map
      (fun s => (s.routes, (s.sessions.get? 0).map fun x => x.saving.isSome)) =
      some ([.recordingModal 1, .home], some true) := by decide +kernel
  obtain ⟨s, hs, he⟩ := Option.map_eq_some_iff.1 hrun
  simp only [Prod.mk.injEq] at he
  obtain ⟨x, hx, hsaving⟩ := Option.map_eq_some_iff.1 he.2
  have hstart : (mainStack (fun _ => "2026. 5. 27.") true true).Run [] init := .start rfl
  obtain ⟨tr, hrun, -⟩ := LTS.run_of_exec hstart hs
  have hk : s.Shows 1 := by rw [Shows, he.1]; rfl
  exact ⟨tr, s, hrun, hk, ((one_recording_screen hrun).2.2.2.2 1 hk).2.2
    ⟨rfl, 0, x, by decide, hx, .inl hsaving⟩⟩

end MainStack

end FCord
