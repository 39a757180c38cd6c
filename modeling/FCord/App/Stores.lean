import FCord.Auth.Operations
import FCord.Recordings.Screens
import FCord.Search.Store
import FCord.Transcript.Store
import FCord.Upload.Service

/-!
# The stores of one process

All stores of the app live as long as the process.  What connects them is `AuthGate`: the stack of
the main screens is there while a user is logged in.  When it disappears, an open transcript screen
resets its store; when it appears, the list screen asks for the list.  What is proved about a store
on its own holds of it here (`App.refines_authStore` and its siblings).
-/

namespace FCord

inductive AuthRoute where
  | loading | auth | main
  deriving DecidableEq, Repr

def resolveAuthRoute : AuthStatus → AuthRoute
  | .booting => .loading
  | .anonymous => .auth
  | .authed => .main

/-- The stores, with the calls that wait in each. -/
structure App where
  auth : Auth.State
  screens : Screens
  search : SearchStore
  transcript : Transcript.State
  upload : UploadService.State

/-- What can happen in one of the stores. -/
inductive AppLabel where
  | auth (l : Auth.Label)
  | screens (l : ScreenLabel)
  | search (op : SearchOp)
  | transcript (l : Transcript.Label)
  | upload (l : UploadService.Label)

namespace App

variable (a : App)

/-- The main screens are there. -/
def onMain : Bool := resolveAuthRoute a.auth.store.status = .main

/-- A transcript screen is open: it sets the recording when it appears, and resets the store when
it disappears. -/
def transcriptOpen : Bool := a.transcript.recordingId.isSome

/-- The main screens appear. -/
def mountMain : App := { a with screens := a.screens.loadEffect }

/-- The main screens disappear. -/
def unmountMain : App :=
  { a with
    screens := { a.screens with deleteTarget := none }
    transcript := if a.transcriptOpen then a.transcript.reset else a.transcript }

/-- `AuthGate`, after a step from `a` to `a'`. -/
def authGate (a a' : App) : App :=
  if a.onMain = a'.onMain then a' else if a'.onMain then a'.mountMain else a'.unmountMain

end App

/-- The event can happen without the main screens: time passes, or a server answers. -/
def ScreenLabel.unattended : ScreenLabel → Bool
  | .answer _ _ => true
  | .tick _ => true
  | _ => false

/-- The operation follows the answer to a search. -/
def SearchOp.unattended : SearchOp → Bool
  | .setResults _ => true
  | .setSearching _ => true
  | .setSearchError _ => true
  | _ => false

/-- The screens that an event of the transcript store needs. -/
def App.allows (a : App) : Transcript.Label → Bool
  | .loadTranscript _ => a.onMain
  | .settle _ _ => true
  | _ => a.onMain && a.transcriptOpen

namespace App

/-- The step function. -/
def step (getTime : String → ℕ) (a : App) : AppLabel → Option App
  | .auth l => (Auth.step a.auth l).map fun auth => a.authGate { a with auth := auth }
  | .screens l =>
    if a.onMain || l.unattended then
      (Screens.step getTime a.screens l).map fun screens => { a with screens := screens }
    else none
  | .search op =>
    if a.onMain || op.unattended then some { a with search := op.apply a.search } else none
  | .transcript l =>
    if a.allows l then
      (Transcript.step a.transcript l).map fun transcript => { a with transcript := transcript }
    else none
  -- the process goes on
  | .upload .kill => none
  | .upload l => (UploadService.step a.upload l).map fun upload => { a with upload := upload }

/-- A process that has just been started. -/
def init (kc : Keychain) (devAutoLogin : Bool) (consent : ConsentEntry) (now : ℕ) : App where
  auth := Auth.init kc devAutoLogin
  screens := Screens.init now
  search := .initial
  transcript := Transcript.init
  upload := UploadService.init consent now

end App

open App in
/-- The app, as long as its process lives. -/
def app (getTime : String → ℕ) : LTS App AppLabel :=
  LTS.ofFn (fun a => ∃ kc dev consent now, Auth.Complete kc ∧ a = init kc dev consent now)
    (step getTime)

namespace App

variable {getTime : String → ℕ} {a a' : App} {l : AppLabel}

/-! ### What a step can do -/

/-- The transitions. -/
inductive Move (getTime : String → ℕ) (a : App) : AppLabel → App → Prop
  | auth {m : Auth.Label} {auth : Auth.State} (h : Auth.step a.auth m = some auth) :
      Move getTime a (.auth m) (a.authGate { a with auth := auth })
  | screens {m : ScreenLabel} {screens : Screens} (hm : a.onMain || m.unattended)
      (h : Screens.step getTime a.screens m = some screens) :
      Move getTime a (.screens m) { a with screens := screens }
  | search {op : SearchOp} (hop : a.onMain || op.unattended) :
      Move getTime a (.search op) { a with search := op.apply a.search }
  | transcript {m : Transcript.Label} {transcript : Transcript.State} (hm : a.allows m)
      (h : Transcript.step a.transcript m = some transcript) :
      Move getTime a (.transcript m) { a with transcript := transcript }
  | upload {m : UploadService.Label} {upload : UploadService.State}
      (h : UploadService.step a.upload m = some upload) :
      Move getTime a (.upload m) { a with upload := upload }

theorem Move.of_step (h : step getTime a l = some a') : Move getTime a l a' := by
  cases l with
  | auth m =>
    obtain ⟨auth, hm, rfl⟩ := Option.map_eq_some_iff.1 h
    exact .auth hm
  | screens m =>
    obtain ⟨hm, h⟩ := Option.ite_none_right_eq_some.1 h
    obtain ⟨screens, hs, rfl⟩ := Option.map_eq_some_iff.1 h
    exact .screens hm hs
  | search op =>
    obtain ⟨hop, h⟩ := Option.ite_none_right_eq_some.1 h
    cases h
    exact .search hop
  | transcript m =>
    obtain ⟨hm, h⟩ := Option.ite_none_right_eq_some.1 h
    obtain ⟨transcript, ht, rfl⟩ := Option.map_eq_some_iff.1 h
    exact .transcript hm ht
  | upload m =>
    have h : (UploadService.step a.upload m).map (fun upload => { a with upload := upload }) =
        some a' := by
      cases m with
      | kill => cases h
      | _ => exact h
    obtain ⟨upload, hu, rfl⟩ := Option.map_eq_some_iff.1 h
    exact .upload hu

@[simp] theorem authGate_auth : (a.authGate a').auth = a'.auth := by
  unfold authGate
  split_ifs <;> rfl

@[simp] theorem authGate_search : (a.authGate a').search = a'.search := by
  unfold authGate
  split_ifs <;> rfl

@[simp] theorem authGate_upload : (a.authGate a').upload = a'.upload := by
  unfold authGate
  split_ifs <;> rfl

/-! ### The parts -/

theorem refines_authStore : (app getTime).Refines authStore App.auth where
  start := by
    rintro a ⟨kc, dev, consent, now, hkc, rfl⟩
    exact ⟨kc, dev, hkc, rfl⟩
  step a l a' _ hst := by
    cases Move.of_step hst with
    | @auth m auth h =>
      refine .inr ⟨m, ?_⟩
      rw [authGate_auth]
      exact h
    | _ => exact .inl rfl

theorem refines_uploadService : (app getTime).Refines uploadService App.upload where
  start := by
    rintro a ⟨kc, dev, consent, now, -, rfl⟩
    exact ⟨consent, now, rfl⟩
  step a l a' _ hst := by
    cases Move.of_step hst with
    | auth h => exact .inl (by simp)
    | @upload m upload h => exact .inr ⟨m, h⟩
    | _ => exact .inl rfl

/-- The main screens disappear with a reset of the store, or without a change. -/
theorem authGate_transcript : (a.authGate a').transcript = a'.transcript ∨
    (a.authGate a').transcript = a'.transcript.reset := by
  unfold authGate unmountMain
  split_ifs
  · exact .inl rfl
  · exact .inl rfl
  · exact .inr rfl
  · exact .inl rfl

theorem refines_transcriptStore : (app getTime).Refines transcriptStore App.transcript where
  start := by
    rintro a ⟨kc, dev, consent, now, -, rfl⟩
    rfl
  step a l a' _ hst := by
    cases Move.of_step hst with
    | auth h =>
      rcases authGate_transcript with he | he
      · exact .inl he
      · exact .inr ⟨.reset, congrArg some he.symm⟩
    | @transcript m transcript hm h => exact .inr ⟨m, h⟩
    | _ => exact .inl rfl

end App

end FCord
