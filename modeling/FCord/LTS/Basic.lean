import Mathlib.Tactic.TypeStar

/-!
# Labelled transition systems and their runs

The concurrent parts of a program are modelled as *labelled transition systems*: a set of
initial states and a step relation whose labels are the events that can happen next.  A
program that is given by an executable step function `S → L → Option S` is turned into a
system by `LTS.ofFn`, so that concrete runs can be evaluated.

## Main definitions

* `LTS S L` : initial states and a transition relation `S → L → S → Prop`.
* `LTS.Reachable s` : `s` occurs in some run.
* `LTS.Run tr s` : a run that ends in `s`, with the list `tr` of the states it left and the
  labels it took.
* `LTS.guard ok` : the runs all of whose steps satisfy `ok`.
* `LTS.after s` : the runs that start in `s`.
* `LTS.recorded f upd` : a step function on the state and a history variable.
* `LTS.history g₀ upd tr` : the value of a history variable after the steps `tr`.
* `LTS.Refines A B abs` : every step of `A` is matched, under `abs`, by a step of `B` or by
  none.

## Main results

* `LTS.Reachable.invariant`, `LTS.Reachable.invariant_of` : invariants by induction on the run.
* `LTS.Run.visited_iff` : in which runs a property holds all along.
* `LTS.Run.history_invariant` : invariants that speak about a history variable.
* `LTS.Refines.reachable` : a refinement maps reachable states to reachable states.
* `LTS.Run.exec_component` : what a run does to one component of the state.
* `LTS.reachable_of_exec` : an evaluated list of labels reaches its result.
-/

namespace FCord

/-- A labelled transition system with states `S` and labels `L`. -/
structure LTS (S : Type*) (L : Type*) where
  /-- The states in which a run may start. -/
  start : S → Prop
  /-- `step s l s'` : in state `s` the event `l` may happen and leads to `s'`. -/
  step : S → L → S → Prop

namespace LTS

variable {S L T M : Type*}

/-- The system of an executable step function (`none`: the event cannot happen). -/
def ofFn (start : S → Prop) (f : S → L → Option S) : LTS S L where
  start := start
  step s l s' := f s l = some s'

/-- The same system, restricted to the steps that satisfy `ok`. -/
def guard (A : LTS S L) (ok : S → L → Prop) : LTS S L where
  start := A.start
  step s l s' := ok s l ∧ A.step s l s'

/-- The same system, started in `s`. -/
def after (A : LTS S L) (s : S) : LTS S L where
  start := (· = s)
  step := A.step

/-- `s` occurs in some run of the system. -/
inductive Reachable (A : LTS S L) : S → Prop
  | start {s : S} : A.start s → Reachable A s
  | step {s s' : S} {l : L} : Reachable A s → A.step s l s' → Reachable A s'

/-- A run: `tr` lists the states that were left, each with the label taken there, and `s` is
the state reached last. -/
inductive Run (A : LTS S L) : List (S × L) → S → Prop
  | start {s : S} : A.start s → Run A [] s
  | step {tr : List (S × L)} {s s' : S} {l : L} :
      Run A tr s → A.step s l s' → Run A (tr ++ [(s, l)]) s'

variable {A : LTS S L} {B : LTS T M}

@[simp] theorem ofFn_step {start : S → Prop} {f : S → L → Option S} {s s' : S} {l : L} :
    (ofFn start f).step s l s' ↔ f s l = some s' := Iff.rfl

@[simp] theorem guard_step {ok : S → L → Prop} {s s' : S} {l : L} :
    (A.guard ok).step s l s' ↔ ok s l ∧ A.step s l s' := Iff.rfl

namespace Reachable

/-- An inductive invariant holds in every reachable state. -/
theorem invariant {I : S → Prop} {s : S} (h : A.Reachable s) (h₀ : ∀ s, A.start s → I s)
    (hstep : ∀ s l s', I s → A.step s l s' → I s') : I s := by
  induction h with
  | start hs => exact h₀ _ hs
  | step _ hst ih => exact hstep _ _ _ ih hst

/-- An invariant may use that the states it is checked on are reachable, hence every
invariant proved before. -/
theorem invariant_of {I : S → Prop} {s : S} (h : A.Reachable s) (h₀ : ∀ s, A.start s → I s)
    (hstep : ∀ s l s', A.Reachable s → I s → A.step s l s' → I s') : I s := by
  induction h with
  | start hs => exact h₀ _ hs
  | step hr hst ih => exact hstep _ _ _ hr ih hst

theorem of_guard {ok : S → L → Prop} {s : S} (h : (A.guard ok).Reachable s) :
    A.Reachable s := by
  induction h with
  | start hs => exact .start hs
  | step _ hst ih => exact ih.step hst.2

theorem of_after {s s' : S} (hs : A.Reachable s) (h : (A.after s).Reachable s') :
    A.Reachable s' := by
  induction h with
  | start he => exact he ▸ hs
  | step _ hst ih => exact ih.step hst

end Reachable

namespace Run

theorem reachable {tr : List (S × L)} {s : S} (h : A.Run tr s) : A.Reachable s := by
  induction h with
  | start hs => exact .start hs
  | step _ hst ih => exact ih.step hst

/-- An inductive invariant holds all along a run. -/
theorem visited {I : S → Prop} {tr : List (S × L)} {s : S} (h : A.Run tr s)
    (h₀ : ∀ s, A.start s → I s) (hstep : ∀ s l s', I s → A.step s l s' → I s') :
    (∀ x ∈ tr, I x.1) ∧ I s := by
  induction h with
  | start hs => exact ⟨fun x hx => absurd hx List.not_mem_nil, h₀ _ hs⟩
  | step _ hst ih =>
    simp only [List.mem_append, List.mem_singleton, or_imp, forall_and, forall_eq]
    exact ⟨ih, hstep _ _ _ ih.2 hst⟩

/-- If an inductive invariant `I` implies `P`, and the steps that keep `P` are those that satisfy
`ok`, then `P` holds all along a run exactly if all its steps satisfy `ok`. -/
theorem visited_iff {I P : S → Prop} {ok : S → L → Prop} {tr : List (S × L)} {s : S}
    (h : A.Run tr s) (h₀ : ∀ s, A.start s → I s) (hP : ∀ s, I s → P s)
    (hkeep : ∀ s l s', I s → A.step s l s' → ok s l → I s')
    (hbreak : ∀ s l s', I s → A.step s l s' → P s' → ok s l) :
    ((∀ x ∈ tr, P x.1) ∧ P s) ↔ ∀ x ∈ tr, ok x.1 x.2 := by
  have hI : ∀ {tr : List (S × L)} {s : S}, A.Run tr s → (∀ x ∈ tr, ok x.1 x.2) → I s := by
    intro tr s h hok
    induction h with
    | start hs => exact h₀ _ hs
    | step _ hst ih =>
      simp only [List.mem_append, List.mem_singleton, or_imp, forall_and, forall_eq] at hok
      exact hkeep _ _ _ (ih hok.1) hst hok.2
  induction h with
  | start hs => exact ⟨fun _ x hx => absurd hx List.not_mem_nil,
      fun _ => ⟨fun x hx => absurd hx List.not_mem_nil, hP _ (h₀ _ hs)⟩⟩
  | @step tr s s' l hrun hst ih =>
    simp only [List.mem_append, List.mem_singleton, or_imp, forall_and, forall_eq]
    constructor
    · rintro ⟨hvisited, hlast⟩
      have hok := ih.1 hvisited
      exact ⟨hok, hbreak _ _ _ (hI hrun hok) hst hlast⟩
    · rintro ⟨hok, hl⟩
      exact ⟨ih.2 hok, hP _ (hkeep _ _ _ (hI hrun hok) hst hl)⟩

/-- A run all of whose steps satisfy `ok` is a run of the guarded system. -/
theorem guarded {tr : List (S × L)} {s : S} (h : A.Run tr s) (ok : S → L → Prop)
    (hok : ∀ x ∈ tr, ok x.1 x.2) : (A.guard ok).Run tr s := by
  induction h with
  | start hs => exact .start hs
  | step _ hst ih =>
    have hlast := hok _ (List.mem_append_right _ (List.mem_singleton_self _))
    exact (ih fun x hx => hok x (List.mem_append_left _ hx)).step ⟨hlast, hst⟩

theorem guard {ok : S → L → Prop} {tr : List (S × L)} {s : S} (h : A.Run tr s)
    (hok : ∀ x ∈ tr, ok x.1 x.2) : (A.guard ok).Reachable s :=
  (h.guarded ok hok).reachable

end Run

/-! ### Histories -/

section History

variable {G : Type*}

/-- A history variable: it starts as `g₀`, and every step updates it. -/
def history (g₀ : G) (upd : G → S → L → G) (tr : List (S × L)) : G :=
  tr.foldl (fun g x => upd g x.1 x.2) g₀

@[simp] theorem history_nil {g₀ : G} {upd : G → S → L → G} : history g₀ upd [] = g₀ := rfl

@[simp] theorem history_append {g₀ : G} {upd : G → S → L → G} {tr : List (S × L)} {s : S} {l : L} :
    history g₀ upd (tr ++ [(s, l)]) = upd (history g₀ upd tr) s l := by
  simp [history]

/-- An invariant that relates the state to a history variable, in runs whose steps satisfy `ok`. -/
theorem Run.guard_history_invariant {g₀ : G} {upd : G → S → L → G} {I : S → G → Prop}
    {ok : S → L → Prop} {tr : List (S × L)} {s : S} (h : A.Run tr s)
    (hok : ∀ x ∈ tr, ok x.1 x.2) (h₀ : ∀ s, A.start s → I s g₀)
    (hstep : ∀ s g l s', A.Reachable s → I s g → ok s l → A.step s l s' → I s' (upd g s l)) :
    I s (history g₀ upd tr) := by
  induction h with
  | start hs => exact h₀ _ hs
  | @step tr s s' l hrun hst ih =>
    rw [history_append]
    have hlast := hok _ (List.mem_append_right _ (List.mem_singleton_self _))
    exact hstep _ _ _ _ hrun.reachable (ih fun x hx => hok x (List.mem_append_left _ hx)) hlast hst

/-- An invariant that relates the state to a history variable. -/
theorem Run.history_invariant {g₀ : G} {upd : G → S → L → G} {I : S → G → Prop}
    {tr : List (S × L)} {s : S} (h : A.Run tr s) (h₀ : ∀ s, A.start s → I s g₀)
    (hstep : ∀ s g l s', A.Reachable s → I s g → A.step s l s' → I s' (upd g s l)) :
    I s (history g₀ upd tr) :=
  h.guard_history_invariant (fun _ _ => trivial) h₀
    fun s g l s' hr hi (_ : True) hst => hstep s g l s' hr hi hst

end History

/-! ### Refinement -/

/-- `A` refines `B` along `abs`: runs start alike, and every step of `A` that leaves a
reachable state is a step of `B` or leaves the abstract state as it is. -/
structure Refines (A : LTS S L) (B : LTS T M) (abs : S → T) : Prop where
  start : ∀ s, A.start s → B.start (abs s)
  step : ∀ s l s', A.Reachable s → A.step s l s' →
    abs s' = abs s ∨ ∃ m, B.step (abs s) m (abs s')

theorem Refines.reachable {abs : S → T} (h : A.Refines B abs) {s : S} (hs : A.Reachable s) :
    B.Reachable (abs s) := by
  induction hs with
  | start h₀ => exact .start (h.start _ h₀)
  | step hr hst ih =>
    obtain he | ⟨m, hm⟩ := h.step _ _ _ hr hst
    · exact he ▸ ih
    · exact ih.step hm

/-! ### Executable runs -/

/-- Perform a list of events, failing if one of them cannot happen. -/
def exec (f : S → L → Option S) : S → List L → Option S
  | s, [] => some s
  | s, l :: ls => match f s l with
    | some s' => exec f s' ls
    | none => none

theorem exec_append {f : S → L → Option S} {s : S} {ls ls' : List L} :
    exec f s (ls ++ ls') = (exec f s ls).bind fun s' => exec f s' ls' := by
  induction ls generalizing s with
  | nil => rfl
  | cons l ls ih =>
    simp only [List.cons_append, exec]
    cases f s l with
    | none => rfl
    | some s₁ => exact ih

/-- Events that can always happen. -/
theorem exec_some {f : S → L → S} {s : S} {ls : List L} :
    exec (fun s l => some (f s l)) s ls = some (ls.foldl f s) := by
  induction ls generalizing s with
  | nil => rfl
  | cons l ls ih => exact ih

/-- Perform an event, if there is one. -/
def execOption (f : S → L → Option S) (s : S) : Option L → Option S
  | some l => f s l
  | none => some s

/-- If every event of a system is to a component of the state an event of the component, or nothing,
then a run of the system performs on the component the events of the component. -/
theorem Run.exec_component {f : T → M → Option T} {component : S → T} {t : T} {tr : List (S × L)}
    {s : S} (h : A.Run tr s) (event : L → Option M) (h₀ : ∀ s, A.start s → component s = t)
    (hstep : ∀ s l s', A.step s l s' → execOption f (component s) (event l) = some (component s')) :
    exec f t (tr.filterMap fun x => event x.2) = some (component s) := by
  induction h with
  | start hs => exact congrArg some (h₀ _ hs).symm
  | @step tr s s' l _ hst ih =>
    have hlast := hstep s l s' hst
    rw [List.filterMap_append, exec_append, ih, Option.bind_some]
    cases hev : event l with
    | none =>
      rw [hev] at hlast
      have hlast : some (component s) = some (component s') := hlast
      simpa only [List.filterMap_cons, hev, List.filterMap_nil, exec] using hlast
    | some m =>
      rw [hev] at hlast
      have hlast : f (component s) m = some (component s') := hlast
      simp only [List.filterMap_cons, hev, List.filterMap_nil, exec, hlast]

theorem reachable_of_exec {start : S → Prop} {f : S → L → Option S} {s s' : S} {ls : List L}
    (hs : (ofFn start f).Reachable s) (h : exec f s ls = some s') :
    (ofFn start f).Reachable s' := by
  induction ls generalizing s with
  | nil => cases h; exact hs
  | cons l ls ih =>
    simp only [exec] at h
    split at h
    · rename_i s₁ hl
      exact ih (hs.step hl) h
    · cases h

theorem run_of_exec {start : S → Prop} {f : S → L → Option S} {tr : List (S × L)} {s s' : S}
    {ls : List L} (hs : (ofFn start f).Run tr s) (h : exec f s ls = some s') :
    ∃ tr', (ofFn start f).Run (tr ++ tr') s' ∧ tr'.map Prod.snd = ls := by
  induction ls generalizing tr s with
  | nil =>
    cases h
    exact ⟨[], by simpa using hs, rfl⟩
  | cons l ls ih =>
    simp only [exec] at h
    split at h
    · rename_i s₁ hl
      obtain ⟨tr', hrun, hls⟩ := ih (hs.step (l := l) hl) h
      exact ⟨(s, l) :: tr', by simpa using hrun, by simp [hls]⟩
    · cases h

/-- A step of the state together with a history variable. -/
def recorded {G : Type*} (f : S → L → Option S) (upd : G → S → L → G) (x : S × G) (l : L) :
    Option (S × G) :=
  (f x.1 l).map fun s' => (s', upd x.2 x.1 l)

/-- A history variable adds no behaviour, and neither does leaving out events. -/
theorem Reachable.of_recorded {G : Type*} {start : S × G → Prop} {f : S → L → Option S}
    {upd : G → S → L → G} {x : S × G} (h : (ofFn start (recorded f upd)).Reachable x)
    (h₀ : ∀ x, start x → A.Reachable x.1) (hf : ∀ s l s', f s l = some s' → A.step s l s') :
    A.Reachable x.1 := by
  induction h with
  | start hs => exact h₀ _ hs
  | step _ hst ih =>
    obtain ⟨s', hstep, rfl⟩ := Option.map_eq_some_iff.1 hst
    exact ih.step (hf _ _ _ hstep)

/-- An evaluated list of events, with a history variable. -/
theorem run_of_exec_recorded {G : Type*} {start : S → Prop} {f : S → L → Option S} {g₀ g : G}
    {upd : G → S → L → G} {tr : List (S × L)} {s s' : S} {ls : List L}
    (hs : (ofFn start f).Run tr s)
    (h : exec (recorded f upd) (s, history g₀ upd tr) ls = some (s', g)) :
    ∃ tr', (ofFn start f).Run (tr ++ tr') s' ∧ tr'.map Prod.snd = ls ∧
      history g₀ upd (tr ++ tr') = g := by
  induction ls generalizing tr s with
  | nil =>
    cases h
    exact ⟨[], by simpa using hs, rfl, by simp⟩
  | cons l ls ih =>
    simp only [exec] at h
    split at h
    · rename_i x hl
      obtain ⟨s₁, hstep, rfl⟩ := Option.map_eq_some_iff.1 hl
      have hrun := hs.step (l := l) hstep
      obtain ⟨tr', hrun, hls, hg⟩ := ih hrun (by rw [history_append]; exact h)
      exact ⟨(s, l) :: tr', by simpa using hrun, by simp [hls], by simpa using hg⟩
    · cases h

/-- A run of the system that refuses the events that fail `check`. -/
theorem Run.of_checked {start : S → Prop} {f : S → L → Option S} {check : S → L → Bool}
    {tr : List (S × L)} {s : S}
    (h : (ofFn start fun s l => if check s l then f s l else none).Run tr s) :
    (ofFn start f).Run tr s ∧ ∀ x ∈ tr, check x.1 x.2 = true := by
  induction h with
  | start hs => exact ⟨.start hs, fun x hx => absurd hx List.not_mem_nil⟩
  | step _ hst ih =>
    obtain ⟨hc, hl⟩ := Option.ite_none_right_eq_some.1 hst
    refine ⟨ih.1.step hl, fun x hx => ?_⟩
    rcases List.mem_append.1 hx with hx | hx
    · exact ih.2 x hx
    · rw [List.mem_singleton.1 hx]
      exact hc

/-- An evaluated list of events each of which always satisfies the guard. -/
theorem guard_reachable_of_exec {start : S → Prop} {f : S → L → Option S} {ok : S → L → Prop}
    {s s' : S} {ls : List L} (hs : ((ofFn start f).guard ok).Reachable s)
    (h : exec f s ls = some s') (hok : ∀ l ∈ ls, ∀ s, ok s l) :
    ((ofFn start f).guard ok).Reachable s' := by
  induction ls generalizing s with
  | nil => cases h; exact hs
  | cons l ls ih =>
    simp only [exec] at h
    split at h
    · rename_i s₁ hl
      exact ih (hs.step ⟨hok l List.mem_cons_self s, hl⟩) h
        fun l' hl' => hok l' (List.mem_cons_of_mem _ hl')
    · cases h

/-- An evaluated list of events in which `check`, which implies the guard, succeeds all along. -/
theorem guard_reachable_of_check {start : S → Prop} {f : S → L → Option S} {ok : S → L → Prop}
    {check : S → L → Bool} {s s' : S} {ls : List L} (hcheck : ∀ s l, check s l = true → ok s l)
    (hs : ((ofFn start f).guard ok).Reachable s)
    (h : exec (fun s l => if check s l then f s l else none) s ls = some s') :
    ((ofFn start f).guard ok).Reachable s' := by
  induction ls generalizing s with
  | nil => cases h; exact hs
  | cons l ls ih =>
    simp only [exec] at h
    split at h
    · rename_i s₁ hl
      obtain ⟨hc, hl⟩ := Option.ite_none_right_eq_some.1 hl
      exact ih (hs.step ⟨hcheck s l hc, hl⟩) h
    · cases h

end LTS

end FCord
