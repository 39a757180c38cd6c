import FCord.LTS.Basic
import Mathlib.Data.Nat.Notation
import Mathlib.Order.Lattice

/-!
# Infinite runs

A `Path` is a run that never stops.  What happens *in the end* is proved with a rank: if the rank of
a state in which `P` holds always goes down later on, or `P` is left, then `P` is left
(`Path.leaves`).  An evaluated list of events, continued by an event that changes nothing, is a path
(`pathState`, `Path.ofExec`).
-/

namespace FCord

namespace LTS

variable {S L : Type*}

/-- A run from a reachable state that never stops. -/
structure Path (A : LTS S L) where
  state : ℕ → S
  label : ℕ → L
  start : A.Reachable (state 0)
  step : ∀ k, A.step (state k) (label k) (state (k + 1))

namespace Path

variable {A : LTS S L} (path : A.Path)

theorem reachable (k : ℕ) : A.Reachable (path.state k) := by
  induction k with
  | zero => exact path.start
  | succ k ih => exact ih.step (path.step k)

/-- **The rank rule.** -/
theorem leaves {P : S → Prop} (rank : S → ℕ)
    (h : ∀ k, P (path.state k) → ∃ m, k ≤ m ∧
      (¬ P (path.state m) ∨ rank (path.state m) < rank (path.state k))) (k : ℕ) :
    ∃ m, k ≤ m ∧ ¬ P (path.state m) := by
  -- by strong induction on the rank of the present state
  induction hn : rank (path.state k) using Nat.strong_induction_on generalizing k with
  | _ n ih =>
    by_cases hk : P (path.state k)
    · obtain ⟨m, hkm, hm | hm⟩ := h k hk
      · exact ⟨m, hkm, hm⟩
      · obtain ⟨m', hmm', hm'⟩ := ih _ (hn ▸ hm) m rfl
        exact ⟨m', hkm.trans hmm', hm'⟩
    · exact ⟨k, le_rfl, hk⟩

/-- The first time that `P` does not hold. -/
theorem first_left {P : S → Prop} {k m : ℕ} (hkm : k ≤ m) (hk : P (path.state k))
    (hm : ¬ P (path.state m)) :
    ∃ j, k ≤ j ∧ P (path.state j) ∧ ¬ P (path.state (j + 1)) := by
  by_contra hno
  push Not at hno
  have hkeep : ∀ j, k ≤ j → P (path.state j) := by
    intro j hkj
    induction j, hkj using Nat.le_induction with
    | base => exact hk
    | succ j hkj ih => exact hno j hkj ih
  exact hm (hkeep m hkm)

end Path

/-! ### Evaluated paths -/

/-- The state after `k` of the events. -/
def pathState (f : S → L → Option S) : S → List L → ℕ → S
  | s, _, 0 => s
  | s, [], _ + 1 => s
  | s, l :: ls, k + 1 =>
    match f s l with
    | some s' => pathState f s' ls k
    | none => s

variable {f : S → L → Option S}

theorem pathState_nil (s : S) (k : ℕ) : pathState f s [] k = s := by
  cases k <;> rfl

theorem pathState_of_length_le {s s' : S} {ls : List L} (h : exec f s ls = some s') {k : ℕ}
    (hk : ls.length ≤ k) : pathState f s ls k = s' := by
  induction ls generalizing s k with
  | nil =>
    cases h
    exact pathState_nil _ k
  | cons l ls ih =>
    cases k with
    | zero => simp at hk
    | succ k =>
      cases hl : f s l with
      | none => simp [exec, hl] at h
      | some s₁ =>
        simp only [exec, hl] at h
        simp only [pathState, hl]
        exact ih h (by simpa using hk)

theorem pathState_step {s s' : S} {ls : List L} {idle : L} (h : exec f s ls = some s')
    (hidle : f s' idle = some s') (k : ℕ) :
    f (pathState f s ls k) (ls.getD k idle) = some (pathState f s ls (k + 1)) := by
  induction ls generalizing s k with
  | nil =>
    cases h
    rw [pathState_nil, pathState_nil]
    exact hidle
  | cons l ls ih =>
    simp only [exec] at h
    split at h
    · rename_i s₁ hl
      cases k with
      | zero =>
        have hone : pathState f s (l :: ls) 1 = s₁ := by
          simp only [pathState, hl]
        rw [hone]
        exact hl
      | succ k =>
        have hsucc : ∀ j, pathState f s (l :: ls) (j + 1) = pathState f s₁ ls j := by
          intro j
          simp only [pathState, hl]
        rw [hsucc, hsucc]
        exact ih h k
    · cases h

/-- An evaluated list of events, and then nothing but an event that changes nothing. -/
def Path.ofExec {start : S → Prop} {s s' : S} {ls : List L} {idle : L}
    (hs : (ofFn start f).Reachable s) (h : exec f s ls = some s') (hidle : f s' idle = some s') :
    (ofFn start f).Path where
  state := pathState f s ls
  label k := ls.getD k idle
  start := by
    cases ls <;> exact hs
  step := pathState_step h hidle

end LTS

end FCord
