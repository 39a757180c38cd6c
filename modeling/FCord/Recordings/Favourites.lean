import FCord.Recordings.Moves
import Mathlib.Algebra.Ring.Parity

/-!
# Favourites

The star of a recording is known to the client only: every answer to a list request rebuilds the
recordings without it.  A page drops the recordings that are in the list already, so it keeps their
stars, but a refresh replaces the list (`star_lost_by_refresh`).  The stars tell how often they
were toggled exactly as long as no list answer puts in a recording that was toggled an odd number
of times (`stars_told_iff`).
-/

namespace FCord

namespace Screens

/-- Browsing: stars are toggled, and lists and status polls are requested and answered. -/
def browses (s : Screens) : ScreenLabel → Bool
  | .answer p _ =>
    match s.calls.get? p with
    | some (.loadList _) => true
    | some (.poll _ _) => true
    | _ => false
  | .confirmDelete => false
  | .deleteRecording _ => false
  | _ => true

/-- How often each recording was toggled. -/
def countToggles (toggles : String → ℕ) (_ : Screens) : ScreenLabel → String → ℕ
  | .toggleStar id => Function.update toggles id (toggles id + 1)
  | _ => toggles

/-- A step of a run that browses. -/
def browse (getTime : String → ℕ) (s : Screens) (l : ScreenLabel) : Option Screens :=
  if s.browses l then step getTime s l else none

end Screens

open Screens in
/-- The screens while the user browses, with the number of toggles of each recording. -/
def favourites (getTime : String → ℕ) : LTS (Screens × (String → ℕ)) ScreenLabel :=
  LTS.ofFn (fun x => (∃ now, x.1 = init now) ∧ x.2 = fun _ => 0)
    (LTS.recorded (browse getTime) countToggles)

namespace Screens

variable {getTime : String → ℕ} {x x' : Screens × (String → ℕ)} {l : ScreenLabel}

/-- The states of these runs are states of the screens. -/
theorem reachable_of_favourites (h : (favourites getTime).Reachable x) :
    (recordingScreens getTime).Reachable x.1 :=
  h.of_recorded (fun _ hx => .start hx.1)
    fun _ _ _ hst => (Option.ite_none_right_eq_some.1 hst).2

/-- Exactly the items that were toggled an odd number of times are starred. -/
def StarsTold (x : Screens × (String → ℕ)) : Prop :=
  ∀ item ∈ x.1.store.items, item.starred = true ↔ Odd (x.2 item.id)

/-- Every recording that a list answer puts in was toggled an even number of times. -/
def ListsUnstarred (x : Screens × (String → ℕ)) : ScreenLabel → Prop
  | .answer p (.list raw) =>
    match x.1.calls.get? p with
    | some (.loadList none) => ∀ m ∈ raw.getD [], Even (x.2 m.confId)
    | some (.loadList (some _)) => ∀ m ∈ raw.getD [],
        m.confId ∉ x.1.store.items.map ServerRecordingCache.id → Even (x.2 m.confId)
    | _ => True
  | _ => True

theorem toCache_starred (now : ℕ) (m : FaicordMeetingItem) :
    (toCache getTime now m).starred = false := rfl

theorem listsUnstarred_of_quiet (hl : l.quiet = true) : ListsUnstarred x l := by
  unfold ListsUnstarred
  split
  · cases hl
  · trivial

/-- A step that keeps ids, stars and counts. -/
theorem starsTold_congr {items : List ServerRecordingCache} {n : String → ℕ}
    (h : StarsTold x) (hitems : ∀ item ∈ items, ∃ old ∈ x.1.store.items,
      old.id = item.id ∧ old.starred = item.starred) (hn : n = x.2) :
    ∀ item ∈ items, item.starred = true ↔ Odd (n item.id) := by
  intro item hm
  obtain ⟨old, hold, hid, hstar⟩ := hitems item hm
  rw [← hid, ← hstar, hn]
  exact h old hold

/-- **What one step does to the stars.** -/
theorem starsTold_step (h : StarsTold x) (hst : (favourites getTime).step x l x') :
    StarsTold x' ↔ ListsUnstarred x l := by
  obtain ⟨s, n⟩ := x
  obtain ⟨s', hs', he⟩ := Option.map_eq_some_iff.1 hst
  obtain ⟨hb, hs'⟩ := Option.ite_none_right_eq_some.1 hs'
  cases he
  have hmove := ItemMove.of_step hs'
  unfold StarsTold
  simp only
  generalize s'.store.items = items at hmove
  cases hmove with
  | quiet hl =>
    refine iff_of_true (starsTold_congr h (fun item hm => ⟨item, hm, rfl, rfl⟩) ?_)
      (listsUnstarred_of_quiet hl)
    cases l <;> first | rfl | cases hl
  | @toggleStar id hid =>
    refine iff_of_true (fun item hm => ?_) trivial
    obtain ⟨old, hold, rfl⟩ := List.mem_map.1 hm
    have hold := h old hold
    by_cases he : old.id = id
    · have hflip : old.flipStar.id = old.id := rfl
      subst he
      rw [if_pos rfl, ServerRecordingCache.starred_flipStar, hflip, countToggles,
        Function.update_self, Nat.odd_add_one, ← hold, Bool.not_eq_true', Bool.not_eq_true]
    · rw [if_neg he, countToggles, Function.update_of_ne he]
      exact hold
  | delete id hl => obtain rfl | rfl := hl <;> cases hb
  | @refresh p raw hp =>
    simp only [ListsUnstarred, hp, List.mem_map, forall_exists_index, and_imp,
      forall_apply_eq_imp_iff₂, toCache_starred, ← Nat.not_odd_iff_even]
    simp [countToggles, toCache]
  | @page p cursor raw hp =>
    simp only [ListsUnstarred, hp, Keyed.mem_appendFresh]
    constructor
    · intro h' m hm hfresh
      have := h' (toCache getTime s.now m) (.inr ⟨List.mem_map_of_mem hm, hfresh⟩)
      rw [toCache_starred, ← not_iff_not] at this
      exact Nat.not_odd_iff_even.1 (this.1 (by simp))
    · rintro heven item (hm | ⟨hm, hfresh⟩)
      · exact h item hm
      · obtain ⟨m, hm', rfl⟩ := List.mem_map.1 hm
        rw [toCache_starred]
        exact iff_of_false (by simp) (Nat.not_odd_iff_even.2 (heven m hm' hfresh))
  | polled hp hd hne =>
    refine iff_of_true (starsTold_congr h (fun item hm => ?_) rfl) trivial
    obtain ⟨old, hold, rfl⟩ := List.mem_map.1 hm
    refine ⟨old, hold, ?_⟩
    split_ifs
    · exact ⟨rfl, rfl⟩
    · exact ⟨rfl, rfl⟩
  | pollKept hp hd =>
    exact iff_of_true (starsTold_congr h (fun item hm => ⟨item, hm, rfl, rfl⟩) rfl) trivial
  | restored hp => simp [browses, hp] at hb
  | patched hp hcall hpatch => obtain ⟨title, rfl⟩ | rfl := hcall <;> simp [browses, hp] at hb
  | queued hp hcall => obtain rfl | rfl := hcall <;> simp [browses, hp] at hb
  | saved hp => simp [browses, hp] at hb
  | settled hp ha =>
    refine iff_of_true (starsTold_congr h (fun item hm => ⟨item, hm, rfl, rfl⟩) rfl) ?_
    obtain ⟨rfl, -⟩ | ⟨rfl, -⟩ := ha <;> trivial

/-- **When favourites survive.**  All along a run the stars tell which recordings were toggled an
odd number of times exactly if no list answer of the run puts in a recording that was.  Then only
`toggleStar` changes the star of a recording. -/
theorem stars_told_iff {tr : List ((Screens × (String → ℕ)) × ScreenLabel)}
    (h : (favourites getTime).Run tr x) :
    (((∀ y ∈ tr, StarsTold y.1) ∧ StarsTold x) ↔ ∀ y ∈ tr, ListsUnstarred y.1 y.2) ∧
    ((∀ y ∈ tr, ListsUnstarred y.1 y.2) → ∀ l x', (favourites getTime).step x l x' →
      ListsUnstarred x l → ∀ item ∈ x.1.store.items, ∀ item' ∈ x'.1.store.items,
        item'.id = item.id → l ≠ .toggleStar item.id → item'.starred = item.starred) := by
  have hiff : ((∀ y ∈ tr, StarsTold y.1) ∧ StarsTold x) ↔ ∀ y ∈ tr, ListsUnstarred y.1 y.2 := by
    refine h.visited_iff (I := StarsTold) (P := StarsTold) ?_ (fun _ h => h)
      (fun _ _ _ h hst hok => (starsTold_step h hst).2 hok)
      (fun _ _ _ h hst ht => (starsTold_step h hst).1 ht)
    rintro ⟨s, n⟩ ⟨⟨now, rfl⟩, rfl⟩ item hm
    cases hm
  refine ⟨hiff, fun hok l x' hst hl item hm item' hm' hid hne => ?_⟩
  have htold := (hiff.2 hok).2
  have htold' := (starsTold_step htold hst).2 hl
  have hcount : x'.2 item.id = x.2 item.id := by
    obtain ⟨s', -, rfl⟩ := Option.map_eq_some_iff.1 hst
    cases l with
    | toggleStar id => exact Function.update_of_ne (fun he => hne (congrArg _ he.symm)) _ _
    | _ => rfl
  have h₁ := htold item hm
  have h₂ := htold' item' hm'
  rw [hid, hcount, ← h₁] at h₂
  exact Bool.eq_iff_iff.2 h₂

/-- The list arrives, and its item is starred. -/
def starItem : List ScreenLabel :=
  [.mount, .answer 0 (.list (some [meetingItem "a"])), .toggleStar "a"]

theorem stars_told_iff_starItem :
    ∃ tr x, (favourites epoch).Run tr x ∧ tr.map Prod.snd = starItem ∧
      x.1.store.items.map ServerRecordingCache.starred = [true] ∧
      (((∀ y ∈ tr, StarsTold y.1) ∧ StarsTold x) ↔ ∀ y ∈ tr, ListsUnstarred y.1 y.2) := by
  have hrun : (LTS.exec (LTS.recorded (browse epoch) countToggles) (init 0, fun _ => 0)
      starItem).map (fun x => x.1.store.items.map ServerRecordingCache.starred) = some [true] := by
    decide +kernel
  obtain ⟨x, hx, hstar⟩ := Option.map_eq_some_iff.1 hrun
  obtain ⟨tr, htr, hls⟩ := LTS.run_of_exec
    (LTS.Run.start (A := favourites epoch) ⟨⟨0, rfl⟩, rfl⟩) hx
  exact ⟨tr, x, htr, hls, hstar, (stars_told_iff htr).1⟩

/-- A refresh takes the star away. -/
theorem star_lost_by_refresh :
    ¬ ∀ getTime tr x, (favourites getTime).Run tr x → StarsTold x := by
  intro h
  have hrun : (LTS.exec (LTS.recorded (browse epoch) countToggles) (init 0, fun _ => 0)
      (starItem ++ [.onRefresh, .answer 1 (.list (some [meetingItem "a"]))])).map (fun x =>
        decide (∀ item ∈ x.1.store.items, item.starred = true ↔ Odd (x.2 item.id))) =
      some false := by decide +kernel
  obtain ⟨x, hx, he⟩ := Option.map_eq_some_iff.1 hrun
  obtain ⟨tr, htr, -⟩ := LTS.run_of_exec
    (LTS.Run.start (A := favourites epoch) ⟨⟨0, rfl⟩, rfl⟩) hx
  exact of_decide_eq_false he (h epoch tr x htr)

end Screens

end FCord
