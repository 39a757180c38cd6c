import Mathlib.Data.List.Dedup
import Mathlib.Data.List.Induction
import Mathlib.Tactic.SplitIfs

/-!
# Most recently used lists

An `Mru α n` holds at most `n` distinct elements, the one that was used last in front.

* `Mru.touch` moves an element to the front, or inserts it there; if there is no room for it, the
  last one is evicted.
* `Mru.delete` removes an element.

Whatever the uses were, the elements stand in the order of their last touch (`Mru.run_sublist`).
Without deletions they are the first `n` of all that were ever touched (`Mru.run_eq_take`): an
element that was evicted cannot come back before it is touched again.
-/

namespace FCord

/-- At most `n` distinct elements. -/
structure Mru (α : Type*) (n : ℕ) where
  /-- The elements, the one that was used last in front. -/
  entries : List α
  nodup : entries.Nodup
  length_le : entries.length ≤ n

namespace Mru

variable {α : Type*} {n : ℕ}

/-- No element. -/
def empty : Mru α n := ⟨[], List.nodup_nil, Nat.zero_le n⟩

variable [DecidableEq α]

/-- Move an element to the front, or insert it there. -/
def touch (m : Mru α n) (a : α) : Mru α n where
  entries :=
    let moved := a :: m.entries.erase a
    if moved.length ≤ n then moved else moved.dropLast
  nodup := by
    have hmoved : (a :: m.entries.erase a).Nodup :=
      List.nodup_cons.2 ⟨m.nodup.not_mem_erase, m.nodup.erase a⟩
    dsimp only
    split_ifs
    · exact hmoved
    · exact hmoved.sublist (List.dropLast_sublist _)
  length_le := by
    dsimp only
    split_ifs with h
    · exact h
    · rw [List.length_dropLast, List.length_cons, Nat.add_sub_cancel]
      exact Nat.le_trans (List.length_erase_le) m.length_le

def delete (m : Mru α n) (a : α) : Mru α n where
  entries := m.entries.erase a
  nodup := m.nodup.erase a
  length_le := Nat.le_trans List.length_erase_le m.length_le

theorem erase_entries (m : Mru α n) (a : α) :
    m.entries.erase a = m.entries.filter fun b => b ≠ a := by
  rw [m.nodup.erase_eq_filter]
  refine List.filter_congr fun b _ => ?_
  by_cases h : b = a <;> simp [h]

/-- What can be done to a list. -/
inductive Use (α : Type*) where
  | touch (a : α)
  | delete (a : α)
  deriving DecidableEq, Repr

def Use.apply (m : Mru α n) : Use α → Mru α n
  | .touch a => m.touch a
  | .delete a => m.delete a

/-- The list after some uses. -/
def run (n : ℕ) (uses : List (Use α)) : Mru α n := uses.foldl Use.apply empty

/-- The element that a use touches. -/
def Use.touched : Use α → Option α
  | .touch a => some a
  | .delete _ => none

/-- The distinct elements of a history, the one that occurred last in front. -/
def latestFirst (history : List α) : List α := history.dedup.reverse

theorem nodup_latestFirst (history : List α) : (latestFirst history).Nodup :=
  List.nodup_reverse.2 history.nodup_dedup

theorem mem_latestFirst {history : List α} {a : α} : a ∈ latestFirst history ↔ a ∈ history := by
  rw [latestFirst, List.mem_reverse, List.mem_dedup]

/-- One more occurrence comes to the front. -/
theorem latestFirst_concat (history : List α) (a : α) :
    latestFirst (history ++ [a]) = a :: (latestFirst history).erase a := by
  have hdedup : (history ++ [a]).dedup = history.dedup.filter (· != a) ++ [a] := by
    induction history with
    | nil => rfl
    | cons x history ih =>
      rw [List.cons_append, List.dedup_cons, List.dedup_cons, ih]
      by_cases hx : x ∈ history
      · rw [if_pos (List.mem_append_left _ hx), if_pos hx]
      · by_cases hxa : x = a
        · subst hxa
          simp [hx]
        · simp [hx, hxa]
  rw [(nodup_latestFirst history).erase_eq_filter, latestFirst, hdedup, latestFirst]
  simp

/-- Room for `n` elements is room for the first `n`. -/
theorem touch_entries (m : Mru α n) (a : α) :
    (m.touch a).entries = (a :: m.entries.erase a).take n := by
  unfold touch
  dsimp only
  split_ifs with h
  · exact (List.take_of_length_le h).symm
  · have hlen : (a :: m.entries.erase a).length = n + 1 := by
      refine Nat.le_antisymm ?_ (Nat.lt_of_not_le h)
      exact Nat.succ_le_succ (Nat.le_trans List.length_erase_le m.length_le)
    rw [List.dropLast_eq_take, hlen, Nat.add_sub_cancel]

/-- What lies behind the first `n` elements cannot get among them by erasing one of them and
putting it in front. -/
theorem take_cons_erase_take (l : List α) (a : α) (n : ℕ) :
    (a :: (l.take n).erase a).take n = (a :: l.erase a).take n := by
  have herase : ∀ (l : List α) (k : ℕ), ((l.take (k + 1)).erase a).take k = (l.erase a).take k := by
    intro l
    induction l with
    | nil => intro k; rfl
    | cons x l ih =>
      intro k
      by_cases hx : x = a
      · subst hx
        rw [List.take_succ_cons, List.erase_cons_head, List.erase_cons_head, List.take_take,
          Nat.min_self]
      · have hne : (x == a) = false := by simpa using hx
        cases k with
        | zero => rfl
        | succ k =>
          rw [List.take_succ_cons, List.erase_cons_tail (by simp [hne]),
            List.erase_cons_tail (by simp [hne]), List.take_succ_cons, List.take_succ_cons, ih]
  cases n with
  | zero => rfl
  | succ k => rw [List.take_succ_cons, List.take_succ_cons, herase]

/-! ### Runs -/

theorem run_concat (uses : List (Use α)) (u : Use α) :
    run n (uses ++ [u]) = u.apply (run n uses) := by
  rw [run, run, List.foldl_append]
  rfl

/-- **The elements stand in the order of their last touch.** -/
theorem run_sublist (uses : List (Use α)) :
    (run n uses).entries.Sublist (latestFirst (uses.filterMap Use.touched)) := by
  induction uses using List.reverseRecOn with
  | nil => exact List.Sublist.slnil
  | append_singleton uses u ih =>
    rw [run_concat, List.filterMap_append]
    cases u with
    | touch a =>
      rw [Use.apply, touch_entries]
      refine (List.take_sublist _ _).trans ?_
      exact (latestFirst_concat _ a).symm ▸ (ih.erase a).cons_cons a
    | delete a =>
      rw [show [Use.delete a].filterMap Use.touched = [] from rfl, List.append_nil]
      exact List.erase_sublist.trans ih

/-- **Without deletions the elements are the first of all that were touched.** -/
theorem run_eq_take {uses : List (Use α)} (h : ∀ a, .delete a ∉ uses) :
    (run n uses).entries = (latestFirst (uses.filterMap Use.touched)).take n := by
  induction uses using List.reverseRecOn with
  | nil => exact List.take_nil.symm
  | append_singleton uses u ih =>
    have ih := ih fun a hm => h a (List.mem_append_left _ hm)
    rw [run_concat, List.filterMap_append]
    cases u with
    | touch a =>
      rw [Use.apply, touch_entries, ih, take_cons_erase_take]
      exact congrArg (List.take n) (latestFirst_concat _ a).symm
    | delete a => exact absurd (List.mem_append_right _ (List.mem_singleton_self _)) (h a)

end Mru

end FCord
