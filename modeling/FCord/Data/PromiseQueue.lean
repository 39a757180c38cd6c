import Mathlib.Data.List.Nodup
import Mathlib.Logic.Function.Basic
import Mathlib.Tactic.TypeStar

/-!
# First-in first-out queues of awaited jobs

A server performs jobs one at a time in the order in which they were requested.  A job may
have an owner that waits until it is performed; an owner waits for at most one job.
`PromiseQueue.Served q awaited` states that the queue `q` and what the owners wait for agree:
an owner waits for a job exactly if the job is in the queue, and no owner has two jobs there.

The rules `Served.push`, `Served.pushDetached`, `Served.pop` and `Served.popDetached` say how
the agreement is kept when jobs are requested and performed.
-/

namespace FCord

namespace PromiseQueue

variable {ω α : Type*}

/-- A requested job and its owner, if somebody waits for it. -/
structure Job (ω : Type*) (α : Type*) where
  owner : Option ω
  action : α
  deriving DecidableEq, Repr

/-- The queue holds exactly the jobs that are waited for. -/
structure Served (q : List (Job ω α)) (awaited : ω → Option α) : Prop where
  mem_iff : ∀ who a, ⟨some who, a⟩ ∈ q ↔ awaited who = some a
  nodup : (q.filterMap Job.owner).Nodup

namespace Served

variable {q : List (Job ω α)} {awaited : ω → Option α} {who : ω} {a : α}

theorem empty : Served ([] : List (Job ω α)) fun _ => none :=
  ⟨fun _ _ => by simp, List.nodup_nil⟩

theorem awaited_of_mem (h : Served q awaited) {job : Job ω α} (hm : job ∈ q)
    (ho : job.owner = some who) : awaited who = some job.action := by
  obtain ⟨owner, action⟩ := job
  subst ho
  exact (h.mem_iff who action).1 hm

theorem not_mem_owners (h : Served q awaited) (hw : awaited who = none) :
    who ∉ q.filterMap Job.owner := by
  intro hm
  obtain ⟨job, hj, ho⟩ := List.mem_filterMap.1 hm
  simpa [hw] using h.awaited_of_mem hj ho

variable [DecidableEq ω]

/-- An owner that waits for nothing requests a job. -/
theorem push (h : Served q awaited) (hw : awaited who = none) :
    Served (q ++ [⟨some who, a⟩]) (Function.update awaited who (some a)) where
  mem_iff who' a' := by
    simp only [List.mem_append, List.mem_singleton, Job.mk.injEq, Option.some.injEq, h.mem_iff,
      Function.update_apply]
    split_ifs with he
    · subst he
      simp [hw, eq_comm]
    · simp [he]
  nodup := by
    simp only [List.filterMap_append, List.filterMap_cons, List.filterMap_nil]
    refine h.nodup.append (List.nodup_singleton who) ?_
    simpa using fun job hj ho => h.not_mem_owners hw (List.mem_filterMap.2 ⟨job, hj, ho⟩)

omit [DecidableEq ω] in
/-- Somebody requests a job without waiting for it. -/
theorem pushDetached (h : Served q awaited) : Served (q ++ [⟨none, a⟩]) awaited where
  mem_iff who' a' := by simp [h.mem_iff]
  nodup := by simpa using h.nodup

/-- The first job is performed, and its owner waits no longer. -/
theorem pop (h : Served (⟨some who, a⟩ :: q) awaited) :
    Served q (Function.update awaited who none) where
  mem_iff who' a' := by
    have hn : who ∉ q.filterMap Job.owner := by
      have := h.nodup
      simp only [List.filterMap_cons] at this
      exact (List.nodup_cons.1 this).1
    rw [Function.update_apply]
    split_ifs with he
    · subst he
      simpa using fun hm => hn (List.mem_filterMap.2 ⟨_, hm, rfl⟩)
    · rw [← h.mem_iff]
      simp [he]
  nodup := by
    have := h.nodup
    simp only [List.filterMap_cons] at this
    exact (List.nodup_cons.1 this).2

omit [DecidableEq ω] in
theorem popDetached (h : Served (⟨none, a⟩ :: q) awaited) : Served q awaited where
  mem_iff who' a' := by
    rw [← h.mem_iff]
    simp
  nodup := h.nodup

end Served

end PromiseQueue

end FCord
