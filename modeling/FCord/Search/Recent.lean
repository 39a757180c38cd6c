import FCord.Data.Mru
import FCord.Search.Store

/-!
# Recent queries

`commitQuery` puts the query in front of the recent ones with a filter and a slice.  The recent
queries are those of a most recently used list of capacity `MAX_RECENT`, whatever was typed,
committed and removed (`recent_queries_mru`).
-/

namespace FCord

namespace SearchStore

/-- What the operations do to a list of recent queries, when `query` is typed. -/
def uses (query : String) : List SearchOp → List (Mru.Use String)
  | [] => []
  | .setQuery q :: ops => uses q ops
  | .commitQuery :: ops =>
    if trim query = "" then uses query ops else .touch (trim query) :: uses query ops
  | .removeRecentQuery q :: ops => .delete q :: uses query ops
  | _ :: ops => uses query ops

/-- The queries that are committed, in order. -/
def committed (ops : List SearchOp) : List String := (uses "" ops).filterMap Mru.Use.touched

/-- A query that is touched was trimmed, and is not blank. -/
theorem eq_trim_of_touch {query q : String} {ops : List SearchOp} (h : .touch q ∈ uses query ops) :
    ∃ typed, q = trim typed ∧ q ≠ "" := by
  induction ops generalizing query with
  | nil => cases h
  | cons op ops ih =>
    cases op with
    | setQuery => exact ih h
    | commitQuery =>
      simp only [uses] at h
      split_ifs at h with hblank
      · exact ih h
      · rcases List.mem_cons.1 h with he | h
        · cases he
          exact ⟨query, rfl, hblank⟩
        · exact ih h
    | removeRecentQuery =>
      rcases List.mem_cons.1 h with he | h
      · cases he
      · exact ih h
    | _ => exact ih h

/-- A query is deleted only if it is removed. -/
theorem removed_of_delete {query q : String} {ops : List SearchOp}
    (h : .delete q ∈ uses query ops) : .removeRecentQuery q ∈ ops := by
  induction ops generalizing query with
  | nil => cases h
  | cons op ops ih =>
    cases op with
    | setQuery => exact List.mem_cons_of_mem _ (ih h)
    | commitQuery =>
      simp only [uses] at h
      split_ifs at h with hblank
      · exact List.mem_cons_of_mem _ (ih h)
      · rcases List.mem_cons.1 h with he | h
        · cases he
        · exact List.mem_cons_of_mem _ (ih h)
    | removeRecentQuery =>
      rcases List.mem_cons.1 h with he | h
      · cases he
        exact List.mem_cons_self
      · exact List.mem_cons_of_mem _ (ih h)
    | _ => exact List.mem_cons_of_mem _ (ih h)

/-- A commit touches. -/
theorem commitQuery_entries {s : SearchStore} {m : Mru String MAX_RECENT}
    (h : s.recentQueries = m.entries) (hblank : trim s.query ≠ "") :
    s.commitQuery.recentQueries = (m.touch (trim s.query)).entries := by
  rw [Mru.touch_entries, Mru.erase_entries, ← h, commitQuery]
  exact congrArg SearchStore.recentQueries (if_neg hblank)

/-- **The recent queries follow the reference list.** -/
theorem recentQueries_foldl {s : SearchStore} {m : Mru String MAX_RECENT} (ops : List SearchOp)
    (h : s.recentQueries = m.entries) :
    (ops.foldl SearchOp.apply s).recentQueries =
      ((uses s.query ops).foldl Mru.Use.apply m).entries := by
  induction ops generalizing s m with
  | nil => exact h
  | cons op ops ih =>
    cases op with
    | setQuery q =>
      simp only [List.foldl_cons, uses]
      exact ih (s := s.setQuery q) h
    | commitQuery =>
      have hquery : s.commitQuery.query = s.query := by
        rw [commitQuery]
        split_ifs <;> rfl
      rw [List.foldl_cons, SearchOp.apply, uses]
      split_ifs with hblank
      · have hsame : s.commitQuery = s := if_pos hblank
        rw [hsame]
        exact ih h
      · have hrun := ih (commitQuery_entries h hblank)
        rw [hquery] at hrun
        rw [List.foldl_cons]
        exact hrun
    | removeRecentQuery q =>
      refine ih (s := s.removeRecentQuery q) (m := m.delete q) ?_
      have hdelete : (m.delete q).entries = s.recentQueries.filter fun r => r ≠ q :=
        (m.erase_entries q).trans (congrArg _ h.symm)
      exact hdelete.symm
    | setResults results =>
      simp only [List.foldl_cons, uses]
      exact ih (s := s.setResults results) h
    | setSearching v =>
      simp only [List.foldl_cons, uses]
      exact ih (s := s.setSearching v) h
    | setSearchError err =>
      simp only [List.foldl_cons, uses]
      exact ih (s := s.setSearchError err) h
    | clearResults =>
      simp only [List.foldl_cons, uses]
      exact ih (s := s.clearResults) h

/-- **The recent queries are a bounded most recently used list.**  They are those of the reference
list, distinct, at most `MAX_RECENT`, trimmed and not blank, the latest commit first; if none is
removed, they are the first of all that were ever committed. -/
theorem recent_queries_mru (ops : List SearchOp) :
    let recent := (ops.foldl SearchOp.apply .initial).recentQueries
    (recent.Nodup ∧ recent.length ≤ MAX_RECENT ∧
        ∀ q ∈ recent, q ≠ "" ∧ NoSurroundingSpace q) ∧
      recent.Sublist (Mru.latestFirst (committed ops)) ∧
      recent = (Mru.run MAX_RECENT (uses "" ops)).entries ∧
      ((∀ q, .removeRecentQuery q ∉ ops) →
        recent = (Mru.latestFirst (committed ops)).take MAX_RECENT) := by
  intro recent
  have hrun : recent = (Mru.run MAX_RECENT (uses "" ops)).entries :=
    recentQueries_foldl (s := .initial) (m := .empty) ops rfl
  have hsub : recent.Sublist (Mru.latestFirst (committed ops)) := hrun ▸ Mru.run_sublist _
  refine ⟨⟨?_, ?_, fun q hq => ?_⟩, hsub, hrun, fun hkept => ?_⟩
  · rw [hrun]
    exact Mru.nodup _
  · rw [hrun]
    exact Mru.length_le _
  · obtain ⟨use, hmem, hq⟩ := List.mem_filterMap.1 (Mru.mem_latestFirst.1 (hsub.subset hq))
    cases use with
    | touch a =>
      cases hq
      obtain ⟨typed, rfl, hne⟩ := eq_trim_of_touch hmem
      exact ⟨hne, noSurroundingSpace_trim typed⟩
    | delete a => cases hq
  · rw [hrun]
    exact Mru.run_eq_take fun q hq => hkept q (removed_of_delete hq)

end SearchStore

end FCord
