import FCord.Recordings.Moves

/-!
# The spinners of the list

`isLoading` and `isRefreshing` are set by whoever starts to load the list and cleared by whichever
request settles first, and `onRefresh` does nothing while a refresh is going on.  So a spinner that
were left behind would block the list for good; it never is (`Refreshing`).  The server hands out no
cursors, and nothing ever asks for a second page.
-/

namespace FCord

namespace Screens

variable {getTime : String → ℕ} {s s' : Screens} {l : ScreenLabel}

/-- A request for the list is waiting. -/
def LoadWaits (s : Screens) : Prop := ∃ p cursor, s.calls.get? p = some (.loadList cursor)

/-- The invariant. -/
structure Refreshing (s : Screens) : Prop where
  ids : ∀ p ∈ s.calls.keys, p < s.nextPid
  /-- A spinner belongs to a request. -/
  spinning : s.store.isLoading = true ∨ s.store.isRefreshing = true → LoadWaits s
  noCursor : s.store.nextCursor = none
  firstPage : ∀ p cursor, s.calls.get? p = some (.loadList cursor) → cursor = none

/-- The spinners and the cursor are as before. -/
structure SameFlags (store store' : RecordingListStore) : Prop where
  loading : store'.isLoading = store.isLoading
  refreshing : store'.isRefreshing = store.isRefreshing
  cursor : store.nextCursor = none → store'.nextCursor = none

theorem LoadWaits.await (h : LoadWaits s) (call : Call) : LoadWaits (s.await call) := by
  obtain ⟨p, cursor, hp⟩ := h
  exact ⟨p, cursor, get?_await hp⟩

namespace Refreshing

theorem of_same (h : Refreshing s) {store : RecordingListStore}
    {target : Option ServerRecordingCache} {now : ℕ} (hs : SameFlags s.store store) :
    Refreshing { s with store := store, deleteTarget := target, now := now } where
  ids := h.ids
  spinning hspin := h.spinning (by rwa [hs.loading, hs.refreshing] at hspin)
  noCursor := hs.cursor h.noCursor
  firstPage := h.firstPage

/-- A call begins that is no request for the list. -/
theorem of_await (h : Refreshing s) {call : Call} (hcall : ∀ cursor, call ≠ .loadList cursor) :
    Refreshing (s.await call) where
  ids _ hp := Table.lt_of_mem_push h.ids hp
  spinning hspin := (h.spinning hspin).await call
  noCursor := h.noCursor
  firstPage p cursor hp :=
    (of_get?_await hp).elim (h.firstPage p cursor) fun he => absurd he.symm (hcall cursor)

/-- A request for the list begins. -/
theorem of_loadList (h : Refreshing s) {store : RecordingListStore}
    (hcursor : store.nextCursor = none) :
    Refreshing ({ s with store := store }.loadList none) where
  ids _ hp := Table.lt_of_mem_push h.ids hp
  spinning _ := ⟨s.nextPid, none, by
    show (s.calls.push s.nextPid (.loadList none)).get? s.nextPid = _
    rw [Table.get?_push (Table.not_mem_of_lt h.ids), if_pos rfl]⟩
  noCursor := hcursor
  firstPage p cursor hp := by
    rcases of_get?_await hp with hp | he
    · exact h.firstPage p cursor hp
    · cases he
      rfl

/-- A call that is no request for the list goes on. -/
theorem of_goOn (h : Refreshing s) {p : ℕ} {call : Call} (hp : s.calls.get? p = some call)
    (hcall : ∀ cursor, call ≠ .loadList cursor) : Refreshing (s.goOn p call) := by
  have hne : ∀ {q cursor}, s.calls.get? q = some (.loadList cursor) → q ≠ p := by
    rintro q cursor hq rfl
    exact hcall cursor (Option.some.inj (hp.symm.trans hq))
  have herase : Refreshing { s with calls := s.calls.erase p } := by
    refine ⟨fun q hq => h.ids q (Table.mem_keys_of_erase hq), fun hspin => ?_, h.noCursor,
      fun q cursor hq => h.firstPage q cursor (Table.of_get?_erase hq).2⟩
    obtain ⟨q, cursor, hq⟩ := h.spinning hspin
    exact ⟨q, cursor, by rw [Table.get?_erase, if_neg (hne hq), hq]⟩
  have hset : ∀ id rest, Refreshing { s with calls := s.calls.set p (.poll id rest) } := by
    refine fun id rest => ⟨by simpa using h.ids, fun hspin => ?_, h.noCursor, fun q cursor hq => ?_⟩
    · obtain ⟨q, cursor, hq⟩ := h.spinning hspin
      exact ⟨q, cursor, by rw [Table.get?_set_of_ne (hne hq), hq]⟩
    · rcases Table.of_get?_set hq with ⟨-, he⟩ | ⟨-, hq⟩
      · cases he
      · exact h.firstPage q cursor hq
  cases call with
  | poll id rest =>
    cases rest with
    | nil => exact herase
    | cons id' rest => exact hset id' rest
  | _ => exact herase

/-- A request for the list settles: no spinner is left. -/
theorem of_settled (h : Refreshing s) {p : ℕ} {store : RecordingListStore}
    (hload : store.isLoading = false) (hrefresh : store.isRefreshing = false)
    (hcursor : store.nextCursor = none) :
    Refreshing { s with store := store, calls := s.calls.erase p } where
  ids q hq := h.ids q (Table.mem_keys_of_erase hq)
  spinning hspin := by simp [hload, hrefresh] at hspin
  noCursor := hcursor
  firstPage q cursor hq := h.firstPage q cursor (Table.of_get?_erase hq).2

/-- Answers to other calls leave the spinners alone. -/
theorem sameFlags_of_answer {call : Call} {a : Answer} {store : RecordingListStore}
    (h : s.onAnswer getTime call a = some store) (hcall : ∀ cursor, call ≠ .loadList cursor) :
    SameFlags s.store store := by
  unfold onAnswer at h
  split at h
  · exact absurd rfl (hcall _)
  · exact absurd rfl (hcall _)
  · cases h
    unfold pollAnswer
    split
    · exact ⟨rfl, rfl, id⟩
    · split_ifs
      · exact ⟨rfl, rfl, id⟩
      · exact ⟨rfl, rfl, id⟩
  any_goals cases h; exact ⟨rfl, rfl, id⟩
  · cases h
    exact ⟨rfl, rfl, fun _ => rfl⟩
  · cases h

theorem answered (h : Refreshing s) {p : ℕ} {call : Call} {a : Answer}
    {store : RecordingListStore} (hp : s.calls.get? p = some call)
    (ha : s.onAnswer getTime call a = some store) :
    Refreshing ({ s with store := store }.goOn p call) := by
  by_cases hcall : ∃ cursor, call = .loadList cursor
  · obtain ⟨cursor, rfl⟩ := hcall
    cases a with
    | list raw =>
      cases ha
      refine h.of_settled rfl rfl ?_
      split_ifs
      · rfl
      · rfl
    | error =>
      cases ha
      exact h.of_settled rfl rfl h.noCursor
    | _ => cases ha
  · push Not at hcall
    exact (h.of_same (sameFlags_of_answer ha hcall)).of_goOn hp hcall

theorem step (h : Refreshing s) (hst : step getTime s l = some s') : Refreshing s' := by
  cases l with
  | mount => cases hst; exact h.of_loadList h.noCursor
  | setFilter filter =>
    cases hst
    split_ifs
    · exact h.of_same ⟨rfl, rfl, fun _ => rfl⟩
    · exact h.of_loadList rfl
  | onToggleSort => cases hst; exact h.of_loadList rfl
  | setSearchQuery q => cases hst; exact h.of_same ⟨rfl, rfl, id⟩
  | active => cases hst; exact h.of_loadList h.noCursor
  | onRefresh =>
    cases hst
    unfold onRefresh
    split_ifs
    · exact h
    · exact h.of_loadList h.noCursor
  | onEndReached =>
    cases hst
    unfold onEndReached
    rw [h.noCursor]
    split_ifs
    · exact h
    · exact h
  | poll =>
    simp only [Screens.step] at hst
    split_ifs at hst
    split at hst
    · cases hst; exact h
    · cases hst; exact h.of_await (by simp)
  | toggleStar id =>
    obtain ⟨-, he⟩ := Option.ite_none_right_eq_some.1 hst
    cases he
    exact h.of_same ⟨rfl, rfl, fun hc => hc⟩
  | openDelete item =>
    obtain ⟨-, he⟩ := Option.ite_none_right_eq_some.1 hst
    cases he
    exact h.of_same ⟨rfl, rfl, fun hc => hc⟩
  | confirmDelete =>
    obtain ⟨target, -, rfl⟩ := Option.map_eq_some_iff.1 hst
    have hremoved : Refreshing
        { s with store := s.store.removeItem target.id, deleteTarget := none } :=
      h.of_same ⟨rfl, rfl, id⟩
    exact hremoved.of_await (by simp)
  | deleteRecording id =>
    obtain ⟨recording, -, rfl⟩ := Option.map_eq_some_iff.1 hst
    have hremoved : Refreshing { s with store := s.store.removeItem id } :=
      h.of_same ⟨rfl, rfl, fun hc => hc⟩
    exact hremoved.of_await (by simp)
  | onSaveTitle id title =>
    obtain ⟨recording, -, rfl⟩ := Option.map_eq_some_iff.1 hst
    split_ifs
    · exact h.of_await (by simp)
    · exact h
  | onRetryUpload id =>
    obtain ⟨recording, -, hst⟩ := Option.bind_eq_some_iff.1 hst
    obtain ⟨-, he⟩ := Option.ite_none_right_eq_some.1 hst
    cases he
    exact h.of_await (by simp)
  | onRetryTranscription id =>
    obtain ⟨recording, -, hst⟩ := Option.bind_eq_some_iff.1 hst
    obtain ⟨-, he⟩ := Option.ite_none_right_eq_some.1 hst
    cases he
    split_ifs
    · exact h.of_await (by simp)
    · exact h
  | onRequestTranscription id =>
    obtain ⟨recording, -, hst⟩ := Option.bind_eq_some_iff.1 hst
    obtain ⟨-, he⟩ := Option.ite_none_right_eq_some.1 hst
    cases he
    exact h.of_await (by simp)
  | onSave title elapsed => cases hst; exact h.of_await (by simp)
  | answer p a =>
    obtain ⟨call, hp, hst⟩ := Option.bind_eq_some_iff.1 hst
    obtain ⟨store, ha, rfl⟩ := Option.map_eq_some_iff.1 hst
    exact h.answered hp ha
  | tick ms => cases hst; exact h.of_same ⟨rfl, rfl, id⟩

theorem of_reachable (h : (recordingScreens getTime).Reachable s) : Refreshing s := by
  refine h.invariant ?_ fun s l s' hs hst => hs.step hst
  rintro s ⟨now, rfl⟩
  exact ⟨fun p hp => absurd hp List.not_mem_nil, by simp [init, RecordingListStore.initial], rfl,
    fun p cursor hp => by cases hp⟩

end Refreshing

/-- **The list can always be refreshed.**  Once no request for it is waiting, no spinner is left, so
that the next pull asks for the whole list again; and scrolling to the end never asks for more. -/
theorem refresh_possible (h : (recordingScreens getTime).Reachable s) :
    (¬ LoadWaits s → s.store.isLoading = false ∧ s.store.isRefreshing = false ∧
      s.onRefresh = { s with store := s.store.setRefreshing true }.loadList none) ∧
    s.onEndReached = s ∧
    ∀ p cursor, s.calls.get? p = some (.loadList cursor) → cursor = none := by
  have hr := Refreshing.of_reachable h
  refine ⟨fun hwaits => ?_, ?_, hr.firstPage⟩
  · have hspin := mt hr.spinning hwaits
    push Not at hspin
    have hrefreshing : s.store.isRefreshing = false := by simpa using hspin.2
    exact ⟨by simpa using hspin.1, hrefreshing, by simp [onRefresh, hrefreshing]⟩
  · unfold onEndReached
    rw [hr.noCursor]
    split_ifs
    · rfl
    · rfl

/-- The list appears, it is pulled down, and both requests fail. -/
def pullDown : List ScreenLabel := [.mount, .onRefresh, .answer 1 .error, .answer 0 .error]

theorem refresh_possible_pullDown :
    ∃ s, (recordingScreens epoch).Reachable s ∧ s.store.isRefreshing = false ∧
      s.onRefresh = { s with store := s.store.setRefreshing true }.loadList none := by
  have hrun : (LTS.exec (step epoch) (init 0) pullDown).map (fun s => s.calls.keys) =
      some [] := by decide +kernel
  obtain ⟨s, hs, he⟩ := Option.map_eq_some_iff.1 hrun
  have hr : (recordingScreens epoch).Reachable s := LTS.reachable_of_exec (.start ⟨0, rfl⟩) hs
  have hwaits : ¬ LoadWaits s := by
    rintro ⟨p, cursor, hp⟩
    exact Table.get?_ne_some he hp
  obtain ⟨-, hrefreshing, hpull⟩ := (refresh_possible hr).1 hwaits
  exact ⟨s, hr, hrefreshing, hpull⟩

end Screens

end FCord
