import FCord.Recordings.Refreshing

/-!
# The newest list request

A request for the whole list may be issued while others wait: when the screen appears, when the
filter or the sort order changes, when the app returns to the foreground, and when the user pulls
to refresh.  The requests carry no number, and every list that arrives replaces the items.  So a
list that arrives late overwrites a newer one (`newest_overtaken`), and brings back what was
removed meanwhile.

The history tells what the screen should show: the list of the newest request that has succeeded,
without the items that were deleted since, unless the delete has failed.  The screen shows it
whenever no request waits, and no list brings back a deleted item, if the lists arrive in order
(`shows_newest_of_inOrder`).
-/

namespace FCord

namespace Screens

/-- The list is loaded as a whole, and its items are starred, deleted and restored. -/
def refreshes (s : Screens) : ScreenLabel → Bool
  | .mount => true
  | .setFilter _ => true
  | .onToggleSort => true
  | .setSearchQuery _ => true
  | .active => true
  | .onRefresh => true
  | .toggleStar _ => true
  | .openDelete _ => true
  | .confirmDelete => true
  | .deleteRecording _ => true
  | .answer p _ =>
    match s.calls.get? p with
    | some (.loadList none) => true
    | some (.delete _) => true
    | _ => false
  | .tick _ => true
  | _ => false

/-- The items without what only the client knows: the stars, and when they were cached. -/
def serverContent (items : List ServerRecordingCache) : List ServerRecordingCache :=
  items.map fun item => { item with isStarred := none, cachedAt := 0 }

/-- What was requested, removed and received so far. -/
structure ListHistory where
  /-- The removals whose delete has not failed: the call of the delete, and the id. -/
  removals : List (ℕ × String)
  /-- The newest call for a list that has succeeded. -/
  newest : Option ℕ
  /-- The call whose list arrived last. -/
  shown : Option ℕ
  /-- The list of the newest call. -/
  list : List ServerRecordingCache

namespace ListHistory

variable (g : ListHistory)

def empty : ListHistory := ⟨[], none, none, []⟩

/-- The call is not older than those that have succeeded. -/
def isNewest (p : ℕ) : Bool := g.newest.all (· ≤ p)

/-- The ids that were removed after the call `p` was issued. -/
def removed (p : ℕ) : List String := (g.removals.filter fun r => p < r.1).map Prod.snd

/-- What the screen should show. -/
def expected : List ServerRecordingCache :=
  match g.newest with
  | none => []
  | some p => g.list.filter fun item => item.id ∉ g.removed p

/-- An item is removed, and the call `p` asks the server to delete it. -/
def remove (p : ℕ) (id : String) : ListHistory := { g with removals := (p, id) :: g.removals }

/-- The delete of an item fails. -/
def restore (p : ℕ) (target : ServerRecordingCache) : ListHistory :=
  { g with removals := g.removals.filter fun r => r ≠ (p, target.id) }

/-- The list of a call arrives. -/
def arrive (p : ℕ) (items : List ServerRecordingCache) : ListHistory :=
  { g with
    shown := some p
    newest := if g.isNewest p then some p else g.newest
    list := if g.isNewest p then items else g.list }

/-- The item of a failed delete belongs in front: of the list of the newest request it is the first
item that is not removed, it occurs there only once, and it was removed after that request. -/
def InFront (p : ℕ) (target : ServerRecordingCache) : Prop :=
  ∃ q before item after, g.newest = some q ∧ (p, target.id) ∈ g.removals ∧ q < p ∧
    g.list = before ++ item :: after ∧ serverContent [item] = serverContent [target] ∧
    (∀ other ∈ before, other.id ∈ (g.restore p target).removed q) ∧
    ∀ other ∈ after, other.id ≠ target.id

/-- The history after a step. -/
def update (getTime : String → ℕ) (g : ListHistory) (s : Screens) : ScreenLabel → ListHistory
  | .confirmDelete => s.deleteTarget.elim g fun target => g.remove s.nextPid target.id
  | .deleteRecording id => g.remove s.nextPid id
  | .answer p (.list raw) => g.arrive p ((raw.getD []).map (toCache getTime s.now))
  | .answer p .error =>
    match s.calls.get? p with
    | some (.delete target) => g.restore p target
    | _ => g
  | _ => g

end ListHistory

/-- A step of a run that refreshes. -/
def refresh (getTime : String → ℕ) (s : Screens) (l : ScreenLabel) : Option Screens :=
  if s.refreshes l then step getTime s l else none

end Screens

open Screens in
/-- The screens while the list is refreshed, with the history of the list. -/
def refreshing (getTime : String → ℕ) : LTS (Screens × ListHistory) ScreenLabel :=
  LTS.ofFn (fun x => (∃ now, x.1 = init now) ∧ x.2 = .empty)
    (LTS.recorded (refresh getTime) (ListHistory.update getTime))

namespace Screens

variable {getTime : String → ℕ} {s s' : Screens} {x x' : Screens × ListHistory} {l : ScreenLabel}

/-- No request for the whole list waits. -/
def ListsSettled (s : Screens) : Prop := .loadList none ∉ s.calls.values

instance (s : Screens) : Decidable s.ListsSettled := inferInstanceAs (Decidable (¬ _))

/-- Only this request for the whole list may wait. -/
def LastList (s : Screens) (p : ℕ) : Prop := ∀ q, s.calls.get? q = some (.loadList none) → q = p

/-- The screen shows what it should show. -/
def AsExpected (x : Screens × ListHistory) : Prop :=
  serverContent x.1.store.items = serverContent x.2.expected

instance (x : Screens × ListHistory) : Decidable (AsExpected x) :=
  inferInstanceAs (Decidable (_ = _))

/-- The newest list request wins: the screen shows its list when all have settled, and no item of
the list that arrived last was removed after that list was requested. -/
structure ShowsNewest (x : Screens × ListHistory) : Prop where
  newest : x.1.ListsSettled → AsExpected x
  none_back : ∀ p, x.2.shown = some p → ∀ item ∈ x.1.store.items, item.id ∉ x.2.removed p

/-- A list that arrives has no item that was removed after it was requested, and the request that
settles last leaves the list of the newest request.  A delete that fails puts back an item that no
other delete has removed, and while the list of the newest request is shown, one that belongs in
front. -/
def ArrivesInOrder (x : Screens × ListHistory) : ScreenLabel → Prop
  | .answer p (.list raw) =>
    (∀ m ∈ raw.getD [], m.confId ∉ x.2.removed p) ∧ (x.1.LastList p → x.2.isNewest p = true)
  | .answer p .error =>
    match x.1.calls.get? p with
    | some (.loadList _) => x.1.LastList p → x.2.shown = x.2.newest
    | some (.delete target) =>
      (∀ q, x.2.shown = some q → target.id ∉ (x.2.restore p target).removed q) ∧
        (x.2.shown = x.2.newest → x.2.InFront p target)
    | _ => True
  | _ => True

/-! ### The history -/

theorem serverContent_filter (f : String → Bool) (items : List ServerRecordingCache) :
    serverContent (items.filter fun item => f item.id) =
      (serverContent items).filter fun item => f item.id := by
  simp only [serverContent, List.filter_map]
  rfl

theorem serverContent_toggleStar (id : String) (s : RecordingListStore) :
    serverContent (s.toggleStar id).items = serverContent s.items := by
  simp only [serverContent, RecordingListStore.toggleStar, Keyed.update, List.map_map]
  refine List.map_congr_left fun item _ => ?_
  simp only [Function.comp_apply]
  split_ifs
  · rfl
  · rfl

namespace ListHistory

variable {g : ListHistory} {p q : ℕ} {id : String} {target : ServerRecordingCache}

theorem mem_removed : id ∈ g.removed q ↔ ∃ p, (p, id) ∈ g.removals ∧ q < p := by
  simp [removed]

/-- A removal counts for the calls that were issued before. -/
theorem mem_removed_remove {id' : String} :
    id' ∈ (g.remove p id).removed q ↔ id' = id ∧ q < p ∨ id' ∈ g.removed q := by
  simp only [mem_removed, remove, List.mem_cons, Prod.mk.injEq]
  constructor
  · rintro ⟨p', ⟨rfl, rfl⟩ | hm, hlt⟩
    · exact .inl ⟨rfl, hlt⟩
    · exact .inr ⟨p', hm, hlt⟩
  · rintro (⟨rfl, hlt⟩ | ⟨p', hm, hlt⟩)
    · exact ⟨p, .inl ⟨rfl, rfl⟩, hlt⟩
    · exact ⟨p', .inr hm, hlt⟩

theorem of_mem_removed_restore (h : id ∈ (g.restore p target).removed q) : id ∈ g.removed q := by
  obtain ⟨p', hm, hlt⟩ := mem_removed.1 h
  exact mem_removed.2 ⟨p', List.mem_of_mem_filter hm, hlt⟩

/-- A delete that fails does not touch the removals of other items. -/
theorem mem_removed_restore (hne : id ≠ target.id) :
    id ∈ (g.restore p target).removed q ↔ id ∈ g.removed q := by
  refine ⟨of_mem_removed_restore, fun h => ?_⟩
  obtain ⟨p', hm, hlt⟩ := mem_removed.1 h
  exact mem_removed.2 ⟨p', List.mem_filter.2 ⟨hm, by simp [hne]⟩, hlt⟩

/-- An item that is removed is expected no more. -/
theorem expected_remove (h : ∀ q, g.newest = some q → q < p) :
    (g.remove p id).expected = Keyed.remove ServerRecordingCache.id id g.expected := by
  cases hnew : g.newest with
  | none =>
    have hnew' : (g.remove p id).newest = none := hnew
    simp only [expected, hnew, hnew', Keyed.remove, List.filter_nil]
  | some q =>
    have hnew' : (g.remove p id).newest = some q := hnew
    have hlist : (g.remove p id).list = g.list := rfl
    simp only [expected, hnew, hnew', hlist, Keyed.remove, List.filter_filter]
    refine List.filter_congr fun item _ => ?_
    rw [Bool.eq_iff_iff]
    simp [mem_removed_remove, h q hnew]

/-- An item that belongs in front is expected there. -/
theorem expected_restore (h : g.InFront p target)
    (hout : ∀ q, g.newest = some q → target.id ∉ (g.restore p target).removed q) :
    serverContent (g.restore p target).expected = serverContent (target :: g.expected) := by
  obtain ⟨q, before, item, after, hnew, hrem, hlt, hlist, hitem, hbefore, hafter⟩ := h
  have hid : item.id = target.id := by
    have := congrArg (List.map ServerRecordingCache.id) hitem
    simpa [serverContent] using this
  have hin : target.id ∈ g.removed q := mem_removed.2 ⟨p, hrem, hlt⟩
  have hgone : ∀ {ids : List String}, (∀ other ∈ before, other.id ∈ ids) →
      before.filter (fun other => decide (other.id ∉ ids)) = [] := fun hids =>
    List.filter_eq_nil_iff.2 fun other hm => by simp [hids other hm]
  -- before the delete failed, none of the items up to `item` was expected
  have hold : g.expected = after.filter fun other => other.id ∉ g.removed q := by
    simp only [expected, hnew, hlist]
    rw [List.filter_append, hgone fun other hm => of_mem_removed_restore (hbefore other hm),
      List.nil_append, List.filter_cons_of_neg (by simp [hid, hin])]
  -- now `item` is, and nothing changes behind it
  have hnow : (g.restore p target).expected =
      item :: after.filter fun other => other.id ∉ g.removed q := by
    have hnew' : (g.restore p target).newest = some q := hnew
    have hlist' : (g.restore p target).list = before ++ item :: after := hlist
    have hshown : item.id ∉ (g.restore p target).removed q := hid ▸ hout q hnew
    have hsame : after.filter (fun other =>
        decide (other.id ∉ (g.restore p target).removed q)) =
          after.filter fun other => other.id ∉ g.removed q :=
      List.filter_congr fun other hm => by
        rw [decide_eq_decide, mem_removed_restore (hafter other hm)]
    simp only [expected, hnew', hlist']
    rw [List.filter_append, hgone hbefore, List.nil_append,
      List.filter_cons_of_pos (by simp [hshown]), hsame]
  rw [hnow, hold]
  show serverContent [item] ++ _ = serverContent [target] ++ _
  rw [hitem]

end ListHistory

/-! ### The requests that wait -/

theorem listsSettled_iff : s.ListsSettled ↔ ∀ p, s.calls.get? p ≠ some (.loadList none) :=
  (not_congr Table.mem_values_iff).trans not_exists

/-- Until it is answered, a call waits. -/
theorem CallMove.waits (h : CallMove s l s') (hl : l.isAnswer = false) {p : ℕ} {call : Call}
    (hp : s.calls.get? p = some call) : s'.calls.get? p = some call := by
  cases h with
  | same _ hcalls => rw [hcalls]; exact hp
  | begun call' _ hcalls => rw [hcalls]; exact get?_await hp
  | wentOn he => rw [he] at hl; cases hl

theorem CallMove.nextPid_le (h : CallMove s l s') : s.nextPid ≤ s'.nextPid := by
  cases h with
  | same _ _ hnext => omega
  | begun _ _ _ hnext => omega
  | wentOn _ _ _ hnext => omega

/-- A step without answers settles nothing. -/
theorem ListsSettled.of_callMove (hs : s'.ListsSettled) (h : CallMove s l s')
    (hl : l.isAnswer = false) : s.ListsSettled :=
  listsSettled_iff.2 fun p hp => listsSettled_iff.1 hs p (h.waits hl hp)

/-- The answer to the last request settles all. -/
theorem ListsSettled.lastList (hs : s'.ListsSettled) {p : ℕ} (hcalls : s'.calls = s.calls.erase p) :
    s.LastList p := by
  intro q hq
  by_contra hne
  refine listsSettled_iff.1 hs q ?_
  rw [hcalls, Table.get?_erase, if_neg hne]
  exact hq

/-- The answer to a delete settles no request for the list. -/
theorem ListsSettled.of_delete (hs : s'.ListsSettled) {p : ℕ} {target : ServerRecordingCache}
    (hp : s.calls.get? p = some (.delete target)) (hcalls : s'.calls = s.calls.erase p) :
    s.ListsSettled :=
  listsSettled_iff.2 fun q hq => by
    cases hs.lastList hcalls q hq
    cases hp.symm.trans hq

theorem calls_of_answer {p : ℕ} {a : Answer} (h : refresh getTime s (.answer p a) = some s') :
    s'.calls = s.calls.erase p := by
  obtain ⟨hb, h⟩ := Option.ite_none_right_eq_some.1 h
  obtain ⟨call, hp, h⟩ := Option.bind_eq_some_iff.1 h
  obtain ⟨store, -, rfl⟩ := Option.map_eq_some_iff.1 h
  cases call with
  | poll id rest => simp [refreshes, hp] at hb
  | _ => rfl

/-! ### The invariant -/

/-- The invariant of a run whose lists arrive in order: while the list that arrived last is that of
the newest request, the screen shows it, and no other list is left when all requests settle. -/
structure Ordered (x : Screens × ListHistory) : Prop where
  newest_lt : ∀ p, x.2.newest = some p → p < x.1.nextPid
  current : x.2.shown = x.2.newest → AsExpected x
  settled : x.1.ListsSettled → x.2.shown = x.2.newest
  none_back : ∀ p, x.2.shown = some p → ∀ item ∈ x.1.store.items, item.id ∉ x.2.removed p

namespace Ordered

theorem showsNewest (h : Ordered x) : ShowsNewest x where
  newest hs := h.current (h.settled hs)
  none_back := h.none_back

/-- A step in which no list arrives. -/
theorem kept (h : Ordered x) (hshown : x'.2.shown = x.2.shown) (hnewest : x'.2.newest = x.2.newest)
    (hnext : x.1.nextPid ≤ x'.1.nextPid)
    (hset : x'.1.ListsSettled → x.2.shown = x.2.newest)
    (hexp : x.2.shown = x.2.newest → AsExpected x → AsExpected x')
    (hback : ∀ p, x.2.shown = some p → ∀ item ∈ x'.1.store.items, item.id ∈ x'.2.removed p →
      ∃ old ∈ x.1.store.items, old.id ∈ x.2.removed p) : Ordered x' where
  newest_lt p hp := Nat.lt_of_lt_of_le (h.newest_lt p (hnewest ▸ hp)) hnext
  current he := by
    rw [hshown, hnewest] at he
    exact hexp he (h.current he)
  settled hs := by
    rw [hshown, hnewest]
    exact hset hs
  none_back p hp item hm hr := by
    rw [hshown] at hp
    obtain ⟨old, hold, hr⟩ := hback p hp item hm hr
    exact h.none_back p hp old hold hr

/-- A step that changes neither the items, but for their stars, nor the history. -/
theorem unchanged (h : Ordered x) (hg : x'.2 = x.2) (hnext : x.1.nextPid ≤ x'.1.nextPid)
    (hset : x'.1.ListsSettled → x.2.shown = x.2.newest)
    (hitems : serverContent x'.1.store.items = serverContent x.1.store.items) : Ordered x' := by
  refine h.kept (congrArg _ hg) (congrArg _ hg) hnext hset (fun _ he => ?_)
    fun p _ item hm hr => ?_
  · unfold AsExpected
    rw [hitems, hg]
    exact he
  · have hids : x'.1.store.items.map ServerRecordingCache.id =
        x.1.store.items.map ServerRecordingCache.id := by
      have := congrArg (List.map ServerRecordingCache.id) hitems
      simpa [serverContent, Function.comp_def] using this
    have hm := List.mem_map_of_mem (f := ServerRecordingCache.id) hm
    rw [hids] at hm
    obtain ⟨old, hold, he⟩ := List.mem_map.1 hm
    exact ⟨old, hold, by rw [he, ← hg]; exact hr⟩

/-- An item is removed from the list. -/
theorem removed (h : Ordered x) {id : String}
    (hitems : x'.1.store.items = Keyed.remove ServerRecordingCache.id id x.1.store.items)
    (hg : x'.2 = x.2.remove x.1.nextPid id) (hmove : CallMove x.1 l x'.1)
    (hl : l.isAnswer = false) : Ordered x' := by
  refine h.kept (hg ▸ rfl) (hg ▸ rfl) hmove.nextPid_le
    (fun hs => h.settled (hs.of_callMove hmove hl)) (fun _ he => ?_) fun p _ item hm hr => ?_
  · unfold AsExpected at he ⊢
    rw [hitems, hg, ListHistory.expected_remove h.newest_lt]
    simp only [Keyed.remove] at he ⊢
    rw [serverContent_filter (fun i => i ≠ id), he, ← serverContent_filter (fun i => i ≠ id)]
  · rw [hitems] at hm
    obtain ⟨hm, hne⟩ := Keyed.mem_remove.1 hm
    rw [hg] at hr
    obtain ⟨he, -⟩ | hr := ListHistory.mem_removed_remove.1 hr
    · exact absurd he hne
    · exact ⟨item, hm, hr⟩

/-- A delete fails. -/
theorem restored (h : Ordered x) {p : ℕ} {target : ServerRecordingCache}
    (hp : x.1.calls.get? p = some (.delete target)) (hok : ArrivesInOrder x (.answer p .error))
    (hitems : x'.1.store.items = target :: x.1.store.items) (hg : x'.2 = x.2.restore p target)
    (hnext : x.1.nextPid ≤ x'.1.nextPid) (hcalls : x'.1.calls = x.1.calls.erase p) :
    Ordered x' := by
  simp only [ArrivesInOrder, hp] at hok
  obtain ⟨hother, hfront⟩ := hok
  refine h.kept (hg ▸ rfl) (hg ▸ rfl) hnext
    (fun hs => h.settled (hs.of_delete hp hcalls)) (fun hcur he => ?_) fun q hq item hm hr => ?_
  · have hexp := ListHistory.expected_restore (hfront hcur) fun q hq => hother q (hcur.trans hq)
    unfold AsExpected at he ⊢
    rw [hitems, hg, hexp]
    exact congrArg (_ :: ·) he
  · rw [hitems] at hm
    rw [hg] at hr
    rcases List.mem_cons.1 hm with rfl | hm
    · exact absurd hr (hother q hq)
    · exact ⟨item, hm, ListHistory.of_mem_removed_restore hr⟩

/-- A list arrives. -/
theorem arrived (h : Ordered x) {p : ℕ} {raw : Option (List FaicordMeetingItem)}
    (hp : x.1.calls.get? p = some (.loadList none)) (hids : ∀ q ∈ x.1.calls.keys, q < x.1.nextPid)
    (hok : ArrivesInOrder x (.answer p (.list raw)))
    (hitems : x'.1.store.items = (raw.getD []).map (toCache getTime x.1.now))
    (hg : x'.2 = x.2.arrive p ((raw.getD []).map (toCache getTime x.1.now)))
    (hnext : x.1.nextPid ≤ x'.1.nextPid) (hcalls : x'.1.calls = x.1.calls.erase p) :
    Ordered x' := by
  obtain ⟨hraw, hlast⟩ := hok
  have hfresh : ∀ item ∈ (raw.getD []).map (toCache getTime x.1.now), item.id ∉ x.2.removed p :=
    List.forall_mem_map.2 hraw
  have hshown : x'.2.shown = some p := hg ▸ rfl
  have hback : ∀ q, x'.2.shown = some q → ∀ item ∈ x'.1.store.items,
      item.id ∉ x'.2.removed q := by
    intro q hq
    cases hshown.symm.trans hq
    rw [hitems, hg]
    exact hfresh
  by_cases hn : x.2.isNewest p = true
  · have hnewest : x'.2.newest = some p := by
      rw [hg]
      exact if_pos hn
    have hlist : x'.2.list = (raw.getD []).map (toCache getTime x.1.now) := by
      rw [hg]
      exact if_pos hn
    refine ⟨fun q hq => ?_, fun _ => ?_, fun _ => hshown.trans hnewest.symm, hback⟩
    · cases hnewest.symm.trans hq
      exact Nat.lt_of_lt_of_le (hids p (Table.mem_keys_of_get? hp)) hnext
    · have hall : ∀ item ∈ x'.2.list, decide (item.id ∉ x'.2.removed p) = true := by
        intro item hm
        rw [hlist] at hm
        rw [hg]
        exact decide_eq_true (hfresh item hm)
      have hexp : x'.2.expected = x'.2.list := by
        simp only [ListHistory.expected, hnewest]
        exact List.filter_eq_self.2 hall
      unfold AsExpected
      rw [hitems, hexp, hlist]
  · -- a newer request has succeeded, and another one still waits
    have hnewest : x'.2.newest = x.2.newest := by
      rw [hg]
      exact if_neg hn
    refine ⟨fun q hq => ?_, fun he => ?_, fun hs => ?_, hback⟩
    · exact Nat.lt_of_lt_of_le (h.newest_lt q (hnewest ▸ hq)) hnext
    · rw [hshown, hnewest] at he
      exact absurd (by simp [ListHistory.isNewest, ← he]) hn
    · exact absurd (hlast (hs.lastList hcalls)) hn

/-- **What one step does to the list.** -/
theorem step (h : Ordered x) (hids : ∀ p ∈ x.1.calls.keys, p < x.1.nextPid)
    (hok : ArrivesInOrder x l) (hst : (refreshing getTime).step x l x') : Ordered x' := by
  obtain ⟨s, g⟩ := x
  obtain ⟨s', hs', he⟩ := Option.map_eq_some_iff.1 hst
  obtain ⟨hb, hs⟩ := Option.ite_none_right_eq_some.1 hs'
  cases he
  have hwaits := CallMove.of_step hs
  have hnext := hwaits.nextPid_le
  have hmove := ItemMove.of_step hs
  generalize hitems : s'.store.items = items at hmove
  cases hmove with
  | quiet hl =>
    have hg : g.update getTime s l = g := by
      cases l <;> first | rfl | cases hl
    have hanswer : l.isAnswer = false := by
      cases l <;> first | rfl | cases hl
    exact h.unchanged hg hnext (fun hset => h.settled (hset.of_callMove hwaits hanswer))
      (congrArg serverContent hitems)
  | @toggleStar id hid =>
    refine h.unchanged rfl hnext (fun hset => h.settled (hset.of_callMove hwaits rfl)) ?_
    rw [hitems]
    exact serverContent_toggleStar id s.store
  | delete id hl =>
    obtain rfl | rfl := hl
    · obtain ⟨target, ht, rfl⟩ := Option.map_eq_some_iff.1 hs
      have hg : g.update getTime s .confirmDelete = g.remove s.nextPid target.id := by
        rw [ListHistory.update, ht]
        rfl
      exact h.removed rfl hg hwaits rfl
    · obtain ⟨recording, -, rfl⟩ := Option.map_eq_some_iff.1 hs
      exact h.removed rfl rfl hwaits rfl
  | refresh hp => exact h.arrived hp hids hok hitems rfl hnext (calls_of_answer hs')
  | page hp => simp [refreshes, hp] at hb
  | polled hp hd hne => simp [refreshes, hp] at hb
  | pollKept hp hd => simp [refreshes, hp] at hb
  | @restored p target hp =>
    have hg : g.update getTime s (.answer p .error) = g.restore p target := by
      simp only [ListHistory.update, hp]
    exact h.restored hp hok hitems hg hnext (calls_of_answer hs')
  | patched hp hcall hpatch => obtain ⟨title, rfl⟩ | rfl := hcall <;> simp [refreshes, hp] at hb
  | queued hp hcall => obtain rfl | rfl := hcall <;> simp [refreshes, hp] at hb
  | saved hp => simp [refreshes, hp] at hb
  | @settled p call a hp ha =>
    have hcontent := congrArg serverContent hitems
    obtain ⟨rfl, hdelete⟩ | ⟨rfl, target, rfl⟩ := ha
    · cases call with
      | loadList cursor =>
        -- a request for the list fails
        have hg : g.update getTime s (.answer p .error) = g := by
          simp only [ListHistory.update, hp]
        simp only [ArrivesInOrder, hp] at hok
        exact h.unchanged hg hnext (fun hset => hok (hset.lastList (calls_of_answer hs')))
          hcontent
      | delete target => exact absurd rfl (hdelete target)
      | _ => simp [refreshes, hp] at hb
    · -- a delete succeeds
      exact h.unchanged rfl hnext
        (fun hset => h.settled (hset.of_delete hp (calls_of_answer hs'))) hcontent

theorem of_reachable (h : ((refreshing getTime).guard ArrivesInOrder).Reachable x) :
    Ordered x := by
  refine h.invariant_of ?_ fun x l x' hr hx hst => hx.step ?_ hst.1 hst.2
  · rintro ⟨s, g⟩ ⟨⟨now, rfl⟩, rfl⟩
    exact ⟨fun p hp => (by cases hp), fun _ => rfl, fun _ => rfl, fun p hp => (by cases hp)⟩
  · have hs : (recordingScreens getTime).Reachable x.1 :=
      hr.of_guard.of_recorded (fun x hx => .start hx.1)
        fun s l s' hs => (Option.ite_none_right_eq_some.1 hs).2
    exact (Refreshing.of_reachable hs).ids

end Ordered

/-- **When the newest request wins.**  In a run whose lists arrive in order, the screen shows the
list of the newest request that has succeeded whenever all requests have settled, and no list brings
back an item that was removed after it was requested. -/
theorem shows_newest_of_inOrder (h : ((refreshing getTime).guard ArrivesInOrder).Reachable x) :
    ShowsNewest x :=
  (Ordered.of_reachable h).showsNewest
/-- The step is in order: only the newest request succeeds, and no request for the list fails. -/
def checkOrder (x : Screens × ListHistory) : ScreenLabel → Bool
  | .answer p (.list raw) =>
    x.2.isNewest p && (raw.getD []).all fun m => m.confId ∉ x.2.removed p
  | .answer p .error =>
    match x.1.calls.get? p, x.2.newest, x.2.list with
    | some (.delete target), some q, item :: after =>
      x.2.shown = some q ∧ target.id ∉ (x.2.restore p target).removed q ∧
        (p, target.id) ∈ x.2.removals ∧ q < p ∧ serverContent [item] = serverContent [target] ∧
        ∀ other ∈ after, other.id ≠ target.id
    | _, _, _ => false
  | _ => true

theorem arrivesInOrder_of_checkOrder (h : checkOrder x l = true) : ArrivesInOrder x l := by
  cases l with
  | answer p a =>
    cases a with
    | list raw =>
      obtain ⟨hnew, hraw⟩ := Bool.and_eq_true_iff.1 h
      exact ⟨fun m hm => of_decide_eq_true (List.all_eq_true.1 hraw m hm), fun _ => hnew⟩
    | error =>
      simp only [checkOrder] at h
      split at h
      · rename_i target q item after hp hnew hlist
        obtain ⟨hshown, hother, hrem, hlt, hitem, hafter⟩ := of_decide_eq_true h
        simp only [ArrivesInOrder, hp]
        refine ⟨fun q' hq' => ?_, fun _ => ⟨q, [], item, after, hnew, hrem, hlt, hlist, hitem,
          fun other hm => absurd hm List.not_mem_nil, hafter⟩⟩
        cases hshown.symm.trans hq'
        exact hother
      · cases h
    | _ => trivial
  | _ => trivial

/-- Two requests wait, and the older list arrives first; then the delete of an item fails, and that
of another one succeeds. -/
def inOrder : List ScreenLabel :=
  [.mount, .onRefresh, .answer 0 (.list (some [meetingItem "a"])),
    .answer 1 (.list (some [meetingItem "a", meetingItem "b"])), .deleteRecording "a",
    .answer 2 .error, .deleteRecording "b", .answer 3 .ok]

theorem shows_newest_of_inOrder_deleteFails :
    ∃ x, ((refreshing epoch).guard ArrivesInOrder).Reachable x ∧ x.1.ListsSettled ∧
      x.1.store.items.map ServerRecordingCache.id = ["a"] ∧ ShowsNewest x := by
  have hrun : (LTS.exec (fun x l => if checkOrder x l then
      LTS.recorded (refresh epoch) (ListHistory.update epoch) x l else none)
      (init 0, .empty) inOrder).map (fun x => (decide x.1.ListsSettled,
        x.1.store.items.map ServerRecordingCache.id)) = some (true, ["a"]) := by decide +kernel
  obtain ⟨x, hx, he⟩ := Option.map_eq_some_iff.1 hrun
  obtain ⟨hset, hids⟩ := Prod.mk.inj he
  have hr : ((refreshing epoch).guard ArrivesInOrder).Reachable x :=
    LTS.guard_reachable_of_check (fun _ _ => arrivesInOrder_of_checkOrder)
      (.start ⟨⟨0, rfl⟩, rfl⟩) hx
  exact ⟨x, hr, of_decide_eq_true hset, hids, shows_newest_of_inOrder hr⟩

/-- The older list arrives last. -/
theorem newest_overtaken :
    ¬ ∀ getTime tr x, (refreshing getTime).Run tr x → ShowsNewest x := by
  intro h
  have hrun : (LTS.exec (LTS.recorded (refresh epoch) (ListHistory.update epoch))
      (init 0, .empty) [.mount, .onRefresh, .answer 1 (.list (some [meetingItem "b"])),
        .answer 0 (.list (some [meetingItem "a"]))]).map (fun x =>
          (decide x.1.ListsSettled, decide (AsExpected x))) = some (true, false) := by
    decide +kernel
  obtain ⟨x, hx, he⟩ := Option.map_eq_some_iff.1 hrun
  obtain ⟨tr, htr, -⟩ := LTS.run_of_exec
    (LTS.Run.start (A := refreshing epoch) ⟨⟨0, rfl⟩, rfl⟩) hx
  obtain ⟨hset, hexp⟩ := Prod.mk.inj he
  exact of_decide_eq_false hexp ((h epoch tr x htr).newest (of_decide_eq_true hset))

end Screens

end FCord
