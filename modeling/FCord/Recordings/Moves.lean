import FCord.Recordings.Screens

/-!
# What a step of the screens can do

The step function of the screens is unfolded once, here.  `ItemMove` lists what a step can do to the
items of the list, `ItemFrom` where an item of the list comes from then, and `NewCall` which calls a
step can leave waiting; `ItemMove.of_step`, `ItemMove.itemFrom` and `newCall_of_step` say that there
is nothing else.
-/

namespace FCord

/-- An event that leaves the items alone: it is no answer, and it neither stars nor deletes. -/
def ScreenLabel.quiet : ScreenLabel → Bool
  | .toggleStar _ => false
  | .confirmDelete => false
  | .deleteRecording _ => false
  | .answer _ _ => false
  | _ => true

namespace Screens

variable {getTime : String → ℕ} {s s' : Screens} {l : ScreenLabel}

/-- What a step does to the items. -/
inductive ItemMove (getTime : String → ℕ) (s : Screens) :
    ScreenLabel → List ServerRecordingCache → Prop
  | quiet {l : ScreenLabel} (hl : l.quiet = true) : ItemMove getTime s l s.store.items
  | toggleStar {id : String} (hid : id ∈ s.store.items.map ServerRecordingCache.id) :
      ItemMove getTime s (.toggleStar id) (s.store.toggleStar id).items
  | delete {l : ScreenLabel} (id : String) (hl : l = .confirmDelete ∨ l = .deleteRecording id) :
      ItemMove getTime s l (s.store.removeItem id).items
  /-- The whole list arrives. -/
  | refresh {p : ℕ} {raw : Option (List FaicordMeetingItem)}
      (hp : s.calls.get? p = some (.loadList none)) :
      ItemMove getTime s (.answer p (.list raw)) ((raw.getD []).map (toCache getTime s.now))
  /-- A page arrives. -/
  | page {p : ℕ} {cursor : String} {raw : Option (List FaicordMeetingItem)}
      (hp : s.calls.get? p = some (.loadList (some cursor))) :
      ItemMove getTime s (.answer p (.list raw))
        (Keyed.appendFresh ServerRecordingCache.id s.store.items
          ((raw.getD []).map (toCache getTime s.now)))
  /-- The poll learns that a conversion has left `processing`. -/
  | polled {p : ℕ} {id : String} {rest : List String} {res : Option MeetingResponse}
      {detail : ServerRecordingCache} (hp : s.calls.get? p = some (.poll id rest))
      (hd : getMeetingDetail getTime s.now res = some detail)
      (hne : detail.transcriptionState ≠ .processing) :
      ItemMove getTime s (.answer p (.detail res))
        (s.store.updateItem id { transcriptionState := some detail.transcriptionState }).items
  /-- The poll learns nothing. -/
  | pollKept {p : ℕ} {id : String} {rest : List String} {res : Option MeetingResponse}
      (hp : s.calls.get? p = some (.poll id rest))
      (hd : ∀ detail, getMeetingDetail getTime s.now res = some detail →
        detail.transcriptionState = .processing) :
      ItemMove getTime s (.answer p (.detail res)) s.store.items
  /-- A delete fails. -/
  | restored {p : ℕ} {target : ServerRecordingCache} (hp : s.calls.get? p = some (.delete target)) :
      ItemMove getTime s (.answer p .error) (s.store.restoreItem target).items
  /-- A title is saved, or an upload is retried. -/
  | patched {p : ℕ} {call : Call} {id : String} {patch : RecordingPatch}
      (hp : s.calls.get? p = some call)
      (hcall : (∃ title, call = .saveTitle id title) ∨ call = .retryUpload id)
      (hpatch : patch.id = none ∧ patch.isStarred = none ∧ patch.transcriptionState = none ∧
        patch.transcriptionId = none) :
      ItemMove getTime s (.answer p .ok) (s.store.updateItem id patch).items
  /-- A conversion is requested (again). -/
  | queued {p : ℕ} {call : Call} {id : String} (hp : s.calls.get? p = some call)
      (hcall : call = .retryTranscription id ∨ call = .requestTranscription id) :
      ItemMove getTime s (.answer p .ok)
        (s.store.updateItem id { transcriptionState := some .queued }).items
  /-- A recording is uploaded. -/
  | saved {p : ℕ} {title : String} {elapsed : ℕ} {items : List ServerRecordingCache}
      {confId : String} (hp : s.calls.get? p = some (.upload title elapsed items)) :
      ItemMove getTime s (.answer p (.uploaded confId)) (s.savedItem confId title elapsed :: items)
  /-- A call fails without consequence, or a delete succeeds. -/
  | settled {p : ℕ} {call : Call} {a : Answer} (hp : s.calls.get? p = some call)
      (ha : (a = .error ∧ ∀ target, call ≠ .delete target) ∨
        a = .ok ∧ ∃ target, call = .delete target) :
      ItemMove getTime s (.answer p a) s.store.items

theorem goOn_store (p : ℕ) (call : Call) : (s.goOn p call).store = s.store := by
  cases call with
  | poll id rest => cases rest <;> rfl
  | _ => rfl

theorem ItemMove.of_answer {p : ℕ} {call : Call} {a : Answer} {store : RecordingListStore}
    (hp : s.calls.get? p = some call) (h : s.onAnswer getTime call a = some store) :
    ItemMove getTime s (.answer p a) store.items := by
  unfold onAnswer at h
  split at h
  · rename_i cursor raw
    cases h
    cases cursor with
    | none => exact .refresh hp
    | some cursor => exact .page hp
  · cases h
    exact .settled hp (.inl ⟨rfl, by simp⟩)
  · cases h
    unfold pollAnswer
    split
    · rename_i hd
      refine .pollKept hp fun detail he => ?_
      rw [hd] at he
      cases he
    · rename_i detail hd
      split_ifs with hne
      · exact .polled hp hd hne
      · refine .pollKept hp fun detail' he => ?_
        rw [hd] at he
        cases he
        exact not_not.1 hne
  · cases h; exact .settled hp (.inl ⟨rfl, by simp⟩)
  · cases h; exact .settled hp (.inr ⟨rfl, _, rfl⟩)
  · cases h; exact .restored hp
  · cases h; exact .patched hp (.inl ⟨_, rfl⟩) ⟨rfl, rfl, rfl, rfl⟩
  · cases h; exact .settled hp (.inl ⟨rfl, by simp⟩)
  · cases h; exact .patched hp (.inr rfl) ⟨rfl, rfl, rfl, rfl⟩
  · cases h; exact .settled hp (.inl ⟨rfl, by simp⟩)
  · cases h; exact .queued hp (.inl rfl)
  · cases h; exact .settled hp (.inl ⟨rfl, by simp⟩)
  · cases h; exact .queued hp (.inr rfl)
  · cases h; exact .settled hp (.inl ⟨rfl, by simp⟩)
  · cases h; exact .saved hp
  · cases h; exact .settled hp (.inl ⟨rfl, by simp⟩)
  · cases h

theorem onAnswer_of_step {p : ℕ} {call : Call} {a : Answer} (hp : s.calls.get? p = some call)
    (h : step getTime s (.answer p a) = some s') : s.onAnswer getTime call a = some s'.store := by
  obtain ⟨call', hp', h⟩ := Option.bind_eq_some_iff.1 h
  obtain ⟨store, ha, rfl⟩ := Option.map_eq_some_iff.1 h
  cases hp'.symm.trans hp
  rw [goOn_store]
  exact ha

/-- **What a step does to the items.** -/
theorem ItemMove.of_step (h : step getTime s l = some s') :
    ItemMove getTime s l s'.store.items := by
  cases l with
  | toggleStar id =>
    obtain ⟨hid, he⟩ := Option.ite_none_right_eq_some.1 h
    cases he
    exact .toggleStar hid
  | confirmDelete =>
    obtain ⟨target, -, rfl⟩ := Option.map_eq_some_iff.1 h
    exact .delete target.id (.inl rfl)
  | deleteRecording id =>
    obtain ⟨recording, -, rfl⟩ := Option.map_eq_some_iff.1 h
    exact .delete id (.inr rfl)
  | answer p a =>
    obtain ⟨call, hp, h⟩ := Option.bind_eq_some_iff.1 h
    obtain ⟨store, ha, rfl⟩ := Option.map_eq_some_iff.1 h
    rw [goOn_store]
    exact .of_answer hp ha
  | mount => cases h; exact .quiet rfl
  | setFilter filter =>
    cases h
    split_ifs
    · exact .quiet rfl
    · exact .quiet rfl
  | onToggleSort => cases h; exact .quiet rfl
  | setSearchQuery q => cases h; exact .quiet rfl
  | active => cases h; exact .quiet rfl
  | onRefresh =>
    cases h
    unfold onRefresh
    split_ifs
    · exact .quiet rfl
    · exact .quiet rfl
  | onEndReached =>
    cases h
    unfold onEndReached
    split_ifs
    · split
      · split_ifs
        · exact .quiet rfl
        · exact .quiet rfl
      · exact .quiet rfl
    · exact .quiet rfl
  | poll =>
    simp only [step] at h
    split_ifs at h
    split at h
    · cases h; exact .quiet rfl
    · cases h; exact .quiet rfl
  | openDelete item =>
    obtain ⟨-, he⟩ := Option.ite_none_right_eq_some.1 h
    cases he
    exact .quiet rfl
  | onSaveTitle id title =>
    obtain ⟨recording, -, rfl⟩ := Option.map_eq_some_iff.1 h
    split_ifs
    · exact .quiet rfl
    · exact .quiet rfl
  | onRetryUpload id =>
    obtain ⟨recording, -, h⟩ := Option.bind_eq_some_iff.1 h
    obtain ⟨-, he⟩ := Option.ite_none_right_eq_some.1 h
    cases he
    exact .quiet rfl
  | onRetryTranscription id =>
    obtain ⟨recording, -, h⟩ := Option.bind_eq_some_iff.1 h
    obtain ⟨-, he⟩ := Option.ite_none_right_eq_some.1 h
    cases he
    split_ifs
    · exact .quiet rfl
    · exact .quiet rfl
  | onRequestTranscription id =>
    obtain ⟨recording, -, h⟩ := Option.bind_eq_some_iff.1 h
    obtain ⟨-, he⟩ := Option.ite_none_right_eq_some.1 h
    cases he
    exact .quiet rfl
  | onSave title elapsed => cases h; exact .quiet rfl
  | tick ms => cases h; exact .quiet rfl

/-- Where an item of the list comes from after a step. -/
inductive ItemFrom (getTime : String → ℕ) (s : Screens) :
    ScreenLabel → ServerRecordingCache → Prop
  | kept {l : ScreenLabel} {old : ServerRecordingCache} (hold : old ∈ s.store.items) :
      ItemFrom getTime s l old
  | starred {old : ServerRecordingCache} (hold : old ∈ s.store.items) :
      ItemFrom getTime s (.toggleStar old.id) old.flipStar
  | listed {p : ℕ} {cursor : Option String} {raw : Option (List FaicordMeetingItem)}
      {m : FaicordMeetingItem} (hp : s.calls.get? p = some (.loadList cursor))
      (hm : m ∈ raw.getD []) :
      ItemFrom getTime s (.answer p (.list raw)) (toCache getTime s.now m)
  | polled {p : ℕ} {rest : List String} {res : Option MeetingResponse}
      {detail old : ServerRecordingCache} (hold : old ∈ s.store.items)
      (hp : s.calls.get? p = some (.poll old.id rest))
      (hd : getMeetingDetail getTime s.now res = some detail)
      (hne : detail.transcriptionState ≠ .processing) :
      ItemFrom getTime s (.answer p (.detail res))
        (RecordingPatch.apply { transcriptionState := some detail.transcriptionState } old)
  | patched {p : ℕ} {old : ServerRecordingCache} {patch : RecordingPatch}
      (hold : old ∈ s.store.items)
      (hpatch : patch.id = none ∧ patch.isStarred = none ∧ patch.transcriptionState = none ∧
        patch.transcriptionId = none) :
      ItemFrom getTime s (.answer p .ok) (patch.apply old)
  | queued {p : ℕ} {call : Call} {old : ServerRecordingCache} (hold : old ∈ s.store.items)
      (hp : s.calls.get? p = some call)
      (hcall : call = .retryTranscription old.id ∨ call = .requestTranscription old.id) :
      ItemFrom getTime s (.answer p .ok)
        (RecordingPatch.apply { transcriptionState := some .queued } old)
  | restored {p : ℕ} {target : ServerRecordingCache} (hp : s.calls.get? p = some (.delete target)) :
      ItemFrom getTime s (.answer p .error) target
  | captured {p : ℕ} {title confId : String} {elapsed : ℕ} {items : List ServerRecordingCache}
      {item : ServerRecordingCache} (hp : s.calls.get? p = some (.upload title elapsed items))
      (hm : item ∈ items) : ItemFrom getTime s (.answer p (.uploaded confId)) item
  | saved {p : ℕ} {title confId : String} {elapsed : ℕ} {items : List ServerRecordingCache}
      (hp : s.calls.get? p = some (.upload title elapsed items)) :
      ItemFrom getTime s (.answer p (.uploaded confId)) (s.savedItem confId title elapsed)

/-- **Where the items come from.** -/
theorem ItemMove.itemFrom {items : List ServerRecordingCache} {item : ServerRecordingCache}
    (h : ItemMove getTime s l items) (hm : item ∈ items) : ItemFrom getTime s l item := by
  cases h with
  | quiet hl => exact .kept hm
  | toggleStar hid =>
    obtain ⟨old, hold, rfl, rfl⟩ | ⟨hm, -⟩ := Keyed.mem_update.1 hm
    · exact .starred hold
    · exact .kept hm
  | delete id hl => exact .kept (Keyed.mem_remove.1 hm).1
  | refresh hp =>
    obtain ⟨m, hraw, rfl⟩ := List.mem_map.1 hm
    exact .listed hp hraw
  | page hp =>
    rcases Keyed.mem_appendFresh.1 hm with hm | ⟨hm, -⟩
    · exact .kept hm
    · obtain ⟨m, hraw, rfl⟩ := List.mem_map.1 hm
      exact .listed hp hraw
  | polled hp hd hne =>
    obtain ⟨old, hold, rfl, rfl⟩ | ⟨hm, -⟩ := Keyed.mem_update.1 hm
    · exact .polled hold hp hd hne
    · exact .kept hm
  | pollKept hp hd => exact .kept hm
  | restored hp =>
    rcases List.mem_cons.1 hm with rfl | hm
    · exact .restored hp
    · exact .kept hm
  | patched hp hcall hpatch =>
    obtain ⟨old, hold, rfl, rfl⟩ | ⟨hm, -⟩ := Keyed.mem_update.1 hm
    · exact .patched hold hpatch
    · exact .kept hm
  | queued hp hcall =>
    obtain ⟨old, hold, rfl, rfl⟩ | ⟨hm, -⟩ := Keyed.mem_update.1 hm
    · exact .queued hold hp hcall
    · exact .kept hm
  | saved hp =>
    rcases List.mem_cons.1 hm with rfl | hm
    · exact .saved hp
    · exact .captured hp hm
  | settled hp ha => exact .kept hm

/-- The calls that a step can leave waiting. -/
def NewCall (s : Screens) : Call → Prop
  | .delete target => target ∈ s.store.items ∨ s.deleteTarget = some target
  | .upload _ _ items => items = s.store.items
  | .poll id rest => (∃ p id', s.calls.get? p = some (.poll id' (id :: rest))) ∨
      pollIds s.store.items = id :: rest
  | _ => True

theorem get?_await {call call' : Call} {p : ℕ} (hp : s.calls.get? p = some call') :
    (s.await call).calls.get? p = some call' := by
  by_cases hk : s.nextPid ∈ s.calls.keys
  · have hsame : (s.await call).calls = s.calls := dif_pos hk
    exact hsame ▸ hp
  · have hne : p ≠ s.nextPid := fun he => hk (he ▸ Table.mem_keys_of_get? hp)
    exact (Table.get?_push hk).trans ((if_neg hne).trans hp)

theorem of_get?_await {call call' : Call} {p : ℕ}
    (h : (s.await call).calls.get? p = some call') :
    s.calls.get? p = some call' ∨ call' = call := by
  by_cases hk : s.nextPid ∈ s.calls.keys
  · have hsame : (s.await call).calls = s.calls := dif_pos hk
    exact .inl (hsame ▸ h)
  · rcases Table.of_get?_push hk h with ⟨-, he⟩ | ⟨-, hp⟩
    · exact .inr he
    · exact .inl hp

theorem of_get?_goOn {call call' : Call} {p q : ℕ} (h : (s.goOn p call).calls.get? q = some call')
    (hp : s.calls.get? p = some call) : s.calls.get? q = some call' ∨ NewCall s call' := by
  cases call with
  | poll id rest =>
    cases rest with
    | nil => exact .inl (Table.of_get?_erase h).2
    | cons id' rest =>
      rcases Table.of_get?_set h with ⟨-, rfl⟩ | ⟨-, hq⟩
      · exact .inr (.inl ⟨p, id, hp⟩)
      · exact .inl hq
  | _ => exact .inl (Table.of_get?_erase h).2

/-- The calls and the delete modal after a step: a call may have begun, or one has gone on. -/
inductive CallMove (s : Screens) (l : ScreenLabel) (s' : Screens) : Prop
  | same (hl : l.isAnswer = false) (hcalls : s'.calls = s.calls) (hnext : s'.nextPid = s.nextPid)
      (htarget : s'.deleteTarget = s.deleteTarget ∨
        ∃ item ∈ s.store.items, s'.deleteTarget = some item)
  | begun (call : Call) (hl : l.isAnswer = false) (hcalls : s'.calls = (s.await call).calls)
      (hnext : s'.nextPid = s.nextPid + 1) (hnew : NewCall s call)
      (htarget : s'.deleteTarget = s.deleteTarget ∨ s'.deleteTarget = none)
  | wentOn {p : ℕ} {call : Call} {a : Answer} (hl : l = .answer p a)
      (hp : s.calls.get? p = some call) (hcalls : s'.calls = (s.goOn p call).calls)
      (hnext : s'.nextPid = s.nextPid) (htarget : s'.deleteTarget = s.deleteTarget)

theorem CallMove.loadList (s : Screens) (cursor : Option String) (store : RecordingListStore)
    (hl : l.isAnswer = false) : CallMove s l ({ s with store := store }.loadList cursor) :=
  .begun (.loadList cursor) hl rfl rfl trivial (.inl rfl)

theorem CallMove.of_step (h : step getTime s l = some s') : CallMove s l s' := by
  cases l with
  | mount => cases h; exact .loadList s none _ rfl
  | setFilter filter =>
    cases h
    split_ifs
    · exact .same rfl rfl rfl (.inl rfl)
    · exact .loadList s none _ rfl
  | onToggleSort => cases h; exact .loadList s none _ rfl
  | setSearchQuery q => cases h; exact .same rfl rfl rfl (.inl rfl)
  | active => cases h; exact .loadList s none _ rfl
  | onRefresh =>
    cases h
    unfold onRefresh
    split_ifs
    · exact .same rfl rfl rfl (.inl rfl)
    · exact .loadList s none _ rfl
  | onEndReached =>
    cases h
    unfold onEndReached
    split_ifs
    · split
      · split_ifs
        · exact .same rfl rfl rfl (.inl rfl)
        · exact .loadList s _ _ rfl
      · exact .same rfl rfl rfl (.inl rfl)
    · exact .same rfl rfl rfl (.inl rfl)
  | poll =>
    simp only [step] at h
    split_ifs at h
    split at h
    · cases h; exact .same rfl rfl rfl (.inl rfl)
    · rename_i id rest hids
      cases h; exact .begun _ rfl rfl rfl (.inr hids) (.inl rfl)
  | toggleStar id =>
    obtain ⟨-, he⟩ := Option.ite_none_right_eq_some.1 h
    cases he
    exact .same rfl rfl rfl (.inl rfl)
  | openDelete item =>
    obtain ⟨hitem, he⟩ := Option.ite_none_right_eq_some.1 h
    cases he
    exact .same rfl rfl rfl (.inr ⟨item, hitem, rfl⟩)
  | confirmDelete =>
    obtain ⟨target, ht, rfl⟩ := Option.map_eq_some_iff.1 h
    exact .begun _ rfl rfl rfl (.inr ht) (.inr rfl)
  | deleteRecording id =>
    obtain ⟨recording, hr, rfl⟩ := Option.map_eq_some_iff.1 h
    exact .begun _ rfl rfl rfl (.inl (List.mem_of_find?_eq_some hr)) (.inl rfl)
  | onSaveTitle id title =>
    obtain ⟨recording, -, rfl⟩ := Option.map_eq_some_iff.1 h
    split_ifs
    · exact .begun _ rfl rfl rfl trivial (.inl rfl)
    · exact .same rfl rfl rfl (.inl rfl)
  | onRetryUpload id =>
    obtain ⟨recording, -, h⟩ := Option.bind_eq_some_iff.1 h
    obtain ⟨-, he⟩ := Option.ite_none_right_eq_some.1 h
    cases he
    exact .begun _ rfl rfl rfl trivial (.inl rfl)
  | onRetryTranscription id =>
    obtain ⟨recording, -, h⟩ := Option.bind_eq_some_iff.1 h
    obtain ⟨-, he⟩ := Option.ite_none_right_eq_some.1 h
    cases he
    split_ifs
    · exact .begun _ rfl rfl rfl trivial (.inl rfl)
    · exact .same rfl rfl rfl (.inl rfl)
  | onRequestTranscription id =>
    obtain ⟨recording, -, h⟩ := Option.bind_eq_some_iff.1 h
    obtain ⟨-, he⟩ := Option.ite_none_right_eq_some.1 h
    cases he
    exact .begun _ rfl rfl rfl trivial (.inl rfl)
  | onSave title elapsed => cases h; exact .begun _ rfl rfl rfl rfl (.inl rfl)
  | answer p a =>
    obtain ⟨call, hp, h⟩ := Option.bind_eq_some_iff.1 h
    obtain ⟨store, ha, rfl⟩ := Option.map_eq_some_iff.1 h
    cases call with
    | poll id rest => cases rest <;> exact .wentOn rfl hp rfl rfl rfl
    | _ => exact .wentOn rfl hp rfl rfl rfl
  | tick ms => cases h; exact .same rfl rfl rfl (.inl rfl)

/-- **What calls a step can leave waiting.** -/
theorem newCall_of_step (h : step getTime s l = some s') {p : ℕ} {call : Call}
    (hp : s'.calls.get? p = some call) : s.calls.get? p = some call ∨ NewCall s call := by
  cases CallMove.of_step h with
  | same hl hcalls hnext htarget => exact .inl (hcalls ▸ hp)
  | begun call' hl hcalls hnext hnew htarget =>
    rw [hcalls] at hp
    rcases of_get?_await hp with hp | rfl
    · exact .inl hp
    · exact .inr hnew
  | wentOn hl hq hcalls hnext htarget =>
    rw [hcalls] at hp
    exact of_get?_goOn hp hq

/-- The delete modal shows an item as it was when the modal was opened. -/
theorem deleteTarget_of_step (h : step getTime s l = some s') {target : ServerRecordingCache}
    (ht : s'.deleteTarget = some target) :
    s.deleteTarget = some target ∨ target ∈ s.store.items := by
  cases CallMove.of_step h with
  | same hl hcalls hnext htarget =>
    rcases htarget with he | ⟨item, hitem, he⟩
    · exact .inl (he ▸ ht)
    · cases he.symm.trans ht
      exact .inr hitem
  | begun call hl hcalls hnext hnew htarget =>
    rcases htarget with he | he
    · exact .inl (he ▸ ht)
    · cases he.symm.trans ht
  | wentOn hl hq hcalls hnext htarget => exact .inl (htarget ▸ ht)

/-! ### The items that the screens hold -/

/-- An item that is in the list, or in a snapshot that may get into the list. -/
inductive Holds (s : Screens) (item : ServerRecordingCache) : Prop
  | listed (h : item ∈ s.store.items)
  | modal (h : s.deleteTarget = some item)
  | deleted {p : ℕ} (h : s.calls.get? p = some (.delete item))
  | captured {p : ℕ} {title : String} {elapsed : ℕ} {items : List ServerRecordingCache}
      (h : s.calls.get? p = some (.upload title elapsed items)) (hm : item ∈ items)

/-- A step takes its snapshots from what the screens held before. -/
theorem Holds.of_step (h : step getTime s l = some s') {item : ServerRecordingCache}
    (hi : Holds s' item) : item ∈ s'.store.items ∨ Holds s item := by
  cases hi with
  | listed hm => exact .inl hm
  | modal ht => exact .inr ((deleteTarget_of_step h ht).elim .modal .listed)
  | deleted hp =>
    rcases newCall_of_step h hp with hp | hm | ht
    · exact .inr (.deleted hp)
    · exact .inr (.listed hm)
    · exact .inr (.modal ht)
  | captured hp hm =>
    rcases newCall_of_step h hp with hp | rfl
    · exact .inr (.captured hp hm)
    · exact .inr (.listed hm)

theorem not_holds_init (now : ℕ) (item : ServerRecordingCache) : ¬ Holds (init now) item := by
  rintro (hm | ht | hp | ⟨hp, -⟩)
  · cases hm
  · cases ht
  · cases hp
  · cases hp

end Screens

end FCord
