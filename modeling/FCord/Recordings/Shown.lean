import FCord.Recordings.Moves
import FCord.Search.Store
import Mathlib.Data.List.Infix

/-!
# What the screens show of a recording

A recording has three status tracks, and four places look at them, each in its own way: the filter
tabs of the list (`applyFilter`), the badge of the card (`primaryBadge`), the actions of the detail
screen (`resolveDetailActions`) and the tabs of the library.  For an arbitrary recording they
disagree; for those that the screens can hold they do not (`shown_truly`), since the tracks of these
are fixed except for the conversion (`Screens.Plain`).
-/

namespace FCord

/-- The badge next to the title of a card. -/
inductive PrimaryBadge where
  /-- `완료` -/
  | completed
  /-- `실패` -/
  | failed
  /-- `변환중` -/
  | converting
  /-- `업로드중` -/
  | uploading
  deriving DecidableEq, Repr

/-- `PrimaryBadge` -/
def primaryBadge (item : ServerRecordingCache) : Option PrimaryBadge :=
  if item.transcriptionState = .completed then some .completed
  else if item.transcriptionState = .failed ∨ item.uploadState = .failed then some .failed
  else if item.transcriptionState = .processing ∨ item.transcriptionState = .queued then
    some .converting
  else if item.uploadState = .uploading ∨ item.uploadState = .queued then some .uploading
  else none

/-- The card and the detail screen have an upload progress bar. -/
def showsProgress (item : ServerRecordingCache) : Bool := item.uploadState = .uploading

/-- The filter of the list screen. -/
def applyFilter (items : List ServerRecordingCache) :
    FilterType → List ServerRecordingCache
  | .processing => items.filter fun i =>
      i.transcriptionState = .processing ∨ i.transcriptionState = .queued ∨
        i.uploadState = .uploading ∨ i.uploadState = .queued
  | .done => items.filter fun i => i.transcriptionState = .completed
  | .starred => items.filter fun i => i.starred
  | .all => items

/-- `title.includes(q)` -/
def includes (title q : String) : Bool := decide (q.toList <:+: title.toList)

/-- The recordings that the list screen shows. -/
def displayedItems (toLowerCase : String → String) (store : RecordingListStore) :
    List ServerRecordingCache :=
  let filtered := applyFilter store.items store.filter
  if trim store.searchQuery = "" then filtered
  else
    filtered.filter fun i => includes (toLowerCase i.title) (toLowerCase store.searchQuery)

/-! ### The library -/

def filterStarred (items : List ServerRecordingCache) : List ServerRecordingCache :=
  items.filter fun r => r.isStarred = some true

def filterArchived (items : List ServerRecordingCache) : List ServerRecordingCache :=
  items.filter fun r => r.recordingState = .archived

/-- `le` is the order of `localeCompare`. -/
def collectAllTags (le : String → String → Bool) (items : List ServerRecordingCache) :
    List String :=
  (items.flatMap ServerRecordingCache.tags).eraseDups.mergeSort le

namespace Screens

variable {getTime : String → ℕ} {s s' : Screens} {l : ScreenLabel}

/-! ### The tracks of the recordings that the screens hold -/

/-- Only the conversion of a recording varies. -/
structure Plain (item : ServerRecordingCache) : Prop where
  uploaded : item.uploadState = .uploaded
  notCancelled : item.transcriptionState ≠ .cancelled
  saved : item.recordingState = .savedLocal
  untagged : item.tags = []

/-- The screens hold plain recordings, and no upload is being retried. -/
structure AllPlain (s : Screens) : Prop where
  items : ∀ item, Holds s item → Plain item
  noRetry : ∀ p id, s.calls.get? p ≠ some (.retryUpload id)

theorem get?_await_retryUpload {s : Screens} {call : Call} (hne : ∀ id, call ≠ .retryUpload id)
    {p : ℕ} {id : String} (hp : (s.await call).calls.get? p = some (.retryUpload id)) :
    s.calls.get? p = some (.retryUpload id) :=
  (of_get?_await hp).resolve_right fun he => hne id he.symm

/-- An upload is retried only when one has failed. -/
theorem retryUpload_of_step (h : step getTime s l = some s') {p : ℕ} {id : String}
    (hp : s'.calls.get? p = some (.retryUpload id)) :
    s.calls.get? p = some (.retryUpload id) ∨ ∃ r ∈ s.store.items, r.uploadState = .failed := by
  cases l with
  | onRetryUpload id' =>
    obtain ⟨recording, hr, h⟩ := Option.bind_eq_some_iff.1 h
    obtain ⟨hoffer, -⟩ := Option.ite_none_right_eq_some.1 h
    exact .inr ⟨recording, List.mem_of_find?_eq_some hr, of_decide_eq_true hoffer⟩
  | mount => cases h; exact .inl (get?_await_retryUpload (by simp) hp)
  | setFilter filter =>
    cases h
    split_ifs at hp
    · exact .inl hp
    · exact .inl (get?_await_retryUpload (by simp) hp)
  | onToggleSort => cases h; exact .inl (get?_await_retryUpload (by simp) hp)
  | setSearchQuery q => cases h; exact .inl hp
  | active => cases h; exact .inl (get?_await_retryUpload (by simp) hp)
  | onRefresh =>
    cases h
    unfold onRefresh at hp
    split_ifs at hp
    · exact .inl hp
    · exact .inl (get?_await_retryUpload (by simp) hp)
  | onEndReached =>
    cases h
    unfold onEndReached at hp
    split_ifs at hp
    · split at hp
      · split_ifs at hp
        · exact .inl hp
        · exact .inl (get?_await_retryUpload (by simp) hp)
      · exact .inl hp
    · exact .inl hp
  | poll =>
    simp only [step] at h
    split_ifs at h
    split at h
    · cases h; exact .inl hp
    · cases h; exact .inl (get?_await_retryUpload (by simp) hp)
  | toggleStar id' =>
    obtain ⟨-, he⟩ := Option.ite_none_right_eq_some.1 h
    cases he
    exact .inl hp
  | openDelete item =>
    obtain ⟨-, he⟩ := Option.ite_none_right_eq_some.1 h
    cases he
    exact .inl hp
  | confirmDelete =>
    obtain ⟨target, -, rfl⟩ := Option.map_eq_some_iff.1 h
    exact .inl (get?_await_retryUpload (by simp) hp)
  | deleteRecording id' =>
    obtain ⟨recording, -, rfl⟩ := Option.map_eq_some_iff.1 h
    exact .inl (get?_await_retryUpload (by simp) hp)
  | onSaveTitle id' title =>
    obtain ⟨recording, -, rfl⟩ := Option.map_eq_some_iff.1 h
    split_ifs at hp
    · exact .inl (get?_await_retryUpload (by simp) hp)
    · exact .inl hp
  | onRetryTranscription id' =>
    obtain ⟨recording, -, h⟩ := Option.bind_eq_some_iff.1 h
    obtain ⟨-, he⟩ := Option.ite_none_right_eq_some.1 h
    cases he
    split_ifs at hp
    · exact .inl (get?_await_retryUpload (by simp) hp)
    · exact .inl hp
  | onRequestTranscription id' =>
    obtain ⟨recording, -, h⟩ := Option.bind_eq_some_iff.1 h
    obtain ⟨-, he⟩ := Option.ite_none_right_eq_some.1 h
    cases he
    exact .inl (get?_await_retryUpload (by simp) hp)
  | onSave title elapsed => cases h; exact .inl (get?_await_retryUpload (by simp) hp)
  | answer q a =>
    obtain ⟨call, hq, h⟩ := Option.bind_eq_some_iff.1 h
    obtain ⟨store, ha, rfl⟩ := Option.map_eq_some_iff.1 h
    cases call with
    | poll id' rest =>
      cases rest with
      | nil => exact .inl (Table.of_get?_erase hp).2
      | cons id'' rest =>
        rcases Table.of_get?_set hp with ⟨-, he⟩ | ⟨-, hp⟩
        · cases he
        · exact .inl hp
    | _ => exact .inl (Table.of_get?_erase hp).2
  | tick ms => cases h; exact .inl hp

theorem AllPlain.noneFailed (h : AllPlain s) {r : ServerRecordingCache} (hr : r ∈ s.store.items) :
    r.uploadState ≠ .failed := by
  simp [(h.items r (.listed hr)).uploaded]

/-- A detail answer reports one of four states. -/
theorem notCancelled_of_detail {res : Option MeetingResponse} {detail : ServerRecordingCache}
    {now : ℕ} (h : getMeetingDetail getTime now res = some detail) :
    detail.transcriptionState ≠ .cancelled := by
  obtain ⟨m, -, hstate⟩ := state_of_getMeetingDetail h
  rw [hstate]
  rcases mapStatusCode_cases m.statusCode with he | he | he | he <;> rw [he] <;> exact nofun

namespace Plain

variable {old : ServerRecordingCache}

/-- A patch of the title or of the conversion. -/
theorem patch (h : Plain old) {patch : RecordingPatch} (hupload : patch.uploadState = none)
    (hstate : patch.transcriptionState ≠ some .cancelled) (hsaved : patch.recordingState = none)
    (htags : patch.tags = none) : Plain (patch.apply old) where
  uploaded := by simpa [RecordingPatch.apply, hupload] using h.uploaded
  notCancelled := by
    cases hs : patch.transcriptionState with
    | none => simpa [RecordingPatch.apply, hs] using h.notCancelled
    | some state => simpa [RecordingPatch.apply, hs] using hstate
  saved := by simpa [RecordingPatch.apply, hsaved] using h.saved
  untagged := by simpa [RecordingPatch.apply, htags] using h.untagged

theorem of_update {items : List ServerRecordingCache} {item : ServerRecordingCache} {id : String}
    {f : ServerRecordingCache → ServerRecordingCache} (h : ∀ old ∈ items, Plain old)
    (hf : ∀ old, Plain old → Plain (f old))
    (hm : item ∈ Keyed.update ServerRecordingCache.id id f items) : Plain item := by
  obtain ⟨old, hold, -, rfl⟩ | ⟨hm, -⟩ := Keyed.mem_update.1 hm
  · exact hf old (h old hold)
  · exact h item hm

end Plain

/-- What a call that succeeds without data leaves in the list. -/
theorem AllPlain.of_ok (h : AllPlain s) {p : ℕ} {call : Call} {store : RecordingListStore}
    (hp : s.calls.get? p = some call) (ha : s.onAnswer getTime call .ok = some store)
    {item : ServerRecordingCache} (hm : item ∈ store.items) : Plain item := by
  have hlisted : ∀ old ∈ s.store.items, Plain old := fun old hold => h.items old (.listed hold)
  cases call with
  | loadList cursor => cases ha
  | poll id rest => cases ha
  | upload title elapsed items => cases ha
  | delete target => cases ha; exact hlisted item hm
  | saveTitle id title =>
    cases ha
    exact .of_update hlisted (fun old hold => hold.patch rfl (by simp) rfl rfl) hm
  | retryUpload id => exact absurd hp (h.noRetry p id)
  | retryTranscription id =>
    cases ha
    exact .of_update hlisted (fun old hold => hold.patch rfl (by simp) rfl rfl) hm
  | requestTranscription id =>
    cases ha
    exact .of_update hlisted (fun old hold => hold.patch rfl (by simp) rfl rfl) hm

theorem allPlain_step (h : AllPlain s) (hst : step getTime s l = some s') : AllPlain s' := by
  refine ⟨fun item hi => ?_, fun p id hp => ?_⟩
  · rcases hi.of_step hst with hm | hold
    swap
    · exact h.items item hold
    cases (ItemMove.of_step hst).itemFrom hm with
    | kept hold => exact h.items item (.listed hold)
    | @starred old hold =>
      have hplain := h.items old (.listed hold)
      exact ⟨hplain.uploaded, hplain.notCancelled, hplain.saved, hplain.untagged⟩
    | listed hp hraw => exact ⟨rfl, nofun, rfl, rfl⟩
    | @polled p rest res detail old hold hp hd hne =>
      refine (h.items old (.listed hold)).patch rfl ?_ rfl rfl
      simpa using notCancelled_of_detail hd
    | @patched p old patch hold hpatch =>
      obtain ⟨call, hp, -⟩ := Option.bind_eq_some_iff.1 hst
      exact h.of_ok hp (onAnswer_of_step hp hst) hm
    | queued hold hp hcall => exact h.of_ok hp (onAnswer_of_step hp hst) hm
    | restored hp => exact h.items item (.deleted hp)
    | captured hp hitem => exact h.items item (.captured hp hitem)
    | saved hp => exact ⟨rfl, nofun, rfl, rfl⟩
  · rcases retryUpload_of_step hst hp with hp | ⟨r, hr, hfailed⟩
    · exact h.noRetry p id hp
    · exact h.noneFailed hr hfailed

theorem AllPlain.of_reachable (h : (recordingScreens getTime).Reachable s) : AllPlain s := by
  refine h.invariant ?_ fun s l s' hs hst => allPlain_step hs hst
  rintro s ⟨now, rfl⟩
  exact ⟨fun item hi => absurd hi (not_holds_init now item), fun p id hp => by cases hp⟩

/-! ### The places that look at the tracks agree -/

/-- The list screen shows a recording under this tab. -/
def InTab (item : ServerRecordingCache) : FilterType → Prop
  | .all => True
  | .processing => primaryBadge item = some .converting
  | .done => primaryBadge item = some .completed
  | .starred => item.starred = true

/-- The title contains the query, if there is one. -/
def Matches (toLowerCase : String → String) (store : RecordingListStore)
    (item : ServerRecordingCache) : Prop :=
  trim store.searchQuery = "" ∨
    (toLowerCase store.searchQuery).toList <:+: (toLowerCase item.title).toList

/-- The badge of a recording tells which action its detail screen offers. -/
structure OfferedAsBadged (item : ServerRecordingCache) : Prop where
  viewed : (resolveDetailActions item).showViewTranscript = true ↔
    primaryBadge item = some .completed
  reprocessed : (resolveDetailActions item).showRetryTranscription = true ↔
    primaryBadge item = some .failed
  requested : (resolveDetailActions item).showRequestTranscription = true ↔
    primaryBadge item = none
  notResent : (resolveDetailActions item).showRetryUpload = false
  notUploading : primaryBadge item ≠ some .uploading ∧ showsProgress item = false

theorem Plain.offeredAsBadged {item : ServerRecordingCache} (h : Plain item) :
    OfferedAsBadged item := by
  have hcancelled := h.notCancelled
  constructor <;> cases hstate : item.transcriptionState <;>
    simp_all [primaryBadge, resolveDetailActions, showsProgress, h.uploaded]

theorem Plain.mem_applyFilter {items : List ServerRecordingCache} {item : ServerRecordingCache}
    {filter : FilterType} (h : Plain item) :
    item ∈ applyFilter items filter ↔ item ∈ items ∧ InTab item filter := by
  cases filter with
  | all => simp [applyFilter, InTab]
  | starred => simp [applyFilter, InTab]
  | done =>
    cases hstate : item.transcriptionState <;>
      simp [applyFilter, InTab, primaryBadge, h.uploaded, hstate]
  | processing =>
    cases hstate : item.transcriptionState <;>
      simp [applyFilter, InTab, primaryBadge, h.uploaded, hstate]

theorem mem_displayedItems {toLowerCase : String → String} {store : RecordingListStore}
    {item : ServerRecordingCache} :
    item ∈ displayedItems toLowerCase store ↔
      item ∈ applyFilter store.items store.filter ∧ Matches toLowerCase store item := by
  unfold displayedItems Matches
  by_cases hq : trim store.searchQuery = ""
  · simp [hq]
  · simp [hq, includes]

/-- **The screens agree on every recording**: the list shows exactly the recordings that wear the
badge of the chosen tab and match the query, the detail screen offers the action of the badge, no
upload is ever shown or offered, and the library has nothing archived and no tags. -/
theorem shown_truly (h : (recordingScreens getTime).Reachable s) (toLowerCase : String → String)
    (le : String → String → Bool) :
    (∀ item, item ∈ displayedItems toLowerCase s.store ↔
      item ∈ s.store.items ∧ InTab item s.store.filter ∧ Matches toLowerCase s.store item) ∧
    (∀ item ∈ s.store.items, OfferedAsBadged item) ∧
    filterStarred s.store.items = applyFilter s.store.items .starred ∧
    filterArchived s.store.items = [] ∧ collectAllTags le s.store.items = [] := by
  have hplain : ∀ item ∈ s.store.items, Plain item :=
    fun item hm => (AllPlain.of_reachable h).items item (.listed hm)
  refine ⟨fun item => ?_, fun item hm => (hplain item hm).offeredAsBadged, rfl, ?_, ?_⟩
  · rw [mem_displayedItems]
    by_cases hm : item ∈ s.store.items
    · rw [(hplain item hm).mem_applyFilter, and_assoc]
    · refine iff_of_false (fun hin => hm ?_) fun hin => hm hin.1
      have hfiltered := hin.1
      unfold applyFilter at hfiltered
      split at hfiltered
      · exact List.mem_of_mem_filter hfiltered
      · exact List.mem_of_mem_filter hfiltered
      · exact List.mem_of_mem_filter hfiltered
      · exact hfiltered
  · refine List.filter_eq_nil_iff.2 fun item hm => ?_
    simp [(hplain item hm).saved]
  · have htags : s.store.items.flatMap ServerRecordingCache.tags = [] :=
      List.flatMap_eq_nil_iff.2 fun item hm => (hplain item hm).untagged
    simp [collectAllTags, htags]

/-- Two recordings are listed, another one is saved, and the tab of the conversions is chosen. -/
def chooseProcessing : List ScreenLabel :=
  [.mount, .answer 0 (.list (some [meetingItem "a", meetingItem "b"])), .onSave "c" 60,
    .answer 1 (.uploaded "c"), .setFilter .processing]

theorem shown_truly_processing :
    ∃ s, (recordingScreens epoch).Reachable s ∧
      (displayedItems id s.store).map ServerRecordingCache.id = ["c"] ∧
      ∀ item ∈ displayedItems id s.store, primaryBadge item = some .converting := by
  have hrun : (LTS.exec (step epoch) (init 0) chooseProcessing).map (fun s =>
      (s.store.filter, (displayedItems id s.store).map ServerRecordingCache.id)) =
      some (.processing, ["c"]) := by decide +kernel
  obtain ⟨s, hs, he⟩ := Option.map_eq_some_iff.1 hrun
  simp only [Prod.mk.injEq] at he
  have hr : (recordingScreens epoch).Reachable s := LTS.reachable_of_exec (.start ⟨0, rfl⟩) hs
  refine ⟨s, hr, he.2, fun item hm => ?_⟩
  have htab := (((shown_truly hr id fun _ _ => true).1 item).1 hm).2.1
  rwa [he.1] at htab

end Screens

end FCord
