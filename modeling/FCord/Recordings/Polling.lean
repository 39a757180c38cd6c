import FCord.Recordings.Refreshing

/-!
# Following a conversion to its end

A cycle of the poll asks for the meetings whose items are `processing`, and its answers change that
very field.  An item is *tracked* from the moment it is `queued` or `processing` until its state is
final or it leaves the list; every tracked item should be asked for in every cycle
(`Screens.Followed`).

It is not: `queued` items are not asked for, an answer without a status code takes an item out of
the cycle (`dropped_by_answer`), and an id with a comma is taken apart.
`followed_iff` says that nothing else goes wrong.  A cycle that has started asks for all of its ids,
whatever else happens (`cycleAsks_of_run`).
-/

namespace FCord

/-! ### The ids of a cycle -/

theorem not_mem_of_mem_splitOn {α : Type*} [BEq α] [LawfulBEq α] {a : α} {xs l : List α}
    (h : l ∈ xs.splitOn a) : a ∉ l := by
  induction xs generalizing l with
  | nil =>
    rw [List.splitOn_nil, List.mem_singleton] at h
    simp [h]
  | cons x xs ih =>
    rw [List.splitOn_cons_eq_if_modifyHead] at h
    split_ifs at h with hx
    · rcases List.mem_cons.1 h with rfl | h
      · exact List.not_mem_nil
      · exact ih h
    · cases hs : xs.splitOn a with
      | nil => exact absurd hs (List.splitOn_ne_nil a xs)
      | cons l' ls =>
        rw [hs] at h ih
        rcases List.mem_cons.1 h with rfl | h
        · have hne : a ≠ x := fun he => hx (by simp [he])
          exact fun hm => (List.mem_cons.1 hm).elim hne (ih List.mem_cons_self)
        · exact ih (List.mem_cons_of_mem _ h)

/-- An id that a cycle of the poll can ask for: not empty and without a comma. -/
def PlainId (id : String) : Prop := id ≠ "" ∧ ',' ∉ id.toList

instance (id : String) : Decidable (PlainId id) := inferInstanceAs (Decidable (_ ∧ _))

theorem plainId_of_mem_pollIds {items : List ServerRecordingCache} {id : String}
    (h : id ∈ pollIds items) : PlainId id := by
  obtain ⟨hm, hne⟩ := List.mem_filter.1 h
  obtain ⟨l, hl, rfl⟩ := List.mem_map.1 hm
  refine ⟨by simpa using hne, ?_⟩
  rw [String.toList_ofList]
  exact not_mem_of_mem_splitOn hl

/-- Plain ids survive being joined and split. -/
theorem splitKey_joinIds {ids : List String} (h : ∀ id ∈ ids, PlainId id) (hne : ids ≠ []) :
    splitKey (joinIds ids) = ids := by
  unfold splitKey joinIds
  rw [String.toList_ofList, List.splitOn_intercalate]
  · simp [List.map_map, Function.comp_def]
  · intro l hl
    obtain ⟨id, hid, rfl⟩ := List.mem_map.1 hl
    exact (h id hid).2
  · simpa using hne

/-- If the items that are being converted have plain ids, a cycle asks for exactly these. -/
theorem mem_pollIds {items : List ServerRecordingCache}
    (h : ∀ item ∈ items, item.transcriptionState = .processing → PlainId item.id) {id : String} :
    id ∈ pollIds items ↔
      ∃ item ∈ items, item.transcriptionState = .processing ∧ item.id = id := by
  have hplain : ∀ id ∈ (items.filter fun i => i.transcriptionState = .processing).map
      ServerRecordingCache.id, PlainId id := by
    intro id hid
    obtain ⟨item, hm, rfl⟩ := List.mem_map.1 hid
    obtain ⟨hm, hst⟩ := List.mem_filter.1 hm
    exact h item hm (by simpa using hst)
  have hids : id ∈ pollIds items ↔ id ∈ (items.filter fun i =>
      i.transcriptionState = .processing).map ServerRecordingCache.id := by
    rw [pollIds, processingKey]
    by_cases hne : (items.filter fun i => i.transcriptionState = .processing).map
        ServerRecordingCache.id = []
    · rw [hne]
      exact iff_of_false (by simp [joinIds, splitKey]) List.not_mem_nil
    · rw [splitKey_joinIds hplain hne, List.mem_filter]
      exact and_iff_left_of_imp fun hm => by simpa using (hplain id hm).1
  rw [hids]
  simp [and_assoc]

/-! ### Tracking -/

/-- No further change is to be expected. -/
def TranscriptionState.final : TranscriptionState → Bool
  | .completed => true
  | .failed => true
  | .cancelled => true
  | _ => false

namespace Screens

/-- The states in which the list has a recording. -/
def statesOf (items : List ServerRecordingCache) (id : String) : List TranscriptionState :=
  (items.filter fun item => item.id = id).map ServerRecordingCache.transcriptionState

/-- Whether a recording is tracked, given its states in the list and whether it was tracked
before: it is once it is `queued` or `processing`, until its state is final or it has left. -/
def track (before : Bool) (states : List TranscriptionState) : Bool :=
  if states.any fun st => st = .queued ∨ st = .processing then true
  else if states = [] ∨ states.any TranscriptionState.final then false
  else before

/-- The tracked recordings of a state, given those of the state before. -/
def tracked (x : Screens × (String → Bool)) (id : String) : Bool :=
  track (x.2 id) (statesOf x.1.store.items id)

end Screens

open Screens in
/-- The screens, with the recordings that were tracked so far. -/
def following (getTime : String → ℕ) : LTS (Screens × (String → Bool)) ScreenLabel :=
  LTS.ofFn (fun x => (∃ now, x.1 = init now) ∧ x.2 = fun _ => false)
    (LTS.recorded (step getTime) fun before s _ => tracked (s, before))

namespace Screens

variable {getTime : String → ℕ} {x x' : Screens × (String → Bool)} {l : ScreenLabel}

/-- The states of these runs are states of the screens. -/
theorem reachable_of_following (h : (following getTime).Reachable x) :
    (recordingScreens getTime).Reachable x.1 :=
  h.of_recorded (fun _ hx => .start hx.1) fun _ _ _ hst => hst

/-- A cycle of the poll that starts now asks for every tracked recording. -/
def Followed (x : Screens × (String → Bool)) : Prop :=
  ∀ id, tracked x id = true → id ∈ pollIds x.1.store.items

/-- No conversion is requested (again) for a recording in the list, no poll answer for a tracked
recording lacks a status code, and a save has a plain id and does not put a tracked recording back
into the state before its conversion. -/
def Follows (x : Screens × (String → Bool)) : ScreenLabel → Prop
  | .answer p .ok => ∀ id, x.1.calls.get? p = some (.retryTranscription id) ∨
      x.1.calls.get? p = some (.requestTranscription id) →
        id ∉ x.1.store.items.map ServerRecordingCache.id
  | .answer p (.detail res) => ∀ id rest m, x.1.calls.get? p = some (.poll id rest) →
      res = some ⟨true, some m⟩ → m.statusCode = none ∨ m.statusCode = some "" →
        tracked x id = false
  | .answer p (.uploaded confId) => ∀ title elapsed items,
      x.1.calls.get? p = some (.upload title elapsed items) → PlainId confId ∧
        ∀ item ∈ items, item.transcriptionState = .notRequested → tracked x item.id = true →
          item.id = confId ∨
            ∃ item' ∈ items, item'.id = item.id ∧ item'.transcriptionState ≠ .notRequested
  | _ => True

/-- What the screens hold can be followed. -/
def Followable (s : Screens) : Prop :=
  ∀ item, Holds s item → item.transcriptionState ≠ .queued ∧
    (item.transcriptionState = .processing → PlainId item.id)

theorem mem_statesOf {items : List ServerRecordingCache} {id : String} {st : TranscriptionState} :
    st ∈ statesOf items id ↔ ∃ item ∈ items, item.id = id ∧ item.transcriptionState = st := by
  simp [statesOf, and_assoc]

theorem track_eq_true {before : Bool} {states : List TranscriptionState} :
    track before states = true ↔ (.queued ∈ states ∨ .processing ∈ states) ∨
      before = true ∧ states ≠ [] ∧ ∀ st ∈ states, st = .notRequested := by
  unfold track
  split_ifs with hactive hfinal
  · obtain ⟨st, hm, hst⟩ := List.any_eq_true.1 hactive
    rcases of_decide_eq_true hst with rfl | rfl
    · exact iff_of_true rfl (.inl (.inl hm))
    · exact iff_of_true rfl (.inl (.inr hm))
  · refine iff_of_false (by simp) ?_
    rintro (hm | ⟨-, hne, hall⟩)
    · exact hactive (List.any_eq_true.2 (hm.elim (fun h => ⟨_, h, rfl⟩) fun h => ⟨_, h, rfl⟩))
    · rcases hfinal with he | he
      · exact hne he
      · obtain ⟨st, hm, hst⟩ := List.any_eq_true.1 he
        rw [hall st hm] at hst
        cases hst
  · have hno : .queued ∉ states ∧ .processing ∉ states := by
      refine ⟨fun h => hactive ?_, fun h => hactive ?_⟩
      · exact List.any_eq_true.2 ⟨_, h, rfl⟩
      · exact List.any_eq_true.2 ⟨_, h, rfl⟩
    obtain ⟨hne, hfin⟩ := not_or.1 hfinal
    have hall : ∀ st ∈ states, st = .notRequested := by
      intro st hm
      cases st with
      | notRequested => rfl
      | queued => exact absurd hm hno.1
      | processing => exact absurd hm hno.2
      | _ => exact absurd (List.any_eq_true.2 ⟨_, hm, rfl⟩) hfin
    constructor
    · exact fun hb => .inr ⟨hb, hne, hall⟩
    · rintro (hm | ⟨hb, -⟩)
      · exact (hm.elim hno.1 hno.2).elim
      · exact hb

/-- A recording that the list has in the state before its conversion only. -/
def Dormant (items : List ServerRecordingCache) (id : String) : Prop :=
  (∃ item ∈ items, item.id = id) ∧
    ∀ item ∈ items, item.id = id → item.transcriptionState = .notRequested

theorem tracked_eq_true {id : String} :
    tracked x id = true ↔
      (∃ item ∈ x.1.store.items, item.id = id ∧
        (item.transcriptionState = .queued ∨ item.transcriptionState = .processing)) ∨
      x.2 id = true ∧ Dormant x.1.store.items id := by
  rw [tracked, track_eq_true]
  simp only [mem_statesOf, ne_eq, List.eq_nil_iff_forall_not_mem, not_forall, not_not]
  constructor
  · rintro ((⟨item, hm, hid, hst⟩ | ⟨item, hm, hid, hst⟩) | ⟨hb, ⟨st, item, hm, hid, -⟩, hall⟩)
    · exact .inl ⟨item, hm, hid, .inl hst⟩
    · exact .inl ⟨item, hm, hid, .inr hst⟩
    · exact .inr ⟨hb, ⟨item, hm, hid⟩, fun i hi hii => hall _ ⟨i, hi, hii, rfl⟩⟩
  · rintro (⟨item, hm, hid, hst | hst⟩ | ⟨hb, ⟨item, hm, hid⟩, hall⟩)
    · exact .inl (.inl ⟨item, hm, hid, hst⟩)
    · exact .inl (.inr ⟨item, hm, hid, hst⟩)
    · refine .inr ⟨hb, ⟨_, item, hm, hid, rfl⟩, ?_⟩
      rintro st ⟨i, hi, hii, rfl⟩
      exact hall i hi hii

/-! ### What one step does -/

theorem Followable.plain {s : Screens} (h : Followable s) : ∀ item ∈ s.store.items,
    item.transcriptionState = .processing → PlainId item.id :=
  fun item hm => (h item (.listed hm)).2

/-- Every tracked recording is asked for exactly if none has gone dormant. -/
theorem followed_iff_of_followable (h : Followable x.1) :
    Followed x ↔ ∀ id, Dormant x.1.store.items id → x.2 id = false := by
  unfold Followed
  refine forall_congr' fun id => ?_
  rw [tracked_eq_true, mem_pollIds h.plain]
  constructor
  · intro hf hd
    by_contra hb
    obtain ⟨item, hm, hst, hid⟩ := hf (.inr ⟨by simpa using hb, hd⟩)
    rw [hd.2 item hm hid] at hst
    cases hst
  · rintro hf (⟨item, hm, hid, hst⟩ | ⟨hb, hd⟩)
    · exact ⟨item, hm, hst.resolve_left (h item (.listed hm)).1, hid⟩
    · rw [hf hd] at hb
      cases hb

/-- A recording that is asked for is being converted, if no id that is being converted can be
taken apart. -/
theorem Followed.processing (h : Followed x) (hplain : ∀ item ∈ x.1.store.items,
    item.transcriptionState = .processing → PlainId item.id) {id : String}
    (ht : tracked x id = true) :
    ∃ item ∈ x.1.store.items, item.transcriptionState = .processing ∧ item.id = id :=
  (mem_pollIds hplain).1 (h id ht)

/-- The items of a step that meets the condition can be followed. -/
theorem followable_items {s : Screens} {before : String → Bool} {item : ServerRecordingCache}
    (h : Followable s) (hok : Follows (s, before) l) (hfrom : ItemFrom getTime s l item) :
    item.transcriptionState ≠ .queued ∧
      (item.transcriptionState = .processing → PlainId item.id) := by
  cases hfrom with
  | kept hold => exact h item (.listed hold)
  | @starred old hold =>
    have hlisted := h old (.listed hold)
    exact hlisted
  | listed hp hm => simp [toCache]
  | @polled p rest res detail old hold hp hd hne =>
    obtain ⟨m, -, hstate⟩ := state_of_getMeetingDetail hd
    refine ⟨?_, fun he => absurd he hne⟩
    simp only [RecordingPatch.apply, Option.getD_some, hstate]
    rcases mapStatusCode_cases m.statusCode with he | he | he | he <;> simp [he]
  | patched hold hpatch =>
    simpa only [RecordingPatch.apply, hpatch, Option.getD_none] using h _ (.listed hold)
  | queued hold hp hcall =>
    -- the recording has left the list
    refine absurd (List.mem_map_of_mem hold) (hok _ ?_)
    rcases hcall with rfl | rfl
    · exact .inl hp
    · exact .inr hp
  | restored hp => exact h item (.deleted hp)
  | captured hp hm => exact h item (.captured hp hm)
  | saved hp => exact ⟨by simp [savedItem], fun _ => (hok _ _ _ hp).1⟩

/-- The recordings that are tracked before a step that meets the condition do not go dormant. -/
theorem not_dormant {s : Screens} {before : String → Bool} {items : List ServerRecordingCache}
    (hs : Followable s) (h : Followed (s, before)) (hok : Follows (s, before) l)
    (hmove : ItemMove getTime s l items) {id : String} (ht : tracked (s, before) id = true) :
    ¬ Dormant items id := by
  intro hd
  obtain ⟨y, hy, hst, rfl⟩ := h.processing hs.plain ht
  have hkept : ∀ item ∈ items, item.id = y.id → item.transcriptionState ≠ .processing := by
    intro item hm hid he
    rw [hd.2 item hm hid] at he
    cases he
  cases hmove with
  | quiet hl => exact hkept y hy rfl hst
  | toggleStar hid =>
    refine hkept _ (List.mem_map_of_mem hy) ?_ ?_
    · split_ifs <;> rfl
    · split_ifs <;> exact hst
  | delete id hl =>
    obtain ⟨item, hm, hid⟩ := hd.1
    have hne : y.id ≠ id := hid ▸ (Keyed.mem_remove.1 hm).2
    exact hkept y (Keyed.mem_remove.2 ⟨hy, hne⟩) rfl hst
  | refresh hp =>
    obtain ⟨item, hm, hid⟩ := hd.1
    have hdone := hd.2 item hm hid
    obtain ⟨m, -, rfl⟩ := List.mem_map.1 hm
    cases hdone
  | page hp => exact hkept y (Keyed.mem_appendFresh.2 (.inl hy)) rfl hst
  | @polled p id rest res detail hp hdetail hne =>
    obtain ⟨m, hres, hstate⟩ := state_of_getMeetingDetail hdetail
    by_cases hid : y.id = id
    · -- the answer has no status code
      have hcode := hd.2 _ (Keyed.mem_update.2 (.inl ⟨y, hy, hid, rfl⟩)) rfl
      rw [RecordingPatch.apply, Option.getD_some, hstate] at hcode
      have hnot := hok id rest m hp hres (mapStatusCode_eq_notRequested.1 hcode)
      rw [hid, hnot] at ht
      cases ht
    · exact hkept y (Keyed.mem_update.2 (.inr ⟨hy, hid⟩)) rfl hst
  | pollKept hp hd => exact hkept y hy rfl hst
  | restored hp => exact hkept y (List.mem_cons_of_mem _ hy) rfl hst
  | patched hp hcall hpatch =>
    refine hkept _ (List.mem_map_of_mem hy) ?_ ?_
    · split_ifs
      · simp [RecordingPatch.apply, hpatch]
      · rfl
    · split_ifs
      · simpa only [RecordingPatch.apply, hpatch, Option.getD_none] using hst
      · exact hst
  | @queued p call id hp hcall =>
    have hid : id ∉ s.store.items.map ServerRecordingCache.id := by
      refine hok id ?_
      rcases hcall with rfl | rfl
      · exact .inl hp
      · exact .inr hp
    have hne : y.id ≠ id := fun he => hid (List.mem_map.2 ⟨y, hy, he⟩)
    exact hkept y (Keyed.mem_update.2 (.inr ⟨hy, hne⟩)) rfl hst
  | @saved p title elapsed captured confId hp =>
    obtain ⟨item, hm, hid⟩ := hd.1
    have hne : y.id ≠ confId := fun he => hkept _ List.mem_cons_self he.symm rfl
    rcases List.mem_cons.1 hm with rfl | hm
    · exact hne hid.symm
    · obtain he | ⟨item', hm', hid', hne'⟩ := (hok _ _ _ hp).2 item hm
        (hd.2 item (List.mem_cons_of_mem _ hm) hid) (hid ▸ ht)
      · exact hne (hid ▸ he)
      · exact hne' (hd.2 item' (List.mem_cons_of_mem _ hm') (hid' ▸ hid))
  | settled hp ha => exact hkept y hy rfl hst

/-- A step that meets the condition keeps every conversion in the cycle. -/
theorem followed_of_follows (hx : Followable x.1 ∧ Followed x)
    (hst : (following getTime).step x l x') (hok : Follows x l) :
    Followable x'.1 ∧ Followed x' := by
  obtain ⟨s, before⟩ := x
  obtain ⟨s', hs', rfl⟩ := Option.map_eq_some_iff.1 hst
  have hmove := ItemMove.of_step hs'
  have hfollowable : Followable s' := by
    intro item hi
    rcases Holds.of_step hs' hi with hm | hi
    · exact followable_items hx.1 hok (hmove.itemFrom hm)
    · exact hx.1 item hi
  refine ⟨hfollowable, (followed_iff_of_followable hfollowable).2 fun id hd => ?_⟩
  by_contra ht
  exact not_dormant hx.1 hx.2 hok hmove (by simpa using ht) hd

/-- In a state where every conversion is in the cycle, no recording is tracked that the list has
in other states only. -/
theorem Followed.not_tracked (h : Followed x) (hplain : ∀ item ∈ x.1.store.items,
    item.transcriptionState = .processing → PlainId item.id) {id : String}
    (hid : ∀ item ∈ x.1.store.items, item.id = id → item.transcriptionState ≠ .processing) :
    tracked x id = false := by
  by_contra ht
  obtain ⟨item, hm, hst, he⟩ := h.processing hplain (by simpa using ht)
  exact hid item hm he hst

/-- Writing another state than `processing` into a tracked recording of the list takes it out of
the cycle, unless it is not tracked any more. -/
theorem not_tracked_updateItem {s' : Screens} {before : String → Bool} {store : RecordingListStore}
    {id : String} {st : TranscriptionState} (h : Followed (s', before))
    (hlisted : ∀ item ∈ store.items, item.transcriptionState = .processing → PlainId item.id)
    (hst : st ≠ .processing)
    (hs' : s'.store = store.updateItem id { transcriptionState := some st }) :
    tracked (s', before) id = false := by
  refine h.not_tracked (fun item hm hproc => ?_) fun item hm he hproc => ?_
  · rw [hs'] at hm
    obtain ⟨old, -, -, rfl⟩ | ⟨hm, -⟩ := Keyed.mem_update.1 hm
    · exact absurd hproc hst
    · exact hlisted item hm hproc
  · rw [hs'] at hm
    obtain ⟨old, -, -, rfl⟩ | ⟨-, hne⟩ := Keyed.mem_update.1 hm
    · exact hst hproc
    · exact hne he

section Break

variable {s s' : Screens} {before : String → Bool} {p : ℕ}

/-- Had the recording been in the list, its item would be `queued` now. -/
theorem not_listed_of_queued (hs : Followable s) (hst : step getTime s (.answer p .ok) = some s')
    (h : Followed (s', tracked (s, before))) {id : String}
    (hp : s.calls.get? p = some (.retryTranscription id) ∨
      s.calls.get? p = some (.requestTranscription id)) :
    id ∉ s.store.items.map ServerRecordingCache.id := by
  intro hid
  have hstore : s'.store = s.store.updateItem id { transcriptionState := some .queued } := by
    rcases hp with hp | hp
    · exact (Option.some.inj (onAnswer_of_step hp hst)).symm
    · exact (Option.some.inj (onAnswer_of_step hp hst)).symm
  obtain ⟨old, hold, he⟩ := List.mem_map.1 hid
  have hm : RecordingPatch.apply { transcriptionState := some .queued } old ∈ s'.store.items := by
    rw [hstore]
    exact Keyed.mem_update.2 (.inl ⟨old, hold, he, rfl⟩)
  have ht : tracked (s', tracked (s, before)) id = true :=
    tracked_eq_true.2 (.inl ⟨_, hm, he, .inl rfl⟩)
  rw [not_tracked_updateItem h hs.plain (by simp) hstore] at ht
  cases ht

/-- Had the recording been tracked, it would be dormant now. -/
theorem not_tracked_of_answer (hs : Followable s) (hf : Followed (s, before))
    {res : Option MeetingResponse} (hst : step getTime s (.answer p (.detail res)) = some s')
    (h : Followed (s', tracked (s, before))) {id : String} {rest : List String}
    {m : FaicordMeetingDetail} (hp : s.calls.get? p = some (.poll id rest))
    (hres : res = some ⟨true, some m⟩) (hcode : m.statusCode = none ∨ m.statusCode = some "") :
    tracked (s, before) id = false := by
  by_contra hb
  obtain ⟨y, hy, -, hid⟩ := hf.processing hs.plain (by simpa using hb)
  have hstore : s'.store =
      s.store.updateItem id { transcriptionState := some .notRequested } := by
    have hans := onAnswer_of_step hp hst
    simp only [onAnswer, pollAnswer, hres, getMeetingDetail,
      mapStatusCode_eq_notRequested.2 hcode] at hans
    exact (Option.some.inj hans).symm
  have hd : Dormant s'.store.items id := by
    rw [hstore]
    refine ⟨⟨_, Keyed.mem_update.2 (.inl ⟨y, hy, hid, rfl⟩), hid⟩, fun item hm he => ?_⟩
    obtain ⟨old, -, -, rfl⟩ | ⟨-, hne⟩ := Keyed.mem_update.1 hm
    · rfl
    · exact absurd he hne
  have ht : tracked (s', tracked (s, before)) id = true :=
    tracked_eq_true.2 (.inr ⟨by simpa using hb, hd⟩)
  rw [not_tracked_updateItem h hs.plain (by simp) hstore] at ht
  cases ht

/-- The saved recording is asked for, and so are the tracked ones of the list that it was rendered
with. -/
theorem saved_of_followed (hs : Followable s) {confId : String}
    (hst : step getTime s (.answer p (.uploaded confId)) = some s')
    (h : Followed (s', tracked (s, before))) {title : String} {elapsed : ℕ}
    {items : List ServerRecordingCache}
    (hp : s.calls.get? p = some (.upload title elapsed items)) :
    PlainId confId ∧ ∀ item ∈ items, item.transcriptionState = .notRequested →
      tracked (s, before) item.id = true → item.id = confId ∨
        ∃ item' ∈ items, item'.id = item.id ∧ item'.transcriptionState ≠ .notRequested := by
  have hitems : s'.store.items = s.savedItem confId title elapsed :: items :=
    congrArg RecordingListStore.items (Option.some.inj (onAnswer_of_step hp hst)).symm
  have hnew : s.savedItem confId title elapsed ∈ s'.store.items := hitems ▸ List.mem_cons_self
  have hid : PlainId confId := plainId_of_mem_pollIds <| h confId <|
    tracked_eq_true.2 (.inl ⟨_, hnew, rfl, .inr rfl⟩)
  refine ⟨hid, fun item hm hitem ht => ?_⟩
  by_contra hno
  obtain ⟨hne, hall⟩ := not_or.1 hno
  have hothers : ∀ item' ∈ s'.store.items, item'.id = item.id →
      item'.transcriptionState = .notRequested := by
    rw [hitems]
    intro item' hm' he
    rcases List.mem_cons.1 hm' with rfl | hm'
    · exact absurd he.symm hne
    · by_contra hst'
      exact hall ⟨item', hm', he, hst'⟩
  have hd : Dormant s'.store.items item.id :=
    ⟨⟨item, hitems ▸ List.mem_cons_of_mem _ hm, rfl⟩, hothers⟩
  have hplain : ∀ item ∈ s'.store.items, item.transcriptionState = .processing →
      PlainId item.id := by
    rw [hitems]
    intro item' hm' hproc
    rcases List.mem_cons.1 hm' with rfl | hm'
    · exact hid
    · exact (hs item' (.captured hp hm')).2 hproc
  have hb : tracked (s', tracked (s, before)) item.id = false :=
    h.not_tracked hplain fun item' hm' he hproc => by
      rw [hothers item' hm' he] at hproc
      cases hproc
  rw [tracked_eq_true.2 (.inr ⟨ht, hd⟩)] at hb
  cases hb

end Break

/-- A step that breaks the condition takes a conversion out of the cycle. -/
theorem follows_of_followed (hx : Followable x.1 ∧ Followed x)
    (hst : (following getTime).step x l x') (h : Followed x') : Follows x l := by
  obtain ⟨s, before⟩ := x
  obtain ⟨s', hs', rfl⟩ := Option.map_eq_some_iff.1 hst
  obtain ⟨hs, hf⟩ := hx
  cases l with
  | answer p a =>
    cases a with
    | ok => exact fun id hp => not_listed_of_queued hs hs' h hp
    | detail res => exact fun id rest m hp hres hcode =>
        not_tracked_of_answer hs hf hs' h hp hres hcode
    | uploaded confId => exact fun title elapsed items hp => saved_of_followed hs hs' h hp
    | list raw => trivial
    | error => trivial
  | _ => trivial

/-! ### A cycle -/

/-- The ids that the cycle `p` has asked for, and been answered, in order. -/
def answeredIds (p : ℕ) (tr : List (Screens × ScreenLabel)) : List String :=
  tr.filterMap fun e => match e.2, e.1.calls.get? p with
    | .answer q _, some (.poll id _) => if q = p then some id else none
    | _, _ => none

/-- The cycle `p` asks for these ids, one after the other: for each in turn, until it has asked for
the last one. -/
inductive CycleAsks (p : ℕ) (ids : List String) (tr : List (Screens × ScreenLabel))
    (s : Screens) : Prop
  | asking {id : String} {rest : List String} (hp : s.calls.get? p = some (.poll id rest))
      (h : answeredIds p tr ++ id :: rest = ids)
  | ended (hp : s.calls.get? p = none) (h : answeredIds p tr = ids)

section Cycle

variable {s s' : Screens} {p : ℕ} {ids : List String} {tr : List (Screens × ScreenLabel)}

theorem answeredIds_append :
    answeredIds p (tr ++ [(s, l)]) = answeredIds p tr ++ answeredIds p [(s, l)] := by
  simp [answeredIds]

theorem answeredIds_of_not_answer (hl : l.isAnswer = false) : answeredIds p [(s, l)] = [] := by
  cases l with
  | answer q a => cases hl
  | _ => rfl

theorem answeredIds_of_ne {q : ℕ} {a : Answer} (hq : q ≠ p) :
    answeredIds p [(s, .answer q a)] = [] := by
  cases hp : s.calls.get? p with
  | none => simp [answeredIds, hp]
  | some call => cases call <;> simp [answeredIds, hp, hq]

theorem answeredIds_self {id : String} {rest : List String} {a : Answer}
    (hp : s.calls.get? p = some (.poll id rest)) :
    answeredIds p [(s, .answer p a)] = [id] := by
  simp [answeredIds, hp]

theorem get?_goOn_of_ne {q : ℕ} {call : Call} (hq : p ≠ q) :
    (s.goOn q call).calls.get? p = s.calls.get? p := by
  have herase : (s.calls.erase q).get? p = s.calls.get? p := Table.get?_erase.trans (if_neg hq)
  cases call with
  | poll id rest =>
    cases rest with
    | nil => exact herase
    | cons id' rest => exact Table.get?_set_of_ne hq
  | _ => exact herase

/-- What happens elsewhere does not change what the cycle asks for. -/
theorem CycleAsks.of_same (h : CycleAsks p ids tr s) (hcalls : s'.calls.get? p = s.calls.get? p)
    (hl : answeredIds p [(s, l)] = []) : CycleAsks p ids (tr ++ [(s, l)]) s' := by
  have htr : answeredIds p (tr ++ [(s, l)]) = answeredIds p tr := by
    rw [answeredIds_append, hl, List.append_nil]
  cases h with
  | asking hp h => exact .asking (hcalls.trans hp) (htr ▸ h)
  | ended hp h => exact .ended (hcalls.trans hp) (htr.trans h)

/-- Only an answer to the cycle makes it ask for the next id. -/
theorem CycleAsks.step (h : CycleAsks p ids tr s) (hids : ∀ q ∈ s.calls.keys, q < s.nextPid)
    (hp : p < s.nextPid) (hst : Screens.step getTime s l = some s') :
    CycleAsks p ids (tr ++ [(s, l)]) s' ∧ p < s'.nextPid := by
  cases CallMove.of_step hst with
  | same hl hcalls hnext htarget =>
    exact ⟨h.of_same (by rw [hcalls]) (answeredIds_of_not_answer hl), hnext ▸ hp⟩
  | begun call hl hcalls hnext hnew htarget =>
    have hpush : (s.await call).calls.get? p = s.calls.get? p :=
      (Table.get?_push (Table.not_mem_of_lt hids)).trans (if_neg hp.ne)
    exact ⟨h.of_same (by rw [hcalls, hpush]) (answeredIds_of_not_answer hl), by omega⟩
  | @wentOn q call a hl hq hcalls hnext htarget =>
    subst hl
    refine ⟨?_, hnext ▸ hp⟩
    by_cases hqp : p = q
    · subst hqp
      cases h with
      | ended hp h => cases hq.symm.trans hp
      | @asking id rest hp h =>
        cases hq.symm.trans hp
        have htr : answeredIds p (tr ++ [(s, .answer p a)]) = answeredIds p tr ++ [id] := by
          rw [answeredIds_append, answeredIds_self hp]
        cases rest with
        | nil =>
          exact .ended (by rw [hcalls]; exact Table.get?_erase.trans (if_pos rfl)) (htr.trans h)
        | cons id' rest =>
          refine .asking (by rw [hcalls]; exact Table.get?_set_self hp) ?_
          rw [htr, List.append_assoc]
          exact h
    · exact h.of_same (by rw [hcalls, get?_goOn_of_ne hqp]) (answeredIds_of_ne (Ne.symm hqp))

/-- **A cycle asks for all of its ids.** -/
theorem cycleAsks_of_run {y : Screens} (hy : (recordingScreens getTime).Reachable y)
    (h : ((recordingScreens getTime).after y).Run tr s) (hp : p < y.nextPid)
    (h₀ : CycleAsks p ids [] y) : CycleAsks p ids tr s := by
  have hinv : CycleAsks p ids tr s ∧ p < s.nextPid := by
    induction h with
    | start hs => exact hs ▸ ⟨h₀, hp⟩
    | step hrun hst ih =>
      have hids := (Refreshing.of_reachable (.of_after hy hrun.reachable)).ids
      exact ih.1.step hids ih.2 hst
  exact hinv.1

end Cycle

/-! ### Runs -/

/-- The timer of the poll runs while some id is asked for. -/
theorem step_poll (getTime : String → ℕ) {s : Screens} {id : String}
    (h : id ∈ pollIds s.store.items) :
    ∃ first rest, pollIds s.store.items = first :: rest ∧
      step getTime s .poll = some (s.await (.poll first rest)) := by
  have hkey : processingKey s.store.items ≠ "" := by
    intro he
    rw [pollIds, he] at h
    simp [splitKey] at h
  cases hids : pollIds s.store.items with
  | nil =>
    rw [hids] at h
    cases h
  | cons first rest => exact ⟨first, rest, rfl, by simp only [step, if_neg hkey, hids]⟩

/-- **When the poll follows every conversion to its end.**  All along a run every cycle of the poll
that starts asks for every tracked recording exactly if all steps of the run meet the condition.
Such a cycle asks for its ids one after the other, and whatever happens meanwhile, it is not over
before it has asked for all of them. -/
theorem followed_iff {tr : List ((Screens × (String → Bool)) × ScreenLabel)}
    (h : (following getTime).Run tr x) :
    (((∀ y ∈ tr, Followed y.1) ∧ Followed x) ↔ ∀ y ∈ tr, Follows y.1 y.2) ∧
    ((∀ y ∈ tr, Follows y.1 y.2) → ∀ id, tracked x id = true →
      ∃ y ids, step getTime x.1 .poll = some y ∧ id ∈ ids ∧
        ∀ tr' z, ((recordingScreens getTime).after y).Run tr' z →
          CycleAsks x.1.nextPid ids tr' z) := by
  have hiff : ((∀ y ∈ tr, Followed y.1) ∧ Followed x) ↔ ∀ y ∈ tr, Follows y.1 y.2 := by
    refine h.visited_iff (I := fun x => Followable x.1 ∧ Followed x) (P := Followed) ?_
      (fun _ h => h.2) (fun _ _ _ => followed_of_follows) (fun _ _ _ => follows_of_followed)
    rintro ⟨s, before⟩ ⟨⟨now, rfl⟩, rfl⟩
    refine ⟨fun item hi => absurd hi (not_holds_init now item), fun id ht => ?_⟩
    rcases tracked_eq_true.1 ht with ⟨item, hm, -⟩ | ⟨hb, -⟩
    · cases hm
    · cases hb
  refine ⟨hiff, fun hok id ht => ?_⟩
  have hid := (hiff.2 hok).2 id ht
  obtain ⟨first, rest, hids, hstep⟩ := step_poll getTime hid
  have hx := reachable_of_following h.reachable
  have hfresh := Table.not_mem_of_lt (Refreshing.of_reachable hx).ids
  have hstarts : (x.1.await (.poll first rest)).calls.get? x.1.nextPid = some (.poll first rest) :=
    (Table.get?_push hfresh).trans (if_pos rfl)
  exact ⟨_, first :: rest, hstep, hids ▸ hid, fun tr' z hrun =>
    cycleAsks_of_run (hx.step hstep) hrun (Nat.lt_succ_self _) (.asking hstarts rfl)⟩

/-- A recording is saved, a cycle of the poll asks for it, and it is still being converted. -/
def saveAndPoll (statusCode : Option String) : List ScreenLabel :=
  [.onSave "Standup" 60, .answer 0 (.uploaded "a"), .poll,
    .answer 1 (.detail (some ⟨true, some (meetingDetail "a" statusCode)⟩))]

theorem followed_iff_saveAndPoll :
    ∃ tr x, (following epoch).Run tr x ∧ tr.map Prod.snd = saveAndPoll (some "100") ∧
      tracked x "a" = true ∧
      (((∀ y ∈ tr, Followed y.1) ∧ Followed x) ↔ ∀ y ∈ tr, Follows y.1 y.2) := by
  have hrun : (LTS.exec (LTS.recorded (step epoch) fun before s _ => tracked (s, before))
      (init 0, fun _ => false) (saveAndPoll (some "100"))).map (fun x => tracked x "a") =
      some true := by decide +kernel
  obtain ⟨x, hx, ht⟩ := Option.map_eq_some_iff.1 hrun
  obtain ⟨tr, htr, hls⟩ := LTS.run_of_exec
    (LTS.Run.start (A := following epoch) ⟨⟨0, rfl⟩, rfl⟩) hx
  exact ⟨tr, x, htr, hls, ht, (followed_iff htr).1⟩

/-- An answer without a status code takes a conversion out of the cycle. -/
theorem dropped_by_answer : ¬ ∀ getTime tr x, (following getTime).Run tr x → Followed x := by
  intro h
  have hrun : (LTS.exec (LTS.recorded (step epoch) fun before s _ => tracked (s, before))
      (init 0, fun _ => false) (saveAndPoll none)).map (fun x =>
        (tracked x "a", decide ("a" ∈ pollIds x.1.store.items))) = some (true, false) := by
    decide +kernel
  obtain ⟨x, hx, he⟩ := Option.map_eq_some_iff.1 hrun
  obtain ⟨tr, htr, -⟩ := LTS.run_of_exec
    (LTS.Run.start (A := following epoch) ⟨⟨0, rfl⟩, rfl⟩) hx
  simp only [Prod.mk.injEq, decide_eq_false_iff_not] at he
  exact he.2 (h epoch tr x htr "a" he.1)

end Screens

end FCord
