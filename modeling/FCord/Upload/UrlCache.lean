import FCord.Upload.Attempts
import FCord.Upload.Evidence
import FCord.Upload.Rows

/-!
# The presigned URLs in memory

A presigned URL is kept under its session until the row of the session is `done`.  An entry is *in
use* (`InUse`) while the session is stored in a row that is not `done`, while a task waits for the
write that stores it, and while `_handleCompleting` is about to clear it.  A session that is
replaced because its URL has expired, and one that could not be stored, is nobody's any more:
nothing clears its URL (`url_outlives_row`).  Exactly in the runs in which no step forgets a session
with a URL, all URLs are in use, and none outlives its row (`cached_urls_in_use_iff`).
-/

namespace FCord

namespace UploadService

/-- A running `_handleCompleting` has made the row `done` and is about to clear its URL. -/
def Clearing (s : State) (row : RowId) : Prop :=
  ∃ conflict serverId,
    (∃ p, (view s row).task = some (p, .handling (.writingDone conflict serverId .resolved))) ∨
      ∃ p rest,
        s.drains.get? p = some (.handling row (.writingDone conflict serverId .resolved) rest)

/-- What the URL of a session is kept for. -/
inductive InUse (s : State) (row : RowId) (sessionId : String) : Prop
  /-- The session is stored in the row, which is not `done`. -/
  | stored {item : UploadQueueItem} (hitem : s.rows.get? row = some item)
      (hsession : item.uploadSessionId = some sessionId) (hst : item.status ≠ .done)
  /-- The task of the row waits for the write that stores it. -/
  | storing {p : Pid} {recording : LocalRecording} {url : String}
      (htask : (view s row).task = some (p, .writing recording (.session sessionId url) .pending))
  | clearing {item : UploadQueueItem} (hitem : s.rows.get? row = some item)
      (hsession : item.uploadSessionId = some sessionId) (h : Clearing s row)

/-- All URLs in the cache are in use. -/
def UrlsInUse (s : State) : Prop :=
  ∀ sessionId, s.store.presignedUrlCache sessionId ≠ none → ∃ row, InUse s row sessionId

/-- The session that a step makes a row forget: it replaces the one that is stored, or the new one
cannot be stored. -/
def forgotten (s : State) : Label → Option (RowId × String)
  | .commit _ =>
    match s.writer with
    | ⟨_, .update row (.session sessionId)⟩ :: _ =>
      ((sessionOf s.rows row).filter (· ≠ sessionId)).map fun old => (row, old)
    | _ => none
  | .reject =>
    match s.writer with
    | ⟨_, .update row (.session sessionId)⟩ :: _ =>
      if sessionOf s.rows row = some sessionId then none else some (row, sessionId)
    | _ => none
  | _ => none

/-- The session that a row forgets has no URL in the cache, or another row uses it. -/
def ForgetsNoUrl (s : State) (l : Label) : Prop :=
  ∀ row sessionId, forgotten s l = some (row, sessionId) →
    s.store.presignedUrlCache sessionId ≠ none → ∃ r, r ≠ row ∧ InUse s r sessionId

/-- No `_processItem` and no `_handleCompleting` is running. -/
structure Quiet (s : State) : Prop where
  tasks : ∀ p t, s.tasks.get? p = some t → t.pc = .finishing
  drains : ∀ p row pc rest, s.drains.get? p ≠ some (.handling row pc rest)

section Steps

variable {s s' : State} {l : Label} {row : RowId} {sessionId : String}

theorem forgotten_commit {newId : RowId} {owner : Option Owner} {jobs : List Job} {new : String}
    (hw : s.writer = ⟨owner, .update row (.session new)⟩ :: jobs)
    (hold : sessionOf s.rows row = some sessionId) (hne : sessionId ≠ new) :
    forgotten s (.commit newId) = some (row, sessionId) := by
  simp [forgotten, hw, hold, Option.filter_some, hne]

theorem forgotten_reject {owner : Option Owner} {jobs : List Job}
    (hw : s.writer = ⟨owner, .update row (.session sessionId)⟩ :: jobs)
    (hold : sessionOf s.rows row ≠ some sessionId) :
    forgotten s .reject = some (row, sessionId) := by
  simp [forgotten, hw, hold]

/-! ### The cache -/

/-- What a turn does to the store. -/
theorem store_of_turn {p : Pid} {t : Task} {item : UploadQueueItem} {pc : TaskPc}
    {effects : List Effect} (hst : step s l = some s') (hp : s.tasks.get? p = some t)
    (hrow : s.rows.get? t.row = some item) (h : TurnBy s p t item l pc effects)
    (hpc : t.pc ≠ .finishing) : s'.store = effects.foldl onStore s.store := by
  cases h with
  | resumed h =>
    simp only [step, resume, hp, Option.bind_some] at hst
    unfold State.resumeTask at hst
    split at hst
    · rename_i he
      exact absurd he hpc
    · simp only [hrow, Option.bind_eq_bind, Option.bind_some, h, Option.some.injEq] at hst
      rw [← hst]
      rfl
  | event h =>
    simp only [step, hp, Option.bind_some, State.native, h, Option.bind_eq_bind,
      Option.some.injEq] at hst
    rw [← hst]
    rfl

/-- The turn after the `done` write clears the URL. -/
theorem effects_of_handleCompleting {who : Owner} {item : UploadQueueItem} {consent : ConsentEntry}
    {conflict : Bool} {serverId : String} {o : Outcome} {next : HandlerNext} {effects : List Effect}
    (h : handleCompleting who row item consent (.writingDone conflict serverId .resolved) o =
      some (next, effects)) :
    effects = [.clearPresignedUrl (propertyKey item.uploadSessionId)] := by
  cases o with
  | ok =>
    cases h
    rfl
  | _ => cases h

/-- Clearing, and the effects that do not concern URLs, add no URL. -/
theorem cache_of_foldl {effects : List Effect} {store : UploadQueueStore}
    (hset : ∀ sid cache, .setPresignedUrl sid cache ∉ effects)
    (h : (effects.foldl onStore store).presignedUrlCache sessionId ≠ none) :
    store.presignedUrlCache sessionId ≠ none := by
  induction effects generalizing store with
  | nil => exact h
  | cons e effects ih =>
    have hrest := ih (fun sid cache hm => hset sid cache (List.mem_cons_of_mem _ hm)) h
    cases e with
    | setPresignedUrl sid cache => exact absurd List.mem_cons_self (hset sid cache)
    | clearPresignedUrl sid =>
      simp only [onStore, UploadQueueStore.clearPresignedUrl, Function.update_apply] at hrest
      split_ifs at hrest
      · exact absurd rfl hrest
      · exact hrest
    | _ => exact hrest

/-- A turn that adds a URL stores its session, or has it stored. -/
theorem TaskTurn.cache_cases {who : Owner} {item : UploadQueueItem} {now : ℕ}
    {store store' : UploadQueueStore} {consent : ConsentEntry} {pc pc' : TaskPc}
    {effects : List Effect} (h : TaskTurn who row item now store consent pc pc' effects)
    (hcache : (effects.foldl onStore store').presignedUrlCache sessionId ≠ none) :
    store'.presignedUrlCache sessionId ≠ none ∨
    (∃ recording, pc = .presigning recording (some sessionId)) ∨
    ∃ recording url, pc' = .writing recording (.session sessionId url) .pending := by
  cases h with
  | @reissued recording sid url expiresAt =>
    by_cases hs : sessionId = sid
    · subst hs
      exact .inr (.inl ⟨recording, rfl⟩)
    · exact .inl (by simpa [onStore, UploadQueueStore.setPresignedUrl, hs] using hcache)
  | @issued recording old sid url expiresAt =>
    by_cases hs : sessionId = sid
    · subst hs
      exact .inr (.inr ⟨recording, url, rfl⟩)
    · exact .inl (by simpa [onStore, UploadQueueStore.setPresignedUrl, hs] using hcache)
  | handler hh =>
    refine .inl (cache_of_foldl (fun sid cache hm => ?_) hcache)
    cases hh <;> simp at hm
  | _ => exact .inl (cache_of_foldl (by simp) hcache)

theorem State.cache_processQueue (s : State) :
    s.processQueue.store.presignedUrlCache = s.store.presignedUrlCache := by
  unfold State.processQueue
  split_ifs <;> rfl

theorem State.cache_kill (s : State) (sid : String) :
    s.kill.store.presignedUrlCache sid = none := by
  rw [State.kill, State.initQueue, State.cache_processQueue]
  rfl

/-- **A URL that is added is in use.** -/
theorem cache_of_step (hr : uploadService.Reachable s) (hst : step s l = some s')
    (hcache : s'.store.presignedUrlCache sessionId ≠ none) :
    s.store.presignedUrlCache sessionId ≠ none ∨ ∃ row, InUse s' row sessionId := by
  have hs := Slots.of_reachable hr
  have hs' : Slots s' := hs.move (.of_step hst)
  cases Move.of_step hst with
  | @task l p t pc effects hp ht hl =>
    obtain ⟨item, hrow, -⟩ := hs.taskRows p t hp
    rcases (ht item hrow).cache_cases hcache with hold | ⟨recording, hpc⟩ | ⟨recording, url, rfl⟩
    · exact .inl hold
    · -- the session is stored already
      have hfits := (Ownership.of_reachable hr).tasks p t _ hp (statusOf_of_get? hrow)
      have hev := (Evidence.of_reachable hr).tasks p t hp
      rw [hpc] at hfits hev
      have hsession : sessionOf s.rows t.row = some sessionId := hev.symm
      simp only [sessionOf, hrow, Option.bind_some] at hsession
      refine .inr ⟨t.row, .stored hrow hsession ?_⟩
      rcases hfits with he | he <;> simp [he]
    · have hp' := Table.get?_set_self (v := { t with
        pc := .writing recording (.session sessionId url) .pending }) hp
      exact .inr ⟨t.row, .storing (congrArg RowView.task (view_of_task hs' hp'))⟩
  | handler hp hrow ht ho =>
    refine .inl (cache_of_foldl (fun sid cache hm => ?_) hcache)
    cases ht <;> simp at hm
  | wake listening =>
    rw [State.cache_processQueue] at hcache
    exact .inl hcache
  | wakeCall hp hpc =>
    rw [State.cache_processQueue] at hcache
    exact .inl hcache
  | finish hp hpc =>
    rw [State.finishTask, State.cache_processQueue] at hcache
    exact .inl hcache
  | kill => exact absurd (s.cache_kill sessionId) hcache
  | commit hw hnew =>
    rw [State.settle_store] at hcache
    exact .inl hcache
  | reject hw =>
    rw [State.settle_store] at hcache
    exact .inl hcache
  | _ => exact .inl hcache

/-! ### The running handlers -/

/-- A drain that is about to clear a URL waits, or it clears it. -/
theorem drain_clearing (hs : Slots s) (hst : step s l = some s') {p : Pid} {conflict : Bool}
    {serverId : String} {rest : List RowId}
    (hp : s.drains.get? p = some (.handling row (.writingDone conflict serverId .resolved) rest)) :
    s'.drains.get? p = some (.handling row (.writingDone conflict serverId .resolved) rest) ∨
      l = .kill ∨ ∃ item, s.rows.get? row = some item ∧
        s'.store = s.store.clearPresignedUrl (propertyKey item.uploadSessionId) := by
  have hpush : ∀ {t : State}, t.drains = s.drains → t.nextPid = s.nextPid →
      t.processQueue.drains.get? p = some (.handling row (.writingDone conflict serverId .resolved)
        rest) := by
    intro t ht hnext
    unfold State.processQueue
    split_ifs
    · rw [ht, hp]
    · have hfresh := hs.nextPid_fresh_drain
      rw [← ht, ← hnext] at hfresh
      have hne : p ≠ t.nextPid := by
        rintro rfl
        exact hfresh (Table.mem_keys_of_get? (ht ▸ hp))
      exact (Table.get?_push hfresh).trans (by rw [if_neg hne, ht, hp])
  have hset : ∀ {q : Pid} {pc pc' : DrainPc}, s.drains.get? q = some pc →
      (∀ row hpc rest, pc ≠ .handling row hpc rest) → (s.drains.set q pc').get? p =
        some (.handling row (.writingDone conflict serverId .resolved) rest) := by
    intro q pc pc' hq hne
    refine (Table.get?_set_of_ne ?_).trans hp
    rintro rfl
    exact hne _ _ _ (Option.some.inj (hq.symm.trans hp))
  cases Move.of_step hst with
  | @handler o q r pc rest' item next effects hq hrow ht ho =>
    by_cases hqp : q = p
    · subst hqp
      cases hq.symm.trans hp
      simp only [step, resume, hp, Option.bind_some, State.resumeDrain, hrow, Option.bind_eq_bind,
        Option.bind_eq_some_iff] at hst
      obtain ⟨⟨next', effects'⟩, hturn, he⟩ := hst
      obtain rfl := effects_of_handleCompleting hturn
      exact .inr (.inr ⟨item, hrow, congrArg State.store (Option.some.inj he).symm⟩)
    · exact .inl ((Table.get?_set_of_ne (Ne.symm hqp)).trans hp)
  | wake listening => exact .inl (hpush rfl rfl)
  | drain hq ht => exact .inl (hset hq (by rintro r hpc rest rfl; cases ht))
  | queryFailed hq hpc =>
    exact .inl (hset hq (by rintro r hpc' rest rfl; rcases hpc with he | he <;> cases he))
  | start hq hrow => exact .inl (hset hq (by simp))
  | leave hq =>
    refine .inl ((Table.get?_erase).trans ?_)
    rw [if_neg, hp]
    rintro rfl
    cases hp.symm.trans hq
  | finish hq hpc => exact .inl (hpush rfl rfl)
  | wakeCall hq hpc => exact .inl (hpush rfl rfl)
  | commit hw hnew =>
    left
    rw [State.get?_settle_drains]
    split_ifs
    · exact congrArg (Option.map (DrainPc.settle .resolved)) hp
    · exact hp
  | reject hw =>
    left
    rw [State.get?_settle_drains]
    split_ifs
    · exact congrArg (Option.map (DrainPc.settle .rejected)) hp
    · exact hp
  | kill => exact .inr (.inl rfl)
  | _ => exact .inl hp

/-! ### What is in use stays in use -/

/-- A session that is stored in a row. -/
theorem InUse.stored_step (hr : uploadService.Reachable s) (hst : step s l = some s')
    {item : UploadQueueItem} (hitem : s.rows.get? row = some item)
    (hsession : item.uploadSessionId = some sessionId) (hdone : item.status ≠ .done)
    (hkeep : forgotten s l ≠ some (row, sessionId)) : InUse s' row sessionId := by
  have hm := RowMove.of_step hr hst row
  have hitem : (view s row).item = some item := hitem
  have hold : sessionOf s.rows row = (view s row).item.bind UploadQueueItem.uploadSessionId := rfl
  have hstored : ∀ item', (view s' row).item = some item' →
      item'.uploadSessionId = item.uploadSessionId → item'.status ≠ .done →
        InUse s' row sessionId :=
    fun item' hitem' hs hd => .stored hitem' (hs.trans hsession) hd
  generalize hv : view s row = v at hm hitem hold
  generalize hv' : view s' row = v' at hm hstored
  cases hm with
  | created hw => cases hitem
  | reset hw hst =>
    cases hitem
    exact hstored _ rfl rfl nofun
  | progress hw =>
    cases hitem
    exact hstored _ rfl rfl hdone
  | @written newId row p jobs item' recording w hw =>
    cases hitem
    cases w with
    | session sid url =>
      by_cases hne : sessionId = sid
      · refine hstored _ rfl ?_ hdone
        rw [hsession, hne]
        rfl
      · exact absurd (forgotten_commit hw (hold.trans hsession) hne) hkeep
    | _ => exact hstored _ rfl rfl nofun
  | @taskDone newId row p jobs item' conflict serverId hw =>
    cases hitem
    exact .clearing (congrArg RowView.item hv') hsession
      ⟨conflict, serverId, .inl ⟨p, congrArg RowView.task hv'⟩⟩
  | @drainDone newId row p jobs item' task hw hst' =>
    cases hitem
    -- the drain is told that its write has landed
    cases (Writer.of_reachable hr).jobOf (hw ▸ List.mem_cons_self) with
    | @drainDone _ _ conflict serverId rest hp =>
      refine .clearing (congrArg RowView.item hv') hsession
        ⟨conflict, serverId, .inr ⟨p, rest, ?_⟩⟩
      simp only [UploadService.step, State.commit, hw] at hst
      split_ifs at hst
      cases hst
      rw [State.get?_settle_drains, if_pos rfl]
      exact congrArg (Option.map (DrainPc.settle .resolved)) hp
  | _ => exact hstored _ hitem rfl hdone

/-- A session that is being stored. -/
theorem InUse.storing_step (hr : uploadService.Reachable s) (hst : step s l = some s')
    {p : Pid} {recording : LocalRecording} {url : String}
    (htask : (view s row).task = some (p, .writing recording (.session sessionId url) .pending))
    (hcache : s'.store.presignedUrlCache sessionId ≠ none)
    (hkeep : forgotten s l ≠ some (row, sessionId)) : InUse s' row sessionId := by
  have hm := RowMove.of_step hr hst row
  have hfits : ∀ item, (view s row).item = some item → item.status ≠ .done := by
    intro item hitem
    have := (Ownership.of_reachable hr).view_fits hitem htask
    rcases this with he | he <;> simp [he]
  have hold : sessionOf s.rows row = (view s row).item.bind UploadQueueItem.uploadSessionId := rfl
  have hstoring :
      (view s' row).task = some (p, .writing recording (.session sessionId url) .pending) →
      InUse s' row sessionId := fun h => .storing h
  generalize hv : view s row = v at hm htask hold hfits
  generalize hv' : view s' row = v' at hm hstoring
  cases hm with
  | created hw => cases htask
  | @written newId row p jobs item recording' w hw =>
    cases htask
    exact .stored (congrArg RowView.item hv') rfl (hfits item rfl)
  | taskDone hw => cases htask
  | @rejected row p job jobs item pc hw howner hawait =>
    cases htask
    obtain ⟨owner, action⟩ := job
    cases hawait
    by_cases hs : sessionOf s.rows row = some sessionId
    · exact .stored (congrArg RowView.item hv') (hold.symm.trans hs) (hfits item rfl)
    · exact absurd (forgotten_reject hw hs) hkeep
  | started hp => cases htask
  | @turn l row p t item pc effects hp hrow ht =>
    -- a task makes no turn while its write is pending
    have hpc : t.pc = .writing recording (.session sessionId url) .pending :=
      (Prod.mk.inj (Option.some.inj htask)).2
    have hturn := ht.taskTurn
    rw [hpc] at hturn
    cases hturn
  | finished hp hrow hpc => cases htask
  | killed =>
    cases hst
    exact absurd (s.cache_kill sessionId) hcache
  | _ => exact hstoring htask

/-- The row of a running handler keeps its session. -/
theorem session_of_clearing (hr : uploadService.Reachable s) (hst : step s l = some s')
    {item : UploadQueueItem} (hitem : s.rows.get? row = some item)
    (htransferred : Transferred (statusOf s.rows) row) :
    ∃ item', s'.rows.get? row = some item' ∧ item'.uploadSessionId = item.uploadSessionId := by
  have hm := RowMove.of_step hr hst row
  have hitem : (view s row).item = some item := hitem
  have hfits : ∀ p pc, (view s row).task = some (p, pc) → pc.Fits item.status :=
    fun p pc htask => (Ownership.of_reachable hr).view_fits hitem htask
  have hstatus : item.status = .completing ∨ item.status = .done := by
    rw [Transferred, statusOf_of_get? hitem] at htransferred
    exact htransferred.imp Option.some.inj Option.some.inj
  have hgoal : ∀ item', (view s' row).item = some item' → s'.rows.get? row = some item' :=
    fun _ h => h
  generalize hv : view s row = v at hm hitem hfits
  generalize hv' : view s' row = v' at hm hgoal
  cases hm with
  | created hw => cases hitem
  | reset hw hst =>
    cases hitem
    exact ⟨_, hgoal _ rfl, rfl⟩
  | progress hw =>
    cases hitem
    exact ⟨_, hgoal _ rfl, rfl⟩
  | @written newId row p jobs item' recording w hw =>
    cases hitem
    cases w with
    | session sid url =>
      -- a task stores a session before its transfer only
      rcases hfits _ _ rfl with hb | hb <;> rcases hstatus with he | he <;> cases hb.symm.trans he
    | _ => exact ⟨_, hgoal _ rfl, rfl⟩
  | taskDone hw =>
    cases hitem
    exact ⟨_, hgoal _ rfl, rfl⟩
  | drainDone hw hst' =>
    cases hitem
    exact ⟨_, hgoal _ rfl, rfl⟩
  | _ => exact ⟨_, hgoal _ hitem, rfl⟩

/-- A task that is about to clear a URL waits, or it clears it. -/
theorem task_clearing (hr : uploadService.Reachable s) (hst : step s l = some s') {p : Pid}
    {conflict : Bool} {serverId : String}
    (htask : (view s row).task = some (p, .handling (.writingDone conflict serverId .resolved))) :
    (view s' row).task = some (p, .handling (.writingDone conflict serverId .resolved)) ∨
      l = .kill ∨ ∃ item, s.rows.get? row = some item ∧
        s'.store = s.store.clearPresignedUrl (propertyKey item.uploadSessionId) := by
  have hm := RowMove.of_step hr hst row
  generalize hv : view s row = v at hm htask
  generalize hv' : view s' row = v' at hm
  cases hm with
  | created hw => cases htask
  | written hw => cases htask
  | taskDone hw => cases htask
  | rejected hw howner hawait =>
    cases htask
    cases hawait
  | started hp => cases htask
  | @turn l row p t item pc effects hp hrow ht =>
    have hpc : t.pc = .handling (.writingDone conflict serverId .resolved) :=
      (Prod.mk.inj (Option.some.inj htask)).2
    subst hrow
    have hitem : s.rows.get? t.row = some item := congrArg RowView.item hv
    have hstore := store_of_turn hst hp hitem ht (by rw [hpc]; nofun)
    refine .inr (.inr ⟨item, hitem, ?_⟩)
    cases ht with
    | resumed h =>
      rw [hpc] at h
      simp only [processItem] at h
      split at h
      · cases h
      all_goals
        rename_i hh
        cases h
        rw [hstore, effects_of_handleCompleting hh]
        rfl
    | event h =>
      rw [hpc] at h
      cases h
  | finished hp hrow hpc => cases htask
  | killed => exact .inr (.inl rfl)
  | _ => exact .inl htask

/-- A session whose URL is about to be cleared. -/
theorem InUse.clearing_step (hr : uploadService.Reachable s) (hst : step s l = some s')
    {item : UploadQueueItem} (hitem : s.rows.get? row = some item)
    (hsession : item.uploadSessionId = some sessionId) (hclearing : Clearing s row)
    (hcache : s'.store.presignedUrlCache sessionId ≠ none) : InUse s' row sessionId := by
  have hs := Slots.of_reachable hr
  have ho := Ownership.of_reachable hr
  have hnot : l ≠ .kill ∧ ¬ ∃ item, s.rows.get? row = some item ∧
      s'.store = s.store.clearPresignedUrl (propertyKey item.uploadSessionId) := by
    constructor
    · rintro rfl
      cases hst
      exact hcache (s.cache_kill sessionId)
    · rintro ⟨item', hitem', he⟩
      cases hitem.symm.trans hitem'
      rw [he, hsession] at hcache
      exact hcache (Function.update_self _ _ _)
  obtain ⟨conflict, serverId, ⟨p, htask⟩ | ⟨p, rest, hp⟩⟩ := hclearing
  · obtain ⟨t, hp, rfl, hpc⟩ := task_of_view htask
    obtain ⟨r, id, tpc⟩ := t
    cases hpc
    obtain ⟨item', hitem', he⟩ := session_of_clearing hr hst hitem (ho.task_transferred hs hp)
    rcases task_clearing hr hst htask with hstay | hkill | hclear
    · exact .clearing hitem' (he.trans hsession) ⟨conflict, serverId, .inl ⟨p, hstay⟩⟩
    · exact absurd hkill hnot.1
    · exact absurd hclear hnot.2
  · obtain ⟨item', hitem', he⟩ := session_of_clearing hr hst hitem (ho.transferred hp)
    rcases drain_clearing hs hst hp with hstay | hkill | hclear
    · exact .clearing hitem' (he.trans hsession) ⟨conflict, serverId, .inr ⟨p, rest, hstay⟩⟩
    · exact absurd hkill hnot.1
    · exact absurd hclear hnot.2

/-- **What is in use stays in use**, as long as its URL is in the cache and the row does not forget
it. -/
theorem InUse.step (h : InUse s row sessionId) (hr : uploadService.Reachable s)
    (hst : UploadService.step s l = some s')
    (hcache : s'.store.presignedUrlCache sessionId ≠ none)
    (hkeep : forgotten s l ≠ some (row, sessionId)) : InUse s' row sessionId := by
  cases h with
  | stored hitem hsession hdone => exact .stored_step hr hst hitem hsession hdone hkeep
  | storing htask => exact .storing_step hr hst htask hcache hkeep
  | clearing hitem hsession hclearing => exact .clearing_step hr hst hitem hsession hclearing hcache

theorem UrlsInUse.step (h : UrlsInUse s) (hr : uploadService.Reachable s)
    (hst : UploadService.step s l = some s') (hok : ForgetsNoUrl s l) : UrlsInUse s' := by
  intro sid hcache'
  rcases cache_of_step hr hst hcache' with hcache | hadded
  · obtain ⟨row, huse⟩ := h sid hcache
    by_cases hkeep : forgotten s l = some (row, sid)
    · obtain ⟨r, hne, huse'⟩ := hok row sid hkeep hcache
      refine ⟨r, huse'.step hr hst hcache' fun he => hne ?_⟩
      exact (Prod.mk.inj (Option.some.inj (he.symm.trans hkeep))).1
    · exact ⟨row, huse.step hr hst hcache' hkeep⟩
  · exact hadded

/-! ### What is forgotten is not in use -/

/-- The write with which a row forgets a session. -/
theorem forgotten_cases (h : forgotten s l = some (row, sessionId)) :
    (∃ newId owner jobs new, l = .commit newId ∧
      s.writer = ⟨owner, .update row (.session new)⟩ :: jobs ∧
      sessionOf s.rows row = some sessionId ∧ sessionId ≠ new) ∨
    ∃ owner jobs, l = .reject ∧ s.writer = ⟨owner, .update row (.session sessionId)⟩ :: jobs ∧
      sessionOf s.rows row ≠ some sessionId := by
  unfold forgotten at h
  split at h
  · split at h
    · rename_i newId _ owner r new jobs hw
      obtain ⟨old, hold, he⟩ := Option.map_eq_some_iff.1 h
      cases he
      obtain ⟨hold, hne⟩ := Option.filter_eq_some_iff.1 hold
      exact .inl ⟨newId, owner, jobs, new, rfl, hw, hold, by simpa using hne⟩
    · cases h
  · split at h
    · rename_i _ owner r sid jobs hw
      split_ifs at h with hold
      cases h
      exact .inr ⟨owner, jobs, rfl, hw, hold⟩
    · cases h
  · cases h

/-- After the write of a session has settled, only other rows use the session that was forgotten,
and they did so before. -/
theorem InUse.of_settled (hs : Slots s) {p : Pid} {t : Task} {recording : LocalRecording}
    {new url : String} {promise : Promise} {rows : Table RowId UploadQueueItem} {jobs : List Job}
    (hp : s.tasks.get? p = some t) (hpc : t.pc = .writing recording (.session new url) .pending)
    (hpromise : promise ≠ .pending)
    (hs' : Slots ({ s with rows := rows, writer := jobs }.settle promise (some (.task p))))
    (hsession : sessionOf rows t.row ≠ some sessionId)
    (hrows : ∀ r, r ≠ t.row → rows.get? r = s.rows.get? r) {r : RowId}
    (h : InUse ({ s with rows := rows, writer := jobs }.settle promise (some (.task p))) r
      sessionId) :
    r ≠ t.row ∧ InUse s r sessionId := by
  have hother : r ≠ t.row := by
    rintro rfl
    have hnone : ∀ {item}, rows.get? t.row = some item →
        item.uploadSessionId ≠ some sessionId := by
      intro item hitem he
      exact hsession (by rw [sessionOf, hitem, Option.bind_some, he])
    cases h with
    | stored hitem hsession' => exact hnone (by simpa using hitem) hsession'
    | storing htask =>
      rw [RowMove.view_settle_own hs' hp, hpc] at htask
      cases htask
      exact hpromise rfl
    | clearing hitem hsession' => exact hnone (by simpa using hitem) hsession'
  have hne : ∀ q u, some (Owner.task p) = some (.task q) → s.tasks.get? q = some u → u.row ≠ r := by
    rintro q u ⟨⟩ hq hu
    cases hp.symm.trans hq
    exact hother hu.symm
  have hview := RowMove.view_settle_other hs hs' hne
  have hitem : ∀ {item}, ({ s with rows := rows, writer := jobs }.settle promise
      (some (.task p))).rows.get? r = some item → s.rows.get? r = some item := by
    intro item h
    rw [State.settle_rows] at h
    exact (hrows r hother).symm.trans h
  refine ⟨hother, ?_⟩
  cases h with
  | stored hi hsession' hdone => exact .stored (hitem hi) hsession' hdone
  | storing htask =>
    rw [hview] at htask
    exact .storing htask
  | clearing hi hsession' hclearing =>
    refine .clearing (hitem hi) hsession' ?_
    obtain ⟨conflict, serverId, ⟨q, htask⟩ | ⟨q, rest, hq⟩⟩ := hclearing
    · rw [hview] at htask
      exact ⟨conflict, serverId, .inl ⟨q, htask⟩⟩
    · exact ⟨conflict, serverId, .inr ⟨q, rest, hq⟩⟩

/-- If all URLs are in use after a step, then the step has forgotten none. -/
theorem UrlsInUse.forgetsNoUrl (h : UrlsInUse s') (hr : uploadService.Reachable s)
    (hst : UploadService.step s l = some s') : ForgetsNoUrl s l := by
  intro row sid hforgotten hcache
  have hs := Slots.of_reachable hr
  have hs' : Slots s' := hs.move (.of_step hst)
  have hwriter := Writer.of_reachable hr
  -- the task whose write it is
  have htask : ∀ {owner jobs new}, s.writer = ⟨owner, .update row (.session new)⟩ :: jobs →
      ∃ p t recording url, owner = some (.task p) ∧ s.tasks.get? p = some t ∧ t.row = row ∧
        t.pc = .writing recording (.session new url) .pending := by
    intro owner jobs new hw
    have hj := hwriter.jobOf (hw ▸ List.mem_cons_self)
    generalize hu : Update.session new = u at hj
    cases hj with
    | @task p r id recording w hp =>
      cases w <;> cases hu
      exact ⟨p, _, recording, _, rfl, hp, rfl, rfl⟩
    | _ => cases hu
  rcases forgotten_cases hforgotten with
    ⟨newId, owner, jobs, new, rfl, hw, hold, hne⟩ | ⟨owner, jobs, rfl, hw, hold⟩
  · obtain ⟨p, t, recording, url, rfl, hp, rfl, hpc⟩ := htask hw
    simp only [UploadService.step, State.commit, hw] at hst
    split_ifs at hst
    cases hst
    obtain ⟨r, huse⟩ := h sid (by rwa [State.settle_store])
    obtain ⟨item, hrow, -⟩ := hs.taskRows p t hp
    refine ⟨r, huse.of_settled hs hp hpc (by decide) hs' ?_ fun r hr => ?_⟩
    · rw [Action.run, sessionOf_modify_session hrow]
      exact fun he => hne (Option.some.inj he).symm
    · rw [Action.run, Table.get?_modify, if_neg hr]
  · obtain ⟨p, t, recording, url, rfl, hp, rfl, hpc⟩ := htask hw
    simp only [UploadService.step, State.reject, hw] at hst
    cases hst
    obtain ⟨r, huse⟩ := h sid (by rwa [State.settle_store])
    exact ⟨r, huse.of_settled hs hp hpc (by decide) hs' hold fun r hr => rfl⟩

end Steps

/-! ### The result -/

/-- The cache holds only URLs of sessions that are stored in rows that are not `done`. -/
def UrlsCurrent (s : State) : Prop :=
  ∀ sessionId, s.store.presignedUrlCache sessionId ≠ none →
    ∃ row item, s.rows.get? row = some item ∧ item.uploadSessionId = some sessionId ∧
      item.status ≠ .done

theorem UrlsInUse.current {s : State} (h : UrlsInUse s) (hq : Quiet s) : UrlsCurrent s := by
  intro sid hcache
  obtain ⟨row, huse⟩ := h sid hcache
  cases huse with
  | stored hitem hsession hdone => exact ⟨row, _, hitem, hsession, hdone⟩
  | storing htask =>
    obtain ⟨t, hp, -, hpc⟩ := task_of_view htask
    cases hpc.symm.trans (hq.tasks _ t hp)
  | clearing hitem hsession hclearing =>
    obtain ⟨conflict, serverId, ⟨p, htask⟩ | ⟨p, rest, hp⟩⟩ := hclearing
    · obtain ⟨t, hp, -, hpc⟩ := task_of_view htask
      cases hpc.symm.trans (hq.tasks _ t hp)
    · exact absurd hp (hq.drains _ _ _ _)

/-- **No URL outlives its row, if none is forgotten.**  In every run, all URLs in the cache are in
use in every state exactly if no step forgets a session that has one; and then, whenever no
`_processItem` and no `_handleCompleting` is running, every URL in the cache is that of a session
that is stored in a row that is not `done`. -/
theorem cached_urls_in_use_iff {tr : List (State × Label)} {s : State}
    (hrun : uploadService.Run tr s) :
    (((∀ x ∈ tr, UrlsInUse x.1) ∧ UrlsInUse s) ↔ ∀ x ∈ tr, ForgetsNoUrl x.1 x.2) ∧
    ((∀ x ∈ tr, ForgetsNoUrl x.1 x.2) →
      (∀ x ∈ tr, Quiet x.1 → UrlsCurrent x.1) ∧ (Quiet s → UrlsCurrent s)) := by
  have hiff : ((∀ x ∈ tr, UrlsInUse x.1) ∧ UrlsInUse s) ↔ ∀ x ∈ tr, ForgetsNoUrl x.1 x.2 := by
    refine hrun.visited_iff (I := fun s => uploadService.Reachable s ∧ UrlsInUse s) ?_
      (fun s h => h.2) (fun s l s' h hst hok => ⟨h.1.step hst, h.2.step h.1 hst hok⟩)
      fun s l s' h hst h' => h'.forgetsNoUrl h.1 hst
    rintro s ⟨consent, now, rfl⟩
    exact ⟨.start ⟨consent, now, rfl⟩, fun sid hcache => absurd rfl hcache⟩
  refine ⟨hiff, fun hok => ?_⟩
  obtain ⟨hvisited, hlast⟩ := hiff.2 hok
  exact ⟨fun x hx => (hvisited x hx).current, hlast.current⟩

/-- One task has ended, and no drain handles a row. -/
theorem Quiet.of_entries {s : State} (htasks : s.tasks.entries.map (fun e => e.2.pc) = [.finishing])
    (hdrains : ∀ row pc rest, .handling row pc rest ∉ s.drains.entries.map Prod.snd) :
    Quiet s := by
  constructor
  · intro p t hp
    have hm : t.pc ∈ s.tasks.entries.map fun e => e.2.pc :=
      List.mem_map.2 ⟨(p, t), Table.get?_eq_some_iff.1 hp, rfl⟩
    rw [htasks] at hm
    exact List.mem_singleton.1 hm
  · intro p row pc rest hp
    exact hdrains row pc rest (List.mem_map.2 ⟨(p, _), Table.get?_eq_some_iff.1 hp, rfl⟩)

/-- A transfer breaks, and its row waits to be tried again. -/
def waitsAgain : List Label :=
  transferUnderWay ++ [.native 2 (.error "network"), .resume (.task 2) .ok, .commit "q2",
    .resume (.task 2) .ok]

theorem cached_urls_in_use_iff_waitsAgain :
    ∃ tr s, uploadService.Run tr s ∧ tr.map Prod.snd = waitsAgain ∧
      s.store.presignedUrlCache "session" ≠ none ∧
      ∃ row item, s.rows.get? row = some item ∧ item.uploadSessionId = some "session" ∧
        item.status ≠ .done := by
  have hrun : (LTS.exec (fun s l => if decide (forgotten s l = none) then step s l else none)
      (init .missing 0) waitsAgain).map (fun s =>
        ((s.store.presignedUrlCache "session").isSome, s.tasks.entries.map fun e => e.2.pc,
          s.drains.entries.map Prod.snd)) =
      some (true, [.finishing], [.queryCandidates]) := by decide +kernel
  obtain ⟨s, hs, he⟩ := Option.map_eq_some_iff.1 hrun
  simp only [Prod.mk.injEq] at he
  obtain ⟨hcache, htasks, hdrains⟩ := he
  have hcache : s.store.presignedUrlCache "session" ≠ none := Option.isSome_iff_ne_none.1 hcache
  obtain ⟨tr, htr, hls⟩ := LTS.run_of_exec (LTS.Run.start
    (A := LTS.ofFn (fun s => ∃ consent now, s = init consent now) _) ⟨.missing, 0, rfl⟩) hs
  rw [List.nil_append] at htr
  obtain ⟨htr, hnone⟩ := LTS.Run.of_checked htr
  have hquiet : Quiet s := .of_entries htasks (by simp [hdrains])
  refine ⟨tr, s, htr, hls, hcache, ((cached_urls_in_use_iff htr).2 ?_).2 hquiet "session" hcache⟩
  intro x hx row sid hf
  rw [of_decide_eq_true (hnone x hx)] at hf
  cases hf

/-- The URL of a session expires, its row gets another one, and is uploaded. -/
def renewedSession : List Label :=
  [.enqueueUpload "a" 10, .commit "q1", .resume (.call 0) .ok] ++ taskStarts 1 ++
    [.resume (.task 2) (.presigned "session" "https://bucket/put" 3600), .commit "q2",
      .resume (.task 2) .ok] ++ transferBreaks 2 ++
    [.commit "q2", .resume (.task 2) .ok, .tick 3600000, .resume (.task 2) .ok] ++ taskStarts 3 ++
    [.resume (.task 4) (.presigned "renewed" "https://bucket/again" 7200), .commit "q2",
      .resume (.task 4) .ok, .commit "q2", .resume (.task 4) .ok, .resume (.task 4) .ok,
      .native 4 (.completed 200), .resume (.task 4) .ok, .commit "q2", .resume (.task 4) .ok,
      .resume (.task 4) (.found (some meeting)), .resume (.task 4) .ok, .commit "q2",
      .resume (.task 4) .ok, .resume (.task 4) .ok]

/-- The URL of the session that was replaced is left when the row is `done`. -/
theorem url_outlives_row :
    ¬ ∀ s, uploadService.Reachable s → Quiet s → UrlsCurrent s := by
  intro h
  have hrun : (LTS.exec step (init .missing 0) renewedSession).map (fun s =>
      ((s.store.presignedUrlCache "session").isSome, s.tasks.entries.map fun e => e.2.pc,
        s.drains.entries.map Prod.snd, s.rows.entries.map fun e => e.2.status)) =
      some (true, [.finishing], [], [.done]) := by decide +kernel
  obtain ⟨s, hs, he⟩ := Option.map_eq_some_iff.1 hrun
  simp only [Prod.mk.injEq] at he
  obtain ⟨hcache, htasks, hdrains, hrows⟩ := he
  have hcache : s.store.presignedUrlCache "session" ≠ none := Option.isSome_iff_ne_none.1 hcache
  obtain ⟨row, item, hrow, -, hdone⟩ := h s (reachable_of_exec renewedSession hs)
    (.of_entries htasks (by simp [hdrains])) "session" hcache
  have hm : item.status ∈ s.rows.entries.map fun e => e.2.status :=
    List.mem_map.2 ⟨(row, item), Table.get?_eq_some_iff.1 hrow, rfl⟩
  rw [hrows] at hm
  exact hdone (List.mem_singleton.1 hm)

end UploadService

end FCord
