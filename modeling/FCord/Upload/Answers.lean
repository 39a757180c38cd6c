import FCord.Upload.Backoff

/-!
# The answer of the storage server

The upload library reports that a transfer is `completed` whatever the storage server has answered,
and hands over the code of the answer.  The listener does not look at it: an expired URL, answered
with 403, makes the row `completing`, and it is never uploaded again (`completing_after_403`).  Rows
become `completing` after an answer of success only, exactly in those runs in which the server gives
no other (`completing_only_after_success_iff`).
-/

namespace FCord

/-- A code of success. -/
def IsSuccess (code : ℕ) : Prop := 200 ≤ code ∧ code < 300

/-- The transfer has been answered, and the row is not `completing` yet. -/
def TaskPc.isAnswered : TaskPc → Bool
  | .settled _ _ none => true
  | .writing _ .completing .pending => true
  | _ => false

namespace UploadService

/-- The row whose transfer is answered, and the code. -/
def answered (s : State) : Label → Option (RowId × ℕ)
  | .native p (.completed code) => (s.tasks.get? p).map fun t => (t.row, code)
  | _ => none

/-- The answer to the current or last transfer of each row. -/
def lastAnswer (codes : RowId → Option ℕ) (s : State) (l : Label) (row : RowId) : Option ℕ :=
  if (transferStart s l).map Task.row = some row then none
  else
    match answered s l with
    | some (r, code) => if r = row then some code else codes row
    | none => codes row

/-- The service, with the answers that its rows have got. -/
def answeredService : LTS (State × (RowId → Option ℕ)) Label :=
  LTS.ofFn (fun x => (∃ consent now, x.1 = init consent now) ∧ x.2 = fun _ => none)
    (LTS.recorded step lastAnswer)

/-- A transfer counts as done only if the answer was a success: its task takes the branch of
success, and the row becomes `completing`, after such an answer only. -/
structure OnlyAfterSuccess (x : State × (RowId → Option ℕ)) : Prop where
  settled : ∀ p t recording url, x.1.tasks.get? p = some t → t.pc = .settled recording url none →
    ∃ code, x.2 t.row = some code ∧ IsSuccess code
  completing : ∀ row, statusOf x.1.rows row = some .completing →
    ∃ code, x.2 row = some code ∧ IsSuccess code

/-- The storage server answers with a success. -/
def AnswersSuccess (_ : State × (RowId → Option ℕ)) (l : Label) : Prop :=
  ∀ p code, l = .native p (.completed code) → IsSuccess code

/-- What the answer to a row has to do with the row and with the task that works on it. -/
structure Succeeded (v : RowView) (answer : Option ℕ) : Prop where
  item : ∀ item, v.item = some item → item.status = .completing →
    ∃ code, answer = some code ∧ IsSuccess code
  task : ∀ p pc, v.task = some (p, pc) → pc.isAnswered = true →
    ∃ code, answer = some code ∧ IsSuccess code

section Steps

variable {s s' : State} {l : Label} {row : RowId} {v v' : RowView} {codes : RowId → Option ℕ}

theorem turnOf_of_answered {code : ℕ} (h : answered s l = some (row, code)) :
    ∃ p t, l = .native p (.completed code) ∧ s.tasks.get? p = some t ∧ t.row = row := by
  unfold answered at h
  split at h
  · obtain ⟨t, hp, he⟩ := Option.map_eq_some_iff.1 h
    cases he
    exact ⟨_, t, rfl, hp, rfl⟩
  · cases h

/-- A step that is no turn of the task of the row. -/
theorem lastAnswer_of_not_turn
    (h : ∀ p t, l.turnOf = some p → s.tasks.get? p = some t → t.row ≠ row) :
    lastAnswer codes s l row = codes row := by
  unfold lastAnswer
  rw [if_neg (transferStart_of_not_turn h)]
  split
  · rename_i r code hx
    obtain ⟨p, t, rfl, hp, hrow⟩ := turnOf_of_answered hx
    rw [if_neg fun he => h p t rfl hp (hrow.trans he)]
  · rfl

theorem TaskTurn.isAnswered {who : Owner} {item : UploadQueueItem} {now : ℕ}
    {store : UploadQueueStore} {consent : ConsentEntry} {pc pc' : TaskPc} {effects : List Effect}
    (h : TaskTurn who row item now store consent pc pc' effects) (ha : pc'.isAnswered = true) :
    pc.isAnswered = true ∨ ∃ recording url, pc = .transferring recording url := by
  cases h with
  | transferred => exact .inl rfl
  | putCompleted code => exact .inr ⟨_, _, rfl⟩
  | @handler hpc next effects hh => cases next <;> cases ha
  | _ => cases ha

/-- What a turn of its task does to the answer of a row. -/
theorem TurnBy.lastAnswer_eq (codes : RowId → Option ℕ) {p : Pid} {t : Task}
    {item : UploadQueueItem} {pc : TaskPc} {effects : List Effect} (hp : s.tasks.get? p = some t)
    (h : TurnBy s p t item l pc effects) :
    (t.pc.startsUpload = true ∧ lastAnswer codes s l t.row = none) ∨
    (∃ code recording url, l = .native p (.completed code) ∧ t.pc = .transferring recording url ∧
      lastAnswer codes s l t.row = some code) ∨
    (pc.isAnswered = true → t.pc.isAnswered = true) ∧ lastAnswer codes s l t.row = codes t.row := by
  have hturn := h.taskTurn
  cases h with
  | @resumed o pc effects h =>
    cases hstart : t.pc.startsUpload with
    | true => exact .inl ⟨rfl, by simp [lastAnswer, transferStart, hp, hstart]⟩
    | false =>
      refine .inr (.inr ⟨fun ha => (hturn.isAnswered ha).resolve_right ?_, ?_⟩)
      · rintro ⟨recording, url, hpc⟩
        rw [hpc] at h
        simp [processItem] at h
      · simp [lastAnswer, transferStart, answered, hp, hstart]
  | @event event pc effects h =>
    cases hpc : t.pc with
    | transferring recording url =>
      rw [hpc] at h
      cases event with
      | completed code =>
        exact .inr (.inl ⟨code, recording, url, rfl, rfl,
          by simp [lastAnswer, transferStart, answered, hp]⟩)
      | progress loaded total =>
        cases h
        exact .inr (.inr ⟨by simp [TaskPc.isAnswered],
          by simp [lastAnswer, transferStart, answered]⟩)
      | error message =>
        cases h
        exact .inr (.inr ⟨by simp [TaskPc.isAnswered],
          by simp [lastAnswer, transferStart, answered]⟩)
      | cancelled =>
        cases h
        exact .inr (.inr ⟨by simp [TaskPc.isAnswered],
          by simp [lastAnswer, transferStart, answered]⟩)
    | _ =>
      rw [hpc] at h
      cases h

/-- **What a step preserves, if the server answers with a success.** -/
theorem Succeeded.move (h : Succeeded v (codes row)) (hm : RowMove s l row v v')
    (hfits : ∀ item p pc, v.item = some item → v.task = some (p, pc) → pc.Fits item.status)
    (hok : ∀ p code, l = .native p (.completed code) → IsSuccess code) :
    Succeeded v' (lastAnswer codes s l row) := by
  have hkeep : l.turnOf = none → lastAnswer codes s l row = codes row := fun hl =>
    lastAnswer_of_not_turn fun p t hp => by simp [hl] at hp
  cases hm with
  | same hapart =>
    rw [lastAnswer_of_not_turn hapart.turn]
    exact h
  | created hw =>
    refine ⟨?_, by simp⟩
    rintro _ ⟨⟩ hst
    cases hst
  | reset hw hst =>
    rw [hkeep rfl]
    refine ⟨?_, h.task⟩
    rintro _ ⟨⟩ hst
    cases hst
  | @progress newId row loaded jobs item task hw =>
    rw [hkeep rfl]
    refine ⟨fun item' hitem' hst => ?_, h.task⟩
    obtain ⟨item, rfl, rfl⟩ := Option.map_eq_some_iff.1 hitem'
    exact h.item item rfl hst
  | @written newId row p jobs item recording w hw =>
    rw [hkeep rfl]
    constructor
    · rintro _ ⟨⟩ hst
      cases w with
      | session sessionId url => exact h.item item rfl hst
      | completing => exact h.task _ _ rfl rfl
      | _ => cases hst
    · rintro _ _ ⟨⟩ ha
      cases w <;> cases ha
  | taskDone hw =>
    rw [hkeep rfl]
    constructor
    · rintro _ ⟨⟩ hst
      cases hst
    · rintro _ _ ⟨⟩ ha
      cases ha
  | drainDone hw hst =>
    rw [hkeep rfl]
    refine ⟨?_, h.task⟩
    rintro _ ⟨⟩ hst
    cases hst
  | @rejected row p job jobs item pc hw howner hawait =>
    rw [hkeep rfl]
    refine ⟨h.item, ?_⟩
    rintro _ _ ⟨⟩ ha
    refine h.task p pc rfl ?_
    unfold TaskPc.settle at ha
    split at ha
    · rename_i w
      cases w <;> cases ha
    · cases ha
    · exact ha
  | started hp =>
    rw [hkeep rfl]
    refine ⟨h.item, ?_⟩
    rintro _ _ ⟨⟩ ha
    cases ha
  | @turn l row p t item pc effects hp hrow ht =>
    subst hrow
    have hst := hfits item p t.pc rfl rfl
    rcases ht.lastAnswer_eq codes hp with
      ⟨hstart, he⟩ | ⟨code, recording, url, rfl, hpc, he⟩ | ⟨ha, he⟩
    · -- the row is `uploading` when its transfer starts
      obtain ⟨recording, url, hpc⟩ := TaskPc.of_startsUpload hstart
      rw [hpc] at hst
      constructor
      · rintro _ ⟨⟩ hcompleting
        cases hst.symm.trans hcompleting
      · rintro _ _ ⟨⟩ ha
        rcases ht.taskTurn.isAnswered ha with ha | ⟨recording', url', hpc'⟩
        · rw [hpc] at ha
          cases ha
        · cases hpc.symm.trans hpc'
    · rw [he]
      exact ⟨fun _ _ _ => ⟨code, rfl, hok p code rfl⟩, fun _ _ _ _ => ⟨code, rfl, hok p code rfl⟩⟩
    · rw [he]
      refine ⟨h.item, ?_⟩
      rintro _ _ ⟨⟩ ha'
      exact h.task p t.pc rfl (ha ha')
  | @finished p row item t hp hrow hpc =>
    have hkeep : lastAnswer codes s (.resume (.task p) .ok) row = codes row := by
      simp [lastAnswer, transferStart, answered, hp, hpc, Option.filter_some, TaskPc.startsUpload]
    rw [hkeep]
    exact ⟨h.item, by simp⟩
  | killed =>
    rw [hkeep rfl]
    exact ⟨h.item, by simp⟩

end Steps

/-! ### The result -/

/-- Every row has the answers that its status says. -/
def AllSucceeded (x : State × (RowId → Option ℕ)) : Prop :=
  uploadService.Reachable x.1 ∧ ∀ row, Succeeded (view x.1 row) (x.2 row)

section Runs

variable {x x' : State × (RowId → Option ℕ)} {l : Label}

theorem AllSucceeded.step (h : AllSucceeded x) (hst : answeredService.step x l x')
    (hok : AnswersSuccess x l) : AllSucceeded x' := by
  obtain ⟨hr, hrows⟩ := h
  obtain ⟨s', hs, rfl⟩ := Option.map_eq_some_iff.1 hst
  exact ⟨hr.step hs, fun row => (hrows row).move (RowMove.of_step hr hs row)
    (fun item p pc => (Ownership.of_reachable hr).view_fits) hok⟩

theorem AllSucceeded.onlyAfterSuccess (h : AllSucceeded x) : OnlyAfterSuccess x := by
  obtain ⟨hr, hrows⟩ := h
  constructor
  · intro p t recording url hp hpc
    refine (hrows t.row).task p t.pc ?_ ?_
    · rw [view_of_task (.of_reachable hr) hp]
    · rw [hpc]
      rfl
  · intro row hst
    obtain ⟨item, hrow, hst⟩ := Option.map_eq_some_iff.1 hst
    exact (hrows row).item item hrow hst

/-- An answer that makes its task take the branch of success is a success. -/
theorem OnlyAfterSuccess.answersSuccess (hst : answeredService.step x l x')
    (h : OnlyAfterSuccess x') : AnswersSuccess x l := by
  rintro p code rfl
  obtain ⟨s', hs, rfl⟩ := Option.map_eq_some_iff.1 hst
  obtain ⟨t, hp, hn⟩ := Option.bind_eq_some_iff.1 hs
  simp only [State.native, Option.bind_eq_bind, Option.bind_eq_some_iff] at hn
  obtain ⟨⟨pc, effects⟩, hturn, he⟩ := hn
  cases he
  unfold nativeEvent at hturn
  split at hturn
  · rename_i hevent
    cases hevent
  · rename_i hevent
    cases hevent
  · rename_i recording url _ hpc hevent
    cases hevent
    cases hturn
    obtain ⟨code', hanswer, hsuccess⟩ := h.settled p
      { t with pc := .settled recording url none } recording url (Table.get?_set_self hp) rfl
    have hcode : lastAnswer x.2 x.1 (.native p (.completed code)) t.row = some code := by
      simp [lastAnswer, transferStart, answered, hp]
    cases hcode.symm.trans hanswer
    exact hsuccess
  · rename_i hevent
    cases hevent
  · cases hturn

end Runs

/-- **Rows become `completing` after an answer of success, if there is no other answer.**  In every
run, a task takes the branch of success and a row is `completing` only after its transfer was
answered with a code of success, in every state of the run, exactly if all the codes that the
storage server answers with are codes of success. -/
theorem completing_only_after_success_iff {tr : List ((State × (RowId → Option ℕ)) × Label)}
    {x : State × (RowId → Option ℕ)} (hrun : answeredService.Run tr x) :
    ((∀ y ∈ tr, OnlyAfterSuccess y.1) ∧ OnlyAfterSuccess x) ↔
      ∀ y ∈ tr, AnswersSuccess y.1 y.2 := by
  refine hrun.visited_iff (I := AllSucceeded) ?_ (fun x h => h.onlyAfterSuccess)
    (fun x l x' h hst hok => h.step hst hok) fun x l x' _ hst h => h.answersSuccess hst
  rintro ⟨s, codes⟩ ⟨⟨consent, now, rfl⟩, rfl⟩
  refine ⟨.start ⟨consent, now, rfl⟩, fun row => ⟨?_, ?_⟩⟩
  · rintro item ⟨⟩
  · rintro p pc ⟨⟩

/-- A transfer is answered with `code`, and its row becomes `completing`. -/
def answeredWith (code : ℕ) : List Label :=
  transferUnderWay ++ [.native 2 (.completed code), .resume (.task 2) .ok, .commit "q2"]

/-- What the row is then, with the answer that it has got. -/
theorem answeredWith_run (code : ℕ) (hcode : code = 200 ∨ code = 403) :
    ∃ tr x, answeredService.Run tr x ∧ tr.map Prod.snd = answeredWith code ∧
      statusOf x.1.rows "q1" = some .completing ∧ x.2 "q1" = some code := by
  have hrun : ∀ code ∈ [200, 403], (LTS.exec (LTS.recorded step lastAnswer)
      (init .missing 0, fun _ => none) (answeredWith code)).map (fun x =>
        (statusOf x.1.rows "q1", x.2 "q1")) = some (some .completing, some code) := by
    decide +kernel
  obtain ⟨x, hx, he⟩ := Option.map_eq_some_iff.1 (hrun code (by simpa using hcode))
  obtain ⟨hst, hanswer⟩ := Prod.mk.inj he
  obtain ⟨tr, htr, hls⟩ := LTS.run_of_exec
    (LTS.Run.start (A := answeredService) ⟨⟨.missing, 0, rfl⟩, rfl⟩) hx
  exact ⟨tr, x, htr, hls, hst, hanswer⟩

theorem completing_only_after_success_iff_200 :
    ∃ tr x, answeredService.Run tr x ∧ tr.map Prod.snd = answeredWith 200 ∧
      statusOf x.1.rows "q1" = some .completing ∧ OnlyAfterSuccess x := by
  obtain ⟨tr, x, htr, hls, hst, -⟩ := answeredWith_run 200 (.inl rfl)
  refine ⟨tr, x, htr, hls, hst, ((completing_only_after_success_iff htr).2 ?_).2⟩
  rintro y hy p code hl
  have hm : Label.native p (.completed code) ∈ answeredWith 200 :=
    hls ▸ List.mem_map.2 ⟨y, hy, hl⟩
  have hcode : p = 2 ∧ code = 200 := by simpa [answeredWith, transferUnderWay] using hm
  rw [hcode.2]
  exact ⟨by decide, by decide⟩

/-- An expired URL, answered with 403, makes the row `completing`. -/
theorem completing_after_403 :
    ¬ ∀ tr x, answeredService.Run tr x → OnlyAfterSuccess x := by
  intro h
  obtain ⟨tr, x, htr, -, hst, hanswer⟩ := answeredWith_run 403 (.inr rfl)
  obtain ⟨code, hcode, hsuccess⟩ := (h tr x htr).completing "q1" hst
  cases hanswer.symm.trans hcode
  exact absurd hsuccess.2 (by decide)

end UploadService

end FCord
