import FCord.Data.Table
import FCord.Recordings.Api
import FCord.Search.Store

/-!
# The search screen

`runSearch` shows that it searches and awaits the server; what arrives is shown.  Searches overlap,
and clearing the query does not cancel them, so any number of answers may arrive in any order.  An
answer does not tell whether it is still wanted: a late one overwrites what a newer search has found
(`results_overwritten`).

What the screen should show is the outcome of the last search, or nothing if the query was cleared
after it.  It does whenever no request waits, and it shows that it searches as long as the last
search waits, if the answers arrive in order (`results_current_of_inOrder`).
-/

namespace FCord

inductive SearchTab where
  | title | body | memo
  deriving DecidableEq, Repr

inductive SearchView where
  | initial | loading | results | empty
  deriving DecidableEq, Repr

/-- The field that the server is asked to search. -/
def fieldParam (tab : SearchTab) : String :=
  if tab = .body then "transcript" else if tab = .memo then "note" else "title"

def resolveSearchView (query : String) (isSearching : Bool) (resultsCount : ℕ) : SearchView :=
  if query = "" then .initial
  else if isSearching then .loading
  else if resultsCount > 0 then .results
  else .empty

/-- The queries that are recommended. -/
def RECOMMENDED : List String := ["어제", "이번 주 회의", "투자전략"]

/-- The parameters of `searchRecordings`. -/
structure SearchParams where
  q : String
  field : String
  deriving DecidableEq, Repr

/-- `searchRecordings`: the items of an answer. -/
def searchRecordings (getTime : String → ℕ) (now : ℕ) (raw : Option (List FaicordMeetingItem)) :
    List ServerRecordingCache :=
  (raw.getD []).map (toCache getTime now)

/-- How `searchRecordings` settles. -/
inductive SearchAnswer where
  | items (raw : Option (List FaicordMeetingItem))
  | error
  deriving DecidableEq, Repr

/-- The results and the error of the store. -/
def SearchStore.shown (s : SearchStore) : List ServerRecordingCache × Option String :=
  (s.results, s.searchError)

structure SearchScreen where
  store : SearchStore
  activeTab : SearchTab
  now : ℕ
  /-- The searches that wait for the server. -/
  calls : Table ℕ SearchParams
  nextPid : ℕ

/-- What can happen on the search screen. -/
inductive SearchLabel where
  | onChangeText (t : String)
  /-- The clear button of the search bar. -/
  | onClear
  | onSubmit
  | onRecentPress (q : String)
  | removeRecentQuery (q : String)
  | onChipPress (text : String)
  | onTabChange (tab : SearchTab)
  /-- The search `p` is answered. -/
  | answer (p : ℕ) (a : SearchAnswer)
  | tick (ms : ℕ)
  deriving DecidableEq, Repr

namespace SearchScreen

variable (getTime : String → ℕ) (s : SearchScreen)

def view : SearchView :=
  resolveSearchView s.store.query s.store.isSearching s.store.results.length

/-- `runSearch`, up to its await. -/
def runSearch (q : String) (tab : SearchTab) : SearchScreen :=
  let trimmed := trim q
  if trimmed = "" then { s with store := s.store.clearResults }
  else
    { s with
      store := (s.store.setSearching true).setSearchError none
      calls := s.calls.push s.nextPid ⟨trimmed, fieldParam tab⟩
      nextPid := s.nextPid + 1 }

/-- The handler of a query that is tapped. -/
def onQueryPress (q : String) : SearchScreen :=
  { s with store := (s.store.setQuery q).commitQuery }.runSearch q s.activeTab

/-- `runSearch`, after its await. -/
def onAnswer : SearchAnswer → SearchStore
  | .items raw => (s.store.setResults (searchRecordings getTime s.now raw)).setSearching false
  | .error =>
    ((s.store.setSearchError (some "검색 중 오류가 발생했습니다")).setResults []).setSearching false

/-- The step function of the search screen. -/
def step (s : SearchScreen) : SearchLabel → Option SearchScreen
  | .onChangeText t =>
    let store := s.store.setQuery t
    some { s with store := if trim t = "" then store.clearResults else store }
  -- the button is shown beside a query
  | .onClear =>
    if s.store.query = "" then none
    else some { s with store := (s.store.setQuery "").clearResults }
  | .onSubmit => some ({ s with store := s.store.commitQuery }.runSearch s.store.query s.activeTab)
  | .onRecentPress q =>
    if s.view = .initial ∧ q ∈ s.store.recentQueries then some (s.onQueryPress q) else none
  | .removeRecentQuery q =>
    if s.view = .initial ∧ q ∈ s.store.recentQueries then
      some { s with store := s.store.removeRecentQuery q }
    else none
  | .onChipPress text =>
    if s.view = .initial ∧ text ∈ RECOMMENDED then some (s.onQueryPress text) else none
  | .onTabChange tab =>
    let s' := { s with activeTab := tab }
    some (if trim s.store.query = "" then s' else s'.runSearch s.store.query tab)
  | .answer p a =>
    if p ∈ s.calls.keys then
      some { s with store := s.onAnswer getTime a, calls := s.calls.erase p }
    else none
  | .tick ms => some { s with now := s.now + ms }

/-- The search screen of a fresh process. -/
def init (now : ℕ) : SearchScreen where
  store := .initial
  activeTab := .title
  now := now
  calls := .empty
  nextPid := 0

/-- The event runs a search for a query that is not blank. -/
def searches (s : SearchScreen) : SearchLabel → Bool
  | .onSubmit => trim s.store.query ≠ ""
  | .onRecentPress q => trim q ≠ ""
  | .onChipPress text => trim text ≠ ""
  | .onTabChange _ => trim s.store.query ≠ ""
  | _ => false

/-- The event clears the query. -/
def clears : SearchLabel → Bool
  | .onChangeText t => trim t = ""
  | .onClear => true
  | _ => false

end SearchScreen

/-- What was searched and found so far. -/
structure SearchHistory where
  /-- The last search for a query that was not blank. -/
  last : Option ℕ
  /-- The query was cleared after it. -/
  cleared : Bool
  /-- Its outcome. -/
  outcome : List ServerRecordingCache × Option String

namespace SearchHistory

/-- Nothing was searched. -/
def empty : SearchHistory := ⟨none, true, [], none⟩

/-- What the screen should show. -/
def expected (g : SearchHistory) : List ServerRecordingCache × Option String :=
  if g.cleared then ([], none) else g.outcome

/-- The outcome of a search. -/
def outcomeOf (getTime : String → ℕ) (now : ℕ) :
    SearchAnswer → List ServerRecordingCache × Option String
  | .items raw => (searchRecordings getTime now raw, none)
  | .error => ([], some "검색 중 오류가 발생했습니다")

/-- The history after a step. -/
def update (getTime : String → ℕ) (g : SearchHistory) (s : SearchScreen) (l : SearchLabel) :
    SearchHistory :=
  match l with
  | .answer p a => if g.last = some p then { g with outcome := outcomeOf getTime s.now a } else g
  | l =>
    if s.searches l then { g with last := some s.nextPid, cleared := false }
    else if SearchScreen.clears l then { g with cleared := true }
    else g

end SearchHistory

open SearchScreen in
/-- The search screen, with the history of its searches. -/
def searchScreen (getTime : String → ℕ) : LTS (SearchScreen × SearchHistory) SearchLabel :=
  LTS.ofFn (fun x => (∃ now, x.1 = init now) ∧ x.2 = .empty)
    (LTS.recorded (step getTime) (SearchHistory.update getTime))

namespace SearchScreen

variable {getTime : String → ℕ} {s s' : SearchScreen} {x x' : SearchScreen × SearchHistory}
  {l : SearchLabel}

/-- The results belong to the current search. -/
structure ResultsCurrent (x : SearchScreen × SearchHistory) : Prop where
  /-- If no request waits, the screen shows what it should. -/
  results : x.1.calls.keys = [] → x.1.store.shown = x.2.expected
  /-- It shows that it searches while the last search waits. -/
  searching : ∀ p, x.2.last = some p → p ∈ x.1.calls.keys → x.1.store.isSearching = true

/-- What arrives while the last search waits is the answer to it, and what leaves no request waiting
is the answer to the last search, whose query was not cleared since. -/
def AnswersInOrder (x : SearchScreen × SearchHistory) : SearchLabel → Prop
  | .answer p _ =>
    (∀ q, x.2.last = some q → q ∈ x.1.calls.keys → q = p) ∧
      ((∀ q ∈ x.1.calls.keys, q = p) → x.2.last = some p ∧ x.2.cleared = false)
  | _ => True

/-! ### Steps -/

/-- What a step can do. -/
inductive SearchMove (getTime : String → ℕ) (s : SearchScreen) :
    SearchLabel → SearchScreen → Prop
  /-- A search begins. -/
  | began {l : SearchLabel} {s' : SearchScreen} {params : SearchParams}
      (hl : s.searches l = true) (hcalls : s'.calls = s.calls.push s.nextPid params)
      (hsearching : s'.store.isSearching = true) (herror : s'.store.searchError = none)
      (hquery : trim s'.store.query ≠ "") : SearchMove getTime s l s'
  /-- The query is cleared, or it is blank and submitted. -/
  | cleared {l : SearchLabel} {s' : SearchScreen} (hne : ∀ p a, l ≠ .answer p a)
      (hl : s.searches l = false)
      (hclear : clears l = true ∨ clears l = false ∧ trim s.store.query = "")
      (hcalls : s'.calls = s.calls) (hshown : s'.store.shown = ([], none))
      (hsearching : s'.store.isSearching = s.store.isSearching) : SearchMove getTime s l s'
  | kept {l : SearchLabel} {s' : SearchScreen} (hne : ∀ p a, l ≠ .answer p a)
      (hl : s.searches l = false)
      (hclear : clears l = false) (hcalls : s'.calls = s.calls)
      (hshown : s'.store.shown = s.store.shown)
      (hsearching : s'.store.isSearching = s.store.isSearching)
      (hquery : trim s'.store.query = "" → trim s.store.query = "") : SearchMove getTime s l s'
  | answered {p : ℕ} {a : SearchAnswer} (hp : p ∈ s.calls.keys) :
      SearchMove getTime s (.answer p a)
        { s with store := s.onAnswer getTime a, calls := s.calls.erase p }

theorem commitQuery_eq (st : SearchStore) :
    ∃ recent, st.commitQuery = { st with recentQueries := recent } := by
  simp only [SearchStore.commitQuery]
  split_ifs
  · exact ⟨_, rfl⟩
  · exact ⟨_, rfl⟩

theorem query_of_initial (h : s.view = .initial) : s.store.query = "" := by
  by_contra hq
  unfold view resolveSearchView at h
  rw [if_neg hq] at h
  split_ifs at h

/-- A search for a query. -/
theorem SearchMove.runSearch {q : String} {tab : SearchTab} {st : SearchStore} {tab' : SearchTab}
    (hne : ∀ p a, l ≠ .answer p a) (hl : s.searches l = decide (trim q ≠ ""))
    (hclear : clears l = false) (hblank : trim q = "" → trim s.store.query = "")
    (hquery : st.query = q) (hsearching : st.isSearching = s.store.isSearching) :
    SearchMove getTime s l ({ s with store := st, activeTab := tab' }.runSearch q tab) := by
  unfold SearchScreen.runSearch
  by_cases hq : trim q = ""
  · simp only [if_pos hq]
    exact .cleared hne (by simp [hl, hq]) (.inr ⟨hclear, hblank hq⟩) rfl rfl hsearching
  · simp only [if_neg hq]
    subst hquery
    exact .began (by simp [hl, hq]) rfl rfl rfl hq

/-- A search for a query that is tapped; the query is empty then. -/
theorem SearchMove.onQueryPress {q : String} (hne : ∀ p a, l ≠ .answer p a)
    (hl : s.searches l = decide (trim q ≠ "")) (hclear : clears l = false)
    (hview : s.view = .initial) :
    SearchMove getTime s l (s.onQueryPress q) := by
  unfold SearchScreen.onQueryPress
  obtain ⟨recent, he⟩ := commitQuery_eq (s.store.setQuery q)
  rw [he]
  refine .runSearch hne hl hclear (fun _ => ?_) rfl rfl
  rw [query_of_initial hview]
  decide

/-- **What a step can do.** -/
theorem SearchMove.of_step (h : step getTime s l = some s') : SearchMove getTime s l s' := by
  cases l with
  | onChangeText t =>
    obtain rfl := Option.some.inj h
    by_cases ht : trim t = ""
    · simp only [if_pos ht]
      exact .cleared nofun rfl (.inl (by simp [clears, ht])) rfl rfl rfl
    · simp only [if_neg ht]
      exact .kept nofun rfl (by simp [clears, ht]) rfl rfl rfl fun hq => absurd hq ht
  | onClear =>
    obtain ⟨-, he⟩ := Option.ite_none_left_eq_some.1 h
    obtain rfl := Option.some.inj he
    exact .cleared nofun rfl (.inl rfl) rfl rfl rfl
  | onSubmit =>
    obtain rfl := Option.some.inj h
    obtain ⟨recent, he⟩ := commitQuery_eq s.store
    rw [he]
    exact .runSearch nofun rfl rfl id rfl rfl
  | onRecentPress q =>
    obtain ⟨⟨hview, -⟩, he⟩ := Option.ite_none_right_eq_some.1 h
    obtain rfl := Option.some.inj he
    exact .onQueryPress nofun rfl rfl hview
  | removeRecentQuery q =>
    obtain ⟨-, he⟩ := Option.ite_none_right_eq_some.1 h
    obtain rfl := Option.some.inj he
    exact .kept nofun rfl rfl rfl rfl rfl id
  | onChipPress text =>
    obtain ⟨⟨hview, -⟩, he⟩ := Option.ite_none_right_eq_some.1 h
    obtain rfl := Option.some.inj he
    exact .onQueryPress nofun rfl rfl hview
  | onTabChange tab =>
    obtain rfl := Option.some.inj h
    split_ifs with hq
    · exact .kept nofun (by simp [searches, hq]) rfl rfl rfl rfl id
    · exact .runSearch nofun rfl rfl id rfl rfl
  | answer p a =>
    obtain ⟨hp, he⟩ := Option.ite_none_right_eq_some.1 h
    obtain rfl := Option.some.inj he
    exact .answered hp
  | tick ms => cases h; exact .kept nofun rfl rfl rfl rfl rfl id

/-- What holds as long as the answers arrive in order: no error is shown while the last search
waits, and a blank query was cleared. -/
structure InOrder (x : SearchScreen × SearchHistory) : Prop extends ResultsCurrent x where
  no_error : ∀ p, x.2.last = some p → p ∈ x.1.calls.keys → x.1.store.searchError = none
  blank : trim x.1.store.query = "" → x.2.cleared = true

theorem update_of_ne {g : SearchHistory} (hne : ∀ p a, l ≠ .answer p a) :
    g.update getTime s l =
      if s.searches l then { g with last := some s.nextPid, cleared := false }
      else if clears l then { g with cleared := true }
      else g := by
  unfold SearchHistory.update
  split
  · exact absurd rfl (hne _ _)
  · rfl

namespace InOrder

/-- A search begins. -/
theorem began (h : s.searches l = true) (hne : ∀ p a, l ≠ .answer p a) {params : SearchParams}
    {g : SearchHistory} (hcalls : s'.calls = s.calls.push s.nextPid params)
    (hsearching : s'.store.isSearching = true) (herror : s'.store.searchError = none)
    (hquery : trim s'.store.query ≠ "") : InOrder (s', g.update getTime s l) := by
  have hg : g.update getTime s l = { g with last := some s.nextPid, cleared := false } :=
    (update_of_ne hne).trans (if_pos h)
  rw [hg]
  exact ⟨⟨fun hnil => absurd (hcalls ▸ hnil) Table.keys_push_ne_nil, fun _ _ _ => hsearching⟩,
    fun _ _ _ => herror, fun hq => absurd hq hquery⟩

/-- A search is answered. -/
theorem answered {g : SearchHistory} (h : InOrder (s, g)) {p : ℕ} {a : SearchAnswer}
    (hp : p ∈ s.calls.keys) (hok : AnswersInOrder (s, g) (.answer p a)) :
    InOrder ({ s with store := s.onAnswer getTime a, calls := s.calls.erase p },
      g.update getTime s (.answer p a)) := by
  obtain ⟨hfirst, hsettles⟩ := hok
  have hlast : (g.update getTime s (.answer p a)).last = g.last := by
    simp only [SearchHistory.update]
    split_ifs
    · rfl
    · rfl
  have hcleared : (g.update getTime s (.answer p a)).cleared = g.cleared := by
    simp only [SearchHistory.update]
    split_ifs
    · rfl
    · rfl
  have hquery : (s.onAnswer getTime a).query = s.store.query := by
    cases a with
    | items raw => rfl
    | error => rfl
  -- whatever still waits is not the last search
  have hother : ∀ q, g.last = some q → q ∉ (s.calls.erase p).keys := by
    intro q hq hm
    rw [Table.keys_erase] at hm
    obtain ⟨hm, hne⟩ := List.mem_filter.1 hm
    exact of_decide_eq_true hne (hfirst q hq hm)
  refine ⟨⟨fun hnil => ?_, fun q hq hw => ?_⟩, fun q hq hw => ?_, fun hq => ?_⟩
  · obtain ⟨hl, hc⟩ := hsettles (Table.keys_erase_eq_nil.1 hnil)
    have herror : s.store.searchError = none := h.no_error p hl hp
    have hout : (g.update getTime s (.answer p a)).outcome =
        SearchHistory.outcomeOf getTime s.now a := by
      simp only [SearchHistory.update, if_pos hl]
    have hexp : (g.update getTime s (.answer p a)).expected =
        SearchHistory.outcomeOf getTime s.now a := by
      rw [SearchHistory.expected, hcleared, hc, hout]
      rfl
    rw [hexp]
    cases a with
    | items raw => exact congrArg _ herror
    | error => rfl
  · exact absurd hw (hother q (hlast.symm.trans hq))
  · exact absurd hw (hother q (hlast.symm.trans hq))
  · rw [hcleared]
    exact h.blank (hquery ▸ hq)

/-- **What one step does to the results.** -/
theorem step (h : InOrder x) (hok : AnswersInOrder x l)
    (hst : (searchScreen getTime).step x l x') : InOrder x' := by
  obtain ⟨s, g⟩ := x
  obtain ⟨s', hs, he⟩ := Option.map_eq_some_iff.1 hst
  cases he
  have hmove := SearchMove.of_step hs
  cases hmove with
  | began hl hcalls hsearching herror hquery =>
    have hne : ∀ p a, l ≠ .answer p a := by
      rintro p a rfl
      cases hl
    exact began hl hne hcalls hsearching herror hquery
  | cleared hne hl hclear hcalls hshown hsearching =>
    have hg : g.update getTime s l = { g with cleared := true } := by
      rw [update_of_ne hne, hl]
      rcases hclear with hclear | ⟨hclear, hq⟩
      · rw [hclear]
        rfl
      · -- a blank query was cleared before
        have hc : { g with cleared := true } = g := by
          rw [← h.blank hq]
        rw [hclear, hc]
        rfl
    rw [hg]
    exact ⟨⟨fun _ => hshown, fun p hp hw => hsearching.trans (h.searching p hp (hcalls ▸ hw))⟩,
      fun _ _ _ => congrArg Prod.snd hshown, fun _ => rfl⟩
  | kept hne hl hclear hcalls hshown hsearching hquery =>
    have hg : g.update getTime s l = g := by
      rw [update_of_ne hne, hl, hclear]
      rfl
    rw [hg]
    exact ⟨⟨fun hnil => hshown.trans (h.results (hcalls ▸ hnil)),
        fun p hp hw => hsearching.trans (h.searching p hp (hcalls ▸ hw))⟩,
      fun p hp hw => (congrArg Prod.snd hshown).trans (h.no_error p hp (hcalls ▸ hw)),
      fun hq => h.blank (hquery hq)⟩
  | answered hp => exact h.answered hp hok

theorem of_reachable (h : ((searchScreen getTime).guard AnswersInOrder).Reachable x) :
    InOrder x := by
  refine h.invariant ?_ fun x l x' hx hst => hx.step hst.1 hst.2
  rintro ⟨s, g⟩ ⟨⟨now, rfl⟩, rfl⟩
  exact ⟨⟨fun _ => rfl, nofun⟩, nofun, fun _ => rfl⟩

end InOrder

/-- **When the results belong to the current search.**  In a run whose answers arrive in order the
screen shows the outcome of the last search, or nothing after the query was cleared, whenever no
request waits, and it shows that it searches while the last search waits. -/
theorem results_current_of_inOrder
    (h : ((searchScreen getTime).guard AnswersInOrder).Reachable x) : ResultsCurrent x :=
  (InOrder.of_reachable h).toResultsCurrent

/-- An answer is that to the last search, whose query was not cleared, and no other search waits. -/
def checkOrder (x : SearchScreen × SearchHistory) : SearchLabel → Bool
  | .answer p _ => x.1.calls.keys = [p] ∧ x.2.last = some p ∧ x.2.cleared = false
  | _ => true

theorem answersInOrder_of_checkOrder (h : checkOrder x l = true) : AnswersInOrder x l := by
  cases l with
  | answer p a =>
    obtain ⟨hkeys, hl, hc⟩ := of_decide_eq_true h
    exact ⟨fun q _ hq => List.mem_singleton.1 (hkeys ▸ hq), fun _ => ⟨hl, hc⟩⟩
  | _ => trivial

/-- A search fails, the query is cleared, and another search succeeds. -/
def failThenFind : List SearchLabel :=
  [.onChangeText "a", .onSubmit, .answer 0 .error, .onClear, .onChangeText "b", .onSubmit,
    .answer 1 (.items (some [meetingItem "b"]))]

theorem results_current_of_inOrder_failThenFind :
    ∃ x, ((searchScreen epoch).guard AnswersInOrder).Reachable x ∧ x.1.calls.keys = [] ∧
      x.1.store.results.map ServerRecordingCache.id = ["b"] ∧ ResultsCurrent x := by
  have hrun : (LTS.exec (fun x l => if checkOrder x l then
      LTS.recorded (step epoch) (SearchHistory.update epoch) x l else none)
      (init 0, .empty) failThenFind).map (fun x =>
        (x.1.calls.keys, x.1.store.results.map ServerRecordingCache.id)) = some ([], ["b"]) := by
    decide +kernel
  obtain ⟨x, hx, he⟩ := Option.map_eq_some_iff.1 hrun
  obtain ⟨hkeys, hids⟩ := Prod.mk.inj he
  have hr : ((searchScreen epoch).guard AnswersInOrder).Reachable x :=
    LTS.guard_reachable_of_check (fun _ _ => answersInOrder_of_checkOrder)
      (.start ⟨⟨0, rfl⟩, rfl⟩) hx
  exact ⟨x, hr, hkeys, hids, results_current_of_inOrder hr⟩

/-- The answer to the older search arrives last. -/
theorem results_overwritten :
    ¬ ∀ getTime tr x, (searchScreen getTime).Run tr x → ResultsCurrent x := by
  intro h
  have hrun : (LTS.exec (LTS.recorded (step epoch) (SearchHistory.update epoch))
      (init 0, .empty) [.onChangeText "a", .onSubmit, .onChangeText "b", .onSubmit,
        .answer 1 (.items (some [meetingItem "b"])),
        .answer 0 (.items (some [meetingItem "a"]))]).map (fun x =>
          (x.1.calls.keys, decide (x.1.store.shown = x.2.expected))) = some ([], false) := by
    decide +kernel
  obtain ⟨x, hx, he⟩ := Option.map_eq_some_iff.1 hrun
  obtain ⟨tr, htr, -⟩ := LTS.run_of_exec
    (LTS.Run.start (A := searchScreen epoch) ⟨⟨0, rfl⟩, rfl⟩) hx
  obtain ⟨hkeys, hexp⟩ := Prod.mk.inj he
  exact of_decide_eq_false hexp ((h epoch tr x htr).results hkeys)

end SearchScreen

end FCord
