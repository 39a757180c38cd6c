import FCord.Data.Keyed
import FCord.LTS.Basic
import FCord.Recordings.Detail

/-!
# The store of the recording list

`useRecordingListStore` holds the recordings that the list and the detail screen show.  Its items
are identified by their ids; the operations that change one item by its id are those of
`FCord.Data.Keyed`, which do not require the ids to be distinct.

`appendItems` drops what is in the list already, but `restoreItem` does not look
(`duplicate_by_restore`): the ids stay distinct exactly as long as every restored item is absent
from the list (`ids_distinct_iff`).
-/

namespace FCord

/-- The filter tabs of the list screen. -/
inductive FilterType where
  | all | processing | done | starred
  deriving DecidableEq, Repr

inductive SortType where
  | recent | duration
  deriving DecidableEq, Repr

/-- A `Partial<ServerRecordingCache>`: the members that are present, with their values. -/
structure RecordingPatch where
  id : Option String := none
  transcriptionId : Option (Option String) := none
  title : Option String := none
  note : Option (Option String) := none
  tags : Option (List String) := none
  isStarred : Option (Option Bool) := none
  languageHint : Option (Option String) := none
  durationMs : Option (Option ℕ) := none
  fileSizeBytes : Option (Option ℕ) := none
  uploadState : Option UploadState := none
  transcriptionState : Option TranscriptionState := none
  recordingState : Option RecordingState := none
  createdAt : Option ℕ := none
  updatedAt : Option ℕ := none
  transcriptPreview : Option (Option String) := none
  cachedAt : Option ℕ := none
  deriving DecidableEq, Repr

/-- `{ ...item, ...patch }`. -/
def RecordingPatch.apply (patch : RecordingPatch) (item : ServerRecordingCache) :
    ServerRecordingCache where
  id := patch.id.getD item.id
  transcriptionId := patch.transcriptionId.getD item.transcriptionId
  title := patch.title.getD item.title
  note := patch.note.getD item.note
  tags := patch.tags.getD item.tags
  isStarred := patch.isStarred.getD item.isStarred
  languageHint := patch.languageHint.getD item.languageHint
  durationMs := patch.durationMs.getD item.durationMs
  fileSizeBytes := patch.fileSizeBytes.getD item.fileSizeBytes
  uploadState := patch.uploadState.getD item.uploadState
  transcriptionState := patch.transcriptionState.getD item.transcriptionState
  recordingState := patch.recordingState.getD item.recordingState
  createdAt := patch.createdAt.getD item.createdAt
  updatedAt := patch.updatedAt.getD item.updatedAt
  transcriptPreview := patch.transcriptPreview.getD item.transcriptPreview
  cachedAt := patch.cachedAt.getD item.cachedAt

/-- The star of a recording is set. -/
def ServerRecordingCache.starred (item : ServerRecordingCache) : Bool := item.isStarred = some true

/-- `{ ...item, isStarred: !item.isStarred }`. -/
def ServerRecordingCache.flipStar (item : ServerRecordingCache) : ServerRecordingCache :=
  { item with isStarred := some !item.starred }

@[simp] theorem ServerRecordingCache.starred_flipStar (item : ServerRecordingCache) :
    item.flipStar.starred = !item.starred := by
  simp [flipStar, starred]

structure RecordingListStore where
  items : List ServerRecordingCache
  filter : FilterType
  sort : SortType
  searchQuery : String
  nextCursor : Option String
  hasMore : Bool
  isLoading : Bool
  isRefreshing : Bool
  deriving DecidableEq, Repr

namespace RecordingListStore

/-- The store of a fresh process. -/
def initial : RecordingListStore where
  items := []
  filter := .all
  sort := .recent
  searchQuery := ""
  nextCursor := none
  hasMore := true
  isLoading := false
  isRefreshing := false

variable (s : RecordingListStore)

/-- `!!nextCursor`. -/
def hasCursor (nextCursor : Option String) : Bool := nextCursor.any fun c => c ≠ ""

def setItems (items : List ServerRecordingCache) (nextCursor : Option String) :
    RecordingListStore :=
  { s with items := items, nextCursor := nextCursor, hasMore := hasCursor nextCursor }

def appendItems (newItems : List ServerRecordingCache) (nextCursor : Option String) :
    RecordingListStore :=
  { s with
    items := Keyed.appendFresh ServerRecordingCache.id s.items newItems
    nextCursor := nextCursor
    hasMore := hasCursor nextCursor }

def updateItem (id : String) (patch : RecordingPatch) : RecordingListStore :=
  { s with items := Keyed.update ServerRecordingCache.id id patch.apply s.items }

def removeItem (id : String) : RecordingListStore :=
  { s with items := Keyed.remove ServerRecordingCache.id id s.items }

def restoreItem (item : ServerRecordingCache) : RecordingListStore :=
  { s with items := item :: s.items }

def toggleStar (id : String) : RecordingListStore :=
  { s with items := Keyed.update ServerRecordingCache.id id ServerRecordingCache.flipStar s.items }

def setFilter (filter : FilterType) : RecordingListStore :=
  { s with filter := filter, nextCursor := none, hasMore := true }

def setSort (sort : SortType) : RecordingListStore :=
  { s with sort := sort, nextCursor := none, hasMore := true }

def setSearchQuery (q : String) : RecordingListStore := { s with searchQuery := q }

def setLoading (v : Bool) : RecordingListStore := { s with isLoading := v }

def setRefreshing (v : Bool) : RecordingListStore := { s with isRefreshing := v }

def reset : RecordingListStore := { s with items := [], nextCursor := none, hasMore := true }

end RecordingListStore

/-- A call of an operation of the store that concerns its items. -/
inductive ListOp where
  | setItems (items : List ServerRecordingCache) (nextCursor : Option String)
  | appendItems (newItems : List ServerRecordingCache) (nextCursor : Option String)
  | updateItem (id : String) (patch : RecordingPatch)
  | removeItem (id : String)
  | restoreItem (item : ServerRecordingCache)
  | toggleStar (id : String)
  | reset
  deriving DecidableEq, Repr

namespace ListOp

def apply (s : RecordingListStore) : ListOp → RecordingListStore
  | .setItems items nextCursor => s.setItems items nextCursor
  | .appendItems newItems nextCursor => s.appendItems newItems nextCursor
  | .updateItem id patch => s.updateItem id patch
  | .removeItem id => s.removeItem id
  | .restoreItem item => s.restoreItem item
  | .toggleStar id => s.toggleStar id
  | .reset => s.reset

end ListOp

/-- The store after some operations. -/
def RecordingListStore.run (s : RecordingListStore) (ops : List ListOp) : RecordingListStore :=
  ops.foldl ListOp.apply s

/-! ### Distinct ids -/

namespace RecordingListStore

/-- No id occurs twice. -/
def IdsDistinct (s : RecordingListStore) : Prop := Keyed.Distinct ServerRecordingCache.id s.items

instance (s : RecordingListStore) : Decidable s.IdsDistinct :=
  inferInstanceAs (Decidable (Keyed.Distinct _ _))

/-- The store together with the items that `removeItem` has taken out so far. -/
structure Traced where
  store : RecordingListStore
  removed : List ServerRecordingCache

/-- What the callers of the store guarantee: a list that is handed over has distinct ids, a patch
has no id, and a restored item was taken out earlier. -/
def Promised (x : Traced) : ListOp → Prop
  | .setItems items _ => Keyed.Distinct ServerRecordingCache.id items
  | .appendItems newItems _ => Keyed.Distinct ServerRecordingCache.id newItems
  | .updateItem _ patch => patch.id = none
  | .restoreItem item => item ∈ x.removed
  | _ => True

instance (x : Traced) (op : ListOp) : Decidable (Promised x op) := by
  cases op <;> unfold Promised <;> infer_instance

/-- The items that an operation takes out. -/
def takenOut (s : RecordingListStore) : ListOp → List ServerRecordingCache
  | .removeItem id => s.items.filter fun item => item.id = id
  | _ => []

/-- An operation, if it respects what the callers guarantee. -/
def Traced.step (x : Traced) (op : ListOp) : Option Traced :=
  if Promised x op then some ⟨op.apply x.store, x.removed ++ x.store.takenOut op⟩ else none

end RecordingListStore

open RecordingListStore in
/-- The store under any sequence of operations that respects what its callers guarantee. -/
def recordingListStore : LTS Traced ListOp := LTS.ofFn (· = ⟨.initial, []⟩) Traced.step

namespace RecordingListStore

/-- A restored item is absent from the list. -/
def RestoresAbsent (x : Traced) : ListOp → Prop
  | .restoreItem item => item.id ∉ x.store.items.map ServerRecordingCache.id
  | _ => True

theorem idsDistinct_step {x x' : Traced} {op : ListOp} (h : x.store.IdsDistinct)
    (hst : recordingListStore.step x op x') :
    x'.store.IdsDistinct ↔ RestoresAbsent x op := by
  obtain ⟨hp, he⟩ := Option.ite_none_right_eq_some.1 hst
  cases he
  cases op with
  | setItems items nextCursor => exact iff_of_true hp trivial
  | appendItems newItems nextCursor => exact iff_of_true (Keyed.distinct_appendFresh h hp) trivial
  | updateItem id patch =>
    have hp : patch.id = none := hp
    exact iff_of_true (Keyed.distinct_update h fun a => by simp [RecordingPatch.apply, hp]) trivial
  | removeItem id => exact iff_of_true (Keyed.distinct_remove h) trivial
  | restoreItem item => exact Keyed.distinct_cons.trans (and_iff_left h)
  | toggleStar id => exact iff_of_true (Keyed.distinct_update h fun a => rfl) trivial
  | reset => exact iff_of_true List.nodup_nil trivial

/-- **The ids stay distinct exactly as long as every restored item is absent from the list.** -/
theorem ids_distinct_iff {tr : List (Traced × ListOp)} {x : Traced}
    (h : recordingListStore.Run tr x) :
    ((∀ y ∈ tr, y.1.store.IdsDistinct) ∧ x.store.IdsDistinct) ↔
      ∀ y ∈ tr, RestoresAbsent y.1 y.2 := by
  have hinit : ∀ x, recordingListStore.start x → x.store.IdsDistinct := by
    rintro x rfl
    exact List.nodup_nil
  exact h.visited_iff (I := fun x => x.store.IdsDistinct) (P := fun x => x.store.IdsDistinct) hinit
    (fun _ h => h)
    (fun _ _ _ h hst hok => (idsDistinct_step h hst).2 hok)
    (fun _ _ _ h hst hd => (idsDistinct_step h hst).1 hd)

/-- A meeting as the list shows it. -/
def listed (id : String) : ServerRecordingCache where
  id := id
  title := id
  uploadState := .uploaded
  transcriptionState := .completed
  recordingState := .savedLocal
  createdAt := 0
  updatedAt := 0
  cachedAt := 0

/-- A failed delete. -/
def failedDelete : List ListOp :=
  [.setItems [listed "a", listed "b"] none, .removeItem "b", .restoreItem (listed "b")]

theorem ids_distinct_iff_failedDelete :
    ∃ tr x, recordingListStore.Run tr x ∧ tr.map Prod.snd = failedDelete ∧
      x.store.items = [listed "b", listed "a"] ∧
      (((∀ y ∈ tr, y.1.store.IdsDistinct) ∧ x.store.IdsDistinct) ↔
        ∀ y ∈ tr, RestoresAbsent y.1 y.2) := by
  have hrun : (LTS.exec Traced.step ⟨.initial, []⟩ failedDelete).map (fun x => x.store.items) =
      some [listed "b", listed "a"] := by decide +kernel
  obtain ⟨x, hx, hitems⟩ := Option.map_eq_some_iff.1 hrun
  obtain ⟨tr, htr, hls⟩ := LTS.run_of_exec (LTS.Run.start (A := recordingListStore) rfl) hx
  exact ⟨tr, x, htr, hls, hitems, ids_distinct_iff htr⟩

/-- A delete that fails after a refresh has brought the item back. -/
theorem duplicate_by_restore :
    ¬ ∀ tr x, recordingListStore.Run tr x → x.store.IdsDistinct := by
  intro h
  have hrun : (LTS.exec Traced.step ⟨.initial, []⟩
      [.setItems [listed "a"] none, .removeItem "a", .setItems [listed "a"] none,
        .restoreItem (listed "a")]).map (fun x => decide x.store.IdsDistinct) = some false := by
    decide +kernel
  obtain ⟨x, hx, hd⟩ := Option.map_eq_some_iff.1 hrun
  obtain ⟨tr, htr, -⟩ := LTS.run_of_exec (LTS.Run.start (A := recordingListStore) rfl) hx
  exact of_decide_eq_false hd (h tr x htr)

end RecordingListStore

end FCord
