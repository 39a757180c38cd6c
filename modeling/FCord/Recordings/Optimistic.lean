import FCord.Recordings.Screens

/-!
# Optimistic changes of the recording list

Two handlers change the list before or after the server has answered, and other operations run
while they wait.

* A delete removes its item at once and puts a snapshot of it back when the server refuses.  It is
  as if nothing had been deleted only in a narrow case (`rollback_exact_iff`): the snapshot goes to
  the front, and whatever brought the item back in the meantime stays.
* A save puts its item in front of the list that was shown when the button was pressed, with the
  operation that replaces the list (`saved_keeps_iff`).
-/

namespace FCord

namespace ListOp

/-- One of `setItems`, `appendItems`, `updateItem` and `toggleStar`; as in every call of
`updateItem`, the patch has no id. -/
def IsEdit : ListOp → Prop
  | .setItems _ _ => True
  | .appendItems _ _ => True
  | .updateItem _ patch => patch.id = none
  | .toggleStar _ => True
  | _ => False

instance (op : ListOp) : Decidable op.IsEdit :=
  match op with
  | .setItems _ _ => .isTrue trivial
  | .appendItems _ _ => .isTrue trivial
  | .updateItem _ patch => inferInstanceAs (Decidable (patch.id = none))
  | .toggleStar _ => .isTrue trivial
  | .removeItem _ => .isFalse False.elim
  | .restoreItem _ => .isFalse False.elim
  | .reset => .isFalse False.elim

/-- What an operation does to one item that stays in the list. -/
def onItem (item : ServerRecordingCache) : ListOp → ServerRecordingCache
  | .updateItem id patch => if item.id = id then patch.apply item else item
  | .toggleStar id => if item.id = id then item.flipStar else item
  | _ => item

/-- The operation does not bring the item `id` into a list that lacks it. -/
def LeavesOut (id : String) : ListOp → Prop
  | .setItems _ _ => False
  | .appendItems newItems _ => id ∉ newItems.map ServerRecordingCache.id
  | _ => True

instance (id : String) (op : ListOp) : Decidable (op.LeavesOut id) :=
  match op with
  | .setItems _ _ => .isFalse False.elim
  | .appendItems newItems _ =>
    inferInstanceAs (Decidable (id ∉ newItems.map ServerRecordingCache.id))
  | .updateItem _ _ => .isTrue trivial
  | .toggleStar _ => .isTrue trivial
  | .removeItem _ => .isTrue trivial
  | .restoreItem _ => .isTrue trivial
  | .reset => .isTrue trivial

end ListOp

/-- An edit of the store, as an edit of a keyed list. -/
theorem ListOp.IsEdit.exists_edit {op : ListOp} (h : op.IsEdit) :
    ∃ e : Keyed.Edit ServerRecordingCache String, e.KeepsKeys ServerRecordingCache.id ∧
      (∀ s : RecordingListStore, (op.apply s).items = e.apply ServerRecordingCache.id s.items) ∧
      (∀ id, e.Skips ServerRecordingCache.id id ↔ op.LeavesOut id) ∧
      ∀ item, e.onRecord ServerRecordingCache.id item = op.onItem item := by
  cases op with
  | setItems items nextCursor =>
    exact ⟨.replace items, trivial, fun _ => rfl, fun _ => Iff.rfl, fun _ => rfl⟩
  | appendItems items nextCursor =>
    exact ⟨.append items, trivial, fun _ => rfl, fun _ => Iff.rfl, fun _ => rfl⟩
  | updateItem id patch =>
    have h : patch.id = none := h
    exact ⟨.update id patch.apply, fun a => by simp [RecordingPatch.apply, h], fun _ => rfl,
      fun _ => Iff.rfl, fun _ => rfl⟩
  | toggleStar id =>
    exact ⟨.update id ServerRecordingCache.flipStar, fun _ => rfl, fun _ => rfl, fun _ => Iff.rfl,
      fun _ => rfl⟩
  | _ => exact h.elim

/-- The items after some edits, as a run of the keyed list. -/
theorem items_run {ops : List ListOp} (h : ∀ op ∈ ops, op.IsEdit) :
    ∃ edits : List (Keyed.Edit ServerRecordingCache String),
      (∀ e ∈ edits, e.KeepsKeys ServerRecordingCache.id) ∧
      (∀ s : RecordingListStore,
        (s.run ops).items = Keyed.run ServerRecordingCache.id edits s.items) ∧
      (∀ id, (∀ e ∈ edits, e.Skips ServerRecordingCache.id id) ↔ ∀ op ∈ ops, op.LeavesOut id) ∧
      ∀ item, Keyed.evolve ServerRecordingCache.id edits item = ops.foldl ListOp.onItem item := by
  induction ops with
  | nil => exact ⟨[], by simp, fun _ => rfl, by simp, fun _ => rfl⟩
  | cons op ops ih =>
    obtain ⟨edits, hkeys, hrun, hskips, hevolve⟩ :=
      ih fun op' hm => h op' (List.mem_cons_of_mem _ hm)
    obtain ⟨e, hkey, happly, hskip, hrecord⟩ := (h op List.mem_cons_self).exists_edit
    refine ⟨e :: edits, ?_, fun s => ?_, fun id => ?_, fun item => ?_⟩
    · exact List.forall_mem_cons.2 ⟨hkey, hkeys⟩
    · have := hrun (op.apply s)
      rw [happly] at this
      exact this
    · rw [List.forall_mem_cons, List.forall_mem_cons, hskip, hskips]
    · rw [List.foldl_cons, ← hrecord]
      exact hevolve _

/-! ### A failed delete -/

namespace RecordingListStore

variable (s : RecordingListStore)

/-- `onDeleteConfirm` of the item shown as `target`, while `ops` run before the server refuses. -/
def failDelete (target : ServerRecordingCache) (ops : List ListOp) : RecordingListStore :=
  ((s.removeItem target.id).run ops).restoreItem target

variable {s}

/-- **When a failed delete rolls back exactly.**  The item `x` is deleted through the snapshot
`target`, and edits run before the server refuses.  The list is the one that the edits alone would
have made exactly if `x` was its first item, no edit brought it back, and `target` is what the
edits would have made of `x`. -/
theorem rollback_exact_iff {before after : List ServerRecordingCache}
    {x target : ServerRecordingCache} {ops : List ListOp} (hitems : s.items = before ++ x :: after)
    (hd : s.IdsDistinct) (htarget : target.id = x.id) (hops : ∀ op ∈ ops, op.IsEdit) :
    (s.failDelete target ops).items = (s.run ops).items ↔
      before = [] ∧ (∀ op ∈ ops, op.LeavesOut x.id) ∧ target = ops.foldl ListOp.onItem x := by
  obtain ⟨edits, hkeys, hrun, hskips, hevolve⟩ := items_run hops
  unfold IdsDistinct at hd
  rw [hitems] at hd
  have hmain := Keyed.cons_run_remove_eq_iff hd htarget hkeys
  rw [hskips, hevolve] at hmain
  rw [← hmain, failDelete, hrun, restoreItem, hrun, removeItem, hitems, htarget]

/-- Two meetings. -/
def twoMeetings : RecordingListStore := initial.setItems [listed "a", listed "b"] none

/-- The first one is deleted, and its star is set before the server refuses. -/
theorem rollback_exact_iff_twoMeetings :
    (twoMeetings.failDelete (listed "a") [.toggleStar "b"]).items =
      (twoMeetings.run [.toggleStar "b"]).items := by
  have hitems : twoMeetings.items = [] ++ listed "a" :: [listed "b"] := rfl
  exact (rollback_exact_iff hitems (by decide) rfl (by decide)).2 ⟨rfl, by decide, by decide⟩

/-- The second one is deleted, and nothing else happens before the server refuses. -/
theorem rollback_moves_item :
    ¬ ∀ (s : RecordingListStore) (x : ServerRecordingCache) (ops : List ListOp), s.IdsDistinct →
      x ∈ s.items → (∀ op ∈ ops, op.IsEdit) → (s.failDelete x ops).items = (s.run ops).items := by
  intro h
  have := h twoMeetings (listed "b") [] (by decide) (by decide) (by decide)
  exact absurd this (by decide)

/-! ### A save -/

/-- `onSave` of the item `new`, pressed while the store is `s`; `ops` run before the upload has
succeeded. -/
def save (s : RecordingListStore) (new : ServerRecordingCache) (ops : List ListOp) :
    RecordingListStore :=
  (s.run ops).insertSaved s.items new

/-- **When a save keeps what the other operations did.**  The item is put in front of the items as
the operations left them, and paging is what it was, exactly if the operations have left the items
that were shown when the button was pressed, without the new id, and there are no more pages. -/
theorem saved_keeps_iff (s : RecordingListStore) (new : ServerRecordingCache) (ops : List ListOp) :
    ((s.save new ops).items =
        new :: (s.run ops).items.filter (fun item => item.id ≠ new.id) ∧
      (s.save new ops).nextCursor = (s.run ops).nextCursor ∧
      (s.save new ops).hasMore = (s.run ops).hasMore) ↔
    s.items = (s.run ops).items.filter (fun item => item.id ≠ new.id) ∧
      (s.run ops).nextCursor = none ∧ (s.run ops).hasMore = false := by
  simp only [save, insertSaved, setItems, hasCursor, Option.any_none, List.cons.injEq, true_and]
  exact and_congr_right fun _ => and_congr eq_comm eq_comm

/-- A star that is set during the upload is lost. -/
theorem save_loses_star :
    ¬ ∀ (s : RecordingListStore) (new : ServerRecordingCache) (ops : List ListOp),
      (∀ op ∈ ops, op ≠ .reset) →
      (s.save new ops).items =
          new :: (s.run ops).items.filter (fun item => item.id ≠ new.id) ∧
        (s.save new ops).nextCursor = (s.run ops).nextCursor ∧
        (s.save new ops).hasMore = (s.run ops).hasMore := by
  intro h
  have := (h twoMeetings (listed "c") [.toggleStar "a"] (by decide)).1
  exact absurd this (by decide)

end RecordingListStore

end FCord
