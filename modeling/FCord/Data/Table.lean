import Mathlib.Data.List.Nodup
import Mathlib.Data.Nat.Notation
import Mathlib.Tactic.TypeStar

/-!
# Keyed tables

A `Table κ ρ` is a finite list of records in insertion order, no two of them with the same
key: a database table with its record ids, or the set of running activities of a process
with their ids.  That the keys are distinct is a field of the structure, so a lookup
(`Table.get?`) and membership agree (`Table.get?_eq_some_iff`).

* `Table.push` appends a record under a fresh key (and does nothing if the key is taken),
* `Table.set` and `Table.modify` replace the record of an existing key in place,
* `Table.erase` removes one,
* `Table.idsWhere` is a query: the keys of the records that satisfy a condition, in order.
-/

namespace FCord

/-- A finite table of records of type `ρ` with distinct keys of type `κ`. -/
structure Table (κ : Type*) (ρ : Type*) where
  /-- The records with their keys, in insertion order. -/
  entries : List (κ × ρ)
  /-- No key occurs twice. -/
  nodup : (entries.map Prod.fst).Nodup

namespace Table

variable {κ ρ : Type*}

/-- The empty table. -/
def empty : Table κ ρ := ⟨[], List.nodup_nil⟩

instance : Inhabited (Table κ ρ) := ⟨empty⟩

/-- The keys of a table, in insertion order. -/
def keys (t : Table κ ρ) : List κ := t.entries.map Prod.fst

/-- The records of a table, in insertion order. -/
def values (t : Table κ ρ) : List ρ := t.entries.map Prod.snd

/-- The keys of the records that satisfy `P`. -/
def idsWhere (t : Table κ ρ) (P : ρ → Bool) : List κ :=
  (t.entries.filter fun e => P e.2).map Prod.fst

variable [DecidableEq κ]

/-- The record with key `k`. -/
def get? (t : Table κ ρ) (k : κ) : Option ρ :=
  (t.entries.find? fun e => e.1 = k).map Prod.snd

/-- Apply `f` to the record with key `k`. -/
def modify (t : Table κ ρ) (k : κ) (f : ρ → ρ) : Table κ ρ where
  entries := t.entries.map fun e => if e.1 = k then (e.1, f e.2) else e
  nodup := by
    have h : (t.entries.map fun e => if e.1 = k then (e.1, f e.2) else e).map Prod.fst =
        t.entries.map Prod.fst := by
      rw [List.map_map]
      refine List.map_congr_left fun e _ => ?_
      simp only [Function.comp_apply]
      split_ifs <;> rfl
    rw [h]
    exact t.nodup

/-- Replace the record with key `k`. -/
def set (t : Table κ ρ) (k : κ) (v : ρ) : Table κ ρ := t.modify k fun _ => v

/-- Append a record under a fresh key; a key that is taken keeps its record. -/
def push (t : Table κ ρ) (k : κ) (v : ρ) : Table κ ρ :=
  if h : k ∈ t.entries.map Prod.fst then t
  else ⟨t.entries ++ [(k, v)], by
    rw [List.map_append]
    refine List.Nodup.append t.nodup (List.nodup_singleton k) ?_
    simpa [List.disjoint_singleton] using h⟩

/-- Remove the record with key `k`. -/
def erase (t : Table κ ρ) (k : κ) : Table κ ρ where
  entries := t.entries.filter fun e => e.1 ≠ k
  nodup := List.Sublist.nodup (List.filter_sublist.map _) t.nodup

/-- Insert a record, replacing the one with the same key. -/
def insert (t : Table κ ρ) (k : κ) (v : ρ) : Table κ ρ := (t.push k v).set k v

variable {t : Table κ ρ} {k k' : κ} {v w : ρ}

theorem get?_eq_some_iff : t.get? k = some v ↔ (k, v) ∈ t.entries := by
  unfold get?
  constructor
  · intro h
    obtain ⟨⟨k₁, v₁⟩, he, rfl⟩ := Option.map_eq_some_iff.1 h
    have hk : k₁ = k := by simpa using List.find?_some he
    exact hk ▸ List.mem_of_find?_eq_some he
  · intro h
    have hsome : (t.entries.find? fun e => e.1 = k).isSome := by
      rw [List.find?_isSome]
      exact ⟨_, h, by simp⟩
    obtain ⟨⟨k₁, v₁⟩, he⟩ := Option.isSome_iff_exists.1 hsome
    have hk : k₁ = k := by simpa using List.find?_some he
    have hmem := List.mem_of_find?_eq_some he
    have := List.inj_on_of_nodup_map t.nodup hmem h hk
    rw [he, this]
    rfl

theorem get?_eq_none_iff : t.get? k = none ↔ k ∉ t.keys := by
  rw [← not_iff_not, ← ne_eq, Option.ne_none_iff_exists', not_not, keys, List.mem_map]
  constructor
  · rintro ⟨v, hv⟩
    exact ⟨_, get?_eq_some_iff.1 hv, rfl⟩
  · rintro ⟨⟨_, v⟩, he, rfl⟩
    exact ⟨v, get?_eq_some_iff.2 he⟩

theorem mem_keys_of_get? (h : t.get? k = some v) : k ∈ t.keys :=
  List.mem_map.2 ⟨_, get?_eq_some_iff.1 h, rfl⟩

/-- An empty table has no records. -/
theorem get?_ne_some (h : t.keys = []) : t.get? k ≠ some v :=
  fun hv => List.ne_nil_of_mem (mem_keys_of_get? hv) h

theorem eq_of_keys (h : t.keys = [k]) (hv : t.get? k' = some v) : k' = k :=
  List.mem_singleton.1 (h ▸ mem_keys_of_get? hv)

theorem mem_values_iff : v ∈ t.values ↔ ∃ k, t.get? k = some v := by
  simp only [values, List.mem_map, get?_eq_some_iff]
  constructor
  · rintro ⟨⟨k, _⟩, he, rfl⟩; exact ⟨k, he⟩
  · rintro ⟨k, he⟩; exact ⟨_, he, rfl⟩

@[simp] theorem get?_empty : (empty : Table κ ρ).get? k = none := rfl

omit [DecidableEq κ] in
@[simp] theorem values_empty : (empty : Table κ ρ).values = [] := rfl

theorem get?_modify {f : ρ → ρ} :
    (t.modify k f).get? k' = if k' = k then (t.get? k').map f else t.get? k' := by
  have hcomp : (fun e : κ × ρ => decide (e.1 = k')) ∘
      (fun e => if e.1 = k then (e.1, f e.2) else e) = fun e => decide (e.1 = k') := by
    funext e
    simp only [Function.comp_apply]
    split_ifs <;> rfl
  simp only [get?, modify, List.find?_map, hcomp]
  cases h : t.entries.find? fun e => decide (e.1 = k') with
  | none => simp
  | some e =>
    have hk : e.1 = k' := by simpa using List.find?_some h
    subst hk
    by_cases hek : e.1 = k <;> simp [hek]

theorem get?_set :
    (t.set k v).get? k' = if k' = k then (t.get? k').map (fun _ => v) else t.get? k' :=
  get?_modify

theorem get?_set_self (h : t.get? k = some w) : (t.set k v).get? k = some v := by
  simp [get?_set, h]

theorem get?_set_of_ne (h : k' ≠ k) : (t.set k v).get? k' = t.get? k' := by
  simp [get?_set, h]

theorem get?_erase : (t.erase k).get? k' = if k' = k then none else t.get? k' := by
  apply Option.ext
  intro v
  rw [get?_eq_some_iff]
  split_ifs with h
  · simp [erase, h]
  · simp [erase, h, get?_eq_some_iff]

theorem push_entries (h : k ∉ t.keys) : (t.push k v).entries = t.entries ++ [(k, v)] := by
  unfold push
  exact congrArg entries (dif_neg h)

theorem get?_push (h : k ∉ t.keys) :
    (t.push k v).get? k' = if k' = k then some v else t.get? k' := by
  apply Option.ext
  intro u
  rw [get?_eq_some_iff, push_entries h]
  split_ifs with hk
  · subst hk
    have : (k', u) ∉ t.entries := fun hm => h (List.mem_map.2 ⟨_, hm, rfl⟩)
    simp [this, eq_comm]
  · simp [hk, get?_eq_some_iff]

theorem get?_insert :
    (t.insert k v).get? k' = if k' = k then some v else t.get? k' := by
  rw [insert, get?_set]
  by_cases hk : k ∈ t.entries.map Prod.fst
  · have hsame : t.push k v = t := dif_pos hk
    rw [hsame]
    split_ifs with he
    · obtain ⟨w, hw⟩ := Option.ne_none_iff_exists'.1 fun hn => get?_eq_none_iff.1 hn hk
      rw [he, hw, Option.map_some]
    · rfl
  · rw [get?_push hk]
    split_ifs
    · rfl
    · rfl

/-! Where a record of a changed table comes from. -/

theorem of_get?_set (h : (t.set k v).get? k' = some w) :
    k' = k ∧ w = v ∨ k' ≠ k ∧ t.get? k' = some w := by
  rw [get?_set] at h
  split_ifs at h with hk
  · obtain ⟨_, _, he⟩ := Option.map_eq_some_iff.1 h
    exact .inl ⟨hk, he.symm⟩
  · exact .inr ⟨hk, h⟩

theorem of_get?_push (hk : k ∉ t.keys) (h : (t.push k v).get? k' = some w) :
    k' = k ∧ w = v ∨ k' ≠ k ∧ t.get? k' = some w := by
  rw [get?_push hk] at h
  split_ifs at h with he
  · exact .inl ⟨he, (Option.some.inj h).symm⟩
  · exact .inr ⟨he, h⟩

/-- Also where the key is taken. -/
theorem eq_or_get?_of_push (h : (t.push k v).get? k' = some w) : w = v ∨ t.get? k' = some w := by
  by_cases hk : k ∈ t.keys
  · have hsame : t.push k v = t := dif_pos hk
    exact .inr (hsame ▸ h)
  · exact (of_get?_push hk h).imp And.right And.right

theorem of_get?_erase (h : (t.erase k).get? k' = some w) : k' ≠ k ∧ t.get? k' = some w := by
  rw [get?_erase] at h
  split_ifs at h with hk
  exact ⟨hk, h⟩

@[simp] theorem keys_modify {f : ρ → ρ} : (t.modify k f).keys = t.keys := by
  simp only [keys, modify, List.map_map]
  refine List.map_congr_left fun e _ => ?_
  simp only [Function.comp_apply]
  split_ifs <;> rfl

@[simp] theorem keys_set : (t.set k v).keys = t.keys := keys_modify

theorem keys_erase : (t.erase k).keys = t.keys.filter fun k' => k' ≠ k := by
  simp only [keys, erase, List.filter_map]
  rfl

theorem keys_push (h : k ∉ t.keys) : (t.push k v).keys = t.keys ++ [k] := by
  simp [keys, push_entries h]

theorem length_keys_push_le : (t.push k v).keys.length ≤ t.keys.length + 1 := by
  unfold push
  split
  · omega
  · simp [keys]

theorem length_keys_erase (h : k ∈ t.keys) : (t.erase k).keys.length + 1 = t.keys.length := by
  have hnodup : t.keys.Nodup := t.nodup
  have hfilter : t.keys.filter (fun k' => k' ≠ k) = t.keys.erase k := by
    rw [hnodup.erase_eq_filter]
    exact List.filter_congr fun k' _ => by by_cases hk : k' = k <;> simp [hk]
  have hpos := List.length_pos_of_mem h
  rw [keys_erase, hfilter, List.length_erase_of_mem h]
  omega

theorem keys_push_ne_nil : (t.push k v).keys ≠ [] := by
  by_cases hk : k ∈ t.keys
  · have hsame : t.push k v = t := dif_pos hk
    exact List.ne_nil_of_mem (hsame ▸ hk)
  · rw [keys_push hk]
    exact List.append_ne_nil_of_right_ne_nil _ (List.cons_ne_nil _ _)

theorem keys_erase_eq_nil : (t.erase k).keys = [] ↔ ∀ k' ∈ t.keys, k' = k := by
  simp [keys_erase, List.filter_eq_nil_iff]

theorem mem_keys_of_erase (h : k' ∈ (t.erase k).keys) : k' ∈ t.keys := by
  rw [keys_erase] at h
  exact List.mem_of_mem_filter h

theorem values_push (h : k ∉ t.keys) : (t.push k v).values = t.values ++ [v] := by
  simp [values, push_entries h]

/-- Changing a record to one with the same image under `f` leaves the images unchanged. -/
theorem map_values_modify {β : Type*} {f : ρ → β} {g : ρ → ρ}
    (h : ∀ w, t.get? k = some w → f (g w) = f w) :
    (t.modify k g).values.map f = t.values.map f := by
  simp only [values, modify, List.map_map]
  refine List.map_congr_left fun e he => ?_
  simp only [Function.comp_apply]
  split_ifs with hek
  · exact h e.2 (get?_eq_some_iff.2 (hek ▸ he))
  · rfl

theorem map_values_set {β : Type*} {f : ρ → β} (h : t.get? k = some w) (hf : f v = f w) :
    (t.set k v).values.map f = t.values.map f := by
  refine map_values_modify fun w' hw' => ?_
  rw [h] at hw'
  cases hw'
  exact hf

/-- If `f` separates the records of a table, erasing one erases its image. -/
theorem map_values_erase {β : Type*} [DecidableEq β] {f : ρ → β} (h : t.get? k = some w)
    (hn : (t.values.map f).Nodup) :
    (t.erase k).values.map f = (t.values.map f).filter fun b => b ≠ f w := by
  have hsep : ∀ e ∈ t.entries, e.1 = k ↔ f e.2 = f w := by
    intro e he
    have hw := get?_eq_some_iff.1 h
    constructor
    · intro hk
      have := List.inj_on_of_nodup_map t.nodup he hw hk
      rw [this]
    · intro hf
      simp only [values, List.map_map] at hn
      have := List.inj_on_of_nodup_map hn he hw hf
      rw [this]
  simp only [values, erase, List.map_map, List.filter_map]
  congr 1
  refine List.filter_congr fun e he => ?_
  simp [Function.comp_apply, hsep e he]

/-- Records that `f` separates have different images under different keys. -/
theorem eq_of_map_values_nodup {β : Type*} {f : ρ → β} (hn : (t.values.map f).Nodup)
    (h : t.get? k = some v) (h' : t.get? k' = some w) (hf : f v = f w) : k = k' := by
  simp only [values, List.map_map] at hn
  exact congrArg Prod.fst (List.inj_on_of_nodup_map hn (get?_eq_some_iff.1 h)
    (get?_eq_some_iff.1 h') hf)

theorem mem_idsWhere_iff {P : ρ → Bool} :
    k ∈ t.idsWhere P ↔ ∃ v, t.get? k = some v ∧ P v = true := by
  simp only [idsWhere, List.mem_map, List.mem_filter, get?_eq_some_iff]
  constructor
  · rintro ⟨⟨k, v⟩, ⟨hm, hp⟩, rfl⟩; exact ⟨v, hm, hp⟩
  · rintro ⟨v, hm, hp⟩; exact ⟨_, ⟨hm, hp⟩, rfl⟩

omit [DecidableEq κ] in
theorem nodup_idsWhere {P : ρ → Bool} : (t.idsWhere P).Nodup :=
  List.Sublist.nodup (List.filter_sublist.map _) t.nodup

/-! ### One record -/

omit [DecidableEq κ] in
theorem eq_of_entries {t t' : Table κ ρ} (h : t.entries = t'.entries) : t = t' := by
  cases t
  cases t'
  cases h
  rfl

theorem entries_push_empty : (empty.push k v).entries = [(k, v)] := push_entries List.not_mem_nil

theorem get?_push_empty : (empty.push k v).get? k' = if k' = k then some v else none := by
  rw [get?_push List.not_mem_nil]
  rfl

theorem set_push_empty : (empty.push k v).set k w = empty.push k w := by
  refine eq_of_entries ?_
  rw [entries_push_empty, set, modify]
  simp [entries_push_empty]

theorem erase_push_empty : (empty.push k v).erase k = empty := by
  refine eq_of_entries ?_
  rw [erase]
  simp only [entries_push_empty]
  simp [empty]

/-! ### Ids given out in order -/

section Ids

variable {t : Table ℕ ρ} {n : ℕ} {v : ρ}

theorem not_mem_of_lt (h : ∀ k ∈ t.keys, k < n) : n ∉ t.keys :=
  fun hm => Nat.lt_irrefl n (h n hm)

/-- Pushing the next id. -/
theorem lt_of_mem_push (h : ∀ k ∈ t.keys, k < n) {k : ℕ} (hk : k ∈ (t.push n v).keys) :
    k < n + 1 := by
  rw [keys_push (not_mem_of_lt h), List.mem_append, List.mem_singleton] at hk
  rcases hk with hk | rfl
  · exact Nat.lt_succ_of_lt (h k hk)
  · exact Nat.lt_succ_self _

end Ids

end Table

end FCord
