import Mathlib.Data.List.Nodup
import Mathlib.Tactic.TypeStar

/-!
# Lists of records with a key

A client often keeps a list of records that are identified by a key: it replaces the whole list,
appends a page of records that are not there yet, changes the record with a given key, or removes
it.  The keys need not be distinct; whether they are is a property of the list (`Keyed.Distinct`).

## Main definitions

* `Keyed.update`, `Keyed.remove`, `Keyed.appendFresh` : the operations.
* `Keyed.Edit` : an operation that does not remove anything, and `Keyed.Edit.apply`.
* `Keyed.evolve` : what a list of edits does to the record with a given key.

## Main results

* `Keyed.distinct_appendFresh` and its siblings : the operations keep the keys distinct.
* `Keyed.cons_run_remove_eq_iff` : when a removed record that is put back in front of the list,
  after other edits, leaves no trace of its removal.
-/

namespace FCord

namespace Keyed

variable {α κ : Type*} [DecidableEq κ] (key : α → κ)

/-- Apply `f` to the records with key `k`. -/
def update (k : κ) (f : α → α) (l : List α) : List α := l.map fun a => if key a = k then f a else a

/-- Remove the records with key `k`. -/
def remove (k : κ) (l : List α) : List α := l.filter fun a => key a ≠ k

/-- Append the records of a page whose keys are not in the list. -/
def appendFresh (l page : List α) : List α :=
  l ++ page.filter fun b => !l.any fun a => key a = key b

/-- No key occurs twice. -/
def Distinct (l : List α) : Prop := (l.map key).Nodup

instance (l : List α) : Decidable (Distinct key l) := inferInstanceAs (Decidable (List.Nodup _))

variable {key} {k : κ} {f : α → α} {l m page : List α} {a x : α}

/-! ### Keys -/

theorem map_key_update (hf : ∀ a, key (f a) = key a) : (update key k f l).map key = l.map key := by
  rw [update, List.map_map]
  refine List.map_congr_left fun a _ => ?_
  simp only [Function.comp_apply]
  split_ifs
  · exact hf a
  · rfl

theorem mem_remove : a ∈ remove key k l ↔ a ∈ l ∧ key a ≠ k := by simp [remove]

theorem mem_update :
    a ∈ update key k f l ↔ (∃ b ∈ l, key b = k ∧ f b = a) ∨ a ∈ l ∧ key a ≠ k := by
  simp only [update, List.mem_map]
  constructor
  · rintro ⟨b, hb, rfl⟩
    split_ifs with he
    · exact .inl ⟨b, hb, he, rfl⟩
    · exact .inr ⟨hb, he⟩
  · rintro (⟨b, hb, he, rfl⟩ | ⟨ha, hne⟩)
    · exact ⟨b, hb, if_pos he⟩
    · exact ⟨a, ha, if_neg hne⟩

theorem mem_appendFresh : a ∈ appendFresh key l page ↔ a ∈ l ∨ a ∈ page ∧ key a ∉ l.map key := by
  rw [appendFresh, List.mem_append, List.mem_filter, List.mem_map]
  simp only [Bool.not_eq_true', List.any_eq_false, decide_eq_true_eq, not_exists, not_and]

theorem key_mem_appendFresh :
    k ∈ (appendFresh key l page).map key ↔ k ∈ l.map key ∨ k ∈ page.map key := by
  simp only [List.mem_map, mem_appendFresh]
  constructor
  · rintro ⟨a, ha | ⟨ha, -⟩, rfl⟩
    · exact .inl ⟨a, ha, rfl⟩
    · exact .inr ⟨a, ha, rfl⟩
  · rintro (⟨a, ha, rfl⟩ | ⟨a, ha, rfl⟩)
    · exact ⟨a, .inl ha, rfl⟩
    · by_cases hm : key a ∈ l.map key
      · obtain ⟨b, hb, he⟩ := List.mem_map.1 hm
        exact ⟨b, .inl hb, he⟩
      · exact ⟨a, .inr ⟨ha, by simpa using hm⟩, rfl⟩

/-! ### Distinct keys -/

omit [DecidableEq κ] in
theorem distinct_cons : Distinct key (a :: l) ↔ key a ∉ l.map key ∧ Distinct key l :=
  List.nodup_cons

theorem distinct_update (h : Distinct key l) (hf : ∀ a, key (f a) = key a) :
    Distinct key (update key k f l) := by
  unfold Distinct
  rw [map_key_update hf]
  exact h

theorem distinct_remove (h : Distinct key l) : Distinct key (remove key k l) :=
  List.Nodup.sublist (List.filter_sublist.map key) h

/-- Appending a page keeps the keys distinct, whatever keys the page shares with the list. -/
theorem distinct_appendFresh (h : Distinct key l) (hp : Distinct key page) :
    Distinct key (appendFresh key l page) := by
  unfold Distinct appendFresh
  rw [List.map_append]
  refine List.Nodup.append h (List.Nodup.sublist (List.filter_sublist.map key) hp) ?_
  intro k hk hk'
  obtain ⟨b, hb, rfl⟩ := List.mem_map.1 hk'
  obtain ⟨a, ha, he⟩ := List.mem_map.1 hk
  simp only [List.mem_filter, Bool.not_eq_true', List.any_eq_false, decide_eq_true_eq] at hb
  exact hb.2 a ha he

/-! ### Edits -/

/-- An operation that removes nothing by key. -/
inductive Edit (α κ : Type*) where
  /-- Replace the list. -/
  | replace (l : List α)
  /-- Append a page. -/
  | append (page : List α)
  /-- Change the records with key `k`. -/
  | update (k : κ) (f : α → α)

variable (key)

def Edit.apply : Edit α κ → List α → List α
  | .replace l, _ => l
  | .append page, l => appendFresh key l page
  | .update k f, l => Keyed.update key k f l

/-- The list after some edits. -/
def run (edits : List (Edit α κ)) (l : List α) : List α := edits.foldl (fun l e => e.apply key l) l

/-- What an edit does to one record. -/
def Edit.onRecord : Edit α κ → α → α
  | .update k f, a => if key a = k then f a else a
  | _, a => a

/-- What some edits do to one record. -/
def evolve (edits : List (Edit α κ)) (a : α) : α := edits.foldl (fun a e => e.onRecord key a) a

/-- The edit changes no key. -/
def Edit.KeepsKeys : Edit α κ → Prop
  | .update _ f => ∀ a, key (f a) = key a
  | _ => True

/-- The edit puts no record with key `k` into a list that has none. -/
def Edit.Skips (k : κ) : Edit α κ → Prop
  | .replace _ => False
  | .append page => k ∉ page.map key
  | .update _ _ => True

variable {key} {e : Edit α κ} {edits : List (Edit α κ)}

theorem Edit.key_onRecord (he : e.KeepsKeys key) (a : α) : key (e.onRecord key a) = key a := by
  cases e with
  | update k f =>
    simp only [onRecord]
    split_ifs
    · exact he a
    · rfl
  | _ => rfl

/-- `l` is `m` without the record `x`, which stands behind records with the keys `pre`. -/
def Missing (key : α → κ) (pre : List κ) (x : α) (l m : List α) : Prop :=
  ∃ before after, m = before ++ x :: after ∧ l = before ++ after ∧ before.map key = pre ∧
    key x ∉ l.map key

/-- `l` is at least as long as `m` and has the same keys. -/
def Returned (key : α → κ) (l m : List α) : Prop :=
  m.length ≤ l.length ∧ ∀ k, k ∈ l.map key ↔ k ∈ m.map key

/-- An edit that skips `x` keeps it missing. -/
theorem Missing.apply {pre : List κ} (h : Missing key pre x l m) (he : e.KeepsKeys key)
    (hs : e.Skips key (key x)) :
    Missing key pre (e.onRecord key x) (e.apply key l) (e.apply key m) := by
  obtain ⟨before, after, rfl, rfl, rfl, hx⟩ := h
  rw [Missing, e.key_onRecord he]
  cases e with
  | replace l => exact hs.elim
  | update k f =>
    refine ⟨Keyed.update key k f before, Keyed.update key k f after, ?_, ?_, map_key_update he, ?_⟩
    · simp [Edit.apply, Keyed.update, Edit.onRecord]
    · simp [Edit.apply, Keyed.update]
    · rwa [Edit.apply, map_key_update he]
  | append page =>
    have hsame : (page.filter fun b => !(before ++ x :: after).any fun a => key a = key b) =
        page.filter fun b => !(before ++ after).any fun a => key a = key b := by
      refine List.filter_congr fun b hb => ?_
      have hne : key x ≠ key b := fun he => hs (List.mem_map.2 ⟨b, hb, he.symm⟩)
      simp [hne]
    refine ⟨before, after ++ page.filter fun b => !(before ++ after).any fun a => key a = key b,
      ?_, ?_, rfl, ?_⟩
    · simp only [Edit.apply, appendFresh, Edit.onRecord]
      rw [hsame, List.append_assoc, List.cons_append]
    · simp only [Edit.apply, appendFresh, List.append_assoc]
    · rw [Edit.apply, key_mem_appendFresh]
      exact not_or.2 ⟨hx, hs⟩

/-- An edit that does not skip `x` brings it back. -/
theorem Missing.returned {pre : List κ} (h : Missing key pre x l m)
    (hs : ¬ e.Skips key (key x)) : Returned key (e.apply key l) (e.apply key m) := by
  obtain ⟨before, after, rfl, rfl, -, hx⟩ := h
  cases e with
  | replace l => exact ⟨Nat.le_refl _, fun k => Iff.rfl⟩
  | update k f => exact absurd trivial hs
  | append page =>
    have hs : key x ∈ page.map key := not_not.1 hs
    constructor
    · obtain ⟨b, hb, he⟩ := List.mem_map.1 hs
      -- `b` is appended to the list that misses `x` only
      have hsub : (page.filter fun b => !(before ++ x :: after).any fun a => key a = key b) =
          (page.filter fun b => !(before ++ after).any fun a => key a = key b).filter
            fun b => key b ≠ key x := by
        rw [List.filter_filter]
        refine List.filter_congr fun b _ => ?_
        simp [eq_comm, Bool.and_left_comm]
      have hlt : (page.filter fun b => !(before ++ x :: after).any fun a => key a = key b).length <
          (page.filter fun b => !(before ++ after).any fun a => key a = key b).length := by
        rw [hsub, List.length_filter_lt_length_iff_exists]
        refine ⟨b, List.mem_filter.2 ⟨hb, ?_⟩, by simp [he]⟩
        simpa [he] using hx
      simp only [Edit.apply, appendFresh, List.length_append, List.length_cons]
      omega
    · intro k
      simp only [Edit.apply, key_mem_appendFresh, List.map_append, List.map_cons, List.mem_append,
        List.mem_cons]
      constructor
      · tauto
      · rintro ((h | rfl | h) | h)
        · exact .inl (.inl h)
        · exact .inr hs
        · exact .inl (.inr h)
        · exact .inr h

theorem Returned.apply (h : Returned key l m) (he : e.KeepsKeys key) :
    Returned key (e.apply key l) (e.apply key m) := by
  obtain ⟨hlen, hkeys⟩ := h
  cases e with
  | replace l => exact ⟨Nat.le_refl _, fun k => Iff.rfl⟩
  | update k f =>
    refine ⟨by simpa [Edit.apply, Keyed.update] using hlen, fun k' => ?_⟩
    simp only [Edit.apply, map_key_update he]
    exact hkeys k'
  | append page =>
    have hsame : (page.filter fun b => !l.any fun a => key a = key b) =
        page.filter fun b => !m.any fun a => key a = key b := by
      refine List.filter_congr fun b _ => ?_
      have := hkeys (key b)
      simp only [List.mem_map] at this
      rw [Bool.eq_iff_iff]
      simpa using not_congr this
    refine ⟨by simp [Edit.apply, appendFresh, hsame, hlen], fun k => ?_⟩
    simp only [Edit.apply, key_mem_appendFresh, hkeys k]

theorem Returned.run (h : Returned key l m) (he : ∀ e ∈ edits, e.KeepsKeys key) :
    Returned key (run key edits l) (run key edits m) := by
  induction edits generalizing l m with
  | nil => exact h
  | cons e edits ih =>
    exact ih (h.apply (he e List.mem_cons_self)) fun e' he' => he e' (List.mem_cons_of_mem _ he')

/-- What becomes of a list that misses a record. -/
theorem missing_run {pre : List κ} (h : Missing key pre x l m)
    (he : ∀ e ∈ edits, e.KeepsKeys key) :
    (∀ e ∈ edits, e.Skips key (key x)) ∧
        Missing key pre (evolve key edits x) (run key edits l) (run key edits m) ∨
      (¬ ∀ e ∈ edits, e.Skips key (key x)) ∧ Returned key (run key edits l) (run key edits m) := by
  induction edits generalizing x l m with
  | nil => exact .inl ⟨fun e he => absurd he List.not_mem_nil, h⟩
  | cons e edits ih =>
    have hk := he e List.mem_cons_self
    have hks : ∀ e ∈ edits, e.KeepsKeys key := fun e' he' => he e' (List.mem_cons_of_mem _ he')
    simp only [List.forall_mem_cons]
    by_cases hs : e.Skips key (key x)
    · have := ih (h.apply hk hs) hks
      rw [e.key_onRecord hk] at this
      simp only [hs, true_and]
      exact this
    · exact .inr ⟨fun h' => hs h'.1, (h.returned hs).run hks⟩

/-- **When a removal leaves no trace.**  A record is removed, edits follow, and a record with its
key is put in front of the list.  The list is as if nothing had been removed exactly if the record
was the first one, no edit brought its key back, and what is put back is what the edits would have
made of it. -/
theorem cons_run_remove_eq_iff {before after : List α} {y : α}
    (hd : Distinct key (before ++ x :: after)) (hy : key y = key x)
    (he : ∀ e ∈ edits, e.KeepsKeys key) :
    y :: run key edits (remove key (key x) (before ++ x :: after)) =
        run key edits (before ++ x :: after) ↔
      before = [] ∧ (∀ e ∈ edits, e.Skips key (key x)) ∧ y = evolve key edits x := by
  have hx : key x ∉ (before ++ after).map key := by
    have hn : ((before ++ x :: after).map key).Nodup := hd
    rw [List.map_append, List.map_cons, List.nodup_middle, ← List.map_append] at hn
    exact (List.nodup_cons.1 hn).1
  have hremove : remove key (key x) (before ++ x :: after) = before ++ after := by
    have hall : ∀ a ∈ before ++ after, key a ≠ key x :=
      fun a ha he => hx (List.mem_map.2 ⟨a, ha, he⟩)
    rw [remove, List.filter_append, List.filter_cons_of_neg (by simp), ← List.filter_append,
      List.filter_eq_self]
    simpa using hall
  have hmissing : Missing key (before.map key) x (remove key (key x) (before ++ x :: after))
      (before ++ x :: after) := ⟨before, after, rfl, hremove, rfl, hremove ▸ hx⟩
  rcases missing_run hmissing he with ⟨hs, before', after', hm, hl, hpre, -⟩ | ⟨hs, hlen, -⟩
  · rw [hm, hl]
    constructor
    · intro h
      cases before' with
      | nil => exact ⟨List.map_eq_nil_iff.1 hpre.symm, hs, (List.cons.inj h).1⟩
      | cons b before' =>
        -- the list starts with the record in front of `x`
        have hb : y = b := (List.cons.inj h).1
        refine absurd ?_ hx
        rw [List.map_append, ← hpre, List.map_cons, ← hb, hy]
        exact List.mem_append_left _ List.mem_cons_self
    · rintro ⟨rfl, -, rfl⟩
      cases List.map_eq_nil_iff.1 hpre
      rfl
  · constructor
    · intro h
      have := congrArg List.length h
      rw [List.length_cons] at this
      omega
    · exact fun h => absurd h.2.1 hs

end Keyed

end FCord
