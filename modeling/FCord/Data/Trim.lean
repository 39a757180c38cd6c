import Mathlib.Data.List.DropRight
import Mathlib.Data.String.Basic

/-!
# White space around a text

`trim` of JavaScript, for everything that is typed.
-/

namespace FCord

/-- The characters that `trim` removes: white space and line terminators. -/
def isTrimmed (c : Char) : Bool :=
  c.toNat ∈ [0x9, 0xa, 0xb, 0xc, 0xd, 0x20, 0xa0, 0x1680, 0x2028, 0x2029, 0x202f, 0x205f, 0x3000,
    0xfeff] || 0x2000 ≤ c.toNat && c.toNat ≤ 0x200a

/-- `trim` -/
def trim (s : String) : String :=
  String.ofList ((s.toList.dropWhile isTrimmed).reverse.dropWhile isTrimmed).reverse

/-- White space stands neither in front nor at the end. -/
def NoSurroundingSpace (s : String) : Prop :=
  (∀ c, s.toList.head? = some c → isTrimmed c = false) ∧
    ∀ c, s.toList.getLast? = some c → isTrimmed c = false

/-- What is trimmed is surrounded by no white space. -/
theorem noSurroundingSpace_trim (s : String) : NoSurroundingSpace (trim s) := by
  have htrim : (trim s).toList = (s.toList.dropWhile isTrimmed).rdropWhile isTrimmed := by
    rw [trim, String.toList_ofList]
    rfl
  rw [NoSurroundingSpace, htrim]
  constructor
  · intro c hc
    -- what stands in front after the end was trimmed stood in front before
    obtain ⟨rest, hrest⟩ := List.rdropWhile_prefix isTrimmed (s.toList.dropWhile isTrimmed)
    have hhead : (s.toList.dropWhile isTrimmed).head? = some c := by
      rw [← hrest, List.head?_append, hc, Option.some_or]
    have hnot := List.head?_dropWhile_not isTrimmed s.toList
    rw [hhead] at hnot
    simpa using hnot
  · intro c hc
    rw [List.rdropWhile, List.getLast?_reverse] at hc
    have hnot := List.head?_dropWhile_not isTrimmed (s.toList.dropWhile isTrimmed).reverse
    rw [hc] at hnot
    simpa using hnot

theorem dropWhile_eq_self {α : Type*} {p : α → Bool} {xs : List α}
    (h : ∀ x, xs.head? = some x → p x = false) : xs.dropWhile p = xs := by
  cases xs with
  | nil => rfl
  | cons x xs => simp [h x rfl]

/-- Nothing is left to trim. -/
theorem NoSurroundingSpace.trim_eq {text : String} (h : NoSurroundingSpace text) :
    trim text = text := by
  have hreverse : text.toList.reverse.dropWhile isTrimmed = text.toList.reverse :=
    dropWhile_eq_self fun c hc => h.2 c (by rwa [List.head?_reverse] at hc)
  rw [trim, dropWhile_eq_self h.1, hreverse, List.reverse_reverse, String.ofList_toList]

theorem trim_trim (s : String) : trim (trim s) = trim s := (noSurroundingSpace_trim s).trim_eq

/-- A text that starts with another character than white space is not blank. -/
theorem trim_ne_empty {s : String} {c : Char} (hc : s.toList.head? = some c)
    (h : isTrimmed c = false) : trim s ≠ "" := by
  have hfront : s.toList.dropWhile isTrimmed = s.toList := dropWhile_eq_self fun d hd => by
    cases hc.symm.trans hd
    exact h
  intro hblank
  have hnil : s.toList.rdropWhile isTrimmed = [] := by
    have := congrArg String.toList hblank
    rwa [trim, hfront, String.toList_ofList] at this
  rw [List.rdropWhile_eq_nil_iff] at hnil
  rw [hnil c (List.mem_of_head? hc)] at h
  cases h

/-- What stands in front of the first text and at the end of the second one. -/
theorem noSurroundingSpace_append {s t : String} (hs : s ≠ "") (ht : t ≠ "")
    (hfront : ∀ c, s.toList.head? = some c → isTrimmed c = false)
    (hend : ∀ c, t.toList.getLast? = some c → isTrimmed c = false) :
    NoSurroundingSpace (s ++ t) := by
  have hs : s.toList ≠ [] := by simpa using hs
  have ht : t.toList ≠ [] := by simpa using ht
  rw [NoSurroundingSpace, String.toList_append, List.head?_append_of_ne_nil _ hs,
    List.getLast?_append_of_ne_nil _ ht]
  exact ⟨hfront, hend⟩

theorem isTrimmed_of_isDigit {c : Char} (h : c.isDigit = true) : isTrimmed c = false := by
  have hdigit : 48 ≤ c.toNat ∧ c.toNat ≤ 57 := by
    simpa [Char.isDigit, UInt32.le_iff_toNat_le] using h
  simp only [isTrimmed, List.mem_cons, List.not_mem_nil, or_false, Bool.or_eq_false_iff,
    Bool.and_eq_false_imp, decide_eq_false_iff_not, decide_eq_true_eq]
  exact ⟨by omega, by omega⟩

end FCord
