import FCord.Data.Json
import Mathlib.Data.List.Basic
import Mathlib.Tactic.Common
import Mathlib.Tactic.IntervalCases

/-!
# `JSON.parse` inverts `JSON.stringify`

`Json.parse_stringify` : reading back what was written gives the same value.  The proof follows
the grammar: every `read…` function, applied to the text its `write…` counterpart produces and
followed by anything that cannot continue that text, returns the value and what follows.
-/

namespace FCord

namespace Json

/-! ### Digits and numbers -/

/-- `r` does not continue a number literal. -/
def EndsNumber (r : List Char) : Prop :=
  ∀ c ∈ r.head?, c.isDigit = false ∧ c ≠ '.' ∧ c ≠ 'e' ∧ c ≠ 'E'

theorem endsNumber_nil : EndsNumber [] := by simp [EndsNumber]

theorem endsNumber_cons {c : Char} {r : List Char} (h : c = ',' ∨ c = ']' ∨ c = '}') :
    EndsNumber (c :: r) := by
  intro d hd
  obtain rfl : c = d := by simpa using hd
  obtain rfl | rfl | rfl := h <;> decide

theorem isDigit_of_mem {n : ℕ} {c : Char} (h : c ∈ Nat.toDigits 10 n) : c.isDigit = true :=
  Nat.isDigit_of_mem_toDigits (by decide) (by decide) h

theorem readDigits_append {ds r : List Char} (hd : ∀ c ∈ ds, c.isDigit = true) (hne : ds ≠ [])
    (hr : ∀ c ∈ r.head?, c.isDigit = false) : readDigits (ds ++ r) = some (ds, r) := by
  have htake : r.takeWhile Char.isDigit = [] := by
    cases r with
    | nil => rfl
    | cons c r => simp [hr c (by simp)]
  have hdrop : r.dropWhile Char.isDigit = r := by
    cases r with
    | nil => rfl
    | cons c r => simp [hr c (by simp)]
  unfold readDigits
  rw [List.takeWhile_append_of_pos hd, List.dropWhile_append_of_pos hd, htake, hdrop]
  simp [hne]

/-- The digits of a positive number do not start with a zero. -/
theorem head_toDigits_ne (n : ℕ) (hn : 0 < n) : (Nat.toDigits 10 n).head? ≠ some '0' := by
  induction n using Nat.strongRecOn with
  | ind n ih =>
    by_cases h : n < 10
    · rw [Nat.toDigits_of_lt_base h]
      interval_cases n <;> decide
    · rw [Nat.toDigits_of_base_le (by decide) (by omega), List.head?_append]
      have hhead := ih (n / 10) (by omega) (by omega)
      cases hd : Nat.toDigits 10 (n / 10) with
      | nil => exact absurd hd Nat.toDigits_ne_nil
      | cons c cs => rw [hd] at hhead; simpa using hhead

theorem readIntPart_toDigits (n : ℕ) {r : List Char} (hr : ∀ c ∈ r.head?, c.isDigit = false) :
    readIntPart (Nat.toDigits 10 n ++ r) = some (Nat.toDigits 10 n, r) := by
  cases hd : Nat.toDigits 10 n with
  | nil => exact absurd hd Nat.toDigits_ne_nil
  | cons c cs =>
    by_cases hc : c = '0'
    · have hn : n = 0 := by
        by_contra hn
        exact head_toDigits_ne n (by omega) (by simp [hd, hc])
      subst hn
      obtain ⟨rfl, rfl⟩ : '0' = c ∧ [] = cs := by simpa [Nat.toDigits_zero] using hd
      simp [readIntPart]
    · simp only [List.cons_append, readIntPart, hc, ↓reduceIte]
      rw [← List.cons_append, ← hd]
      exact readDigits_append (fun _ => isDigit_of_mem) Nat.toDigits_ne_nil hr

theorem isDigit_ne_minus {c : Char} (h : c.isDigit = true) : c ≠ '-' := by
  rintro rfl; revert h; decide

theorem readSign_writeInt (i : ℤ) (r : List Char) :
    readSign (writeInt i ++ r) = (decide (i < 0), Nat.toDigits 10 i.natAbs ++ r) := by
  unfold writeInt
  split_ifs with hi
  · simp [readSign, hi]
  · cases hd : Nat.toDigits 10 i.natAbs with
    | nil => exact absurd hd Nat.toDigits_ne_nil
    | cons c cs =>
      have hc := isDigit_ne_minus (isDigit_of_mem (c := c) (by rw [hd]; simp))
      simp [readSign, hc, hi]

theorem signed_toDigits (i : ℤ) : signed (decide (i < 0)) (Nat.toDigits 10 i.natAbs) = i := by
  simp only [signed, Nat.ofDigitChars_ten_toDigits, decide_eq_true_eq]
  split_ifs <;> omega

theorem readExponent_of_ends {r : List Char} (hr : EndsNumber r) :
    readExponent r = some (0, r) := by
  cases r with
  | nil => rfl
  | cons c r =>
    obtain ⟨-, -, h1, h2⟩ := hr c (by simp)
    simp [readExponent, h1, h2]

theorem readExponent_writeInt (i : ℤ) {r : List Char} (hr : EndsNumber r) :
    readExponent ('e' :: (writeInt i ++ r)) = some (i, r) := by
  -- no plus sign is written, so `readExponent` looks for a minus sign or a digit
  have hplus : ∀ s, writeInt i ++ r ≠ '+' :: s := by
    intro s hs
    have hsign := readSign_writeInt i r
    rw [hs] at hsign
    cases hd : Nat.toDigits 10 i.natAbs with
    | nil => exact absurd hd Nat.toDigits_ne_nil
    | cons c cs =>
      have hc := isDigit_of_mem (c := c) (n := i.natAbs) (by rw [hd]; simp)
      simp only [readSign, hd, List.cons_append, Char.reduceEq, ↓reduceIte, Prod.mk.injEq,
        List.cons.injEq] at hsign
      rw [← hsign.2.1] at hc
      revert hc; decide
  have hdig : readDigits (Nat.toDigits 10 i.natAbs ++ r) = some (Nat.toDigits 10 i.natAbs, r) :=
    readDigits_append (fun _ => isDigit_of_mem) Nat.toDigits_ne_nil fun c hc => (hr c hc).1
  simp only [readExponent, true_or, ↓reduceIte]
  rw [readSign_writeInt, hdig]
  simp [signed_toDigits]

theorem readFraction_of_ne {r : List Char} (hr : ∀ c ∈ r.head?, c ≠ '.') :
    readFraction r = some ([], r) := by
  cases r with
  | nil => rfl
  | cons c r => simp [readFraction, hr c (by simp)]

theorem readNumber_writeNumber (d : Decimal) {r : List Char} (hr : EndsNumber r) :
    readNumber (writeNumber d ++ r) = some (.num d, r) := by
  obtain ⟨m, e⟩ := d
  unfold writeNumber
  by_cases he : e = 0
  · subst he
    simp only [↓reduceIte, readNumber, readSign_writeInt,
      readIntPart_toDigits _ fun c hc => (hr c hc).1, readFraction_of_ne fun c hc => (hr c hc).2.1,
      readExponent_of_ends hr]
    simp [signed_toDigits]
  · simp only [he, ↓reduceIte, List.append_assoc, List.cons_append, readNumber, readSign_writeInt]
    rw [readIntPart_toDigits _ (by simp)]
    simp only
    rw [readFraction_of_ne (by simp)]
    simp only [readExponent_writeInt e hr]
    simp [signed_toDigits]

/-! ### Strings -/

theorem hexValue_hexDigit {d : ℕ} (h : d < 16) : hexValue (hexDigit d) = some d := by
  revert d; decide

theorem readChars_escapeChar (c : Char) (fuel : ℕ) (r : List Char) :
    readChars (fuel + 1) (escapeChar c ++ r) =
      (readChars fuel r).map fun p => (c :: p.1, p.2) := by
  have of_code : ∀ n, c.toNat = n → Char.ofNat n = c := by
    rintro _ rfl; exact Char.ofNat_toNat c
  unfold escapeChar
  split_ifs with h1 h2 h3 h4 h5 h6 h7 h8
  · subst h1; simp [readChars, unescape]
  · subst h2; simp [readChars, unescape]
  · simp [readChars, unescape, ← of_code _ h3]
  · simp [readChars, unescape, ← of_code _ h4]
  · simp [readChars, unescape, ← of_code _ h5]
  · simp [readChars, unescape, ← of_code _ h6]
  · simp [readChars, unescape, ← of_code _ h7]
  -- a control character is written with four hexadecimal digits, the first two zero
  · have hz : hexValue '0' = some 0 := by decide
    have hhi := hexValue_hexDigit (d := c.toNat / 16) (by omega)
    have hlo := hexValue_hexDigit (d := c.toNat % 16) (by omega)
    have hcode : ((0 * 16 + 0) * 16 + c.toNat / 16) * 16 + c.toNat % 16 = c.toNat := by omega
    have hsmall : ¬ (0xD800 ≤ c.toNat ∧ c.toNat < 0xDC00) := by omega
    have hsmall' : ¬ (0xDC00 ≤ c.toNat ∧ c.toNat < 0xE000) := by omega
    simp only [List.cons_append, List.nil_append, readChars, Char.reduceEq, ↓reduceIte, unescape,
      unicodeEscape, codeUnit, hz, hhi, hlo, hcode, hsmall, hsmall', Char.ofNat_toNat]
  · simp [readChars, h1, h2, h8]

theorem readChars_writeString (cs : List Char) {fuel : ℕ} (r : List Char)
    (hf : cs.length < fuel) :
    readChars fuel (cs.flatMap escapeChar ++ '"' :: r) = some (cs, r) := by
  induction cs generalizing fuel with
  | nil =>
    obtain ⟨fuel, rfl⟩ : ∃ k, fuel = k + 1 := ⟨fuel - 1, by omega⟩
    simp [readChars]
  | cons c cs ih =>
    obtain ⟨fuel, rfl⟩ : ∃ k, fuel = k + 1 := ⟨fuel - 1, by omega⟩
    rw [List.flatMap_cons, List.append_assoc, readChars_escapeChar,
      ih (by simpa using hf)]
    rfl

theorem length_le_flatMap_escapeChar (cs : List Char) :
    cs.length ≤ (cs.flatMap escapeChar).length := by
  induction cs with
  | nil => simp
  | cons c cs ih =>
    have hpos : 1 ≤ (escapeChar c).length := by
      unfold escapeChar; split_ifs <;> simp
    rw [List.flatMap_cons, List.length_append, List.length_cons]
    omega

theorem readString_writeString (s : String) (r : List Char) :
    readString (s.toList.flatMap escapeChar ++ '"' :: r) = some (s, r) := by
  have hlen := length_le_flatMap_escapeChar s.toList
  unfold readString
  rw [readChars_writeString _ _ (by simp only [List.length_append, List.length_cons]; omega)]
  simp

/-! ### Values -/

theorem skipWs_cons {c : Char} {r : List Char} (h : isWs c = false) :
    skipWs (c :: r) = c :: r := by
  simp [skipWs, h]

theorem writeNumber_head (d : Decimal) :
    ∃ c r, writeNumber d = c :: r ∧ (c = '-' ∨ c.isDigit = true) := by
  have hint : ∀ i, ∃ c r, writeInt i = c :: r ∧ (c = '-' ∨ c.isDigit = true) := by
    intro i
    unfold writeInt
    split_ifs
    · exact ⟨_, _, rfl, .inl rfl⟩
    · cases hd : Nat.toDigits 10 i.natAbs with
      | nil => exact absurd hd Nat.toDigits_ne_nil
      | cons c cs => exact ⟨c, cs, rfl, .inr (isDigit_of_mem (by rw [hd]; simp))⟩
  obtain ⟨c, r, hc, hd⟩ := hint d.mantissa
  unfold writeNumber
  split_ifs
  · exact ⟨c, r, hc, hd⟩
  · exact ⟨c, _, by rw [hc]; rfl, hd⟩

/-- Which characters a number literal does not start with. -/
theorem number_head_ne {c : Char} (h : c = '-' ∨ c.isDigit = true) :
    isWs c = false ∧ c ≠ '"' ∧ c ≠ '[' ∧ c ≠ ']' ∧ c ≠ '{' ∧ c ≠ 'n' ∧ c ≠ 't' ∧ c ≠ 'f' := by
  obtain rfl | h := h
  · decide
  · refine ⟨?_, ?_, ?_, ?_, ?_, ?_, ?_, ?_⟩
    · have h48 : 48 ≤ c.toNat := by
        simp only [Char.isDigit, Bool.and_eq_true, decide_eq_true_eq] at h
        exact UInt32.le_iff_toNat_le.1 h.1
      simp only [isWs, Bool.or_eq_false_iff, beq_eq_false_iff_ne]
      omega
    all_goals rintro rfl; revert h; decide

/-- No value starts with white space or a closing bracket. -/
theorem write_head (j : Json) : ∃ c r, write j = c :: r ∧ isWs c = false ∧ c ≠ ']' := by
  cases j with
  | num d =>
    obtain ⟨c, r, hc, hd⟩ := writeNumber_head d
    obtain ⟨hws, -, -, hne, -⟩ := number_head_ne hd
    exact ⟨c, r, by rw [write, hc], hws, hne⟩
  | null => exact ⟨'n', _, rfl, by decide, by decide⟩
  | bool b => cases b <;> exact ⟨_, _, rfl, by decide, by decide⟩
  | str s => exact ⟨'"', _, rfl, by decide, by decide⟩
  | arr xs => cases xs <;> exact ⟨_, _, rfl, by decide, by decide⟩
  | obj ms =>
    cases ms with
    | nil => exact ⟨_, _, rfl, by decide, by decide⟩
    | cons m ms => exact ⟨'{', _, rfl, by decide, by decide⟩

theorem endsNumber_writeElements (xs : List Json) (r : List Char) :
    EndsNumber (writeElements xs ++ r) := by
  cases xs with
  | nil => exact endsNumber_cons (.inr (.inl rfl))
  | cons x xs => exact endsNumber_cons (.inl rfl)

theorem endsNumber_writeMembers (ms : List (String × Json)) (r : List Char) :
    EndsNumber (writeMembers ms ++ r) := by
  cases ms with
  | nil => exact endsNumber_cons (.inr (.inr rfl))
  | cons m ms => exact endsNumber_cons (.inl rfl)

theorem readKeyword_append (word : List Char) (j : Json) (r : List Char) :
    readKeyword word j (word ++ r) = some (j, r) := by
  simp [readKeyword]

/-- Reading a member whose value can be read. -/
theorem readMember_write {k : String} {v : Json} {fuel : ℕ} {r : List Char}
    (hv : readValue fuel (write v ++ r) = some (v, r)) :
    readMember (fuel + 1) (writeString k ++ ':' :: (write v ++ r)) = some ((k, v), r) := by
  have hs := readString_writeString k (':' :: (write v ++ r))
  simp only [writeString, List.cons_append, List.append_assoc, List.nil_append, readMember]
  rw [skipWs_cons (by decide)]
  simp only [↓reduceIte, hs]
  rw [skipWs_cons (by decide)]
  simp only [↓reduceIte, hv, Option.map_some]

mutual
theorem readValue_write : ∀ (j : Json) (fuel : ℕ) (r : List Char),
    (write j).length < fuel → EndsNumber r → readValue fuel (write j ++ r) = some (j, r)
  | _, 0, _, hf, _ => absurd hf (Nat.not_lt_zero _)
  | .null, fuel + 1, r, _, _ => by
    have h := readKeyword_append "ull".toList .null r
    simp only [write, readValue]
    rw [show "null".toList ++ r = 'n' :: ("ull".toList ++ r) from rfl, skipWs_cons (by decide)]
    simpa only [Char.reduceEq, ↓reduceIte] using h
  | .bool true, fuel + 1, r, _, _ => by
    have h := readKeyword_append "rue".toList (.bool true) r
    simp only [write, readValue]
    rw [show "true".toList ++ r = 't' :: ("rue".toList ++ r) from rfl, skipWs_cons (by decide)]
    simpa only [Char.reduceEq, ↓reduceIte] using h
  | .bool false, fuel + 1, r, _, _ => by
    have h := readKeyword_append "alse".toList (.bool false) r
    simp only [write, readValue]
    rw [show "false".toList ++ r = 'f' :: ("alse".toList ++ r) from rfl, skipWs_cons (by decide)]
    simpa only [Char.reduceEq, ↓reduceIte] using h
  | .num d, fuel + 1, r, _, hr => by
    obtain ⟨c, s, hc, hd⟩ := writeNumber_head d
    obtain ⟨hws, h1, h2, -, h3, h4, h5, h6⟩ := number_head_ne hd
    have hn := readNumber_writeNumber d hr
    rw [hc, List.cons_append] at hn
    simp only [write, readValue, hc, List.cons_append]
    rw [skipWs_cons hws]
    simpa only [h1, h2, h3, h4, h5, h6, ↓reduceIte] using hn
  | .str s, fuel + 1, r, _, _ => by
    have hs := readString_writeString s r
    simp only [write, writeString, List.cons_append, List.append_assoc, List.nil_append, readValue]
    rw [skipWs_cons (by decide)]
    simp only [↓reduceIte, hs, Option.map_some]
  | .arr [], fuel + 1, r, _, _ => by
    simp only [write, readValue]
    rw [show "[]".toList ++ r = '[' :: ']' :: r from rfl, skipWs_cons (by decide)]
    simp only [Char.reduceEq, ↓reduceIte]
    rw [skipWs_cons (by decide)]
    simp only [↓reduceIte]
  | .arr (x :: xs), fuel + 1, r, hf, _ => by
    simp only [write, List.length_cons, List.length_append] at hf
    have hx := readValue_write x fuel (writeElements xs ++ r) (by omega)
      (endsNumber_writeElements xs r)
    have hxs := readElements_write xs fuel r (by omega)
    obtain ⟨c, s, hc, hws, hne⟩ := write_head x
    simp only [write, List.cons_append, List.append_assoc, readValue]
    rw [skipWs_cons (by decide)]
    simp only [Char.reduceEq, ↓reduceIte]
    rw [hc, List.cons_append] at hx ⊢
    rw [skipWs_cons hws]
    simp only [hne, ↓reduceIte, hx, hxs, Option.map_some]
  | .obj [], fuel + 1, r, _, _ => by
    simp only [write, readValue]
    rw [show "{}".toList ++ r = '{' :: '}' :: r from rfl, skipWs_cons (by decide)]
    simp only [Char.reduceEq, ↓reduceIte]
    rw [skipWs_cons (by decide)]
    simp only [↓reduceIte]
  | .obj ((k, v) :: ms), fuel + 1, r, hf, _ => by
    simp only [write, writeString, List.length_cons, List.length_append] at hf
    -- the member takes one unit of fuel, and its value is read with the rest
    obtain ⟨n, hn⟩ : ∃ n, fuel = n + 1 := ⟨fuel - 1, by omega⟩
    have hv := readValue_write v n (writeMembers ms ++ r) (by omega)
      (endsNumber_writeMembers ms r)
    have hm := readMember_write (k := k) hv
    have hms := readMembers_write ms fuel r (by omega)
    rw [← hn] at hm
    simp only [write, List.cons_append, List.append_assoc, readValue]
    rw [skipWs_cons (by decide)]
    simp only [Char.reduceEq, ↓reduceIte]
    simp only [writeString, List.cons_append, List.append_assoc, List.nil_append] at hm ⊢
    rw [skipWs_cons (by decide)]
    simp only [Char.reduceEq, ↓reduceIte, hm, hms, Option.map_some]

theorem readElements_write : ∀ (xs : List Json) (fuel : ℕ) (r : List Char),
    (writeElements xs).length < fuel → readElements fuel (writeElements xs ++ r) = some (xs, r)
  | _, 0, _, hf => absurd hf (Nat.not_lt_zero _)
  | [], fuel + 1, r, _ => by
    simp only [writeElements, List.cons_append, List.nil_append, readElements]
    rw [skipWs_cons (by decide)]
    simp only [↓reduceIte]
  | x :: xs, fuel + 1, r, hf => by
    simp only [writeElements, List.length_cons, List.length_append] at hf
    have hx := readValue_write x fuel (writeElements xs ++ r) (by omega)
      (endsNumber_writeElements xs r)
    have hxs := readElements_write xs fuel r (by omega)
    simp only [writeElements, List.cons_append, List.append_assoc, readElements]
    rw [skipWs_cons (by decide)]
    simp only [Char.reduceEq, ↓reduceIte, hx, hxs, Option.map_some]

theorem readMembers_write : ∀ (ms : List (String × Json)) (fuel : ℕ) (r : List Char),
    (writeMembers ms).length < fuel → readMembers fuel (writeMembers ms ++ r) = some (ms, r)
  | _, 0, _, hf => absurd hf (Nat.not_lt_zero _)
  | [], fuel + 1, r, _ => by
    simp only [writeMembers, List.cons_append, List.nil_append, readMembers]
    rw [skipWs_cons (by decide)]
    simp only [↓reduceIte]
  | (k, v) :: ms, fuel + 1, r, hf => by
    simp only [writeMembers, writeString, List.length_cons, List.length_append] at hf
    obtain ⟨n, hn⟩ : ∃ n, fuel = n + 1 := ⟨fuel - 1, by omega⟩
    have hv := readValue_write v n (writeMembers ms ++ r) (by omega)
      (endsNumber_writeMembers ms r)
    have hm := readMember_write (k := k) hv
    have hms := readMembers_write ms fuel r (by omega)
    rw [← hn] at hm
    simp only [writeMembers, List.cons_append, List.append_assoc, readMembers]
    rw [skipWs_cons (by decide)]
    simp only [Char.reduceEq, ↓reduceIte, hm, hms, Option.map_some]
end

/-- **Round trip**: `JSON.parse(JSON.stringify(j))` is `j`. -/
theorem parse_stringify (j : Json) : parse (stringify j) = some j := by
  have h := readValue_write j ((write j).length + 1) [] (Nat.lt_succ_self _) endsNumber_nil
  rw [List.append_nil] at h
  simp only [parse, stringify, String.toList_ofList, h]
  simp [skipWs]

end Json

end FCord
