import FCord.Data.FloatFormat
import FCord.Data.Json
import FCord.Data.Trim
import Mathlib.Algebra.Field.Rat
import Mathlib.Tactic.Ring

/-!
# Numbers of JavaScript

An arithmetic operator converts its operands with `ToNumber`, whatever they are.  `Json.toNumber` is
this conversion for the values that `JSON.parse` returns: a text is read as a number literal, an
array becomes the text of its elements first, and an object is no number.  A finite number is kept
as the `Decimal` that is written; what a program computes with is rounded to double precision
(`Number.toDouble`).
-/

namespace FCord

/-- A number of JavaScript. -/
inductive Number where
  | nan
  | infinity (negative : Bool)
  | finite (d : Decimal)
  deriving DecidableEq, Repr

namespace Number

/-- An unsigned decimal literal: digits on at least one side of the point. -/
def readDecimal (negative : Bool) (cs : List Char) : Option Decimal :=
  let ds := cs.takeWhile Char.isDigit
  let rest := cs.dropWhile Char.isDigit
  let (fs, rest) := match rest with
    | '.' :: r => (r.takeWhile Char.isDigit, r.dropWhile Char.isDigit)
    | r => ([], r)
  if ds = [] ∧ fs = [] then none
  else
    match Json.readExponent rest with
    | some (e, []) => some ⟨Json.signed negative (ds ++ fs), e - fs.length⟩
    | _ => none

/-- A signed decimal literal, or `Infinity`. -/
def readSigned (cs : List Char) : Number :=
  let (negative, cs) := match cs with
    | '+' :: r => (false, r)
    | r => Json.readSign r
  if cs = "Infinity".toList then .infinity negative
  else ((readDecimal negative cs).map finite).getD nan

/-- The digits after `0x`, `0o` or `0b`. -/
def readBase (base : ℕ) (cs : List Char) : Number :=
  if cs ≠ [] ∧ cs.all fun c => (Json.hexValue c).any (· < base) then
    finite (.ofInt (cs.foldl (fun n c => n * base + (Json.hexValue c).getD 0) 0 : ℕ))
  else nan

/-- The number that a text denotes. -/
def ofString (s : String) : Number :=
  match (trim s).toList with
  | [] => finite (.ofInt 0)
  | '0' :: c :: r =>
    if c = 'x' ∨ c = 'X' then readBase 16 r
    else if c = 'o' ∨ c = 'O' then readBase 8 r
    else if c = 'b' ∨ c = 'B' then readBase 2 r
    else readSigned ('0' :: c :: r)
  | cs => readSigned cs

end Number

namespace Json

mutual
/-- The conversion to a text throws a `TypeError`: the `toString` of an object is hidden. -/
def hidesToString : Json → Bool
  | .arr elements => anyHidesToString elements
  | .obj members => members.any fun m => m.1 = "toString"
  | _ => false

def anyHidesToString : List Json → Bool
  | [] => false
  | x :: xs => hidesToString x || anyHidesToString xs
end

/-- The number of an array whose conversion to a text does not throw: a comma, or the text of an
object, is no number. -/
def elementsToNumber : List Json → Number
  | [] => .finite (.ofInt 0)
  | [.null] => .finite (.ofInt 0)
  | [.num d] => .finite d
  | [.str s] => .ofString s
  | [.arr elements] => elementsToNumber elements
  | _ => .nan

/-- The conversion to a number, `none` where it throws. -/
def toNumber (j : Json) : Option Number :=
  if j.hidesToString then none
  else
    some <| match j with
      | .null => .finite (.ofInt 0)
      | .bool b => .finite (.ofInt (if b then 1 else 0))
      | .num d => .finite d
      | .str s => .ofString s
      | .arr elements => elementsToNumber elements
      | .obj _ => .nan

end Json

/-! ### Values -/

/-- The rational number that a decimal is. -/
def Decimal.value (d : Decimal) : ℚ := d.mantissa * 10 ^ d.exponent

namespace Number

/-- The number in double precision. -/
def toDouble : Number → binary64.Value
  | nan => .nan
  | infinity negative => .infinity negative
  | finite d => .ofRat binary64 d.value

/-- The value of a finite number. -/
def toRat? : Number → Option ℚ
  | finite d => some d.value
  | _ => none

variable {ds : List Char}

theorem readDecimal_digits (hne : ds ≠ []) (h : ∀ c ∈ ds, c.isDigit = true) :
    readDecimal false ds = some ⟨Nat.ofDigitChars 10 ds 0, 0⟩ := by
  have htake : ds.takeWhile Char.isDigit = ds := List.takeWhile_eq_self_iff.2 h
  have hdrop : ds.dropWhile Char.isDigit = [] := List.dropWhile_eq_nil_iff.2 h
  simp only [readDecimal, htake, hdrop, hne, false_and, if_false, Json.readExponent,
    List.append_nil, List.length_nil]
  rfl

theorem readDecimal_fraction (h : ∀ c ∈ ds, c.isDigit = true) :
    readDecimal false ('0' :: '.' :: ds) = some ⟨Nat.ofDigitChars 10 ds 0, -ds.length⟩ := by
  have htake : ds.takeWhile Char.isDigit = ds := List.takeWhile_eq_self_iff.2 h
  have hdrop : ds.dropWhile Char.isDigit = [] := List.dropWhile_eq_nil_iff.2 h
  have hzero : ('0' :: '.' :: ds).takeWhile Char.isDigit = ['0'] := rfl
  have hpoint : ('0' :: '.' :: ds).dropWhile Char.isDigit = '.' :: ds := rfl
  simp only [readDecimal, hzero, hpoint, htake, hdrop, List.cons_ne_nil, false_and, if_false,
    Json.readExponent, Json.signed, List.cons_append, List.nil_append, Nat.ofDigitChars_cons]
  simp

/-- A text that starts with a digit has no sign. -/
theorem readSigned_of_isDigit {c : Char} {cs : List Char} (h : c.isDigit = true) :
    readSigned (c :: cs) = ((readDecimal false (c :: cs)).map finite).getD nan := by
  have hplus : c ≠ '+' := by rintro rfl; revert h; decide
  have hminus : c ≠ '-' := by rintro rfl; revert h; decide
  have hletter : c :: cs ≠ "Infinity".toList := by
    intro he
    have hI : c = 'I' := (List.cons.inj he).1
    subst hI
    revert h
    decide
  unfold readSigned
  split
  rename_i negative cs' he
  have hcs : (negative, cs') = (false, c :: cs) := by
    rw [← he]
    split
    · rename_i r hr
      exact absurd (List.cons.inj hr).1 hplus
    · exact if_neg hminus
  obtain ⟨rfl, rfl⟩ := Prod.mk.inj hcs
  rw [if_neg hletter]

/-- The text of digits, or of a zero and digits behind a point, is a decimal literal. -/
theorem ofString_of_isDigit {c : Char} {cs : List Char} (h : c.isDigit = true)
    (hcs : ∀ d ∈ cs, d.isDigit = true ∨ d = '.') :
    ofString (String.ofList (c :: cs)) = ((readDecimal false (c :: cs)).map finite).getD nan := by
  have hno : ∀ d ∈ c :: cs, isTrimmed d = false := by
    intro d hd
    rcases List.mem_cons.1 hd with rfl | hd
    · exact isTrimmed_of_isDigit h
    · rcases hcs d hd with hd | rfl
      · exact isTrimmed_of_isDigit hd
      · rfl
  have htrim : trim (String.ofList (c :: cs)) = String.ofList (c :: cs) := by
    refine NoSurroundingSpace.trim_eq ⟨fun d hd => hno d ?_, fun d hd => hno d ?_⟩
    · rw [String.toList_ofList] at hd
      exact List.mem_of_mem_head? hd
    · rw [String.toList_ofList] at hd
      exact List.mem_of_mem_getLast? hd
  rw [← readSigned_of_isDigit h, ofString, htrim, String.toList_ofList]
  split
  · rename_i he
    cases he
  · rename_i d r he
    obtain ⟨rfl, rfl⟩ := List.cons.inj he
    have hd := hcs d List.mem_cons_self
    -- no digit and no point is the letter of a base
    have hne : ∀ x : Char, x.isDigit = false → x ≠ '.' → d ≠ x := by
      rintro x hx hpoint rfl
      rcases hd with hd | hd
      · rw [hd] at hx
        cases hx
      · exact hpoint hd
    simp only [hne 'x' rfl (by decide), hne 'X' rfl (by decide), hne 'o' rfl (by decide),
      hne 'O' rfl (by decide), hne 'b' rfl (by decide), hne 'B' rfl (by decide), or_self, if_false]
  · rfl

/-- **The number of some digits.** -/
theorem ofString_digits (h : ∀ c ∈ ds, c.isDigit = true) :
    (ofString (String.ofList ds)).toRat? = some (Nat.ofDigitChars 10 ds 0 : ℚ) := by
  cases ds with
  | nil =>
    have hzero : ofString (String.ofList []) = finite (.ofInt 0) := by decide
    rw [hzero]
    simp [toRat?, Decimal.value, Decimal.ofInt]
  | cons c cs =>
    rw [ofString_of_isDigit (h c List.mem_cons_self) fun d hd =>
        .inl (h d (List.mem_cons_of_mem _ hd)),
      readDecimal_digits (List.cons_ne_nil c cs) h]
    simp [toRat?, Decimal.value]

/-- **The number of some digits behind a point.** -/
theorem ofString_fraction (h : ∀ c ∈ ds, c.isDigit = true) :
    (ofString ("0." ++ String.ofList ds)).toRat? =
      some ((Nat.ofDigitChars 10 ds 0 : ℚ) / 10 ^ ds.length) := by
  have htext : "0." ++ String.ofList ds = String.ofList ('0' :: '.' :: ds) := by
    rw [← String.toList_inj]
    simp
  have hcs : ∀ d ∈ '.' :: ds, d.isDigit = true ∨ d = '.' := by
    intro d hd
    rcases List.mem_cons.1 hd with rfl | hd
    · exact .inr rfl
    · exact .inl (h d hd)
  rw [htext, ofString_of_isDigit rfl hcs, readDecimal_fraction h]
  simp [toRat?, Decimal.value, div_eq_mul_inv]

/-- There are so many numbers of some digits. -/
theorem ofDigitChars_lt (h : ∀ c ∈ ds, c.isDigit = true) :
    Nat.ofDigitChars 10 ds 0 < 10 ^ ds.length := by
  have hinit : ∀ n, Nat.ofDigitChars 10 ds n < (n + 1) * 10 ^ ds.length := by
    induction ds with
    | nil => intro n; simp
    | cons c cs ih =>
      intro n
      have hdigit : c.toNat ≤ 57 := by
        have hc := h c List.mem_cons_self
        simp only [Char.isDigit, Bool.and_eq_true, decide_eq_true_eq] at hc
        exact hc.2
      have hnext := ih (fun d hd => h d (List.mem_cons_of_mem _ hd)) (10 * n + (c.toNat - 48))
      rw [Nat.ofDigitChars_cons]
      calc Nat.ofDigitChars 10 cs (10 * n + (c.toNat - 48))
          < (10 * n + (c.toNat - 48) + 1) * 10 ^ cs.length := hnext
        _ ≤ (10 * (n + 1)) * 10 ^ cs.length := Nat.mul_le_mul_right _ (by omega)
        _ = (n + 1) * 10 ^ (c :: cs).length := by rw [List.length_cons, pow_succ]; ring
  simpa using hinit 0

end Number

example : Number.ofString " 0x1F " = .finite ⟨31, 0⟩ := by decide +kernel

example : Number.ofString "-1.50e3" = .finite ⟨-150, 1⟩ := by decide +kernel

example : Number.ofString "12 3" = .nan := by decide +kernel

end FCord
