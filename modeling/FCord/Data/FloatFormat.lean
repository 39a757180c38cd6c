import Mathlib.Algebra.Order.Floor.Ring
import Mathlib.Data.Int.Log
import Mathlib.Data.Rat.Floor
import Mathlib.Tactic.Linarith
import Mathlib.Tactic.Positivity

/-!
# Floating point

A number of a binary format is an integer of `precision` binary digits, times a power of two.
`FloatFormat.round` takes a rational number to the nearest number of the format, and to the even one
of two.  It is monotone and keeps the numbers of the format, so it passes none of them
(`round_mono`, `round_eq_self`), and it is off by half a unit of the last place at most
(`abs_round_sub_le`).  `FloatFormat.Value` adds what is not finite: numbers that are too large,
and the results that are no number.  The two zeros are not told apart.
-/

namespace FCord

/-! ### The nearest integer -/

/-- The nearest integer, the even one of two. -/
def roundEven (x : ℚ) : ℤ :=
  if Int.fract x < 1 / 2 ∨ (Int.fract x = 1 / 2 ∧ Even ⌊x⌋) then ⌊x⌋ else ⌊x⌋ + 1

/-- No integer is nearer, and of two the even one is meant. -/
def NearestEven (x : ℚ) (n : ℤ) : Prop := |x - n| < 1 / 2 ∨ (|x - n| = 1 / 2 ∧ Even n)

namespace NearestEven

variable {x y : ℚ} {m n : ℤ}

theorem abs_sub_le (h : NearestEven x n) : |x - n| ≤ 1 / 2 := by
  rcases h with h | ⟨h, -⟩
  · exact h.le
  · exact h.le

theorem neg (h : NearestEven x n) : NearestEven (-x) (-n) := by
  have habs : |-x - ((-n : ℤ) : ℚ)| = |x - n| := by
    rw [← abs_neg]
    congr 1
    push_cast
    ring
  unfold NearestEven
  rw [habs, even_neg]
  exact h

theorem intCast (n : ℤ) : NearestEven n n := .inl (by norm_num)

/-- Nearest integers are in the order of the numbers. -/
theorem le (hx : NearestEven x m) (hy : NearestEven y n) (hxy : x ≤ y) : m ≤ n := by
  by_contra hlt
  have hle : (n : ℚ) + 1 ≤ m := by exact_mod_cast not_le.1 hlt
  obtain ⟨-, hym⟩ := abs_le.1 hy.abs_sub_le
  obtain ⟨hxm, -⟩ := abs_le.1 hx.abs_sub_le
  -- both numbers lie halfway between two integers that follow each other
  have hsucc : m = n + 1 := by
    have heq : (m : ℚ) = n + 1 := by linarith
    exact_mod_cast heq
  subst hsucc
  push_cast at hxm hle
  have hx' : |x - ((n + 1 : ℤ) : ℚ)| = 1 / 2 := by
    rw [abs_of_nonpos (by push_cast; linarith)]
    push_cast
    linarith
  have hy' : |y - n| = 1 / 2 := by
    rw [abs_of_nonneg (by linarith)]
    linarith
  rcases hx with hx | ⟨-, hm⟩
  · exact absurd hx' hx.ne
  · rcases hy with hy | ⟨-, hn⟩
    · exact absurd hy' hy.ne
    · exact absurd hn (Int.even_add_one.1 hm)

theorem unique (hm : NearestEven x m) (hn : NearestEven x n) : m = n :=
  le_antisymm (hm.le hn le_rfl) (hn.le hm le_rfl)

end NearestEven

theorem nearestEven_roundEven (x : ℚ) : NearestEven x (roundEven x) := by
  have hfract : x - ⌊x⌋ = Int.fract x := rfl
  have hnonneg := Int.fract_nonneg x
  have hlt := Int.fract_lt_one x
  unfold roundEven NearestEven
  split_ifs with h
  · rw [hfract, abs_of_nonneg hnonneg]
    exact h
  · have hup : |x - ((⌊x⌋ + 1 : ℤ) : ℚ)| = 1 - Int.fract x := by
      rw [abs_of_nonpos (by push_cast; linarith)]
      push_cast
      linarith
    rw [hup]
    push Not at h
    obtain ⟨hhalf, hodd⟩ := h
    rcases hhalf.lt_or_eq with hlt | heq
    · exact .inl (by linarith)
    · refine .inr ⟨by linarith, Int.even_add_one.2 (hodd heq.symm)⟩

section RoundEven

variable {x y : ℚ}

theorem roundEven_mono (h : x ≤ y) : roundEven x ≤ roundEven y :=
  (nearestEven_roundEven x).le (nearestEven_roundEven y) h

@[simp]
theorem roundEven_intCast (n : ℤ) : roundEven n = n :=
  (nearestEven_roundEven n).unique (.intCast n)

theorem roundEven_neg (x : ℚ) : roundEven (-x) = -roundEven x :=
  (nearestEven_roundEven (-x)).unique (nearestEven_roundEven x).neg

end RoundEven

/-! ### Formats -/

/-- A binary format. -/
structure FloatFormat where
  /-- The number of binary digits. -/
  precision : ℕ
  /-- The exponent of the last place of the smallest numbers. -/
  minExponent : ℤ
  /-- Two to this power is too large. -/
  maxExponent : ℤ
  precision_pos : 0 < precision

/-- Double precision. -/
def binary64 : FloatFormat := ⟨53, -1074, 1024, by decide⟩

namespace FloatFormat

variable (f : FloatFormat)

/-- The exponent of the last place of a number. -/
def exponent (x : ℚ) : ℤ := max f.minExponent (Int.log 2 |x| + 1 - f.precision)

/-- The nearest number of the format, if none is too large. -/
def round (x : ℚ) : ℚ := roundEven (x / 2 ^ f.exponent x) * 2 ^ f.exponent x

variable {f} {x y : ℚ} {n e : ℤ}

theorem exponent_mono (hx : 0 < x) (h : x ≤ y) : f.exponent x ≤ f.exponent y := by
  have hlog : Int.log 2 |x| ≤ Int.log 2 |y| := by
    rw [abs_of_pos hx, abs_of_pos (hx.trans_le h)]
    exact Int.log_mono_right hx h
  unfold exponent
  omega

/-- A number has no more digits than there are places. -/
theorem abs_lt_zpow (f : FloatFormat) (x : ℚ) : |x| < 2 ^ (f.exponent x + f.precision) := by
  have hlt : |x| < 2 ^ (Int.log 2 |x| + 1) := by
    exact_mod_cast Int.lt_zpow_succ_log_self one_lt_two |x|
  refine hlt.trans_le (zpow_le_zpow_right₀ one_le_two ?_)
  unfold exponent
  omega

/-- A number below a power of two has a last place accordingly. -/
theorem exponent_le (hx : x ≠ 0) (h : |x| < 2 ^ (e + f.precision)) (he : f.minExponent ≤ e) :
    f.exponent x ≤ e := by
  have hlog : Int.log 2 |x| < e + f.precision :=
    (Int.lt_zpow_iff_log_lt one_lt_two (abs_pos.2 hx)).1 (by exact_mod_cast h)
  exact max_le he (by omega)

/-- A multiple of a power of two is one of each smaller power. -/
theorem mul_zpow_eq (n : ℤ) {k : ℤ} (h : e ≤ k) :
    (n : ℚ) * 2 ^ k = (n * 2 ^ (k - e).toNat : ℤ) * 2 ^ e := by
  have hk : k = ((k - e).toNat : ℤ) + e := by omega
  conv_lhs => rw [hk, zpow_add₀ two_ne_zero, zpow_natCast]
  push_cast
  ring

@[simp]
theorem round_zero : f.round 0 = 0 := by
  have hzero : roundEven 0 = 0 := by exact_mod_cast roundEven_intCast 0
  simp [round, hzero]

@[simp]
theorem exponent_neg (x : ℚ) : f.exponent (-x) = f.exponent x := by
  rw [exponent, abs_neg, exponent]

@[simp]
theorem round_neg (x : ℚ) : f.round (-x) = -f.round x := by
  rw [round, exponent_neg, neg_div, roundEven_neg, round]
  push_cast
  ring

/-- A multiple of the last place is kept. -/
theorem round_of_exponent_le (he : f.exponent x ≤ e) (hx : x = n * 2 ^ e) : f.round x = x := by
  have hpos : (0 : ℚ) < 2 ^ f.exponent x := zpow_pos two_pos _
  have hn := hx.trans (mul_zpow_eq n he)
  rw [round, (div_eq_iff hpos.ne').2 hn, roundEven_intCast, ← hn]

/-- A multiple of the last place is not passed. -/
theorem le_round (he : f.exponent x ≤ e) (hx : n * 2 ^ e ≤ x) : n * 2 ^ e ≤ f.round x := by
  have hpos : (0 : ℚ) < 2 ^ f.exponent x := zpow_pos two_pos _
  rw [mul_zpow_eq n he] at hx ⊢
  have hle := roundEven_mono ((le_div_iff₀ hpos).2 hx)
  rw [roundEven_intCast] at hle
  exact mul_le_mul_of_nonneg_right (Int.cast_le.2 hle) hpos.le

theorem round_le (he : f.exponent x ≤ e) (hx : x ≤ n * 2 ^ e) : f.round x ≤ n * 2 ^ e := by
  have hneg : ((-n : ℤ) : ℚ) * 2 ^ e ≤ f.round (-x) := by
    refine le_round (by rwa [exponent_neg]) ?_
    push_cast
    linarith
  rw [round_neg] at hneg
  push_cast at hneg
  linarith

theorem round_nonneg (hx : 0 ≤ x) : 0 ≤ f.round x := by
  have hle := le_round (f := f) (n := 0) (x := x) le_rfl (by rwa [Int.cast_zero, zero_mul])
  rwa [Int.cast_zero, zero_mul] at hle

/-- Of two positive numbers, the larger one is not rounded to a smaller one. -/
theorem round_mono_of_pos (hx : 0 < x) (hxy : x ≤ y) : f.round x ≤ f.round y := by
  rcases (exponent_mono hx hxy).eq_or_lt with heq | hlt
  · have hpos : (0 : ℚ) < 2 ^ f.exponent y := zpow_pos two_pos _
    unfold round
    rw [heq]
    exact mul_le_mul_of_nonneg_right
      (Int.cast_le.2 (roundEven_mono (div_le_div_of_nonneg_right hxy hpos.le))) hpos.le
  · -- a power of two lies between them
    have hprec := f.precision_pos
    have hlog : f.exponent y = Int.log 2 |y| + 1 - f.precision := by
      have hmin : f.minExponent ≤ f.exponent x := le_max_left _ _
      unfold exponent at hlt hmin ⊢
      omega
    have hy : (2 : ℚ) ^ Int.log 2 |y| ≤ y := by
      have hle := Int.zpow_log_le_self one_lt_two (abs_pos.2 (hx.trans_le hxy).ne')
      rw [abs_of_pos (hx.trans_le hxy)] at hle ⊢
      exact_mod_cast hle
    have hx' : x ≤ 2 ^ Int.log 2 |y| := by
      refine (le_abs_self x).trans ((abs_lt_zpow f x).le.trans ?_)
      exact zpow_le_zpow_right₀ one_le_two (by omega)
    have hup := round_le (f := f) (n := 1) (e := Int.log 2 |y|) (x := x) (by omega)
      (by rwa [Int.cast_one, one_mul])
    have hdown := le_round (f := f) (n := 1) (e := Int.log 2 |y|) (x := y) (by omega)
      (by rwa [Int.cast_one, one_mul])
    exact hup.trans hdown

theorem round_mono (hxy : x ≤ y) : f.round x ≤ f.round y := by
  rcases lt_trichotomy x 0 with hx | rfl | hx
  · rcases lt_or_ge y 0 with hy | hy
    · have hneg := round_mono_of_pos (f := f) (neg_pos.2 hy) (neg_le_neg hxy)
      rwa [round_neg, round_neg, neg_le_neg_iff] at hneg
    · have hnonneg := round_nonneg (f := f) (neg_nonneg.2 hx.le)
      rw [round_neg] at hnonneg
      exact (neg_nonneg.1 hnonneg).trans (round_nonneg hy)
  · rw [round_zero]
    exact round_nonneg hxy
  · exact round_mono_of_pos hx hxy

/-- **The error of rounding** is half a unit of the last place at most. -/
theorem abs_round_sub_le (f : FloatFormat) (x : ℚ) : |f.round x - x| ≤ 2 ^ f.exponent x / 2 := by
  have hpos : (0 : ℚ) < 2 ^ f.exponent x := zpow_pos two_pos _
  have hnear := (nearestEven_roundEven (x / 2 ^ f.exponent x)).abs_sub_le
  have hsub : f.round x - x =
      -(x / 2 ^ f.exponent x - roundEven (x / 2 ^ f.exponent x)) * 2 ^ f.exponent x := by
    rw [round, neg_sub, sub_mul, div_mul_cancel₀ x hpos.ne']
  rw [hsub, abs_mul, abs_neg, abs_of_pos hpos]
  linarith [mul_le_mul_of_nonneg_right hnear hpos.le]

theorem abs_round_sub_le_of_lt (hx : |x| < 2 ^ (e + f.precision)) (he : f.minExponent ≤ e) :
    |f.round x - x| ≤ 2 ^ e / 2 := by
  by_cases hzero : x = 0
  · rw [hzero, round_zero, sub_zero, abs_zero]
    exact div_nonneg (zpow_nonneg zero_le_two _) zero_le_two
  · have hle : (2 : ℚ) ^ f.exponent x ≤ 2 ^ e :=
      zpow_le_zpow_right₀ one_le_two (exponent_le hzero hx he)
    exact (abs_round_sub_le f x).trans (by linarith)

/-! ### Numbers of a format -/

/-- The number is one of the format. -/
def Represents (f : FloatFormat) (x : ℚ) : Prop :=
  ∃ (n e : ℤ), |n| < 2 ^ f.precision ∧ f.minExponent ≤ e ∧ x = n * 2 ^ e

/-- **The numbers of the format are kept.** -/
theorem Represents.round_eq_self (h : f.Represents x) : f.round x = x := by
  obtain ⟨n, e, hn, he, hx⟩ := h
  by_cases hzero : x = 0
  · rw [hzero, round_zero]
  · have hpow : (0 : ℚ) < 2 ^ e := zpow_pos two_pos _
    refine round_of_exponent_le (exponent_le hzero ?_ he) hx
    rw [hx, abs_mul, abs_of_pos hpow, zpow_add₀ two_ne_zero, zpow_natCast, mul_comm]
    exact mul_lt_mul_of_pos_left (by exact_mod_cast hn) hpow

theorem represents_intCast (hn : |n| < 2 ^ f.precision) (h : f.minExponent ≤ 0) :
    f.Represents n :=
  ⟨n, 0, hn, h, by rw [zpow_zero, mul_one]⟩

/-- **A number is rounded to one of the format.** -/
theorem represents_round (f : FloatFormat) (x : ℚ) : f.Represents (f.round x) := by
  have hpos : (0 : ℚ) < 2 ^ f.exponent x := zpow_pos two_pos _
  have hle : |roundEven (x / 2 ^ f.exponent x)| ≤ 2 ^ f.precision := by
    have hscaled : |x / 2 ^ f.exponent x| ≤ ((2 ^ f.precision : ℤ) : ℚ) := by
      have hlt := f.abs_lt_zpow x
      rw [zpow_add₀ two_ne_zero, zpow_natCast, mul_comm] at hlt
      rw [abs_div, abs_of_pos hpos, div_le_iff₀ hpos]
      exact_mod_cast hlt.le
    obtain ⟨hdown, hup⟩ := abs_le.1 hscaled
    have hdown' := roundEven_mono hdown
    have hup' := roundEven_mono hup
    rw [← Int.cast_neg, roundEven_intCast] at hdown'
    rw [roundEven_intCast] at hup'
    exact abs_le.2 ⟨hdown', hup'⟩
  have hmin : f.minExponent ≤ f.exponent x := le_max_left _ _
  rcases hle.lt_or_eq with hlt | heq
  · exact ⟨_, _, hlt, hmin, rfl⟩
  · -- the digits carry: one, and nothing behind it
    have hone : (1 : ℤ) < 2 ^ f.precision := one_lt_pow₀ one_lt_two f.precision_pos.ne'
    have hcarry : (2 : ℚ) ^ (f.exponent x + f.precision) = 2 ^ f.precision * 2 ^ f.exponent x := by
      rw [zpow_add₀ two_ne_zero, zpow_natCast, mul_comm]
    rcases (abs_eq (by positivity)).1 heq with hp | hp
    · refine ⟨1, f.exponent x + f.precision, by rwa [abs_one], by omega, ?_⟩
      rw [round, hp, hcarry]
      push_cast
      ring
    · refine ⟨-1, f.exponent x + f.precision, by rwa [abs_neg, abs_one], by omega, ?_⟩
      rw [round, hp, hcarry]
      push_cast
      ring

/-- The integers that double precision keeps. -/
theorem round_binary64_intCast (hn : |n| < 2 ^ 53) : binary64.round n = n :=
  (represents_intCast hn (by decide)).round_eq_self

/-- A number of the format is a multiple of the last place of the smaller ones. -/
theorem Represents.exists_eq_mul (h : f.Represents x) (hx : 2 ^ (e + f.precision - 1) ≤ |x|) :
    ∃ n : ℤ, x = n * 2 ^ e := by
  obtain ⟨n, k, hn, -, rfl⟩ := h
  have hpow : (0 : ℚ) < 2 ^ k := zpow_pos two_pos _
  have hlt : |(n : ℚ) * 2 ^ k| < 2 ^ (k + f.precision) := by
    rw [abs_mul, abs_of_pos hpow, zpow_add₀ two_ne_zero, zpow_natCast, mul_comm]
    exact mul_lt_mul_of_pos_left (by exact_mod_cast hn) hpow
  have hexp : e + f.precision - 1 < k + f.precision :=
    (zpow_lt_zpow_iff_right₀ one_lt_two).1 (hx.trans_lt hlt)
  exact ⟨_, mul_zpow_eq n (by omega)⟩

/-! ### Values that are not finite -/

/-- The result of an operation. -/
inductive Value (f : FloatFormat) where
  | nan
  | infinity (negative : Bool)
  | finite (x : ℚ) (digits : f.Represents x) (small : |x| < 2 ^ f.maxExponent)
  deriving DecidableEq

namespace Value

/-- The value that a result is rounded to. -/
def ofRat (f : FloatFormat) (x : ℚ) : f.Value :=
  if h : |f.round x| < 2 ^ f.maxExponent then finite (f.round x) (represents_round f x) h
  else infinity (x < 0)

/-- The difference to a number of the format. -/
def sub (v : f.Value) (y : ℚ) : f.Value :=
  match v with
  | finite x _ _ => ofRat f (x - y)
  | v => v

/-- The comparison with a number of the format. -/
def lt (v : f.Value) (y : ℚ) : Bool :=
  match v with
  | nan => false
  | infinity negative => negative
  | finite x _ _ => x < y

theorem ofRat_of_represents (h : f.Represents x) (hx : |x| < 2 ^ f.maxExponent) :
    ofRat f x = finite x h hx := by
  simp only [ofRat, h.round_eq_self, dif_pos hx]

theorem ofRat_lt_iff (hy : |y| < 2 ^ f.maxExponent) :
    (ofRat f x).lt y = true ↔ f.round x < y := by
  obtain ⟨hlow, hhigh⟩ := abs_lt.1 hy
  unfold ofRat
  split_ifs with h
  · exact decide_eq_true_iff
  · -- too large, whatever it is compared with
    rcases lt_or_ge x 0 with hx | hx
    · have hnonpos : f.round x ≤ 0 := by
        have hle := round_mono (f := f) hx.le
        rwa [round_zero] at hle
      rw [not_lt, abs_of_nonpos hnonpos] at h
      refine iff_of_true (decide_eq_true hx) ?_
      linarith
    · rw [not_lt, abs_of_nonneg (round_nonneg hx)] at h
      refine iff_of_false (by simp [lt, hx]) ?_
      linarith

end Value

end FloatFormat

end FCord
