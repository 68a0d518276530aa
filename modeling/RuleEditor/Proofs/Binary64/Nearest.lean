import Mathlib.Algebra.Order.Floor.Semifield
import Mathlib.Data.Int.Log
import Mathlib.Data.Rat.Floor
import Mathlib.Tactic.FieldSimp
import Mathlib.Tactic.Linarith
import Mathlib.Tactic.NormNum
import Mathlib.Tactic.Positivity
import RuleEditor.Binary64.Decimal

/-!
# Reading decimals

**Values.** The functions that read a decimal work on pairs of natural numbers. `Ratio.value` and
`Decimal.value` are the rational numbers that these stand for, and each function is told by what it
does to them. So which binary number is nearest depends on the value of a decimal and not on how it
is written.

**Range.** What is below `2 ^ 1023` is read as a finite number.
-/

namespace RuleEditor

namespace Ratio

/-! ## Values -/

def value (r : Ratio) : ℚ := r.num / r.den

variable {r s : Ratio}

theorem value_pos (num : 0 < r.num) (den : 0 < r.den) : 0 < r.value := by
  rw [value]
  positivity

theorem value_nonneg (r : Ratio) : 0 ≤ r.value := by
  rw [value]
  positivity

theorem den_shift_pos {base : Nat} (positive : 0 < base) (exponent : Int) (den : 0 < r.den) :
    0 < (r.shift base exponent).den := by
  rw [shift]
  exact Nat.mul_pos den (Nat.pow_pos positive)

theorem num_shift_pos {base : Nat} (positive : 0 < base) (exponent : Int) (num : 0 < r.num) :
    0 < (r.shift base exponent).num := by
  rw [shift]
  exact Nat.mul_pos num (Nat.pow_pos positive)

theorem value_shift {base : Nat} (positive : 0 < base) (exponent : Int) (r : Ratio) :
    (r.shift base exponent).value = r.value / (base : ℚ) ^ exponent := by
  have nonzero : (base : ℚ) ≠ 0 := by exact_mod_cast positive.ne'
  simp only [value, shift, Nat.pow_eq]
  rcases Int.eq_nat_or_neg exponent with ⟨n, rfl | rfl⟩
  · simp [div_div]
  · simp [div_mul_eq_mul_div]

theorem floor_eq (r : Ratio) : r.floor = ⌊r.value⌋₊ := (Nat.floor_div_eq_div _ _).symm

theorem one_le_value_iff (den : 0 < r.den) : 1 ≤ r.value ↔ r.den ≤ r.num := by
  rw [value, one_le_div (by exact_mod_cast den)]
  exact_mod_cast Iff.rfl

theorem value_eq_iff (hr : 0 < r.den) (hs : 0 < s.den) :
    r.value = s.value ↔ r.num * s.den = s.num * r.den := by
  rw [value, value, div_eq_div_iff (by exact_mod_cast hr.ne') (by exact_mod_cast hs.ne')]
  exact_mod_cast Iff.rfl

/-! ## Logarithms -/

theorem log_eq_of_bounds {base : Nat} (many : 1 < base) {q : ℚ} {exponent : Int}
    (lower : (base : ℚ) ^ exponent ≤ q) (upper : q < (base : ℚ) ^ (exponent + 1)) :
    Int.log base q = exponent := by
  have positive : 0 < q := lt_of_lt_of_le (zpow_pos (by exact_mod_cast many.le) _) lower
  have most := (Int.lt_zpow_iff_log_lt many positive).1 upper
  have least := (Int.zpow_le_iff_le_log many positive).1 lower
  omega

theorem shift_den_le_num_iff {base : Nat} (positive : 0 < base) (exponent : Int)
    (den : 0 < r.den) :
    (r.shift base exponent).den ≤ (r.shift base exponent).num ↔
      (base : ℚ) ^ exponent ≤ r.value := by
  have power : (0 : ℚ) < (base : ℚ) ^ exponent := zpow_pos (by exact_mod_cast positive) _
  rw [← one_le_value_iff (den_shift_pos positive exponent den), value_shift positive,
    one_le_div power]

/-- The difference of the logarithms of both parts is right or one too large. -/
theorem value_bounds (num : 0 < r.num) (den : 0 < r.den) :
    (2 : ℚ) ^ ((r.num.log2 : Int) - r.den.log2 - 1) ≤ r.value ∧
      r.value < (2 : ℚ) ^ ((r.num.log2 : Int) - r.den.log2 + 1) := by
  have numLower : (2 : ℚ) ^ (r.num.log2 : Int) ≤ r.num := by
    exact_mod_cast Nat.log2_self_le num.ne'
  have numUpper : (r.num : ℚ) < (2 : ℚ) ^ ((r.num.log2 : Int) + 1) := by
    exact_mod_cast Nat.lt_log2_self (n := r.num)
  have denLower : (2 : ℚ) ^ (r.den.log2 : Int) ≤ r.den := by
    exact_mod_cast Nat.log2_self_le den.ne'
  have denUpper : (r.den : ℚ) < (2 : ℚ) ^ ((r.den.log2 : Int) + 1) := by
    exact_mod_cast Nat.lt_log2_self (n := r.den)
  have positive : (0 : ℚ) < r.den := by exact_mod_cast den
  have two : (2 : ℚ) ≠ 0 := two_ne_zero
  rw [value, le_div_iff₀ positive, div_lt_iff₀ positive]
  constructor
  · calc (2 : ℚ) ^ ((r.num.log2 : Int) - r.den.log2 - 1) * r.den
        ≤ (2 : ℚ) ^ ((r.num.log2 : Int) - r.den.log2 - 1) * (2 : ℚ) ^ ((r.den.log2 : Int) + 1) :=
          mul_le_mul_of_nonneg_left denUpper.le (zpow_nonneg two_pos.le _)
      _ = (2 : ℚ) ^ (r.num.log2 : Int) := by
          rw [← zpow_add₀ two]
          congr 1
          ring
      _ ≤ r.num := numLower
  · calc (r.num : ℚ) < (2 : ℚ) ^ ((r.num.log2 : Int) + 1) := numUpper
      _ = (2 : ℚ) ^ ((r.num.log2 : Int) - r.den.log2 + 1) * (2 : ℚ) ^ (r.den.log2 : Int) := by
          rw [← zpow_add₀ two]
          congr 1
          ring
      _ ≤ (2 : ℚ) ^ ((r.num.log2 : Int) - r.den.log2 + 1) * r.den :=
          mul_le_mul_of_nonneg_left denLower (zpow_nonneg two_pos.le _)

theorem log2_eq (num : 0 < r.num) (den : 0 < r.den) : r.log2 = Int.log 2 r.value := by
  obtain ⟨lower, upper⟩ := value_bounds num den
  rw [log2]
  split
  · next reached =>
    rw [shift_den_le_num_iff two_pos _ den] at reached
    exact (log_eq_of_bounds one_lt_two reached upper).symm
  · next missed =>
    rw [shift_den_le_num_iff two_pos _ den, not_le] at missed
    refine (log_eq_of_bounds one_lt_two lower ?_).symm
    rwa [sub_add_cancel]

/-! ## Rounding -/

theorem round_scale (tie : Tie) (num den : Nat) {factor : Nat} (positive : 0 < factor) :
    (Ratio.mk (num * factor) (den * factor)).round tie = (Ratio.mk num den).round tie := by
  have double (n : Nat) : 2 * (n * factor) = 2 * n * factor := (Nat.mul_assoc 2 n factor).symm
  simp only [round, Nat.mul_div_mul_right _ _ positive, Nat.mul_mod_mul_right, double,
    Nat.mul_lt_mul_right positive]

theorem round_congr (tie : Tie) (hr : 0 < r.den) (hs : 0 < s.den) (same : r.value = s.value) :
    r.round tie = s.round tie := by
  have crossed := (value_eq_iff hr hs).1 same
  have left := round_scale tie r.num r.den hs
  have right := round_scale tie s.num s.den hr
  rw [crossed, Nat.mul_comm r.den] at left
  exact left.symm.trans right

theorem floor_le_round (tie : Tie) (r : Ratio) : r.floor ≤ r.round tie := by
  cases tie <;> simp only [round, floor] <;> split_ifs <;> omega

theorem round_le (tie : Tie) (r : Ratio) : r.round tie ≤ r.floor + 1 := by
  cases tie <;> simp only [round, floor] <;> split_ifs <;> omega

theorem round_eq_or (tie : Tie) (r : Ratio) :
    r.round tie = r.floor ∨ r.round tie = r.floor + 1 := by
  have lower := floor_le_round tie r
  have upper := round_le tie r
  omega

theorem round_of_whole (tie : Tie) {n : Nat} (den : 0 < r.den) (whole : r.value = n) :
    r.round tie = n := by
  have one : (Ratio.mk n 1).value = n := by simp [value]
  rw [round_congr tie den Nat.one_pos (whole.trans one.symm)]
  simp [round, Nat.mod_one]

theorem round_of_lt_half (tie : Tie) (den : 0 < r.den) (small : r.value < 1 / 2) :
    r.round tie = 0 := by
  have half : 2 * r.num < r.den := by
    rw [value, div_lt_div_iff₀ (by exact_mod_cast den) two_pos, one_mul] at small
    have small : r.num * 2 < r.den := by exact_mod_cast small
    omega
  have below : r.num < r.den := by omega
  simp only [round, Nat.div_eq_of_lt below, Nat.mod_eq_of_lt below, if_pos half]

/-! ## The nearest binary number -/

/-- The exponent of the grid on which the significand is rounded. -/
theorem magnitude_eq (num : 0 < r.num) (den : 0 < r.den) :
    let power := max (-1074) (Int.log 2 r.value - 52)
    r.magnitude = min Binary64.limit
      ((power + 1074).toNat * Binary64.unit + (r.shift 2 power).round .toEven) := by
  rw [magnitude, if_neg num.ne', log2_eq num den]

theorem magnitude_of_num (zero : r.num = 0) : r.magnitude = 0 := by
  rw [magnitude, if_pos zero]

theorem magnitude_congr (hr : 0 < r.den) (hs : 0 < s.den) (same : r.value = s.value) :
    r.magnitude = s.magnitude := by
  have zero : r.num = 0 ↔ s.num = 0 := by
    have crossed := (value_eq_iff hr hs).1 same
    constructor
    · intro zero
      rw [zero, Nat.zero_mul, eq_comm, Nat.mul_eq_zero] at crossed
      exact crossed.resolve_right hr.ne'
    · intro zero
      rw [zero, Nat.zero_mul, Nat.mul_eq_zero] at crossed
      exact crossed.resolve_right hs.ne'
  rcases Nat.eq_zero_or_pos r.num with none | some
  · rw [magnitude_of_num none, magnitude_of_num (zero.1 none)]
  · have other : 0 < s.num := Nat.pos_of_ne_zero fun none => some.ne' (zero.2 none)
    rw [magnitude_eq some hr, magnitude_eq other hs, same]
    congr 2
    refine round_congr .toEven (den_shift_pos two_pos _ hr) (den_shift_pos two_pos _ hs) ?_
    rw [value_shift two_pos, value_shift two_pos, same]

/-! ## Range -/

theorem magnitude_lt_limit (den : 0 < r.den) (small : r.value < (2 : ℚ) ^ (1023 : Int)) :
    r.magnitude < Binary64.limit := by
  rcases Nat.eq_zero_or_pos r.num with none | num
  · rw [magnitude_of_num none]
    decide
  have positive := value_pos num den
  have log : Int.log 2 r.value < 1023 :=
    (Int.lt_zpow_iff_log_lt one_lt_two positive).1 small
  rw [magnitude_eq num den]
  generalize grid : max (-1074) (Int.log 2 r.value - 52) = power
  have scaled : (r.shift 2 power).value < (2 ^ 53 : Nat) := by
    have power_pos : (0 : ℚ) < (2 : ℚ) ^ power := zpow_pos two_pos _
    rw [value_shift two_pos]
    show r.value / (2 : ℚ) ^ power < _
    rw [div_lt_iff₀ power_pos]
    calc r.value < (2 : ℚ) ^ (Int.log 2 r.value + 1) := Int.lt_zpow_succ_log_self one_lt_two _
      _ ≤ (2 : ℚ) ^ (53 + power) := zpow_le_zpow_right₀ one_le_two (by omega)
      _ = (2 ^ 53 : Nat) * (2 : ℚ) ^ power := by
        rw [zpow_add₀ two_ne_zero]
        norm_num
  have whole : (r.shift 2 power).floor < 2 ^ 53 := by
    rw [floor_eq]
    exact (Nat.floor_lt (value_nonneg _)).2 scaled
  have rounded := round_le .toEven (r.shift 2 power)
  simp only [Binary64.limit, Binary64.unit]
  omega

theorem magnitude_eq_limit (num : 0 < r.num) (den : 0 < r.den)
    (large : (2 : ℚ) ^ (1024 : Int) ≤ r.value) :
    r.magnitude = Binary64.limit := by
  have positive := value_pos num den
  have log : 1024 ≤ Int.log 2 r.value :=
    (Int.zpow_le_iff_le_log one_lt_two positive).1 large
  rw [magnitude_eq num den]
  generalize grid : max (-1074) (Int.log 2 r.value - 52) = power
  have scaled : (2 ^ 52 : Nat) ≤ (r.shift 2 power).value := by
    have power_pos : (0 : ℚ) < (2 : ℚ) ^ power := zpow_pos two_pos _
    rw [value_shift two_pos]
    show _ ≤ r.value / (2 : ℚ) ^ power
    rw [le_div_iff₀ power_pos]
    calc (2 ^ 52 : Nat) * (2 : ℚ) ^ power = (2 : ℚ) ^ (52 + power) := by
          rw [zpow_add₀ two_ne_zero]
          norm_num
      _ ≤ (2 : ℚ) ^ Int.log 2 r.value := zpow_le_zpow_right₀ one_le_two (by omega)
      _ ≤ r.value := Int.zpow_log_le_self one_lt_two positive
  have whole : 2 ^ 52 ≤ (r.shift 2 power).floor := by
    rw [floor_eq]
    exact Nat.le_floor scaled
  have rounded := floor_le_round .toEven (r.shift 2 power)
  simp only [Binary64.limit, Binary64.unit]
  omega

theorem magnitude_eq_zero (den : 0 < r.den) (small : r.value < (2 : ℚ) ^ (-1075 : Int)) :
    r.magnitude = 0 := by
  rcases Nat.eq_zero_or_pos r.num with none | num
  · exact magnitude_of_num none
  have positive := value_pos num den
  have log : Int.log 2 r.value < -1075 := (Int.lt_zpow_iff_log_lt one_lt_two positive).1 small
  have grid : max (-1074) (Int.log 2 r.value - 52) = -1074 := by omega
  have scaled : (r.shift 2 (-1074)).value < 1 / 2 := by
    rw [value_shift two_pos]
    show r.value / (2 : ℚ) ^ (-1074 : Int) < 1 / 2
    rw [div_lt_iff₀ (zpow_pos two_pos _)]
    calc r.value < (2 : ℚ) ^ (-1 + -1074 : Int) := small
      _ = 1 / 2 * (2 : ℚ) ^ (-1074 : Int) := by
        rw [zpow_add₀ two_ne_zero]
        norm_num
  simp only [magnitude_eq num den, grid,
    round_of_lt_half .toEven (den_shift_pos two_pos _ den) scaled]
  rfl

end Ratio

namespace Decimal

/-! ## Decimals -/

def value (d : Decimal) : ℚ := d.digits * (10 : ℚ) ^ d.exponent

theorem den_ratio_pos (d : Decimal) : 0 < d.ratio.den :=
  Ratio.den_shift_pos (by decide) _ Nat.one_pos

theorem value_ratio (d : Decimal) : d.ratio.value = d.value := by
  rw [ratio, Ratio.value_shift (by decide), value, Ratio.value]
  simp

theorem num_ratio_pos {d : Decimal} (nonzero : d.digits ≠ 0) : 0 < d.ratio.num :=
  Ratio.num_shift_pos (by decide) _ (Nat.pos_of_ne_zero nonzero)

theorem lt_pow_digitCount (n : Nat) : n < 10 ^ digitCount n :=
  (Nat.length_toDigits_le_iff (by decide) Nat.length_toDigits_pos).1 (Nat.le_refl _)

theorem pow_digitCount_le {n : Nat} (nonzero : n ≠ 0) : 10 ^ (digitCount n - 1) ≤ n := by
  rcases Nat.eq_zero_or_pos (digitCount n - 1) with one | more
  · rw [one]
    exact Nat.one_le_iff_ne_zero.2 nonzero
  · refine Nat.le_of_not_lt fun small => ?_
    have few := (Nat.length_toDigits_le_iff (by decide) more).2 small
    have : digitCount n ≤ digitCount n - 1 := few
    omega

/-- The decimal starts at its leading digit. -/
theorem value_bounds {d : Decimal} (nonzero : d.digits ≠ 0) :
    (10 : ℚ) ^ (d.exponent + digitCount d.digits - 1) ≤ d.value ∧
      d.value < (10 : ℚ) ^ (d.exponent + digitCount d.digits) := by
  have ten : (10 : ℚ) ≠ 0 := by norm_num
  have power : (0 : ℚ) < (10 : ℚ) ^ d.exponent := zpow_pos (by norm_num) _
  have lower : ((10 ^ (digitCount d.digits - 1) : Nat) : ℚ) ≤ d.digits :=
    Nat.cast_le.2 (pow_digitCount_le nonzero)
  have upper : (d.digits : ℚ) < (10 ^ digitCount d.digits : Nat) :=
    Nat.cast_lt.2 (lt_pow_digitCount d.digits)
  have count : 1 ≤ digitCount d.digits := Nat.length_toDigits_pos
  rw [value]
  constructor
  · calc (10 : ℚ) ^ (d.exponent + digitCount d.digits - 1)
        = (10 ^ (digitCount d.digits - 1) : Nat) * (10 : ℚ) ^ d.exponent := by
          rw [Nat.cast_pow, Nat.cast_ofNat, ← zpow_natCast, ← zpow_add₀ ten]
          congr 1
          omega
      _ ≤ d.digits * (10 : ℚ) ^ d.exponent := mul_le_mul_of_nonneg_right lower power.le
  · calc d.digits * (10 : ℚ) ^ d.exponent
        < (10 ^ digitCount d.digits : Nat) * (10 : ℚ) ^ d.exponent :=
          mul_lt_mul_of_pos_right upper power
      _ = (10 : ℚ) ^ (d.exponent + digitCount d.digits) := by
          rw [Nat.cast_pow, Nat.cast_ofNat, ← zpow_natCast, ← zpow_add₀ ten, add_comm]

theorem two_pow_le_ten_pow : (2 : ℚ) ^ (1024 : Int) ≤ (10 : ℚ) ^ (309 : Int) := by
  have bound : (2 ^ 1024 : Nat) ≤ 10 ^ 309 := by decide +kernel
  rw [← Nat.cast_le (α := ℚ), Nat.cast_pow, Nat.cast_pow] at bound
  exact bound

theorem ten_pow_le_two_pow : (10 : ℚ) ^ (-324 : Int) ≤ (2 : ℚ) ^ (-1075 : Int) := by
  have bound : (2 ^ 1075 : Nat) ≤ 10 ^ 324 := by decide +kernel
  rw [← Nat.cast_le (α := ℚ), Nat.cast_pow, Nat.cast_pow] at bound
  rw [zpow_neg, zpow_neg]
  exact inv_anti₀ (zpow_pos two_pos _) bound

/-- The bounds beyond which a decimal is not scaled decide rightly. -/
theorem magnitude_eq_ratio (d : Decimal) : d.magnitude = d.ratio.magnitude := by
  have ten : (1 : ℚ) ≤ 10 := by norm_num
  rw [magnitude]
  split
  · next zero =>
    rw [Ratio.magnitude_of_num]
    rw [ratio, Ratio.shift, zero, Nat.zero_mul]
  · next nonzero =>
    obtain ⟨lower, upper⟩ := value_bounds nonzero
    rw [← value_ratio] at lower upper
    split
    · next large =>
      refine (Ratio.magnitude_eq_limit (num_ratio_pos nonzero) d.den_ratio_pos ?_).symm
      exact two_pow_le_ten_pow.trans ((zpow_le_zpow_right₀ ten (by omega)).trans lower)
    · split
      · next small =>
        refine (Ratio.magnitude_eq_zero d.den_ratio_pos ?_).symm
        exact upper.trans_le ((zpow_le_zpow_right₀ ten small).trans ten_pow_le_two_pow)
      · rfl

/-- **Which binary number a decimal is nearest to depends on its value only.** -/
theorem magnitude_congr {d e : Decimal} (same : d.value = e.value) : d.magnitude = e.magnitude := by
  rw [magnitude_eq_ratio, magnitude_eq_ratio]
  refine Ratio.magnitude_congr d.den_ratio_pos e.den_ratio_pos ?_
  rw [value_ratio, value_ratio, same]

/-- A whole number of 64 bits is read as a finite number. -/
theorem isFinite_nearest {n : Nat} (bound : n < 2 ^ 64) (negative : Bool) :
    (nearest negative ⟨n, 0⟩).isFinite = true := by
  refine decide_eq_true ?_
  show magnitude ⟨n, 0⟩ < Binary64.limit
  rw [magnitude_eq_ratio]
  refine Ratio.magnitude_lt_limit (den_ratio_pos _) ?_
  rw [value_ratio, value, zpow_zero, mul_one]
  calc (n : ℚ) < (2 ^ 64 : Nat) := Nat.cast_lt.2 bound
    _ = (2 : ℚ) ^ (64 : Int) := by norm_num
    _ ≤ (2 : ℚ) ^ (1023 : Int) := zpow_le_zpow_right₀ one_le_two (by decide)

end Decimal

end RuleEditor
