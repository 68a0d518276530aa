import Mathlib.Data.List.TakeWhile
import RuleEditor.Binary64.Text
import RuleEditor.Proofs.Binary64.Nearest

/-!
# Writing decimals that read back

A finite binary number is exactly `significand * 2 ^ power`, so that all its decimal digits read
back as the number. The shortest digits are tested before they are taken, and a decimal without the
zeros at its end has the same value; hence the shortest decimal reads back too.
-/

namespace RuleEditor

/-! ## All digits -/

/-- A number on the grid of its own exponent is not rounded. -/
theorem Ratio.magnitude_of_grid {r : Ratio} {m : Nat} {power : Int} (den : 0 < r.den)
    (positive : 0 < m) (value : r.value = m * (2 : ℚ) ^ power)
    (grid : max (-1074) (Int.log 2 r.value - 52) = power) :
    r.magnitude = min Binary64.limit ((power + 1074).toNat * Binary64.unit + m) := by
  have two : (2 : ℚ) ^ power ≠ 0 := zpow_ne_zero _ two_ne_zero
  have num : 0 < r.num := by
    refine Nat.pos_of_ne_zero fun zero => ?_
    rw [Ratio.value, zero, Nat.cast_zero, zero_div] at value
    exact (mul_ne_zero (Nat.cast_ne_zero.2 positive.ne') two) value.symm
  have whole : (r.shift 2 power).value = m := by
    rw [Ratio.value_shift two_pos, value]
    exact mul_div_cancel_right₀ _ two
  simp only [Ratio.magnitude_eq num den, grid,
    Ratio.round_of_whole .toEven (Ratio.den_shift_pos two_pos _ den) whole]

namespace Binary64

theorem value_exact (x : Binary64) :
    x.exact.value = x.significand * (2 : ℚ) ^ x.power := by
  rw [exact]
  split
  · next up =>
    obtain ⟨n, eq⟩ := Int.eq_ofNat_of_zero_le up
    rw [eq, Decimal.value]
    simp
  · next down =>
    obtain ⟨n, eq⟩ := Int.eq_ofNat_of_zero_le (a := -x.power) (by omega)
    have eq : x.power = -(n : Int) := by omega
    rw [eq, Decimal.value]
    have ten : (10 : ℚ) ^ n = 5 ^ n * 2 ^ n := by rw [← mul_pow]; norm_num
    simp only [neg_neg, Int.toNat_natCast, Nat.pow_eq, Nat.cast_mul, Nat.cast_pow, zpow_neg,
      zpow_natCast, ten]
    field_simp
    norm_num

/-- The magnitude counts the significands on the grids below, and on that of the number. -/
theorem magnitude_eq (x : Binary64) :
    x.magnitude.val = (x.power + 1074).toNat * unit + x.significand := by
  rcases Nat.lt_or_ge x.magnitude.val unit with low | high
  · rw [power, significand, if_pos low, if_pos low]
    exact (Nat.zero_add _).symm
  · have normal := Nat.not_lt_of_le high
    rw [power, significand, if_neg normal, if_neg normal]
    simp only [unit] at high ⊢
    omega

/-- A normal number has a leading bit, and all others are on the finest grid. -/
theorem grid_eq {x : Binary64} (positive : 0 < x.significand) :
    max (-1074) (Int.log 2 (x.significand * (2 : ℚ) ^ x.power) - 52) = x.power := by
  have value : (0 : ℚ) < x.significand * (2 : ℚ) ^ x.power :=
    mul_pos (Nat.cast_pos.2 positive) (zpow_pos two_pos _)
  have upper (count : Nat) (bound : x.significand < 2 ^ count) :
      Int.log 2 (x.significand * (2 : ℚ) ^ x.power) < count + x.power := by
    refine (Int.lt_zpow_iff_log_lt one_lt_two value).1 ?_
    show _ < (2 : ℚ) ^ (count + x.power)
    rw [zpow_add₀ two_ne_zero, zpow_natCast]
    refine mul_lt_mul_of_pos_right ?_ (zpow_pos two_pos _)
    exact_mod_cast bound
  have lower (bound : 2 ^ 52 ≤ x.significand) :
      52 + x.power ≤ Int.log 2 (x.significand * (2 : ℚ) ^ x.power) := by
    refine (Int.zpow_le_iff_le_log one_lt_two value).1 ?_
    show (2 : ℚ) ^ (52 + x.power) ≤ _
    rw [zpow_add₀ two_ne_zero]
    refine mul_le_mul_of_nonneg_right ?_ (zpow_pos two_pos _).le
    exact_mod_cast bound
  by_cases normal : x.magnitude.val < unit
  · have finest : x.power = -1074 := if_pos normal
    have significand : x.significand = x.magnitude.val := if_pos normal
    have log := upper 52 (significand ▸ normal)
    omega
  · have significand : x.significand = unit + x.magnitude.val % unit := if_neg normal
    have power : x.power = (x.magnitude.val / unit : Nat) - 1075 := if_neg normal
    simp only [unit] at normal significand power
    have log := upper 53 (by omega)
    have log' := lower (by omega)
    omega

theorem magnitude_exact {x : Binary64} (finite : x.isFinite = true) :
    x.exact.magnitude = x.magnitude := by
  have bound : x.magnitude.val < limit := of_decide_eq_true finite
  have value := (Decimal.value_ratio x.exact).trans x.value_exact
  rw [Decimal.magnitude_eq_ratio]
  rcases Nat.eq_zero_or_pos x.significand with zero | positive
  · have small : x.magnitude.val < unit := by
      refine Nat.lt_of_not_le fun normal => ?_
      have eq : x.significand = unit + _ := if_neg (Nat.not_lt_of_le normal)
      have : 0 < unit := by decide
      omega
    have significand : x.significand = x.magnitude.val := if_pos small
    rw [← significand, zero]
    refine Ratio.magnitude_eq_zero (Decimal.den_ratio_pos _) ?_
    rw [value, zero, Nat.cast_zero, zero_mul]
    exact zpow_pos two_pos _
  · rw [Ratio.magnitude_of_grid (Decimal.den_ratio_pos _) positive value
      (value ▸ grid_eq positive), ← magnitude_eq]
    exact Nat.min_eq_right bound.le

end Binary64

/-! ## The shortest digits -/

namespace Decimal

theorem eq_append_zeros (digits : List Char) :
    ∃ leading, digits =
      leading ++ List.replicate (digits.reverse.takeWhile (· == '0')).length '0' := by
  refine ⟨(digits.reverse.dropWhile (· == '0')).reverse, ?_⟩
  have zeros : digits.reverse.takeWhile (· == '0') =
      List.replicate (digits.reverse.takeWhile (· == '0')).length '0' := by
    refine List.eq_replicate_of_mem fun c mem => ?_
    simpa using List.mem_takeWhile_imp mem
  have parts := congrArg List.reverse
    (List.takeWhile_append_dropWhile (p := (· == '0')) (l := digits.reverse))
  rw [List.reverse_append, List.reverse_reverse, zeros, List.reverse_replicate] at parts
  exact parts.symm

/-- Zeros at the end of the digits are a power of ten. -/
theorem pow_dvd_of_zeros (n : Nat) :
    10 ^ ((Nat.toDigits 10 n).reverse.takeWhile (· == '0')).length ∣ n := by
  obtain ⟨leading, eq⟩ := eq_append_zeros (Nat.toDigits 10 n)
  refine ⟨Nat.ofDigitChars 10 leading 0, ?_⟩
  rw [← Nat.ofDigitChars_replicate_zero, ← Nat.ofDigitChars_append, ← eq,
    Nat.ofDigitChars_ten_toDigits]

theorem value_trim (d : Decimal) : d.trim.value = d.value := by
  have dvd := pow_dvd_of_zeros d.digits
  rw [trim]
  generalize ((Nat.toDigits 10 d.digits).reverse.takeWhile (· == '0')).length = zeros at dvd
  split
  · next zero => simp [value, zero]
  · have whole : (d.digits : ℚ) = (d.digits / 10 ^ zeros : Nat) * 10 ^ zeros := by
      exact_mod_cast (Nat.div_mul_cancel dvd).symm
    simp only [value, Nat.pow_eq]
    rw [whole, zpow_add₀ (by norm_num), zpow_natCast]
    ring

/-- Zero has no exponent. -/
theorem exponent_trim {d : Decimal} (zero : d.trim.digits = 0) : d.trim.exponent = 0 := by
  have dvd := pow_dvd_of_zeros d.digits
  rw [trim] at zero ⊢
  split at zero
  · next none => rw [if_pos none]
  · next some => exact absurd (Nat.eq_zero_of_dvd_of_div_eq_zero dvd zero) some

end Decimal

namespace Binary64

/-- Digits are taken only if they read back. -/
theorem magnitude_withDigits {tie : Tie} {x : Binary64} {count : Nat} {d : Decimal}
    (h : x.withDigits tie count = some d) : d.magnitude = x.magnitude := by
  rw [withDigits] at h
  dsimp only at h
  split at h
  · next both =>
    cases h
    obtain ⟨below, above⟩ := Bool.and_eq_true_iff.1 both
    rcases Ratio.round_eq_or tie (x.ratio.shift 10 (x.ratio.ceilLog10 - count)) with down | up
    · rw [down]
      exact of_decide_eq_true below
    · rw [up]
      exact of_decide_eq_true above
  · split at h
    · next below =>
      cases h
      exact of_decide_eq_true below
    · split at h
      · next above =>
        cases h
        exact of_decide_eq_true above
      · cases h

/-- **The shortest decimal reads back.** -/
theorem magnitude_shortest (tie : Tie) {x : Binary64} (finite : x.isFinite = true) :
    (x.shortest tie).magnitude = x.magnitude := by
  rw [shortest, Decimal.magnitude_congr (Decimal.value_trim _)]
  cases found : (List.range 17).findSome? fun i => x.withDigits tie (i + 1) with
  | none => exact magnitude_exact finite
  | some d =>
    obtain ⟨count, -, taken⟩ := List.exists_of_findSome?_eq_some found
    exact magnitude_withDigits taken

end Binary64

end RuleEditor
