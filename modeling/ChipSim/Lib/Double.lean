import Mathlib.Data.Int.Log
import ChipSim.Lib.Round

/-!
# Floating-point arithmetic

A program over rationals that rounds the result of every operation has an exact meaning and a
meaning in doubles, for two choices of the rounding. What is proved for every rounding with the
relative error of doubles holds for both. Overflow and underflow are left out.
-/

namespace Lib

/-- How the result of an operation is rounded. -/
class Arithmetic where
  fl : ℚ → ℚ
  abs_fl_sub_le (q : ℚ) : |fl q - q| ≤ |q| / 2 ^ 53

namespace Arithmetic

/-- Exact arithmetic, which is meant where nothing is said. -/
instance exact : Arithmetic where
  fl := id
  abs_fl_sub_le q := by
    rw [id_eq, sub_self, abs_zero]
    positivity

@[simp] theorem fl_exact (q : ℚ) : fl q = q := rfl

theorem abs_roundHalfEven_sub_le (q : ℚ) : |(roundHalfEven q : ℚ) - q| ≤ 1 / 2 := by
  have hle := Int.floor_le q
  have hlt := Int.lt_floor_add_one q
  unfold roundHalfEven
  rw [abs_le]
  split_ifs <;> push_cast <;> constructor <;> linarith

/-- The nearest number with a mantissa of `53` bits; a tie goes to the even one. -/
def roundDouble (q : ℚ) : ℚ :=
  roundHalfEven (q / 2 ^ (Int.log 2 |q| - 52)) * 2 ^ (Int.log 2 |q| - 52)

theorem abs_roundDouble_sub_le (q : ℚ) : |roundDouble q - q| ≤ |q| / 2 ^ 53 := by
  rcases eq_or_ne q 0 with rfl | hq
  · simp [roundDouble, roundHalfEven]
  unfold roundDouble
  have hlog : (2 : ℚ) ^ Int.log 2 |q| ≤ |q| := by
    exact_mod_cast Int.zpow_log_le_self one_lt_two (abs_pos.mpr hq)
  have hunit : (2 : ℚ) ^ (Int.log 2 |q| - 52) = 2 ^ Int.log 2 |q| / 2 ^ 52 := by
    rw [zpow_sub₀ two_ne_zero]
    norm_num
  have hpos : (0 : ℚ) < 2 ^ (Int.log 2 |q| - 52) := zpow_pos two_pos _
  generalize (2 : ℚ) ^ (Int.log 2 |q| - 52) = u at hunit hpos
  have hsplit : roundHalfEven (q / u) * u - q = (roundHalfEven (q / u) - q / u) * u := by
    rw [sub_mul, div_mul_cancel₀ q hpos.ne']
  rw [hsplit, abs_mul, abs_of_pos hpos]
  have herror := mul_le_mul_of_nonneg_right (abs_roundHalfEven_sub_le (q / u)) hpos.le
  linarith

/-- Doubles. -/
abbrev double : Arithmetic := ⟨roundDouble, abs_roundDouble_sub_le⟩

variable [Arithmetic] {q : ℚ}

theorem fl_le (h : 0 ≤ q) : fl q ≤ q * (1 + 1 / 2 ^ 53) := by
  have herror := (abs_le.mp (abs_fl_sub_le q)).2
  rw [abs_of_nonneg h] at herror
  linarith

theorem le_fl (h : 0 ≤ q) : q * (1 - 1 / 2 ^ 53) ≤ fl q := by
  have herror := (abs_le.mp (abs_fl_sub_le q)).1
  rw [abs_of_nonneg h] at herror
  linarith

theorem fl_nonneg (h : 0 ≤ q) : 0 ≤ fl q :=
  (mul_nonneg h (by norm_num)).trans (le_fl h)

end Arithmetic

example : Arithmetic.roundDouble (1 / 3) = 6004799503160661 / 2 ^ 54 := by decide +kernel

end Lib
