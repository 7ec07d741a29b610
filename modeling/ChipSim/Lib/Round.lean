import Mathlib.Data.Rat.Floor

/-!
# Rounding

Rounding of a rational to the nearest integer, ties to the even neighbour (Python's `round`).
-/

namespace Lib

/-- The nearest integer; a tie goes to the even one. -/
def roundHalfEven (q : ℚ) : ℤ :=
  if q - ⌊q⌋ < 1 / 2 then ⌊q⌋
  else if 1 / 2 < q - ⌊q⌋ then ⌊q⌋ + 1
  else if Even ⌊q⌋ then ⌊q⌋
  else ⌊q⌋ + 1

theorem floor_le_roundHalfEven (q : ℚ) : ⌊q⌋ ≤ roundHalfEven q := by
  unfold roundHalfEven
  split_ifs <;> omega

theorem roundHalfEven_le_floor_add_one (q : ℚ) : roundHalfEven q ≤ ⌊q⌋ + 1 := by
  unfold roundHalfEven
  split_ifs <;> omega

@[simp] theorem roundHalfEven_intCast (n : ℤ) : roundHalfEven n = n := by
  unfold roundHalfEven
  rw [if_pos (by simp)]
  exact Int.floor_intCast n

/-- Rounding is monotone. -/
theorem roundHalfEven_mono {a b : ℚ} (h : a ≤ b) : roundHalfEven a ≤ roundHalfEven b := by
  have hf : ⌊a⌋ ≤ ⌊b⌋ := Int.floor_mono h
  rcases hf.lt_or_eq with hlt | heq
  · -- distinct floors: the images are separated by the larger floor
    calc roundHalfEven a ≤ ⌊a⌋ + 1 := roundHalfEven_le_floor_add_one a
      _ ≤ ⌊b⌋ := hlt
      _ ≤ roundHalfEven b := floor_le_roundHalfEven b
  · have hfrac : a - ⌊a⌋ ≤ b - ⌊b⌋ := by rw [heq]; linarith
    unfold roundHalfEven
    rw [← heq] at hfrac ⊢
    split_ifs <;> first | omega | linarith

end Lib
