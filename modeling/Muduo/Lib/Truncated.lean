import Mathlib.Data.Int.Basic

set_option autoImplicit false

/-! # Division towards zero

The quotient and the remainder that `/` and `%` of a C program answer for a positive divisor. The
remainder has the sign of the dividend. `divMod` says all there is to say; with it a goal about a
literal divisor is linear arithmetic. -/

namespace Truncated

variable {b : Int}

theorem divMod (a : Int) (hb : 0 < b) :
    b * a.tdiv b + a.tmod b = a ∧ (0 ≤ a → 0 ≤ a.tmod b ∧ a.tmod b < b) ∧
      (a ≤ 0 → -b < a.tmod b ∧ a.tmod b ≤ 0) := by
  refine ⟨Int.mul_tdiv_add_tmod a b, fun ha => ?_, fun ha => ?_⟩
  · exact ⟨Int.tmod_nonneg b ha, Int.tmod_lt_of_pos a hb⟩
  · have hneg := Int.tmod_nonneg b (Int.neg_nonneg_of_nonpos ha)
    have hlt := Int.tmod_lt_of_pos (-a) hb
    rw [Int.neg_tmod] at hneg hlt
    omega

/-- Dividing by ten ends at zero. -/
theorem natAbs_tdiv_lt {a : Int} (ha : a ≠ 0) : (a.tdiv 10).natAbs < a.natAbs := by
  have hdiv := divMod a (b := 10) (by decide)
  omega

end Truncated
