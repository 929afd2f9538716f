/-
# The power over the reals

What both kernels approximate, at the public scale of `10 ^ 18`: the power of a base up to
one as the exponential of the exponent times its logarithm.
-/

import Antumbra.Math.Word
import Mathlib.Analysis.SpecialFunctions.Pow.Real

namespace Antumbra

open Antumbra.Math

variable {x num den : U128}

/-- The exact logarithm of a base, as a positive number. -/
noncomputable def exactLog (x : U128) : ℝ := -Real.log (x.toNat / 1000000000000000000)

theorem exp_exactLog (hx : 0 < x.toNat) :
    1000000000000000000 * Real.exp (-exactLog x) = x.toNat := by
  have pos : (0 : ℝ) < x.toNat / 1000000000000000000 := by positivity
  rw [exactLog, neg_neg, Real.exp_log pos, mul_div_cancel₀ _ (by norm_num)]

theorem exactLog_nonneg (le : x.toNat ≤ 1000000000000000000) : 0 ≤ exactLog x := by
  have share : (x.toNat : ℝ) / 1000000000000000000 ≤ 1 := by
    rw [div_le_one (by norm_num)]
    exact_mod_cast le
  exact neg_nonneg.mpr (Real.log_nonpos (by positivity) share)

/-- The real power at the public scale. -/
noncomputable def exactPower (x num den : U128) : ℝ :=
  1000000000000000000 *
    ((x.toNat : ℝ) / 1000000000000000000) ^ ((num.toNat : ℝ) / den.toNat)

theorem exactPower_eq (hx : 0 < x.toNat) :
    exactPower x num den =
      1000000000000000000 * Real.exp (-((num.toNat : ℝ) / den.toNat * exactLog x)) := by
  have pos : (0 : ℝ) < x.toNat / 1000000000000000000 := by positivity
  rw [exactPower, Real.rpow_def_of_pos pos, exactLog]
  ring_nf

/-- How far an error of the logarithm moves the power: the exponent times the power. -/
noncomputable def response (x num den : U128) : ℝ :=
  (num.toNat : ℝ) / den.toNat * (exactPower x num den / 1000000000000000000)

theorem response_eq (hx : 0 < x.toNat) :
    response x num den = (num.toNat : ℝ) / den.toNat *
      Real.exp (-((num.toNat : ℝ) / den.toNat * exactLog x)) := by
  rw [response, exactPower_eq hx, mul_div_cancel_left₀ _ (by norm_num)]

theorem exactPower_nonneg (x num den : U128) : 0 ≤ exactPower x num den := by
  unfold exactPower
  positivity

theorem response_nonneg (x num den : U128) : 0 ≤ response x num den := by
  have := exactPower_nonneg x num den
  unfold response
  positivity

/-- The power of a base up to one answers with no more than the exponent. -/
theorem response_le (hx : 0 < x.toNat) (le : x.toNat ≤ 1000000000000000000) :
    response x num den ≤ (num.toNat : ℝ) / den.toNat := by
  rw [response_eq hx]
  refine mul_le_of_le_one_right (by positivity) (Real.exp_le_one_iff.mpr (neg_nonpos.mpr ?_))
  exact mul_nonneg (by positivity) (exactLog_nonneg le)

/-- At exponents up to one an error of the logarithm is not magnified. -/
theorem response_le_one_of_le (hx : 0 < x.toNat) (le : x.toNat ≤ 1000000000000000000)
    (hd : 0 < den.toNat) (ordered : num.toNat ≤ den.toNat) : response x num den ≤ 1 := by
  refine (response_le hx le).trans ?_
  rw [div_le_one (Nat.cast_pos.mpr hd)]
  exact_mod_cast ordered

end Antumbra
