/-
# Where the residue stays with the pool

What a kernel's power falls short of the exact one has two parts. Rounding the base down costs
a definite amount, told from the operands; the kernel's series add an error that is bounded in
the response of the power. Where both together, over the whole reserve, do not reach the next
whole token the payout stays within its formula; where the first reaches it in spite of the
second the payout goes beyond.
-/

import Antumbra.Weighted.BinaryOrder
import Antumbra.Weighted.DecimalPower
import Antumbra.Weighted.Price

namespace Antumbra

open Antumbra.Math

namespace Weighted

variable {kernel : Kernel} {reserveToken reserveCollateral cIn wToken wCollateral out p : U128}

/-! ### The error of a kernel's power -/

/-- The most a kernel's power falls short of the real one at its base, by its response there. -/
noncomputable def Kernel.shortfall : Kernel → ℝ → ℝ
  | .binary, response => 3.8 + 0.57 * response
  | .decimal, _ => 11.08

/-- The most it exceeds it, at exponents up to `99`. -/
noncomputable def Kernel.excess : Kernel → ℝ → ℝ
  | .binary, response => 0.5 + 0.65 * response
  | .decimal, response => 12.72 + 85 * response

theorem Kernel.shortfall_nonneg {response : ℝ} (h : 0 ≤ response) :
    0 ≤ kernel.shortfall response := by
  cases kernel <;> unfold Kernel.shortfall <;> positivity

theorem Kernel.excess_nonneg {response : ℝ} (h : 0 ≤ response) : 0 ≤ kernel.excess response := by
  cases kernel <;> unfold Kernel.excess <;> positivity

section
variable {x num den : U128}

/-- A base of nothing has no power. -/
theorem exactPower_zero (hn : 0 < num.toNat) (hd : 0 < den.toNat) : exactPower 0 num den = 0 := by
  have positive : ((num.toNat : ℝ) / den.toNat) ≠ 0 := by positivity
  rw [exactPower, toNat_zero, Nat.cast_zero, zero_div, Real.zero_rpow positive, mul_zero]

theorem Kernel.Powers.bounds_binary (below : x.toNat < ONE.toNat) (hn : 0 < num.toNat)
    (hd : 0 < den.toNat) (ne : num ≠ den) (h : Kernel.binary.Powers x num den p) :
    exactPower x num den - Kernel.binary.shortfall (response x num den) ≤ p.toNat ∧
      ((num.toNat : ℝ) / den.toNat ≤ 99 →
        (p.toNat : ℝ) ≤ exactPower x num den + Kernel.binary.excess (response x num den)) := by
  change Binfixed.powFrac x num den = .ok p at h
  have nonneg := response_nonneg x num den
  rcases Nat.eq_zero_or_pos x.toNat with none | hx
  · have zero : x = 0 := word_ext none
    rw [zero, Binfixed.powFrac, if_neg (not_or.mpr ⟨toNat_pos_iff.mpr hd, toNat_pos_iff.mpr hn⟩),
      if_pos rfl, Except.ok.injEq] at h
    rw [← h, toNat_zero, Nat.cast_zero, zero, exactPower_zero hn hd, ← zero]
    exact ⟨by linarith [Kernel.binary.shortfall_nonneg nonneg],
      fun _ => by linarith [Kernel.binary.excess_nonneg nonneg]⟩
  · have le : x.toNat ≤ 1000000000000000000 := below.le
    rcases Binfixed.powFrac_cases hx le (toNat_pos_iff.mpr hn) (toNat_pos_iff.mpr hd) h with
      ⟨same, -⟩ | ⟨-, -, value⟩ | ⟨-, wraps, value⟩
    · exact absurd same ne
    · rw [value]
      exact ⟨Binfixed.exactPower_sub_le_expAt hx le hd, Binfixed.expAt_le_exactPower_add hx le hd⟩
    · -- the power of one that a lost sign leaves is never too small
      refine ⟨?_, fun high => absurd wraps ?_⟩
      · have one : Real.exp (-((num.toNat : ℝ) / den.toNat * exactLog x)) ≤ 1 :=
          Real.exp_le_one_iff.mpr
            (neg_nonpos.mpr (mul_nonneg (by positivity) (exactLog_nonneg le)))
        rw [value, exactPower_eq hx]
        push_cast
        linarith [Kernel.binary.shortfall_nonneg nonneg]
      · obtain ⟨nl_nonneg, nl_lt⟩ := Binfixed.nl_range hx le
        obtain ⟨floor_le, -⟩ := @Binfixed.scaledLog_bounds x num den hx le hd
        have nl_nonneg' : (0 : ℝ) ≤ Binfixed.nl x := by exact_mod_cast nl_nonneg
        have nl_lt' : (Binfixed.nl x : ℝ) < 2 ^ 68 := by exact_mod_cast nl_lt
        have product := mul_le_mul high nl_lt'.le nl_nonneg' (by norm_num)
        have small : (Binfixed.scaledLog x num den : ℝ) < 2 ^ 127 := by linarith
        have small' : Binfixed.scaledLog x num den < 2 ^ 127 := by exact_mod_cast small
        exact not_le.mpr small'

theorem Kernel.Powers.bounds_decimal (below : x.toNat < ONE.toNat) (hd : 0 < den.toNat)
    (ne : num ≠ den) (h : Kernel.decimal.Powers x num den p) :
    exactPower x num den - Kernel.decimal.shortfall (response x num den) ≤ p.toNat ∧
      ((num.toNat : ℝ) / den.toNat ≤ 99 →
        (p.toNat : ℝ) ≤ exactPower x num den + Kernel.decimal.excess (response x num den)) := by
  change powFrac x num den = .ok p at h
  have le : x.toNat ≤ 1000000000000000000 := below.le
  rcases Nat.eq_zero_or_pos x.toNat with none | hx
  · have zero : x = 0 := word_ext none
    have notOne : (0 : U128) ≠ ONE := by decide
    rw [zero, powFrac, if_neg (toNat_pos_iff.mpr hd), if_neg notOne, if_neg ne] at h
    cases h
  · rw [powFrac_eq hx le (toNat_pos_iff.mpr hd) ne] at h
    split_ifs at h with large
    rw [Except.ok.injEq] at h
    have bound := expAt_le (scaledLog x num den)
    have value : p.toNat = expAt (scaledLog x num den) := by
      rw [← h, BitVec.toNat_ofNat, Nat.mod_eq_of_lt (by omega)]
    rw [value]
    refine ⟨exactPower_sub_le_expAt hx le hd, fun high => ?_⟩
    obtain ⟨-, -, up⟩ := expAt_scaledLog_close hx le hd high
    have drifts := @drift_le x num den hx le
    rw [Kernel.excess]
    linarith

/-- Either kernel's power against the real one at its base. -/
theorem Kernel.Powers.bounds (below : x.toNat < ONE.toNat) (hn : 0 < num.toNat)
    (hd : 0 < den.toNat) (ne : num ≠ den) (h : kernel.Powers x num den p) :
    exactPower x num den - kernel.shortfall (response x num den) ≤ p.toNat ∧
      ((num.toNat : ℝ) / den.toNat ≤ 99 →
        (p.toNat : ℝ) ≤ exactPower x num den + kernel.excess (response x num den)) := by
  cases kernel with
  | binary => exact bounds_binary below hn hd ne h
  | decimal => exact bounds_decimal below hd ne h

end

/-! ### Conditions on the operands -/

/-- What is left from the formula to the next whole token. -/
noncomputable def room (reserveToken reserveCollateral cIn wToken wCollateral : U128) : ℝ :=
  ⌊formula reserveToken reserveCollateral cIn wToken wCollateral⌋ + 1 -
    formula reserveToken reserveCollateral cIn wToken wCollateral

end Weighted

end Antumbra
