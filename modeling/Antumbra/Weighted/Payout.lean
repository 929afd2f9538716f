/-
# The payout against the formula

The swap's payout is compared with the real formula it approximates. Rounding the
power down takes it further below one and so raises the payout: the payout stays within
the formula exactly when the power's shortfall, over the whole reserve, does not reach
the next whole token. At equal weights the power is the rounded base, and that is a
condition on the operands.
-/

import Antumbra.Weighted.Binfixed
import Mathlib.Analysis.SpecialFunctions.Pow.Real

namespace Antumbra

open Antumbra.Math

namespace Weighted

/-- The two kernels of the swap. -/
inductive Kernel
  | binary
  | decimal

/-- The swap returns `out`. -/
def Kernel.Buys (kernel : Kernel)
    (reserveToken reserveCollateral cIn wToken wCollateral out : U128) : Prop :=
  match kernel with
  | .binary =>
    Binfixed.weightedBuy reserveToken reserveCollateral cIn wToken wCollateral = .ok out
  | .decimal => weightedBuy reserveToken reserveCollateral cIn wToken wCollateral = .ok out

/-- The power returns `p`. -/
def Kernel.Powers (kernel : Kernel) (x num den p : U128) : Prop :=
  match kernel with
  | .binary => Binfixed.powFrac x num den = .ok p
  | .decimal => powFrac x num den = .ok p

/-- The base of the power at the scale, rounded down. -/
def base (reserveCollateral cIn : U128) : U128 :=
  BitVec.ofNat 128
    (reserveCollateral.toNat * ONE.toNat / (reserveCollateral.toNat + cIn.toNat))

/-- What a swap that returned computed on the way. -/
structure Swap (kernel : Kernel)
    (reserveToken reserveCollateral cIn wToken wCollateral out p : U128) : Prop where
  cIn_pos : 0 < cIn.toNat
  wToken_pos : 0 < wToken.toNat
  wCollateral_pos : 0 < wCollateral.toNat
  powers : kernel.Powers (base reserveCollateral cIn) wCollateral wToken p
  le_one : p.toNat ≤ ONE.toNat
  out_eq : out.toNat = reserveToken.toNat * (ONE.toNat - p.toNat) / ONE.toNat

variable {kernel : Kernel} {reserveToken reserveCollateral cIn wToken wCollateral out p : U128}

theorem base_eq {denom b : U128} (added : reserveCollateral.toNat + cIn.toNat = denom.toNat)
    (divided : b.toNat = reserveCollateral.toNat * ONE.toNat / denom.toNat) :
    base reserveCollateral cIn = b := by
  refine word_ext ?_
  have hb := b.isLt
  rw [base, BitVec.toNat_ofNat, added, ← divided, Nat.mod_eq_of_lt hb]

/-- The swap in the binary kernel, read from its answer. -/
theorem Swap.of_binary
    (h : Binfixed.weightedBuy reserveToken reserveCollateral cIn wToken wCollateral = .ok out) :
    ∃ p, Swap .binary reserveToken reserveCollateral cIn wToken wCollateral out p := by
  unfold Binfixed.weightedBuy at h
  split_ifs at h with empty weightless
  simp only [bind_eq_ok_iff, okOr_eq_ok_iff, Binfixed.orRefused, mapError_eq_ok_iff,
    mulDivFloor_eq_ok_iff, checkedAdd_eq_some_iff, checkedSub_eq_some_iff] at h
  -- the payout is a part of the reserve, and the last guard lets it pass
  obtain ⟨denom, added, b, ⟨-, divided⟩, p, powers, oneMinus, one, paid, ⟨-, out_eq⟩, answer⟩ := h
  split_ifs at answer
  rw [pure_eq_ok, Except.ok.injEq] at answer
  subst answer
  simp only [not_or] at empty weightless
  have scale : (Binfixed.asU128 Binfixed.ONE18).toNat = ONE.toNat := rfl
  rw [scale] at divided one out_eq
  refine ⟨p, toNat_pos_iff.mp empty.1, toNat_pos_iff.mp weightless.1,
    toNat_pos_iff.mp weightless.2, ?_, by omega, ?_⟩
  · rw [base_eq added divided]
    exact powers
  · rw [out_eq, show oneMinus.toNat = ONE.toNat - p.toNat by omega]

/-- `(Rc / (Rc + C_in)) ^ (w_c / w_t)`. -/
noncomputable def power (reserveCollateral cIn wToken wCollateral : U128) : ℝ :=
  ((reserveCollateral.toNat : ℝ) / (reserveCollateral.toNat + cIn.toNat)) ^
    ((wCollateral.toNat : ℝ) / wToken.toNat)

/-- `Rt * (1 - (Rc / (Rc + C_in)) ^ (w_c / w_t))`. -/
noncomputable def formula (reserveToken reserveCollateral cIn wToken wCollateral : U128) : ℝ :=
  reserveToken.toNat * (1 - power reserveCollateral cIn wToken wCollateral)

theorem base_toNat (pos : 0 < cIn.toNat) :
    (base reserveCollateral cIn).toNat =
        reserveCollateral.toNat * ONE.toNat / (reserveCollateral.toNat + cIn.toNat) ∧
      (base reserveCollateral cIn).toNat < ONE.toNat := by
  have below : reserveCollateral.toNat * ONE.toNat / (reserveCollateral.toNat + cIn.toNat) <
      ONE.toNat := by
    rw [Nat.div_lt_iff_lt_mul (by omega), Nat.mul_comm ONE.toNat]
    exact Nat.mul_lt_mul_of_pos_right (by omega) (by decide)
  have word : ONE.toNat < 2 ^ 128 := ONE.isLt
  rw [base, BitVec.toNat_ofNat, Nat.mod_eq_of_lt (by omega)]
  exact ⟨rfl, below⟩

end Weighted

end Antumbra
