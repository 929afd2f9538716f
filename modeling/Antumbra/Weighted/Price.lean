/-
# How far a price is from its formula

The kernel's power is within a hundred units of the real one at the base it is given, and
the base it is given is rounded down. Together they bound what a buy pays beyond the formula
and what it withholds, for every size and every pair of weights a schedule can produce; and
they place the reserves after a buy along the power law of its weights.
-/

import Antumbra.Math.PowerLaw
import Antumbra.Weighted.BinaryPower
import Antumbra.Weighted.Contract

namespace Antumbra

open Antumbra.Math

namespace Weighted

variable {reserveToken reserveCollateral cIn wToken wCollateral out p : U128}

/-- The share of the collateral reserve after a buy that was there before. -/
noncomputable def share (reserveCollateral cIn : U128) : ℝ :=
  reserveCollateral.toNat / (reserveCollateral.toNat + cIn.toNat)

/-- The exponent of a price. -/
noncomputable def exponent (wToken wCollateral : U128) : ℝ := wCollateral.toNat / wToken.toNat

theorem power_eq :
    power reserveCollateral cIn wToken wCollateral =
      share reserveCollateral cIn ^ exponent wToken wCollateral := rfl

theorem share_pos (some_collateral : 0 < reserveCollateral.toNat) :
    0 < share reserveCollateral cIn := by
  unfold share
  positivity

theorem share_le_one (some_collateral : 0 < reserveCollateral.toNat) :
    share reserveCollateral cIn ≤ 1 := by
  have pos : (0 : ℝ) < reserveCollateral.toNat := by exact_mod_cast some_collateral
  have more : (0 : ℝ) ≤ cIn.toNat := Nat.cast_nonneg _
  rw [share, div_le_one (by linarith)]
  linarith

/-- The base is the share at the scale, rounded down. -/
theorem base_close (some_in : 0 < cIn.toNat) :
    ((base reserveCollateral cIn).toNat : ℝ) ≤
        1000000000000000000 * share reserveCollateral cIn ∧
      1000000000000000000 * share reserveCollateral cIn <
        (base reserveCollateral cIn).toNat + 1 := by
  obtain ⟨value, -⟩ := @base_toNat reserveCollateral cIn some_in
  have pos : 0 < reserveCollateral.toNat + cIn.toNat := by omega
  have pos' : (0 : ℝ) < reserveCollateral.toNat + cIn.toNat := by exact_mod_cast pos
  have below := Nat.div_mul_le_self (reserveCollateral.toNat * ONE.toNat)
    (reserveCollateral.toNat + cIn.toNat)
  have above := Nat.lt_div_mul_add pos (a := reserveCollateral.toNat * ONE.toNat)
  rw [← value, show ONE.toNat = 1000000000000000000 from rfl] at below above
  have scaled : 1000000000000000000 * share reserveCollateral cIn =
      (reserveCollateral.toNat * 1000000000000000000) /
        (reserveCollateral.toNat + cIn.toNat) := by
    rw [share]
    ring
  rw [scaled, le_div_iff₀ pos', div_lt_iff₀ pos']
  constructor
  · exact_mod_cast below
  · rw [add_mul, one_mul]
    exact_mod_cast above

/-- The kernel's power at the rounded base, also where the base is nothing. -/
theorem powFrac_base_close (some_in : 0 < cIn.toNat) (token : 0 < wToken.toNat)
    (collateral : 0 < wCollateral.toNat) (high : exponent wToken wCollateral ≤ 99)
    (answer : Binfixed.powFrac (base reserveCollateral cIn) wCollateral wToken = .ok p) :
    |(p.toNat : ℝ) - exactPower (base reserveCollateral cIn) wCollateral wToken| ≤ 100 := by
  obtain ⟨-, below⟩ := @base_toNat reserveCollateral cIn some_in
  rcases Nat.eq_zero_or_pos (base reserveCollateral cIn).toNat with none | some
  · have zero : base reserveCollateral cIn = 0 := word_ext none
    have positive : ((wCollateral.toNat : ℝ) / wToken.toNat) ≠ 0 := by positivity
    rw [zero, Binfixed.powFrac, if_neg (not_or.mpr ⟨toNat_pos_iff.mpr token,
      toNat_pos_iff.mpr collateral⟩), if_pos rfl, Except.ok.injEq] at answer
    rw [← answer, zero, exactPower, toNat_zero, Nat.cast_zero, zero_div, Real.zero_rpow positive]
    norm_num
  · obtain ⟨p', answer', close⟩ := Binfixed.powFrac_close (base reserveCollateral cIn) wCollateral
      wToken some below.le collateral token high
    rw [answer, Except.ok.injEq] at answer'
    rwa [← answer'] at close

/-- The kernel's power is at most a hundred units above the exact one, and below it by at most
a hundred units and what rounding the base takes off. -/
theorem power_close (some_in : 0 < cIn.toNat) (some_collateral : 0 < reserveCollateral.toNat)
    (token : 0 < wToken.toNat) (collateral : 0 < wCollateral.toNat)
    (high : exponent wToken wCollateral ≤ 99)
    (answer : Binfixed.powFrac (base reserveCollateral cIn) wCollateral wToken = .ok p) :
    (p.toNat : ℝ) ≤
        1000000000000000000 * power reserveCollateral cIn wToken wCollateral + 100 ∧
      1000000000000000000 * power reserveCollateral cIn wToken wCollateral -
          max 1 (exponent wToken wCollateral) *
            (power reserveCollateral cIn wToken wCollateral / share reserveCollateral cIn) -
          100 ≤ p.toNat := by
  obtain ⟨below, above⟩ := @base_close reserveCollateral cIn some_in
  have close := powFrac_base_close some_in token collateral high answer
  have pos := @share_pos reserveCollateral cIn some_collateral
  have nonneg : 0 ≤ exponent wToken wCollateral := by
    unfold exponent
    positivity
  -- the rounded base, as a number
  obtain ⟨b, hb⟩ : ∃ b : ℝ,
      b = ((base reserveCollateral cIn).toNat : ℝ) / 1000000000000000000 := ⟨_, rfl⟩
  have scaled : ((base reserveCollateral cIn).toNat : ℝ) = 1000000000000000000 * b := by
    rw [hb]
    ring
  rw [exactPower, ← hb, show (wCollateral.toNat : ℝ) / wToken.toNat =
    exponent wToken wCollateral from rfl, abs_le] at close
  rw [scaled] at below above
  have b_nonneg : 0 ≤ b := by
    rw [hb]
    positivity
  have b_le : b ≤ share reserveCollateral cIn := by linarith
  have rounded : share reserveCollateral cIn - b ≤ 1 / 1000000000000000000 := by linarith
  have loss := rpow_sub_le pos (sub_nonneg.mpr b_le) (by linarith) nonneg
  rw [sub_sub_cancel] at loss
  have mono := Real.rpow_le_rpow b_nonneg b_le nonneg
  have factor : 0 ≤ max 1 (exponent wToken wCollateral) *
      (share reserveCollateral cIn ^ exponent wToken wCollateral /
        share reserveCollateral cIn) := by
    positivity
  have unit := mul_le_mul_of_nonneg_left rounded factor
  rw [power_eq]
  constructor
  · linarith [close.2]
  · linarith [close.1]

/-- What a swap pays, from the power it computed. -/
theorem Swap.out_close {kernel : Kernel}
    (h : Swap kernel reserveToken reserveCollateral cIn wToken wCollateral out p) :
    (out.toNat : ℝ) ≤ reserveToken.toNat * (1 - p.toNat / 1000000000000000000) ∧
      reserveToken.toNat * (1 - p.toNat / 1000000000000000000) < (out.toNat + 1 : ℝ) := by
  have le_one := h.le_one
  have below := Nat.div_mul_le_self (reserveToken.toNat * (ONE.toNat - p.toNat)) ONE.toNat
  have above := Nat.lt_div_mul_add (show 0 < ONE.toNat by decide)
    (a := reserveToken.toNat * (ONE.toNat - p.toNat))
  rw [← h.out_eq] at below above
  have real : (reserveToken.toNat : ℝ) * (1 - p.toNat / 1000000000000000000) *
      1000000000000000000 = (reserveToken.toNat * (ONE.toNat - p.toNat) : ℕ) := by
    rw [Nat.cast_mul, Nat.cast_sub le_one, show ONE.toNat = 1000000000000000000 from rfl]
    push_cast
    ring
  have below' : (out.toNat : ℝ) * 1000000000000000000 ≤
      (reserveToken.toNat * (ONE.toNat - p.toNat) : ℕ) := by exact_mod_cast below
  have above' : ((reserveToken.toNat * (ONE.toNat - p.toNat) : ℕ) : ℝ) <
      (out.toNat : ℝ) * 1000000000000000000 + 1000000000000000000 := by exact_mod_cast above
  rw [← real] at below' above'
  constructor
  · linarith
  · linarith

/-- Every buy the binary kernel prices, at any size and any weights up to ninety-nine to one:
what it pays is below its formula by at most one token and a hundred units of the reserve, and
above it by at most a hundred units and the chord of the power at the share that stays, its
tangent from the exponent one on. -/
theorem price_within
    (bought : Binfixed.weightedBuy reserveToken reserveCollateral cIn wToken wCollateral = .ok out)
    (high : exponent wToken wCollateral ≤ 99) :
    formula reserveToken reserveCollateral cIn wToken wCollateral - out.toNat ≤
        1 + 100 * reserveToken.toNat / 1000000000000000000 ∧
      out.toNat - formula reserveToken reserveCollateral cIn wToken wCollateral ≤
        reserveToken.toNat * (100 + max 1 (exponent wToken wCollateral) *
          (power reserveCollateral cIn wToken wCollateral / share reserveCollateral cIn)) /
          1000000000000000000 := by
  obtain ⟨⟨token, collateral⟩, -, some_collateral⟩ := weights_of_weightedBuy bought
  obtain ⟨p, swap⟩ := Swap.of_binary bought
  rw [toNat_pos_iff] at token collateral some_collateral
  obtain ⟨above, below⟩ := power_close swap.cIn_pos some_collateral token collateral high
    swap.powers
  obtain ⟨paid, withheld⟩ := swap.out_close
  have nonneg : (0 : ℝ) ≤ reserveToken.toNat := Nat.cast_nonneg _
  have above' := mul_le_mul_of_nonneg_left above nonneg
  have below' := mul_le_mul_of_nonneg_left below nonneg
  rw [formula]
  constructor
  · linarith
  · rw [le_div_iff₀ (by norm_num)]
    linarith

theorem price_within_third :
    formula 3000000000000000000 1 2 1 1 - (2000000000000000001 : U128).toNat ≤
        1 + 100 * (3000000000000000000 : U128).toNat / 1000000000000000000 ∧
      (2000000000000000001 : U128).toNat - formula 3000000000000000000 1 2 1 1 ≤
        (3000000000000000000 : U128).toNat * (100 + max 1 (exponent 1 1) *
          (power 1 2 1 1 / share 1 2)) / 1000000000000000000 := by
  refine price_within (show Binfixed.weightedBuy 3000000000000000000 1 2 1 1 =
    .ok 2000000000000000001 by decide +kernel) ?_
  rw [exponent, show (1 : U128).toNat = 1 from rfl]
  norm_num

/-- A buy moves the two reserves along the power law of its weights, up to the slack of its
price. -/
theorem bought_along {low high : ℝ}
    (bought : Binfixed.weightedBuy reserveToken reserveCollateral cIn wToken wCollateral = .ok out)
    (low_le : low ≤ exponent wToken wCollateral) (le_high : exponent wToken wCollateral ≤ high)
    (high_le : high ≤ 99) :
    Along low high
      (reserveToken.toNat * (199 + (reserveCollateral.toNat + cIn.toNat : ℝ) /
        reserveCollateral.toNat) / 1000000000000000000)
      (1 + 100 * reserveToken.toNat / 1000000000000000000) reserveToken.toNat
      reserveCollateral.toNat (reserveToken.toNat - out.toNat)
      (reserveCollateral.toNat + cIn.toNat) := by
  obtain ⟨-, -, some_collateral⟩ := weights_of_weightedBuy bought
  obtain ⟨withheld, overpaid⟩ := price_within bought (le_high.trans high_le)
  rw [toNat_pos_iff] at some_collateral
  have pos : (0 : ℝ) < reserveCollateral.toNat := by exact_mod_cast some_collateral
  have nonneg : (0 : ℝ) ≤ reserveToken.toNat := Nat.cast_nonneg _
  have exponent_nonneg : 0 ≤ exponent wToken wCollateral := by
    unfold exponent
    positivity
  -- the tangent of the power is at most the exponent's bound and one over the share
  have tangent := max_mul_rpow_div_le (@share_pos _ cIn some_collateral)
    (share_le_one some_collateral) exponent_nonneg (le_high.trans high_le)
  have inverse : 1 / share reserveCollateral cIn =
      (reserveCollateral.toNat + cIn.toNat : ℝ) / reserveCollateral.toNat := one_div_div _ _
  rw [inverse, ← power_eq] at tangent
  have slack := mul_le_mul_of_nonneg_left tangent nonneg
  have formula_eq : formula reserveToken reserveCollateral cIn wToken wCollateral =
      reserveToken.toNat - reserveToken.toNat *
        (reserveCollateral.toNat / (reserveCollateral.toNat + cIn.toNat : ℝ)) ^
          exponent wToken wCollateral := by
    rw [formula, power_eq, share]
    ring
  rw [formula_eq] at withheld overpaid
  exact Along.of_exponent nonneg pos (by simp) low_le le_high (by linarith) (by linarith)

end Weighted

end Antumbra
