/-
# Falling along a power law

Two amounts follow a power law when the first falls by the power of the ratio the second
grows by. Steps that follow it only up to a slack, and each with an exponent of its own
between two bounds, still follow it together: the slacks add up and the ratios multiply.
-/

import Mathlib.Analysis.Convex.SpecificFunctions.Basic
import Mathlib.Tactic.Ring

namespace Antumbra.Math

/-! ### A rounded base -/

/-- What a power loses when its base is rounded down. -/
theorem rpow_sub_le {x d e : ℝ} (hx : 0 < x) (hd : 0 ≤ d) (le : d ≤ x) (he : 0 ≤ e) :
    x ^ e - max 1 e * (x ^ e / x) * d ≤ (x - d) ^ e := by
  have part_nonneg : 0 ≤ d / x := div_nonneg hd hx.le
  have part_le : d / x ≤ 1 := (div_le_one hx).mpr le
  have rest_nonneg : 0 ≤ 1 - d / x := sub_nonneg.mpr part_le
  -- the tangent at one for large exponents, the base itself for small ones
  have kept : 1 - max 1 e * (d / x) ≤ (1 - d / x) ^ e := by
    rcases le_total 1 e with large | small
    · have tangent := one_add_mul_self_le_rpow_one_add (s := -(d / x)) (by linarith) large
      rw [max_eq_right large]
      rw [← sub_eq_add_neg] at tangent
      linarith
    · have above := Real.rpow_le_rpow_of_exponent_ge' rest_nonneg (by linarith) he small
      rw [Real.rpow_one] at above
      rw [max_eq_left small]
      linarith
  have factored : (x - d) ^ e = x ^ e * (1 - d / x) ^ e := by
    rw [← Real.mul_rpow hx.le rest_nonneg, mul_sub, mul_one, mul_div_cancel₀ _ hx.ne']
  have scaled := mul_le_mul_of_nonneg_left kept (Real.rpow_nonneg hx.le e)
  rw [factored]
  calc x ^ e - max 1 e * (x ^ e / x) * d = x ^ e * (1 - max 1 e * (d / x)) := by ring
    _ ≤ x ^ e * (1 - d / x) ^ e := scaled

/-- With an exponent up to `n` the loss is at most `n` and one over the base, for each unit. -/
theorem max_mul_rpow_div_le {x e n : ℝ} (hx : 0 < x) (le_one : x ≤ 1) (he : 0 ≤ e) (le : e ≤ n) :
    max 1 e * (x ^ e / x) ≤ n + 1 / x := by
  rcases le_total 1 e with large | small
  · -- the power is at most the base
    have power : x ^ e ≤ x := by
      simpa using Real.rpow_le_rpow_of_exponent_ge hx le_one large
    have ratio : x ^ e / x ≤ 1 := (div_le_one hx).mpr power
    have pos : 0 < 1 / x := by positivity
    rw [max_eq_right large]
    nlinarith
  · have power : x ^ e ≤ 1 := Real.rpow_le_one hx.le le_one he
    have ratio : x ^ e / x ≤ 1 / x := div_le_div_of_nonneg_right power hx.le
    rw [max_eq_left small, one_mul]
    linarith

/-! ### Steps along the law -/

/-- From `(r, c)` to `(r', c')` the first amount falls as the second grows, along the powers
between `low` and `high`, up to a slack on either side. -/
structure Along (low high below above r c r' c' : ℝ) : Prop where
  grows : c ≤ c'
  least : r * (c / c') ^ high - below ≤ r'
  most : r' ≤ r * (c / c') ^ low + above

variable {low high below above below' above' r c r' c' r'' c'' e : ℝ}

theorem Along.refl (hc : 0 < c) : Along low high 0 0 r c r c := by
  refine ⟨le_rfl, ?_, ?_⟩ <;> simp [div_self hc.ne']

/-- One exponent between the bounds. -/
theorem Along.of_exponent (hr : 0 ≤ r) (hc : 0 < c) (grows : c ≤ c') (low_le : low ≤ e)
    (le_high : e ≤ high) (least : r * (c / c') ^ e - below ≤ r')
    (most : r' ≤ r * (c / c') ^ e + above) : Along low high below above r c r' c' := by
  have pos : 0 < c / c' := div_pos hc (hc.trans_le grows)
  have le_one : c / c' ≤ 1 := (div_le_one (hc.trans_le grows)).mpr grows
  have fall := mul_le_mul_of_nonneg_left
    (Real.rpow_le_rpow_of_exponent_ge pos le_one le_high) hr
  have rise := mul_le_mul_of_nonneg_left
    (Real.rpow_le_rpow_of_exponent_ge pos le_one low_le) hr
  exact ⟨grows, by linarith, by linarith⟩

/-- More slack. -/
theorem Along.mono (h : Along low high below above r c r' c') (le : below ≤ below')
    (le' : above ≤ above') : Along low high below' above' r c r' c' :=
  ⟨h.grows, by linarith [h.least], by linarith [h.most]⟩

/-- Two steps along the law are one, with both slacks. -/
theorem Along.trans (hc : 0 < c) (low_nonneg : 0 ≤ low) (high_nonneg : 0 ≤ high)
    (hb : 0 ≤ below) (ha : 0 ≤ above) (h : Along low high below above r c r' c')
    (h' : Along low high below' above' r' c' r'' c'') :
    Along low high (below + below') (above + above') r c r'' c'' := by
  have hc' := hc.trans_le h.grows
  have hc'' := hc'.trans_le h'.grows
  have ratio : c / c'' = c / c' * (c' / c'') := (div_mul_div_cancel₀ hc'.ne').symm
  have nonneg : 0 ≤ c / c' := (div_pos hc hc').le
  have nonneg' : 0 ≤ c' / c'' := (div_pos hc' hc'').le
  have le_one : c' / c'' ≤ 1 := (div_le_one hc'').mpr h'.grows
  -- the second step scales down what the first one left, its slack included
  have scaled {x : ℝ} (hx : 0 ≤ x) : 0 ≤ (c' / c'') ^ x ∧ (c' / c'') ^ x ≤ 1 :=
    ⟨Real.rpow_nonneg nonneg' x, Real.rpow_le_one nonneg' le_one hx⟩
  refine ⟨h.grows.trans h'.grows, ?_, ?_⟩
  · obtain ⟨pos, le⟩ := scaled high_nonneg
    have first := mul_le_mul_of_nonneg_right h.least pos
    have slack := mul_le_of_le_one_right hb le
    have second := h'.least
    rw [ratio, Real.mul_rpow nonneg nonneg']
    linarith
  · obtain ⟨pos, le⟩ := scaled low_nonneg
    have first := mul_le_mul_of_nonneg_right h.most pos
    have slack := mul_le_of_le_one_right ha le
    have second := h'.most
    rw [ratio, Real.mul_rpow nonneg nonneg']
    linarith

end Antumbra.Math
