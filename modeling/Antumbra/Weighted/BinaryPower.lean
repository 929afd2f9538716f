/-
# The power of the binary kernel

The power is the exponential at the scaled logarithm of its base, which is the floor of
the logarithm times the exponent. What its roundings can add up to is bounded on the whole
domain: an error of the logarithm grows with the exponent, and the power falls with it.
-/

import Antumbra.Weighted.BinaryExp
import Antumbra.Weighted.Exact

namespace Antumbra

open Antumbra.Math

namespace Binfixed

/-! ### The base -/

/-- What the reduction of a base computes: it is shifted `j` times at the public scale, and
its logarithm shifts `n` times more at the working scale. -/
structure Reduction (x j n : ℕ) (m : ℤ) : Prop where
  low : 500000000000000000 ≤ x * 2 ^ j
  high : x * 2 ^ j ≤ 1000000000000000000
  shifted : j = 0 ∨ x * 2 ^ j < 1000000000000000000
  shifts : j ≤ 59
  converted : m = ((x * 2 ^ j : ℕ) : ℤ) * ONE62 / ONE18
  reduced : Reduced (m * 2 ^ n)
  window : n = 0 ∨ m * 2 ^ n < 2 * SQRT2_HALF_62

variable {x num den : U128}

theorem exists_normalise18 (le : x.toNat ≤ 1000000000000000000) :
    ∃ j : ℕ, (normalise18 128 x 0).1.toNat = x.toNat * 2 ^ j ∧ (normalise18 128 x 0).2 = j ∧
      x.toNat * 2 ^ j ≤ 1000000000000000000 ∧
      (j = 0 ∨ x.toNat * 2 ^ j < 1000000000000000000) := by
  have exact : ∀ (fuel : ℕ) (xx : U128) (i : ℤ), xx.toNat ≤ 1000000000000000000 → ∃ j : ℕ,
      (normalise18 fuel xx i).1.toNat = xx.toNat * 2 ^ j ∧ (normalise18 fuel xx i).2 = i + j ∧
        xx.toNat * 2 ^ j ≤ 1000000000000000000 ∧
        (j = 0 ∨ xx.toNat * 2 ^ j < 1000000000000000000) := by
    intro fuel
    induction fuel with
    | zero =>
      intro xx i le
      exact ⟨0, by simp [normalise18], by simp [normalise18], by simpa, .inl rfl⟩
    | succ fuel ih =>
      intro xx i le
      unfold normalise18
      split
      · next below =>
        rw [BitVec.lt_def, show (asU128 ONE18 / 2).toNat = 500000000000000000 from rfl] at below
        have doubled : (xx <<< 1).toNat = xx.toNat * 2 := by
          rw [BitVec.toNat_shiftLeft, Nat.shiftLeft_eq, Nat.mod_eq_of_lt (by omega)]
        obtain ⟨j, value, count, high, window⟩ := ih (xx <<< 1) (i + 1) (by omega)
        rw [doubled, mul_assoc, ← pow_succ'] at value high window
        refine ⟨j + 1, value, by rw [count]; push_cast; ring, high, .inr ?_⟩
        rcases window with rfl | below'
        · omega
        · exact below'
      · exact ⟨0, by simp, by simp, by simpa, .inl rfl⟩
  obtain ⟨j, value, count, high, window⟩ := exact 128 x 0 le
  exact ⟨j, value, by rw [count, zero_add], high, window⟩

/-- The logarithm the power applies its exponent to. -/
def negLnOf (x : U128) : Except Failure ℤ := do
  let (xx, j) := normalise18 128 x 0
  let rest ← negLn62 (min ((xx.toNat : ℤ) * ONE62 / ONE18) ONE62)
  return j * LN2_62 + rest

/-- The same as a number; a positive base up to one has one. -/
def nl (x : U128) : ℤ := (negLnOf x).toOption.getD 0

theorem nl_eq {xx : U128} {j x62 rest : ℤ} (reduction : normalise18 128 x 0 = (xx, j))
    (converted : min ((xx.toNat : ℤ) * ONE62 / ONE18) ONE62 = x62)
    (logarithm : negLn62 x62 = .ok rest) : nl x = j * LN2_62 + rest := by
  have value : negLnOf x = .ok (j * LN2_62 + rest) := by
    unfold negLnOf
    rw [reduction]
    simp only
    rw [converted, logarithm]
    rfl
  unfold nl
  rw [value]
  rfl

/-- The reduction of a positive base, and the logarithm it leads to. -/
theorem exists_reduction (hx : 0 < x.toNat) (le : x.toNat ≤ 1000000000000000000) :
    ∃ (j n : ℕ) (m : ℤ), Reduction x.toNat j n m ∧
      normalise18 128 x 0 = (BitVec.ofNat 128 (x.toNat * 2 ^ j), (j : ℤ)) ∧
      negLn62 m = .ok (n * LN2_62 - lnReduced (m * 2 ^ n)) ∧
      nl x = j * LN2_62 + (n * LN2_62 - lnReduced (m * 2 ^ n)) := by
  obtain ⟨j, value, count, high, window⟩ := exists_normalise18 le
  have low := @le_normalise18 128 x 0 (by
    rw [show (asU128 ONE18 / 2).toNat = 500000000000000000 from rfl]
    omega)
  rw [BitVec.le_def, value, show (asU128 ONE18 / 2).toNat = 500000000000000000 from rfl] at low
  have shifts : j ≤ 59 := by
    by_contra many
    have power : 2 ^ 60 ≤ 2 ^ j := Nat.pow_le_pow_right (by norm_num) (by omega)
    have := Nat.mul_le_mul (show 1 ≤ x.toNat from hx) power
    omega
  have pair : normalise18 128 x 0 = (BitVec.ofNat 128 (x.toNat * 2 ^ j), (j : ℤ)) := by
    refine Prod.ext (word_ext ?_) count
    rw [value, BitVec.toNat_ofNat, Nat.mod_eq_of_lt (by omega)]
  obtain ⟨n, reduced, window', logarithm⟩ :=
    @negLn62_eq (((x.toNat * 2 ^ j : ℕ) : ℤ) * ONE62 / ONE18)
      (by unfold ONE62 ONE18; omega) (by unfold ONE62 ONE18; omega)
  refine ⟨j, n, _, ⟨low, high, window, shifts, rfl, reduced, window'⟩, pair, logarithm, ?_⟩
  have capped : min (((x.toNat * 2 ^ j : ℕ) : ℤ) * ONE62 / ONE18) ONE62 =
      ((x.toNat * 2 ^ j : ℕ) : ℤ) * ONE62 / ONE18 := min_eq_left (by unfold ONE62 ONE18; omega)
  refine nl_eq pair ?_ logarithm
  rw [BitVec.toNat_ofNat, Nat.mod_eq_of_lt (by omega), capped]

section
variable {X j n : ℕ} {m : ℤ}

theorem Reduction.mantissa (h : Reduction X j n m) : 2 ^ 61 ≤ m ∧ m ≤ ONE62 := by
  have low := h.low
  have high := h.high
  have converted := h.converted
  unfold ONE62 ONE18 at *
  omega

/-- At most one more shift is left to the working scale. -/
theorem Reduction.rest_le (h : Reduction X j n m) : n ≤ 1 := by
  obtain ⟨low, -⟩ := h.mantissa
  rcases h.window with rfl | below
  · exact zero_le_one
  · unfold SQRT2_HALF_62 at below
    by_contra many
    have power : (2 : ℤ) ^ 2 ≤ 2 ^ n := pow_le_pow_right₀ (by norm_num) (by omega)
    have shifted := mul_le_mul low power (by norm_num) (by omega)
    omega

/-- The logarithm is nonnegative and small. -/
theorem Reduction.range (h : Reduction X j n m) :
    0 ≤ n * LN2_62 - lnReduced (m * 2 ^ n) ∧ n * LN2_62 - lnReduced (m * 2 ^ n) ≤ 2 * LN2_62 := by
  obtain ⟨low, high⟩ := abs_le.mp (abs_lnReduced_le h.reduced)
  have rest := h.rest_le
  rcases (by omega : n = 0 ∨ n = 1) with rfl | rfl
  · have negative := ((lnReduced_bounds h.reduced).1 (by simpa using h.mantissa.2)).2.2
    rw [Nat.cast_zero, zero_mul, zero_sub]
    unfold LN2_62 at *
    omega
  · rw [Nat.cast_one, one_mul]
    constructor <;> linarith

end

theorem nl_range (hx : 0 < x.toNat) (le : x.toNat ≤ 1000000000000000000) :
    0 ≤ nl x ∧ nl x < 2 ^ 68 := by
  obtain ⟨j, n, m, reduction, -, -, value⟩ := exists_reduction hx le
  obtain ⟨low, high⟩ := reduction.range
  have shifts := reduction.shifts
  rw [value]
  unfold LN2_62 at *
  omega

theorem asU128_toNat {a : ℤ} (low : 0 ≤ a) (high : a < 2 ^ 128) : (asU128 a).toNat = a.toNat := by
  unfold asU128
  rw [BitVec.toNat_ofInt]
  omega

/-! ### The closed form -/

/-- The exponent times the logarithm, rounded down: where the power takes the exponential. -/
def scaledLog (x num den : U128) : ℕ := (nl x).toNat * num.toNat / den.toNat

/-- The exponential at the public scale. -/
def expAt (y : ℕ) : ℕ := (expOf y * ONE18 / 2 ^ 62).toNat

theorem expOf_range (y : ℤ) : 0 ≤ expOf y ∧ expOf y ≤ ONE62 := by
  have pos : 0 < LN2_62 := by decide
  obtain ⟨low, high⟩ := expSeries_bounds (Int.emod_nonneg y pos.ne') (Int.emod_lt_of_pos y pos).le
  exact ⟨Int.ediv_nonneg low (by positivity), (Int.ediv_le_self _ low).trans high⟩

theorem fits_expOf (y : ℤ) : fits (expOf y * ONE18) = .ok (expOf y * ONE18) := by
  obtain ⟨low, high⟩ := expOf_range y
  unfold ONE18 ONE62 at *
  exact fits_eq (by omega) (by omega)

theorem expAt_le (y : ℕ) :
    (expAt y : ℤ) = expOf y * ONE18 / 2 ^ 62 ∧ expAt y ≤ 1000000000000000000 := by
  obtain ⟨low, high⟩ := expOf_range y
  unfold expAt ONE18 ONE62 at *
  omega

theorem asU128_shr (y : ℕ) :
    asU128 (shr (expOf y * ONE18) LN_SCALE) = BitVec.ofNat 128 (expAt y) := by
  obtain ⟨value, le⟩ := expAt_le y
  change asU128 (expOf y * ONE18 / 2 ^ 62) = _
  rw [← value]
  refine word_ext ?_
  rw [asU128_toNat (by omega) (by omega), BitVec.toNat_ofNat, Nat.mod_eq_of_lt (by omega)]
  rfl

theorem asI128_eq {y : ℕ} (hy : y < 2 ^ 128) :
    asI128 (BitVec.ofNat 128 y) = if y < 2 ^ 127 then (y : ℤ) else y - 2 ^ 128 := by
  unfold asI128
  rw [BitVec.toInt_eq_toNat_cond, BitVec.toNat_ofNat, Nat.mod_eq_of_lt hy]
  split_ifs <;> omega

theorem expNeg62_of_nonpos {y : ℤ} (hy : y ≤ 0) : expNeg62 y = .ok ONE62 := if_pos hy

theorem orRefused_ok {α : Type} (a : α) : orRefused (.ok a) = .ok a := rfl

/-- The conversion to the working scale is exact in its words, and its sign bit is clear. -/
theorem Reduction.words {X j n : ℕ} {m : ℤ} (h : Reduction X j n m) :
    mulDivFloor (BitVec.ofNat 128 (X * 2 ^ j)) (asU128 ONE62) (asU128 ONE18) =
        .ok (BitVec.ofNat 128 m.toNat) ∧
      asI128 (BitVec.ofNat 128 m.toNat) = m := by
  obtain ⟨mantissa_low, mantissa_high⟩ := h.mantissa
  have high := h.high
  have product : (BitVec.ofNat 128 (X * 2 ^ j)).toNat = X * 2 ^ j := by
    rw [BitVec.toNat_ofNat, Nat.mod_eq_of_lt (by omega)]
  have quotient : m = ((X * 2 ^ j * 4611686018427387904 / 1000000000000000000 : ℕ) : ℤ) := by
    rw [h.converted, Int.natCast_ediv, Nat.cast_mul (_ * _)]
    unfold ONE62 ONE18
    norm_cast
  unfold ONE62 at mantissa_high
  constructor
  · rw [mulDivFloor_eq_ok_iff, product, show (asU128 ONE62).toNat = 4611686018427387904 from rfl,
      show (asU128 ONE18).toNat = 1000000000000000000 from rfl]
    refine ⟨by decide, ?_⟩
    rw [BitVec.toNat_ofNat, Nat.mod_eq_of_lt (by omega)]
    omega
  · rw [asI128_eq (by omega), if_pos (by omega)]
    omega

/-- The power away from its guards: an exponent too large for the word is refused, one that
the signed word reads as negative answers one, and any other takes the exponential. -/
theorem powFrac_eq (hx : 0 < x.toNat) (le : x.toNat ≤ 1000000000000000000) (hn : num ≠ 0)
    (hd : den ≠ 0) (ne : num ≠ den) :
    powFrac x num den =
      if 2 ^ 128 ≤ scaledLog x num den then .error (.refused .overflow)
      else if 2 ^ 127 ≤ scaledLog x num den then .ok (asU128 ONE18)
      else .ok (BitVec.ofNat 128 (expAt (scaledLog x num den))) := by
  obtain ⟨j, n, m, reduction, pair, logarithm, value⟩ := exists_reduction hx le
  obtain ⟨mantissa_low, mantissa_high⟩ := reduction.mantissa
  obtain ⟨nl_nonneg, nl_lt⟩ := nl_range hx le
  obtain ⟨low, high⟩ := reduction.range
  have shifts := reduction.shifts
  have nonzero : x ≠ 0 := toNat_pos_iff.mpr hx
  have fitting : ¬ asU128 ONE18 < x := by
    rw [BitVec.lt_def, show (asU128 ONE18).toNat = 1000000000000000000 from rfl]
    omega
  obtain ⟨converted, signed⟩ := reduction.words
  unfold powFrac
  rw [if_neg (not_or.mpr ⟨hd, hn⟩), if_neg nonzero, if_neg fitting, if_neg ne, pair]
  simp only
  rw [converted, orRefused_ok, ok_bind, signed, if_neg (by omega), min_eq_left mantissa_high,
    logarithm]
  rw [fits_eq (by unfold LN2_62; omega) (by unfold LN2_62; omega), ok_bind, ok_bind,
    fits_eq (by omega) (by omega), ok_bind, ← value, mulDivFloor_eq, if_neg hd,
    asU128_toNat nl_nonneg (by omega)]
  rw [← scaledLog]
  split_ifs with large wraps
  · rfl
  · -- the exponent is read as a negative number
    rw [orRefused_ok, ok_bind, asI128_eq (by omega), if_neg (by omega),
      expNeg62_of_nonpos (by omega), ok_bind, fits_eq (by decide) (by decide), ok_bind,
      show shr (ONE62 * ONE18) LN_SCALE = ONE18 by decide, pure_eq_ok]
  · rw [orRefused_ok, ok_bind, asI128_eq (by omega), if_pos (by omega), expNeg62_eq (by omega),
      ok_bind, fits_expOf, ok_bind, asU128_shr, pure_eq_ok]

/-! ### Against the real power -/

section
variable {X j n : ℕ} {m : ℤ}

/-- Converting the mantissa rounds it down, and so its logarithm away from zero. -/
theorem Reduction.log_mantissa (h : Reduction X j n m) (pos : 0 < X) :
    Real.log ((m : ℝ) / 2 ^ 62) ≤
        Real.log (X / 1000000000000000000) + j * Real.log 2 ∧
      2 ^ 62 * (Real.log (X / 1000000000000000000) + j * Real.log 2) ≤
        2 ^ 62 * Real.log ((m : ℝ) / 2 ^ 62) + 2 ^ 62 / m := by
  obtain ⟨low, high⟩ := h.mantissa
  have X_pos : (0 : ℝ) < X := Nat.cast_pos.mpr pos
  have m_pos : (0 : ℝ) < m := by
    have : 0 < m := by omega
    exact_mod_cast this
  have split : Real.log (X / 1000000000000000000) + j * Real.log 2 =
      Real.log (X * 2 ^ j / 1000000000000000000) := by
    rw [← Real.log_pow, ← Real.log_mul (by positivity) (by positivity)]
    ring_nf
  obtain ⟨floor_le, lt_floor⟩ := ediv_bounds (((X * 2 ^ j : ℕ) : ℤ) * ONE62)
    (show (0 : ℤ) < ONE18 by decide)
  rw [← h.converted] at floor_le lt_floor
  have exact : (((((X * 2 ^ j : ℕ) : ℤ) * ONE62 : ℤ) : ℝ) / (ONE18 : ℤ)) =
      2 ^ 62 * (X * 2 ^ j / 1000000000000000000) := by
    unfold ONE62 ONE18
    push_cast
    ring
  rw [exact] at floor_le lt_floor
  have z_pos : (0 : ℝ) < X * 2 ^ j / 1000000000000000000 := by positivity
  rw [split]
  generalize (X * 2 ^ j / 1000000000000000000 : ℝ) = z at *
  constructor
  · refine Real.log_le_log (by positivity) ?_
    rw [div_le_iff₀ (by positivity)]
    linarith
  · have gap := Real.log_le_sub_one_of_pos (show 0 < z / (m / 2 ^ 62) by positivity)
    rw [Real.log_div z_pos.ne' (by positivity)] at gap
    have ratio : 2 ^ 62 * (z / (m / 2 ^ 62) - 1) ≤ 2 ^ 62 / m := by
      rw [le_div_iff₀ m_pos]
      field_simp
      linarith
    linarith

/-- Away from one, or else both shift counts are zero. -/
theorem Reduction.far_or (h : Reduction X j n m) :
    (j = 0 ∧ n = 0) ∨ 10000 * X ≤ 7072 * 1000000000000000000 := by
  have converted := h.converted
  rcases Nat.eq_zero_or_pos j with rfl | shifts
  · rcases Nat.eq_zero_or_pos n with rfl | rest
    · exact .inl ⟨rfl, rfl⟩
    · have one : n = 1 := by have := h.rest_le; omega
      have window := h.window
      rw [one] at window
      rw [pow_zero, mul_one] at converted
      unfold ONE62 ONE18 at converted
      unfold SQRT2_HALF_62 at window
      omega
  · have below := h.shifted
    have double : 2 ^ 1 ≤ 2 ^ j := Nat.pow_le_pow_right (by norm_num) shifts
    have := Nat.mul_le_mul_left X double
    omega

end

/-- A base well below one has a large logarithm. -/
theorem exactLog_ge_of_far (hx : 0 < x.toNat)
    (far : 10000 * x.toNat ≤ 7072 * 1000000000000000000) : 0.2928 ≤ exactLog x := by
  have far' : 10000 * (x.toNat : ℝ) ≤ 7072 * 1000000000000000000 := by exact_mod_cast far
  have tangent := Real.log_le_sub_one_of_pos
    (show (0 : ℝ) < x.toNat / 1000000000000000000 by positivity)
  have share : (x.toNat : ℝ) / 1000000000000000000 ≤ 0.7072 := by
    rw [div_le_iff₀ (by norm_num)]
    linarith
  unfold exactLog
  linarith

/-- The logarithm is at most `2.96` units too small and `9.6` too large, and near one at
most `2.6` too large. -/
theorem nl_close (hx : 0 < x.toNat) (le : x.toNat ≤ 1000000000000000000) :
    2 ^ 62 * exactLog x - 2.96 ≤ nl x ∧ (nl x : ℝ) ≤ 2 ^ 62 * exactLog x + 9.6 ∧
      ((nl x : ℝ) ≤ 2 ^ 62 * exactLog x + 2.6 ∨ 0.2928 ≤ exactLog x) := by
  obtain ⟨j, n, m, reduction, -, -, value⟩ := exists_reduction hx le
  obtain ⟨mantissa_le, le_mantissa⟩ := reduction.log_mantissa hx
  obtain ⟨low, high⟩ := reduction.mantissa
  obtain ⟨ln2_low, ln2_high⟩ := ln2_excess
  have count : (j : ℝ) ≤ 59 := by exact_mod_cast reduction.shifts
  have count_nonneg : (0 : ℝ) ≤ j := Nat.cast_nonneg j
  have logarithm : exactLog x = -Real.log (x.toNat / 1000000000000000000) := rfl
  rcases (by have := reduction.rest_le; omega : n = 0 ∨ n = 1) with rfl | rfl
  · -- no shift at the working scale: the mantissa is below one
    have m_low := reduction.reduced.1
    have reduced := reduction.reduced
    rw [pow_zero, mul_one] at m_low reduced value
    obtain ⟨ln_low, ln_high, -⟩ := (lnReduced_bounds reduced).1 high
    have inverse : (2 : ℝ) ^ 62 / m ≤ 1.4143 := by
      unfold SQRT2_HALF_62 at m_low
      have m_low' : (3260954456333195553 : ℝ) ≤ m := by exact_mod_cast m_low
      rw [div_le_iff₀ (by linarith)]
      linarith
    have value' : (nl x : ℝ) = j * LN2_62 - lnReduced m := by
      rw [value]
      push_cast
      ring
    have shifts_low := mul_le_mul_of_nonneg_left ln2_low count_nonneg
    have shifts_high := mul_le_mul_of_nonneg_left ln2_high count_nonneg
    rw [value', logarithm]
    refine ⟨by linarith, by linarith, ?_⟩
    rcases reduction.far_or with ⟨rfl, -⟩ | small
    · left
      norm_num at *
      linarith
    · right
      rw [← logarithm]
      exact exactLog_ge_of_far hx small
  · -- one shift more: twice the mantissa is above one
    have reduced := reduction.reduced
    rw [pow_one] at reduced value
    obtain ⟨ln_low, ln_high⟩ := (lnReduced_bounds reduced).2 (by unfold ONE62; omega)
    have m_low : (2 : ℝ) ^ 61 ≤ m := by exact_mod_cast low
    have inverse : (2 : ℝ) ^ 62 / m ≤ 2 := by
      rw [div_le_iff₀ (by linarith)]
      linarith
    have doubled : Real.log ((m * 2 : ℤ) / 2 ^ 62) = Real.log 2 + Real.log (m / 2 ^ 62) := by
      rw [← Real.log_mul (by norm_num) (div_ne_zero (by linarith) (by norm_num))]
      push_cast
      ring_nf
    have value' : (nl x : ℝ) = j * LN2_62 + LN2_62 - lnReduced (m * 2) := by
      rw [value]
      push_cast
      ring
    rw [doubled] at ln_low ln_high
    have shifts_low := mul_le_mul_of_nonneg_left ln2_low count_nonneg
    have shifts_high := mul_le_mul_of_nonneg_left ln2_high count_nonneg
    rw [value', logarithm]
    refine ⟨by linarith, by linarith, .inr ?_⟩
    rw [← logarithm]
    rcases reduction.far_or with ⟨-, none⟩ | small
    · exact absurd none one_ne_zero
    · exact exactLog_ge_of_far hx small

/-- At the public scale the exponential is off by less than two units. -/
theorem expAt_close (y : ℕ) :
    1000000000000000000 * Real.exp (-(y / 2 ^ 62)) - 1.83 ≤ expAt y ∧
      (expAt y : ℝ) ≤ 1000000000000000000 * Real.exp (-(y / 2 ^ 62)) + 0.14 := by
  obtain ⟨low, high⟩ := expOf_close (Int.natCast_nonneg y)
  obtain ⟨floor_le, lt_floor⟩ := ediv_two_pow_bounds (expOf y * ONE18) 62
  rw [← (expAt_le y).1] at floor_le lt_floor
  unfold ONE18 at floor_le lt_floor
  rw [Int.cast_natCast] at low high floor_le lt_floor
  push_cast at floor_le lt_floor
  generalize Real.exp (-(y / 2 ^ 62)) = e at *
  constructor <;> linarith

/-- The exponent times the logarithm, rounded down. -/
theorem scaledLog_bounds (hx : 0 < x.toNat) (le : x.toNat ≤ 1000000000000000000)
    (hd : 0 < den.toNat) :
    (scaledLog x num den : ℝ) ≤ num.toNat / den.toNat * nl x ∧
      num.toNat / den.toNat * nl x < (scaledLog x num den : ℝ) + 1 := by
  obtain ⟨nl_nonneg, -⟩ := nl_range hx le
  have whole : ((nl x).toNat : ℝ) = nl x := by exact_mod_cast Int.toNat_of_nonneg nl_nonneg
  obtain ⟨floor_le, lt_floor⟩ := div_bounds ((nl x).toNat * num.toNat) hd
  rw [← scaledLog, Nat.cast_mul, whole] at floor_le lt_floor
  rw [div_mul_eq_mul_div, mul_comm (num.toNat : ℝ)]
  exact ⟨floor_le, lt_floor⟩

/-- The logarithm's excess takes from the power what the exponent makes of it; far from one
the power falls faster than that grows. -/
theorem exactPower_sub_le_expAt (hx : 0 < x.toNat) (le : x.toNat ≤ 1000000000000000000)
    (hd : 0 < den.toNat) :
    exactPower x num den - (3.8 + 0.57 * response x num den) ≤ expAt (scaledLog x num den) := by
  obtain ⟨-, nl_high, near_or⟩ := nl_close hx le
  obtain ⟨floor_le, -⟩ := @scaledLog_bounds x num den hx le hd
  obtain ⟨exp_low, -⟩ := expAt_close (scaledLog x num den)
  have r_nonneg : (0 : ℝ) ≤ (num.toNat : ℝ) / den.toNat := by positivity
  rw [exactPower_eq hx, response_eq hx]
  generalize (num.toNat : ℝ) / den.toNat = r at *
  generalize (scaledLog x num den : ℝ) = y at *
  generalize (nl x : ℝ) = l at *
  have distance : 2 ^ 62 * (y / 2 ^ 62 - r * exactLog x) = y - 2 ^ 62 * (r * exactLog x) := by
    rw [mul_sub, mul_div_cancel₀ _ (by positivity)]
  have fall := (exp_neg_sub_bounds (r * exactLog x) (y / 2 ^ 62)).1
  have pos := Real.exp_pos (-(r * exactLog x))
  rcases near_or with near | far
  · have scaled := mul_le_mul_of_nonneg_left near r_nonneg
    have moved := mul_le_mul_of_nonneg_right
      (show 2 ^ 62 * (y / 2 ^ 62 - r * exactLog x) ≤ 2.6 * r by linarith) pos.le
    have response_nonneg := mul_nonneg r_nonneg pos.le
    linarith
  · have scaled := mul_le_mul_of_nonneg_left nl_high r_nonneg
    have moved := mul_le_mul_of_nonneg_right
      (show 2 ^ 62 * (y / 2 ^ 62 - r * exactLog x) ≤ 9.6 * r by linarith) pos.le
    have decay := mul_exp_neg_le (r := r) (show 0 < exactLog x by linarith)
    have inverse : 0.368 / exactLog x ≤ 1.257 := by
      rw [div_le_iff₀ (by linarith)]
      linarith
    linarith

/-- What the logarithm falls short of adds to the power as the exponent makes of it. -/
theorem expAt_le_exactPower_add (hx : 0 < x.toNat) (le : x.toNat ≤ 1000000000000000000)
    (hd : 0 < den.toNat) (high : (num.toNat : ℝ) / den.toNat ≤ 99) :
    (expAt (scaledLog x num den) : ℝ) ≤
      exactPower x num den + (0.5 + 0.65 * response x num den) := by
  obtain ⟨nl_low, -, -⟩ := nl_close hx le
  obtain ⟨-, lt_floor⟩ := @scaledLog_bounds x num den hx le hd
  obtain ⟨-, exp_high⟩ := expAt_close (scaledLog x num den)
  have r_nonneg : (0 : ℝ) ≤ (num.toNat : ℝ) / den.toNat := by positivity
  have log_nonneg := exactLog_nonneg le
  have y_nonneg : (0 : ℝ) ≤ scaledLog x num den := Nat.cast_nonneg _
  rw [exactPower_eq hx, response_eq hx]
  generalize (num.toNat : ℝ) / den.toNat = r at *
  generalize (scaledLog x num den : ℝ) = y at *
  generalize (nl x : ℝ) = l at *
  have scaled := mul_le_mul_of_nonneg_left nl_low r_nonneg
  have short : 2 ^ 62 * (r * exactLog x - y / 2 ^ 62) ≤ 2.96 * r + 1 := by
    rw [mul_sub, mul_div_cancel₀ _ (by positivity)]
    linarith
  -- the two exponentials hardly differ, so either measures the step between them
  have near := exp_neg_sub_le (show (0 : ℝ) ≤ 2 ^ 62 by norm_num) (show (0 : ℝ) ≤ 295 by norm_num)
    (show 0 ≤ y / 2 ^ 62 by positivity) (b := r * exactLog x) (by linarith)
  have fall := (exp_neg_sub_bounds (y / 2 ^ 62) (r * exactLog x)).1
  have one : Real.exp (-(r * exactLog x)) ≤ 1 :=
    Real.exp_le_one_iff.mpr (neg_nonpos.mpr (mul_nonneg r_nonneg log_nonneg))
  have pos := Real.exp_pos (-(y / 2 ^ 62))
  have pos' := Real.exp_pos (-(r * exactLog x))
  generalize Real.exp (-(y / 2 ^ 62)) = e at *
  generalize Real.exp (-(r * exactLog x)) = E at *
  have moved := mul_le_mul_of_nonneg_right short pos.le
  have swapped := mul_le_mul_of_nonneg_left (show e ≤ E + 295 / 2 ^ 62 by linarith)
    (show 0 ≤ 2.96 * r + 1 by linarith)
  have response_nonneg := mul_nonneg r_nonneg pos'.le
  linarith

/-- The exponential at the scaled logarithm against the real power. -/
theorem expAt_scaledLog_close (hx : 0 < x.toNat) (le : x.toNat ≤ 1000000000000000000)
    (hd : 0 < den.toNat) (high : (num.toNat : ℝ) / den.toNat ≤ 99) :
    |(expAt (scaledLog x num den) : ℝ) - exactPower x num den| ≤ 100 := by
  have answered := (@response_le x num den hx le).trans high
  have below := @exactPower_sub_le_expAt x num den hx le hd
  have above := expAt_le_exactPower_add hx le hd high
  rw [abs_le]
  constructor <;> linarith

/-- Equal weights return the base. -/
theorem powFrac_same (hx : 0 < x.toNat) (le : x.toNat ≤ 1000000000000000000) (hd : den ≠ 0) :
    powFrac x den den = .ok x := by
  have fitting : ¬ asU128 ONE18 < x := by
    rw [BitVec.lt_def, show (asU128 ONE18).toNat = 1000000000000000000 from rfl]
    omega
  rw [powFrac, if_neg (not_or.mpr ⟨hd, hd⟩), if_neg (toNat_pos_iff.mpr hx), if_neg fitting,
    if_pos rfl]

/-- For every base up to one and every exponent up to `99` the power answers, within a
hundred units of the real one. -/
theorem powFrac_close (x num den : U128) (hx : 1 ≤ x.toNat) (le : x.toNat ≤ 1000000000000000000)
    (hn : 0 < num.toNat) (hd : 0 < den.toNat) (high : (num.toNat : ℝ) / den.toNat ≤ 99) :
    ∃ p, powFrac x num den = .ok p ∧ |(p.toNat : ℝ) - exactPower x num den| ≤ 100 := by
  by_cases same : num = den
  · subst same
    have ratio : (num.toNat : ℝ) / num.toNat = 1 := div_self (Nat.cast_ne_zero.mpr (by omega))
    refine ⟨x, powFrac_same hx le (toNat_pos_iff.mpr hd), ?_⟩
    rw [exactPower, ratio, Real.rpow_one, mul_div_cancel₀ _ (by norm_num), sub_self, abs_zero]
    norm_num
  · have small : scaledLog x num den < 2 ^ 127 := by
      have quotient : num.toNat ≤ 99 * den.toNat := by
        rw [div_le_iff₀ (Nat.cast_pos.mpr hd)] at high
        exact_mod_cast high
      obtain ⟨nl_nonneg, nl_lt⟩ := nl_range hx le
      have product := Nat.mul_le_mul_left (nl x).toNat quotient
      have logarithm : (nl x).toNat < 2 ^ 68 := by omega
      rw [scaledLog, Nat.div_lt_iff_lt_mul hd]
      calc (nl x).toNat * num.toNat ≤ (nl x).toNat * (99 * den.toNat) := product
        _ ≤ 2 ^ 68 * (99 * den.toNat) := Nat.mul_le_mul_right _ logarithm.le
        _ < 2 ^ 127 * den.toNat := by omega
    refine ⟨BitVec.ofNat 128 (expAt (scaledLog x num den)), ?_, ?_⟩
    · rw [powFrac_eq hx le (toNat_pos_iff.mpr hn) (toNat_pos_iff.mpr hd) same,
        if_neg (by omega), if_neg (by omega)]
    · have bound := (expAt_le (scaledLog x num den)).2
      rw [BitVec.toNat_ofNat, Nat.mod_eq_of_lt (by omega)]
      exact expAt_scaledLog_close hx le hd high

/-- The smallest base at the ends of a schedule between `99 / 1` and `1 / 99`. -/
theorem powFrac_close_ends :
    (∃ p, powFrac 1 99 1 = .ok p ∧ |(p.toNat : ℝ) - exactPower 1 99 1| ≤ 100) ∧
      ∃ p, powFrac 1 1 99 = .ok p ∧ |(p.toNat : ℝ) - exactPower 1 1 99| ≤ 100 := by
  refine ⟨powFrac_close 1 99 1 (by decide) (by decide) (by decide) (by decide) ?_,
    powFrac_close 1 1 99 (by decide) (by decide) (by decide) (by decide) ?_⟩
  · rw [show (99 : U128).toNat = 99 from rfl, show (1 : U128).toNat = 1 from rfl]
    norm_num
  · rw [show (99 : U128).toNat = 99 from rfl, show (1 : U128).toNat = 1 from rfl]
    norm_num

end Binfixed

end Antumbra
