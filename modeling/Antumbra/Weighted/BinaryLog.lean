/-
# The logarithm of the binary kernel

The signed arithmetic of the logarithm never leaves its word, so the kernel computes a
closed form: the shifts times `ln 2`, less a Horner sum in half the relative difference of
the reduced argument from one. Its distance from the real logarithm is the sum of what each
rounding on the way can contribute, most of it one-sided.
-/

import Antumbra.Math.Horner
import Antumbra.Math.Series
import Antumbra.Weighted.Binfixed

namespace Antumbra

open Antumbra.Math

namespace Binfixed

/-! ### Within the word -/

theorem fits_eq {x : ℤ} (lower : -2 ^ 127 ≤ x) (upper : x < 2 ^ 127) : fits x = .ok x :=
  if_pos ⟨lower, upper⟩

theorem quotient_eq {a b : ℤ} (hb : b ≠ 0) (lower : -2 ^ 127 ≤ a.tdiv b)
    (upper : a.tdiv b < 2 ^ 127) : quotient a b = .ok (a.tdiv b) := by
  rw [quotient, if_neg hb, fits_eq lower upper]

theorem abs_mul_le {a b A B : ℤ} (ha : |a| ≤ A) (hb : |b| ≤ B) : |a * b| ≤ A * B := by
  rw [abs_mul]
  exact mul_le_mul ha hb (abs_nonneg b) ((abs_nonneg a).trans ha)

/-- A product of small numbers stays in the word. -/
theorem fits_mul {a b A B : ℤ} (ha : |a| ≤ A) (hb : |b| ≤ B) (small : A * B < 2 ^ 127) :
    fits (a * b) = .ok (a * b) := by
  obtain ⟨low, high⟩ := abs_le.mp (abs_mul_le ha hb)
  exact fits_eq (by linarith) (by linarith)

/-- A Horner pass whose partial results stay within twice the scale is the exact one. -/
theorem horner_eq {u : ℤ} (hu : 0 ≤ u) (le : u ≤ ONE62) {as : List ℤ}
    (bounded : ∀ l, l <:+ as → |polyFloor 62 u l| ≤ 2 ^ 63) :
    horner u as = .ok (polyFloor 62 u as) := by
  induction as with
  | nil => rfl
  | cons a as ih =>
    cases as with
    | nil =>
      rw [horner, polyFloor, polyFloor, zero_mul, Int.zero_ediv, zero_add]
    | cons b as =>
      have later := ih fun l suffix => bounded l (suffix.trans (List.suffix_cons a _))
      have whole := bounded _ List.suffix_rfl
      have tail := bounded _ (List.suffix_cons a (b :: as))
      rw [polyFloor] at whole
      rw [horner, later, ok_bind]
      · change (fits (polyFloor 62 u (b :: as) * u) >>= fun product =>
          fits (shr product LN_SCALE + a)) = .ok (polyFloor 62 u (b :: as) * u / 2 ^ 62 + a)
        generalize polyFloor 62 u (b :: as) = p at *
        rw [fits_mul tail (show |u| ≤ ONE62 by rwa [abs_of_nonneg hu]) (by decide), ok_bind]
        rw [abs_le] at whole
        exact fits_eq (by unfold shr LN_SCALE; linarith) (by unfold shr LN_SCALE; linarith)
      · simp

/-! ### The closed form -/

/-- The reduction ends in its window, after `n` shifts that lost nothing. -/
theorem exists_normalise62 {x : ℤ} (hx : 0 < x) :
    ∃ n : ℕ, normalise62 128 x 0 = (x * 2 ^ n, (n : ℤ)) ∧ SQRT2_HALF_62 ≤ x * 2 ^ n ∧
      (n = 0 ∨ x * 2 ^ n < 2 * SQRT2_HALF_62) := by
  have exact : ∀ (fuel : ℕ) (m k : ℤ), 0 < m → ∃ n : ℕ,
      normalise62 fuel m k = (m * 2 ^ n, k + n) ∧ (n = 0 ∨ m * 2 ^ n < 2 * SQRT2_HALF_62) := by
    intro fuel
    induction fuel with
    | zero => exact fun m k _ => ⟨0, by simp [normalise62], .inl rfl⟩
    | succ fuel ih =>
      intro m k positive
      unfold normalise62
      split
      · next below =>
        obtain ⟨n, result, window⟩ := ih (m * 2) (k + 1) (by omega)
        rw [shl_one_of_lt positive below, result]
        refine ⟨n + 1, ?_, .inr ?_⟩
        · rw [pow_succ', ← mul_assoc]
          push_cast
          exact congrArg (Prod.mk _) (by ring)
        · rcases window with rfl | window
          · rw [pow_one]
            omega
          · rwa [pow_succ', ← mul_assoc]
      · exact ⟨0, by simp, .inl rfl⟩
  obtain ⟨n, result, window⟩ := exact 128 x 0 hx
  have reached : SQRT2_HALF_62 ≤ (normalise62 128 x 0).1 :=
    le_normalise62 hx (by unfold SQRT2_HALF_62; omega)
  rw [zero_add] at result
  rw [result] at reached
  exact ⟨n, result, reached, window⟩

/-- `(m - 1) / (m + 1)` at the scale, rounded toward zero. -/
def seriesArg (m : ℤ) : ℤ := ((m - ONE62) * 2 ^ 62).tdiv (m + ONE62)

/-- The atanh series at `t`, without its leading factor. -/
def seriesSum (t : ℤ) : ℤ := polyFloor 62 (t * t / 2 ^ 62) ATANH_62

/-- The logarithm of a reduced argument. -/
def lnReduced (m : ℤ) : ℤ := seriesArg m * seriesSum (seriesArg m) / 2 ^ 61

/-- The window of reduced arguments. -/
def Reduced (m : ℤ) : Prop := SQRT2_HALF_62 ≤ m ∧ m ≤ 2 * SQRT2_HALF_62

/-- The argument of the series is at most `0.1716`. -/
theorem abs_seriesArg_le {m : ℤ} (h : Reduced m) : 10000 * |seriesArg m| ≤ 1716 * 2 ^ 62 := by
  obtain ⟨low, high⟩ := h
  unfold SQRT2_HALF_62 at low high
  unfold seriesArg ONE62
  have den : (0 : ℤ) < m + 4611686018427387904 := by omega
  rcases le_total 4611686018427387904 m with above | below
  · have nonneg : 0 ≤ (m - 4611686018427387904) * 2 ^ 62 :=
      mul_nonneg (sub_nonneg.mpr above) (by norm_num)
    rw [Int.tdiv_eq_ediv_of_nonneg nonneg, abs_of_nonneg (Int.ediv_nonneg nonneg den.le)]
    have := Int.ediv_le_of_le_mul den (show (m - 4611686018427387904) * 2 ^ 62 ≤
      791365320762139764 * (m + 4611686018427387904) by linarith)
    linarith
  · have nonneg : 0 ≤ (4611686018427387904 - m) * 2 ^ 62 :=
      mul_nonneg (sub_nonneg.mpr below) (by norm_num)
    rw [show (m - 4611686018427387904) * 2 ^ 62 = -((4611686018427387904 - m) * 2 ^ 62) by ring,
      Int.neg_tdiv, abs_neg, Int.tdiv_eq_ediv_of_nonneg nonneg,
      abs_of_nonneg (Int.ediv_nonneg nonneg den.le)]
    have := Int.ediv_le_of_le_mul den (show (4611686018427387904 - m) * 2 ^ 62 ≤
      791365320762139764 * (m + 4611686018427387904) by linarith)
    linarith

/-- The series runs on squares of at most a thirtieth, and stays within twice the scale. -/
theorem seriesSum_bounds {t : ℤ} (ht : 10000 * |t| ≤ 1716 * 2 ^ 62) :
    0 ≤ t * t / 2 ^ 62 ∧ 100000000 * (t * t / 2 ^ 62) ≤ 2944656 * 2 ^ 62 ∧
      0 ≤ seriesSum t ∧ seriesSum t ≤ 2 ^ 63 := by
  have square : t * t = |t| * |t| := (abs_mul_abs_self t).symm
  have nonneg := abs_nonneg t
  have quotient : 0 ≤ t * t / 2 ^ 62 := Int.ediv_nonneg (mul_self_nonneg t) (by norm_num)
  have floor := Int.mul_ediv_self_le (x := t * t) (k := 2 ^ 62) (by norm_num)
  have small : 10000 * |t| * (10000 * |t|) ≤ 1716 * 2 ^ 62 * (1716 * 2 ^ 62) :=
    mul_le_mul ht ht (by positivity) (by norm_num)
  have square_le : 100000000 * (t * t / 2 ^ 62) ≤ 2944656 * 2 ^ 62 := by
    have scaled : 10000 * |t| * (10000 * |t|) = 100000000 * (t * t) := by
      rw [square]
      ring
    linarith
  have range : ∀ a ∈ ATANH_62, 0 ≤ a ∧ a ≤ 2 ^ 62 := by decide
  obtain ⟨low, high⟩ := polyFloor_nonneg (s := 62) quotient (by linarith) range (by norm_num)
  exact ⟨quotient, square_le, low, by unfold seriesSum; linarith⟩

/-- The logarithm of a reduced argument is at most that of two. -/
theorem abs_lnReduced_le {m : ℤ} (h : Reduced m) : |lnReduced m| ≤ LN2_62 := by
  have ht := abs_seriesArg_le h
  obtain ⟨-, -, p_nonneg, p_le⟩ := seriesSum_bounds ht
  unfold lnReduced LN2_62
  generalize seriesArg m = t at *
  generalize seriesSum t = p at *
  obtain ⟨low, high⟩ := abs_le.mp (abs_mul_le (show |t| ≤ 791365320800000000 by omega)
    (show |p| ≤ 2 ^ 63 by rwa [abs_of_nonneg p_nonneg]))
  rw [abs_le]
  constructor
  · rw [Int.le_ediv_iff_mul_le (by norm_num)]
    linarith
  · refine Int.ediv_le_of_le_mul (by norm_num) ?_
    linarith

/-- At most 62 shifts, since the argument is at least one. -/
theorem shifts_le {x62 : ℤ} {n : ℕ} (hx : 0 < x62)
    (window : n = 0 ∨ x62 * 2 ^ n < 2 * SQRT2_HALF_62) : n ≤ 62 := by
  rcases window with rfl | below
  · omega
  · unfold SQRT2_HALF_62 at below
    by_contra many
    have power : (2 : ℤ) ^ 63 ≤ 2 ^ n := pow_le_pow_right₀ (by norm_num) (by omega)
    have least := le_mul_of_one_le_left (show (0 : ℤ) ≤ 2 ^ n by positivity)
      (show 1 ≤ x62 by omega)
    linarith

/-- No operation of the logarithm leaves the word: the kernel computes the closed form. -/
theorem negLn62_eq {x62 : ℤ} (hx : 0 < x62) (le : x62 ≤ ONE62) :
    ∃ n : ℕ, Reduced (x62 * 2 ^ n) ∧ (n = 0 ∨ x62 * 2 ^ n < 2 * SQRT2_HALF_62) ∧
      negLn62 x62 = .ok (n * LN2_62 - lnReduced (x62 * 2 ^ n)) := by
  obtain ⟨n, reduction, low, window⟩ := exists_normalise62 hx
  have reduced : Reduced (x62 * 2 ^ n) := by
    refine ⟨low, ?_⟩
    unfold ONE62 at le
    unfold SQRT2_HALF_62 at window ⊢
    rcases window with rfl | below
    · rw [pow_zero, mul_one]
      omega
    · exact below.le
  refine ⟨n, reduced, window, ?_⟩
  have ht := abs_seriesArg_le reduced
  obtain ⟨u_nonneg, u_le, p_nonneg, p_le⟩ := seriesSum_bounds ht
  have shifts := shifts_le hx window
  obtain ⟨low, high⟩ := reduced
  unfold negLn62
  rw [if_neg (by omega), reduction]
  simp only
  generalize x62 * 2 ^ n = m at *
  have small : |seriesArg m| ≤ 2 ^ 60 := by linarith
  have t_le := abs_le.mp small
  unfold SQRT2_HALF_62 at low high
  have shifted : shl (m - ONE62) LN_SCALE = (m - ONE62) * 2 ^ 62 := by
    unfold ONE62 LN_SCALE
    exact shl_eq (by linarith) (by linarith)
  have argument : quotient (shl (m - ONE62) LN_SCALE) (m + ONE62) = .ok (seriesArg m) := by
    rw [shifted]
    exact quotient_eq (by unfold ONE62; omega) (by unfold seriesArg at t_le; linarith)
      (by unfold seriesArg at t_le; linarith)
  have squared : fits (seriesArg m * seriesArg m) = .ok (seriesArg m * seriesArg m) :=
    fits_mul small small (by norm_num)
  have summed : horner (shr (seriesArg m * seriesArg m) LN_SCALE) ATANH_62 =
      .ok (seriesSum (seriesArg m)) := by
    refine horner_eq u_nonneg ?_ fun l suffix => ?_
    · unfold ONE62
      linarith
    · have range : ∀ a ∈ ATANH_62, 0 ≤ a ∧ a ≤ 2 ^ 62 := by decide
      obtain ⟨low, high⟩ := polyFloor_nonneg (s := 62) u_nonneg (by linarith)
        (fun a mem => range a (suffix.mem mem)) (by norm_num)
      rw [abs_of_nonneg low]
      exact high.trans (by norm_num)
  have product : fits (seriesArg m * seriesSum (seriesArg m)) =
      .ok (seriesArg m * seriesSum (seriesArg m)) :=
    fits_mul small (show |seriesSum (seriesArg m)| ≤ 2 ^ 63 by rwa [abs_of_nonneg p_nonneg])
      (by norm_num)
  rw [fits_eq (by unfold ONE62; omega) (by unfold ONE62; omega), ok_bind,
    fits_eq (by unfold ONE62; omega) (by unfold ONE62; omega), ok_bind, argument, ok_bind, squared,
    ok_bind, summed, ok_bind, product, ok_bind]
  -- what is left is the multiple of `ln 2` and the last difference
  have logarithm : shr (seriesArg m * seriesSum (seriesArg m)) (LN_SCALE - 1) = lnReduced m := rfl
  obtain ⟨ln_low, ln_high⟩ := abs_le.mp (abs_lnReduced_le ⟨low, high⟩)
  unfold LN2_62 at ln_low ln_high
  have count : (n : ℤ) ≤ 62 := by exact_mod_cast shifts
  have count_nonneg : (0 : ℤ) ≤ n := Int.natCast_nonneg n
  rw [logarithm, fits_eq (by unfold LN2_62; linarith) (by unfold LN2_62; linarith), ok_bind]
  exact fits_eq (by unfold LN2_62; linarith) (by unfold LN2_62; linarith)

/-! ### Against the real logarithm -/

/-- Half the relative difference of a reduced argument from one. -/
noncomputable def relative (m : ℤ) : ℝ := ((m : ℝ) - ONE62) / (m + ONE62)

theorem ONE62_cast : (ONE62 : ℝ) = 2 ^ 62 := by
  unfold ONE62
  norm_num

theorem logRatio_relative {m : ℤ} (h : Reduced m) :
    logRatio (relative m) = Real.log (m / 2 ^ 62) := by
  have pos : (0 : ℝ) < m := by
    have := h.1
    unfold SQRT2_HALF_62 at this
    exact_mod_cast (show (0 : ℤ) < m by omega)
  rw [← logRatio_eq_log (by positivity), relative, ONE62_cast]
  congr 1
  field_simp

/-- The argument of the series is the relative difference, less than a unit nearer zero. -/
theorem seriesArg_bounds {m : ℤ} (h : Reduced m) :
    (m ≤ ONE62 → 2 ^ 62 * relative m ≤ seriesArg m ∧ (seriesArg m : ℝ) < 2 ^ 62 * relative m + 1 ∧
        seriesArg m ≤ 0) ∧
      (ONE62 ≤ m → (seriesArg m : ℝ) ≤ 2 ^ 62 * relative m ∧
        2 ^ 62 * relative m < seriesArg m + 1 ∧ 0 ≤ seriesArg m) := by
  have low := h.1
  unfold SQRT2_HALF_62 at low
  have den : 0 < m + ONE62 := by unfold ONE62; omega
  have exact : 2 ^ 62 * relative m = ((m - ONE62) * 2 ^ 62 : ℤ) / ((m + ONE62 : ℤ) : ℝ) := by
    rw [relative]
    push_cast
    ring
  rw [exact, seriesArg]
  constructor
  · intro below
    have nonneg : 0 ≤ (ONE62 - m) * 2 ^ 62 := mul_nonneg (sub_nonneg.mpr below) (by norm_num)
    obtain ⟨floor_le, lt_floor⟩ := ediv_bounds ((ONE62 - m) * 2 ^ 62) den
    rw [show (m - ONE62) * 2 ^ 62 = -((ONE62 - m) * 2 ^ 62) by ring, Int.neg_tdiv,
      Int.tdiv_eq_ediv_of_nonneg nonneg]
    have sign := Int.ediv_nonneg nonneg den.le
    generalize (ONE62 - m) * 2 ^ 62 / (m + ONE62) = q at *
    push_cast at floor_le lt_floor ⊢
    rw [neg_div]
    exact ⟨by linarith, by linarith, by linarith⟩
  · intro above
    have nonneg : 0 ≤ (m - ONE62) * 2 ^ 62 := mul_nonneg (sub_nonneg.mpr above) (by norm_num)
    obtain ⟨floor_le, lt_floor⟩ := ediv_bounds ((m - ONE62) * 2 ^ 62) den
    rw [Int.tdiv_eq_ediv_of_nonneg nonneg]
    exact ⟨floor_le, lt_floor, Int.ediv_nonneg nonneg den.le⟩

/-- The coefficients of the atanh series. -/
noncomputable def atanhCoefficients : List ℝ :=
  (List.range 13).map fun i => 1 / ((2 * i + 1 : ℕ) : ℝ)

theorem atanhCoefficients_eq :
    atanhCoefficients = (List.range 13).map fun i : ℕ => 1 / (2 * (i : ℝ) + 1) :=
  List.map_congr_left fun i _ => by push_cast; rfl

/-- The kernel's coefficients are these at the scale, rounded. -/
theorem atanh_close :
    List.Forall₂ (fun a c => |a - c| ≤ (1 / 2 : ℝ)) (ATANH_62.map (↑))
      ((List.range 13).map fun i : ℕ => 2 ^ 62 * (1 / (2 * (i : ℝ) + 1))) := by
  simp only [ATANH_62, List.range_succ, List.range_zero, List.nil_append, List.cons_append,
    List.map_cons, List.map_nil, abs_le]
  norm_num

/-- The sum the kernel takes against the exact one at its argument. -/
theorem seriesSum_close {t : ℤ} (ht : 10000 * |t| ≤ 1716 * 2 ^ 62) :
    2 ^ 62 * polyAt (((t : ℝ) / 2 ^ 62) ^ 2) atanhCoefficients - 2.61 ≤ seriesSum t ∧
      (seriesSum t : ℝ) ≤ 2 ^ 62 * polyAt (((t : ℝ) / 2 ^ 62) ^ 2) atanhCoefficients + 0.516 := by
  obtain ⟨u_nonneg, u_le, -, -⟩ := seriesSum_bounds ht
  obtain ⟨floor_le, lt_floor⟩ := ediv_two_pow_bounds (t * t) 62
  unfold seriesSum
  generalize t * t / 2 ^ 62 = u at *
  set v := ((t : ℝ) / 2 ^ 62) ^ 2 with hv
  set w := (u : ℝ) / 2 ^ 62 with hw
  have w_nonneg : 0 ≤ w := by
    have := Int.cast_nonneg (R := ℝ) u_nonneg
    positivity
  have u_le' : 100000000 * (u : ℝ) ≤ 2944656 * 2 ^ 62 := by exact_mod_cast u_le
  have w_le : w ≤ 0.02944656 := by
    rw [hw, div_le_iff₀ (by positivity)]
    linarith
  -- the square is rounded down once
  have square : (u : ℝ) ≤ 2 ^ 62 * v ∧ 2 ^ 62 * v < u + 1 := by
    push_cast at floor_le lt_floor
    have exact : (2 : ℝ) ^ 62 * v = t * t / 2 ^ 62 := by
      rw [hv]
      ring
    rw [exact]
    exact ⟨floor_le, lt_floor⟩
  have shift : w ≤ v ∧ 2 ^ 62 * (v - w) ≤ 1 := by
    rw [hw]
    constructor
    · rw [div_le_iff₀ (by positivity)]
      linarith
    · rw [mul_sub, mul_div_cancel₀ _ (by positivity)]
      linarith
  have v_le : v ≤ 0.0294466 := by linarith [shift.2]
  -- the three errors: of the rounded products, of the coefficients, of the argument
  obtain ⟨rounded_le, rounded_gap⟩ := polyFloor_bounds (s := 62) u_nonneg (by linarith) ATANH_62
  have coefficients := polyAt_close w_nonneg (by linarith) atanh_close (by norm_num)
  have unit : ∀ c ∈ atanhCoefficients, 0 ≤ c ∧ c ≤ 1 := by
    intro c mem
    obtain ⟨i, -, rfl⟩ := List.mem_map.mp mem
    refine ⟨by positivity, ?_⟩
    rw [div_le_one (by positivity)]
    exact_mod_cast (show 1 ≤ 2 * i + 1 by omega)
  obtain ⟨argument_le, argument_gap⟩ := polyAt_shift w_nonneg shift.1 v_le (by norm_num) unit
  have scaled : polyAt w ((List.range 13).map fun i : ℕ => 2 ^ 62 * (1 / (2 * (i : ℝ) + 1))) =
      2 ^ 62 * polyAt w atanhCoefficients := by
    rw [atanhCoefficients_eq, polyAt_map_range, polyAt_map_range, Finset.mul_sum]
    exact Finset.sum_congr rfl fun i _ => mul_assoc _ _ _
  rw [scaled] at coefficients
  rw [← hw] at rounded_le rounded_gap
  generalize polyAt w (ATANH_62.map (↑)) = computed at *
  generalize polyAt w atanhCoefficients = shifted at *
  generalize polyAt v atanhCoefficients = exact at *
  generalize (polyFloor 62 u ATANH_62 : ℝ) = p at *
  have room : 0.97 ≤ 1 - w := by linarith
  have rounding : computed - p ≤ 1.031 := by
    have := mul_le_mul_of_nonneg_left room (sub_nonneg.mpr rounded_le)
    linarith
  have close : |computed - 2 ^ 62 * shifted| ≤ 0.516 := by
    have := mul_le_mul_of_nonneg_left room (abs_nonneg (computed - 2 ^ 62 * shifted))
    linarith
  have moved : 2 ^ 62 * (exact - shifted) ≤ 1.063 := by
    have := mul_le_mul_of_nonneg_left argument_gap (by norm_num : (0 : ℝ) ≤ 2 ^ 62)
    norm_num at this ⊢
    linarith [shift.2]
  obtain ⟨close_low, close_high⟩ := abs_le.mp close
  constructor <;> linarith

/-- Twice the argument times the exact sum is the logarithm of its ratio. -/
theorem logRatio_close {t : ℤ} (ht : 10000 * |t| ≤ 1716 * 2 ^ 62) :
    |2 ^ 62 * logRatio (t / 2 ^ 62) -
      2 * (t / 2 ^ 62) * (2 ^ 62 * polyAt (((t : ℝ) / 2 ^ 62) ^ 2) atanhCoefficients)| ≤ 0.001 := by
  set x := (t : ℝ) / 2 ^ 62 with hx
  have small : |x| ≤ 0.1716 := by
    have : 10000 * |(t : ℝ)| ≤ 1716 * 2 ^ 62 := by exact_mod_cast ht
    rw [hx, abs_div, abs_of_pos (by positivity : (0 : ℝ) < 2 ^ 62), div_le_iff₀ (by positivity)]
    linarith
  have terms : 2 * x * polyAt (x ^ 2) atanhCoefficients = logRatioSum 13 x := by
    rw [atanhCoefficients_eq, polyAt_map_range, logRatioSum, Finset.mul_sum]
    refine Finset.sum_congr rfl fun i _ => ?_
    rw [← pow_mul, pow_succ]
    ring
  have close := abs_logRatio_sub_sum_le 13 (small.trans_lt (by norm_num))
  have power : |x| ^ 27 ≤ 0.1716 ^ 27 := pow_le_pow_left₀ (abs_nonneg x) small 27
  have square : x ^ 2 ≤ 0.1716 ^ 2 := by
    rw [← sq_abs]
    exact pow_le_pow_left₀ (abs_nonneg x) small 2
  have tail : 2 * |x| ^ 27 / (27 * (1 - x ^ 2)) ≤ 0.0000000000000000000002 := by
    rw [div_le_iff₀ (by linarith)]
    norm_num at power square ⊢
    linarith
  rw [show 2 * x * (2 ^ 62 * polyAt (x ^ 2) atanhCoefficients) = 2 ^ 62 * logRatioSum 13 x by
    rw [← terms]; ring, ← mul_sub, abs_mul, abs_of_pos (by positivity : (0 : ℝ) < 2 ^ 62)]
  norm_num at close ⊢
  linarith

/-- The logarithm of a reduced argument is off by a few units: below one by at most `2.96`
too near zero and `1.18` too far, above one by at most `0.18` too high and `3.96` too low. -/
theorem lnReduced_bounds {m : ℤ} (h : Reduced m) :
    (m ≤ ONE62 → 2 ^ 62 * Real.log (m / 2 ^ 62) - 1.18 ≤ lnReduced m ∧
        (lnReduced m : ℝ) ≤ 2 ^ 62 * Real.log (m / 2 ^ 62) + 2.96 ∧ lnReduced m ≤ 0) ∧
      (ONE62 ≤ m → 2 ^ 62 * Real.log (m / 2 ^ 62) - 3.96 ≤ lnReduced m ∧
        (lnReduced m : ℝ) ≤ 2 ^ 62 * Real.log (m / 2 ^ 62) + 0.18) := by
  have ht := abs_seriesArg_le h
  obtain ⟨below, above⟩ := seriesArg_bounds h
  obtain ⟨sum_low, sum_high⟩ := seriesSum_close ht
  obtain ⟨series_low, series_high⟩ := abs_le.mp (logRatio_close ht)
  obtain ⟨floor_le, lt_floor⟩ :=
    ediv_two_pow_bounds (seriesArg m * seriesSum (seriesArg m)) 61
  have p_nonneg := (seriesSum_bounds ht).2.2.1
  have small : |(seriesArg m : ℝ) / 2 ^ 62| ≤ 0.1716 := by
    have : 10000 * |(seriesArg m : ℝ)| ≤ 1716 * 2 ^ 62 := by exact_mod_cast ht
    rw [abs_div, abs_of_pos (by positivity : (0 : ℝ) < 2 ^ 62), div_le_iff₀ (by positivity)]
    linarith
  obtain ⟨x_low, x_high⟩ := abs_le.mp small
  have slope (near : 2 ^ 62 * |relative m - (seriesArg m : ℝ) / 2 ^ 62| ≤ 1) :
      |2 ^ 62 * logRatio (relative m) - 2 ^ 62 * logRatio ((seriesArg m : ℝ) / 2 ^ 62)| ≤
        2.061 := by
    have close : |relative m - (seriesArg m : ℝ) / 2 ^ 62| ≤ 0.0001 := by linarith
    have inside : |relative m| ≤ 0.1717 := by
      have := abs_sub_abs_le_abs_sub (relative m) ((seriesArg m : ℝ) / 2 ^ 62)
      linarith
    have moved := abs_logRatio_sub_le (small.trans (by norm_num)) inside (by norm_num)
    rw [← mul_sub, abs_mul, abs_of_pos (by positivity : (0 : ℝ) < 2 ^ 62)]
    norm_num at moved near ⊢
    linarith
  have product : (seriesArg m : ℝ) * seriesSum (seriesArg m) / 2 ^ 61 =
      2 * ((seriesArg m : ℝ) / 2 ^ 62) * seriesSum (seriesArg m) := by ring
  have argument : (seriesArg m : ℝ) = 2 ^ 62 * ((seriesArg m : ℝ) / 2 ^ 62) := by ring
  rw [← logRatio_relative h, lnReduced]
  rw [Int.cast_mul, product] at floor_le lt_floor
  constructor
  · intro under
    obtain ⟨near, far, sign⟩ := below under
    have sign' : (seriesArg m : ℝ) / 2 ^ 62 ≤ 0 :=
      div_nonpos_of_nonpos_of_nonneg (by exact_mod_cast sign) (by positivity)
    have order : relative m ≤ (seriesArg m : ℝ) / 2 ^ 62 := by linarith
    obtain ⟨steep, -⟩ := abs_le.mp (slope (by
      rw [abs_sub_comm, abs_of_nonneg (by linarith)]
      linarith))
    have mono := logRatio_le (by linarith) order (by linarith)
    have scaled := mul_le_mul_of_nonpos_left sum_high sign'
    have scaled' := mul_le_mul_of_nonpos_left sum_low sign'
    refine ⟨?_, ?_, ?_⟩
    · linarith
    · linarith
    · refine Int.ediv_nonpos_of_nonpos_of_neg ?_ (by norm_num)
      exact mul_nonpos_of_nonpos_of_nonneg sign p_nonneg
  · intro over_one
    obtain ⟨near, far, sign⟩ := above over_one
    have sign' : 0 ≤ (seriesArg m : ℝ) / 2 ^ 62 :=
      div_nonneg (by exact_mod_cast sign) (by positivity)
    have order : (seriesArg m : ℝ) / 2 ^ 62 ≤ relative m := by linarith
    obtain ⟨-, steep⟩ := abs_le.mp (slope (by
      rw [abs_of_nonneg (by linarith)]
      linarith))
    have mono := logRatio_le (by linarith) order (by linarith)
    have scaled := mul_le_mul_of_nonneg_left sum_high sign'
    have scaled' := mul_le_mul_of_nonneg_left sum_low sign'
    constructor
    · linarith
    · linarith

end Binfixed

end Antumbra
