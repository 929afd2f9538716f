/-
# Logarithm and exponential by their series

The logarithm of a ratio near one by the series in half the relative difference, the
exponential of a small negative number by its Taylor series, each with a bound on what the
terms left out amount to, and how far an error of the argument moves either function.
-/

import Mathlib.Analysis.SpecialFunctions.Log.Deriv
import Mathlib.Analysis.SpecialFunctions.ExpDeriv
import Mathlib.Analysis.Complex.ExponentialBounds
import Mathlib.Analysis.SpecificLimits.Normed
import Mathlib.Analysis.Calculus.MeanValue

namespace Antumbra.Math

/-! ### The logarithm -/

/-- The logarithm of `(1 + t) / (1 - t)`. -/
noncomputable def logRatio (t : ℝ) : ℝ := Real.log (1 + t) - Real.log (1 - t)

/-- The first `n` terms of its series. -/
noncomputable def logRatioSum (n : ℕ) (t : ℝ) : ℝ :=
  ∑ i ∈ Finset.range n, 2 * (1 / (2 * i + 1)) * t ^ (2 * i + 1)

variable {t a b θ : ℝ}

/-- The terms left out are at most a geometric series from the first of them on. -/
theorem abs_logRatio_sub_sum_le (n : ℕ) (h : |t| < 1) :
    |logRatio t - logRatioSum n t| ≤ 2 * |t| ^ (2 * n + 1) / ((2 * n + 1) * (1 - t ^ 2)) := by
  have square_lt : t ^ 2 < 1 := (sq_lt_one_iff_abs_lt_one t).mpr h
  have tail := (hasSum_nat_add_iff' n).mpr (Real.hasSum_log_sub_log_of_abs_lt_one h)
  have series := (hasSum_geometric_of_lt_one (sq_nonneg t) square_lt).mul_left
    (2 * |t| ^ (2 * n + 1) / (2 * n + 1))
  have bound := tail.norm_le_of_bounded series fun k => ?_
  · rw [Real.norm_eq_abs] at bound
    refine bound.trans (le_of_eq ?_)
    rw [← div_eq_mul_inv, div_div]
  · rw [Real.norm_eq_abs, abs_mul, abs_pow, abs_of_pos (by positivity)]
    have power : |t| ^ (2 * (k + n) + 1) = |t| ^ (2 * n + 1) * (t ^ 2) ^ k := by
      rw [← sq_abs, ← pow_mul, ← pow_add]
      congr 1
      ring
    rw [power]
    have smaller : (1 : ℝ) / (2 * ((k + n : ℕ) : ℝ) + 1) ≤ 1 / (2 * n + 1) := by
      refine one_div_le_one_div_of_le (by positivity) ?_
      push_cast
      have : (0 : ℝ) ≤ k := Nat.cast_nonneg k
      linarith
    calc 2 * (1 / (2 * ((k + n : ℕ) : ℝ) + 1)) * (|t| ^ (2 * n + 1) * (t ^ 2) ^ k)
        ≤ 2 * (1 / (2 * n + 1)) * (|t| ^ (2 * n + 1) * (t ^ 2) ^ k) := by gcongr
      _ = 2 * |t| ^ (2 * n + 1) / (2 * n + 1) * (t ^ 2) ^ k := by ring

/-- Of a nonnegative argument every partial sum stays below the whole. -/
theorem logRatioSum_le (n : ℕ) (nonneg : 0 ≤ t) (below : t < 1) : logRatioSum n t ≤ logRatio t := by
  refine sum_le_hasSum _ (fun i _ => ?_) (Real.hasSum_log_sub_log_of_abs_lt_one ?_)
  · positivity
  · rwa [abs_of_nonneg nonneg]

/-- An error of the argument moves the logarithm by at most its largest slope. -/
theorem abs_logRatio_sub_le (ha : |a| ≤ θ) (hb : |b| ≤ θ) (below : θ < 1) :
    |logRatio b - logRatio a| ≤ 2 / (1 - θ ^ 2) * |b - a| := by
  have θ_nonneg : 0 ≤ θ := (abs_nonneg a).trans ha
  have slope : ∀ x ∈ Set.Icc (-θ) θ,
      HasDerivWithinAt logRatio (1 / (1 + x) + 1 / (1 - x)) (Set.Icc (-θ) θ) x := by
    intro x hx
    have up : HasDerivAt (fun x => Real.log (1 + x)) (1 / (1 + x)) x :=
      ((hasDerivAt_id' x).const_add 1).log (by linarith [hx.1])
    have down : HasDerivAt (fun x => Real.log (1 - x)) (-1 / (1 - x)) x :=
      ((hasDerivAt_id' x).const_sub 1).log (by linarith [hx.2])
    have both := (up.sub down).hasDerivWithinAt (s := Set.Icc (-θ) θ)
    rwa [neg_div, sub_neg_eq_add] at both
  have steepest : ∀ x ∈ Set.Icc (-θ) θ, ‖1 / (1 + x) + 1 / (1 - x)‖ ≤ 2 / (1 - θ ^ 2) := by
    intro x hx
    have inside : x ^ 2 ≤ θ ^ 2 := sq_le_sq' hx.1 hx.2
    have room : 0 < 1 - θ ^ 2 := sub_pos.mpr (pow_lt_one₀ θ_nonneg below two_ne_zero)
    have left : (1 + x) ≠ 0 := by linarith [hx.1]
    have right : (1 - x) ≠ 0 := by linarith [hx.2]
    have sum : 1 / (1 + x) + 1 / (1 - x) = 2 / (1 - x ^ 2) := by
      have product : 1 - x ^ 2 = (1 + x) * (1 - x) := by ring
      rw [product]
      field_simp
      ring
    rw [sum, Real.norm_eq_abs, abs_of_pos (by apply div_pos <;> linarith)]
    exact div_le_div_of_nonneg_left (by norm_num) room (by linarith)
  have moved := (convex_Icc (-θ) θ).norm_image_sub_le_of_norm_hasDerivWithin_le slope steepest
    (abs_le.mp ha) (abs_le.mp hb)
  simpa only [Real.norm_eq_abs] using moved

/-- More of the ratio is more of its logarithm. -/
theorem logRatio_le (ha : -1 < a) (le : a ≤ b) (hb : b < 1) : logRatio a ≤ logRatio b := by
  have up : Real.log (1 + a) ≤ Real.log (1 + b) := Real.log_le_log (by linarith) (by linarith)
  have down : Real.log (1 - b) ≤ Real.log (1 - a) := Real.log_le_log (by linarith) (by linarith)
  unfold logRatio
  linarith

theorem logRatio_neg (t : ℝ) : logRatio (-t) = -logRatio t := by
  unfold logRatio
  rw [sub_neg_eq_add, ← sub_eq_add_neg]
  ring

/-- The ratio behind the logarithm of `m`. -/
theorem logRatio_eq_log {m : ℝ} (hm : 0 < m) : logRatio ((m - 1) / (m + 1)) = Real.log m := by
  have pos : (0 : ℝ) < m + 1 := by linarith
  have up : 1 + (m - 1) / (m + 1) = 2 * m / (m + 1) := by
    field_simp
    ring
  have down : 1 - (m - 1) / (m + 1) = 2 / (m + 1) := by
    field_simp
    ring
  rw [logRatio, up, down, ← Real.log_div (by positivity) (by positivity)]
  congr 1
  field_simp

/-- Twenty-two digits of the logarithm of two. -/
theorem log_two_bounds :
    (0.6931471805599453094172 : ℝ) < Real.log 2 ∧ Real.log 2 < 0.6931471805599453094173 := by
  have third : |(1 / 3 : ℝ)| < 1 := by norm_num
  have close := abs_logRatio_sub_sum_le 24 third
  have value : logRatio (1 / 3) = Real.log 2 := by
    have := logRatio_eq_log (m := 2) (by norm_num)
    rwa [show ((2 : ℝ) - 1) / (2 + 1) = 1 / 3 by norm_num] at this
  rw [value, abs_le] at close
  rw [logRatioSum] at close
  norm_num [Finset.sum_range_succ] at close
  constructor <;> linarith [close.1, close.2]

/-! ### The exponential -/

/-- The first `n` terms of the exponential of `-v`. -/
noncomputable def expSum (n : ℕ) (v : ℝ) : ℝ :=
  ∑ i ∈ Finset.range n, (-1) ^ i / (Nat.factorial i : ℝ) * v ^ i

/-- The terms left out are at most about the first of them. -/
theorem abs_exp_neg_sub_sum_le {v : ℝ} {n : ℕ} (hv : |v| ≤ 1) (hn : 0 < n) :
    |Real.exp (-v) - expSum n v| ≤ |v| ^ n * (n.succ / (n.factorial * n)) := by
  have close := Real.exp_bound (x := -v) (by rwa [abs_neg]) hn
  rw [abs_neg] at close
  have terms : ∑ m ∈ Finset.range n, (-v) ^ m / (m.factorial : ℝ) = expSum n v := by
    refine Finset.sum_congr rfl fun i _ => ?_
    rw [neg_pow]
    ring
  rwa [terms] at close

/-- Between two arguments the exponential falls by at most their distance times its larger
value, and by at least their distance times the smaller one. -/
theorem exp_neg_sub_bounds (a b : ℝ) :
    Real.exp (-a) - Real.exp (-b) ≤ (b - a) * Real.exp (-a) ∧
      (b - a) * Real.exp (-b) ≤ Real.exp (-a) - Real.exp (-b) := by
  have down : Real.exp (-b) = Real.exp (-a) * Real.exp (-(b - a)) := by
    rw [← Real.exp_add]
    ring_nf
  have up : Real.exp (-a) = Real.exp (-b) * Real.exp (b - a) := by
    rw [← Real.exp_add]
    ring_nf
  have tangent := Real.add_one_le_exp (-(b - a))
  have tangent' := Real.add_one_le_exp (b - a)
  have pos := Real.exp_pos (-a)
  have pos' := Real.exp_pos (-b)
  constructor
  · have scaled := mul_le_mul_of_nonneg_left tangent pos.le
    rw [down]
    linarith
  · have scaled := mul_le_mul_of_nonneg_left tangent' pos'.le
    rw [up]
    linarith

/-- At a scale, and from a nonnegative argument on, the exponential falls by no more than the
argument grows. -/
theorem exp_neg_sub_le {C c a b : ℝ} (hC : 0 ≤ C) (hc : 0 ≤ c) (ha : 0 ≤ a)
    (distance : C * (b - a) ≤ c) : C * (Real.exp (-a) - Real.exp (-b)) ≤ c := by
  have one : Real.exp (-a) ≤ 1 := Real.exp_le_one_iff.mpr (neg_nonpos.mpr ha)
  calc C * (Real.exp (-a) - Real.exp (-b)) ≤ C * ((b - a) * Real.exp (-a)) :=
        mul_le_mul_of_nonneg_left (exp_neg_sub_bounds a b).1 hC
    _ = C * (b - a) * Real.exp (-a) := (mul_assoc _ _ _).symm
    _ ≤ c * Real.exp (-a) := mul_le_mul_of_nonneg_right distance (Real.exp_pos _).le
    _ ≤ c := mul_le_of_le_one_right hc one

/-- A decaying exponential times its rate is at most a share of the inverse of the time. -/
theorem mul_exp_neg_le {r time : ℝ} (pos : 0 < time) :
    r * Real.exp (-(r * time)) ≤ 0.368 / time := by
  rw [le_div_iff₀ pos]
  have tangent := Real.add_one_le_exp (r * time - 1)
  have product : Real.exp (-(r * time)) * Real.exp (r * time - 1) = Real.exp (-1) := by
    rw [← Real.exp_add]
    ring_nf
  have scaled := mul_le_mul_of_nonneg_left tangent (Real.exp_pos (-(r * time))).le
  have inverse := Real.exp_neg_one_lt_d9
  linarith

/-! ### Reduction modulo the logarithm of two -/

/-- Halving `k` times against as many steps of a logarithm of two that is off by `ε`. -/
theorem halvings_close {C l ε : ℝ} (hC : 0 < C) (close : |l - C * Real.log 2| ≤ ε)
    (large : 0.69 * C ≤ l) (k : ℕ) :
    |C * Real.exp (-(k * l / C)) - C * (1 / 2 ^ k)| ≤ 1.5 * ε := by
  obtain ⟨log_low, -⟩ := log_two_bounds
  obtain ⟨below, above⟩ := abs_le.mp close
  have ε_nonneg : 0 ≤ ε := (abs_nonneg _).trans close
  have two : (1 : ℝ) / 2 ^ k = Real.exp (-(k * Real.log 2)) := by
    rw [Real.exp_neg, Real.exp_nat_mul, Real.exp_log (by norm_num), one_div]
  -- however many steps, what is left after them makes up for their number
  have damped {time : ℝ} (long : 0.69 ≤ time) : k * Real.exp (-(k * time)) ≤ 1.5 := by
    refine (mul_exp_neg_le (by linarith)).trans ?_
    rw [div_le_iff₀ (by linarith)]
    linarith
  have rate : C * (l / C) = l := mul_div_cancel₀ _ hC.ne'
  have moved (E : ℝ) : C * ((k * (l / C) - k * Real.log 2) * E) =
      (l - C * Real.log 2) * (k * E) := by
    calc C * ((k * (l / C) - k * Real.log 2) * E) =
          (C * (l / C) - C * Real.log 2) * (k * E) := by ring
      _ = (l - C * Real.log 2) * (k * E) := by rw [rate]
  rw [two, mul_div_assoc, abs_le]
  constructor
  · have fall := mul_le_mul_of_nonneg_left
      (exp_neg_sub_bounds (k * Real.log 2) (k * (l / C))).1 hC.le
    have gap := mul_le_mul above (damped (show 0.69 ≤ Real.log 2 by linarith))
      (by positivity) ε_nonneg
    rw [moved] at fall
    linarith
  · have fall := mul_le_mul_of_nonneg_left
      (exp_neg_sub_bounds (k * (l / C)) (k * Real.log 2)).1 hC.le
    have gap := mul_le_mul (show -(l - C * Real.log 2) ≤ ε by linarith)
      (damped (show 0.69 ≤ l / C by rwa [le_div_iff₀ hC])) (by positivity) ε_nonneg
    have flipped := moved (Real.exp (-(k * (l / C))))
    linarith

/-- A series close to the exponential at a remainder, halved as often as the quotient says,
is close to the exponential of the whole. -/
theorem shifted_exp_close {C l S ε lo hi q r : ℝ} {k : ℕ} (hC : 0 < C)
    (close : |l - C * Real.log 2| ≤ ε) (large : 0.69 * C ≤ l) (hr : 0 ≤ r)
    (low : C * Real.exp (-(r / C)) - lo ≤ S) (high : S ≤ C * Real.exp (-(r / C)) + hi)
    (floor_le : q ≤ S * (1 / 2 ^ k)) (lt_floor : S * (1 / 2 ^ k) < q + 1)
    (exact : k = 0 → q = S) (hhi : 0 ≤ hi) (enough : lo / 2 + 1 + 1.5 * ε ≤ lo) :
    C * Real.exp (-((k * l + r) / C)) - lo ≤ q ∧
      q ≤ C * Real.exp (-((k * l + r) / C)) + hi + 1.5 * ε := by
  obtain ⟨halved_low, halved_high⟩ := abs_le.mp (halvings_close hC close large k)
  have ε_nonneg : 0 ≤ ε := (abs_nonneg _).trans close
  have product : Real.exp (-((k * l + r) / C)) = Real.exp (-(k * l / C)) * Real.exp (-(r / C)) := by
    rw [← Real.exp_add]
    ring_nf
  have one : Real.exp (-(r / C)) ≤ 1 := Real.exp_le_one_iff.mpr (neg_nonpos.mpr (by positivity))
  have pos := Real.exp_pos (-(r / C))
  have share_pos : (0 : ℝ) < 1 / 2 ^ k := by positivity
  have share_le : (1 / 2 ^ k : ℝ) ≤ 1 :=
    (div_le_one (by positivity)).mpr (one_le_pow₀ (by norm_num))
  have unit : k = 0 → Real.exp (-(k * l / C)) = 1 := by
    rintro rfl
    simp
  rw [product]
  generalize Real.exp (-(r / C)) = e at *
  generalize Real.exp (-(k * l / C)) = d at *
  have shared := mul_le_mul_of_nonneg_right high share_pos.le
  have shared' := mul_le_mul_of_nonneg_right low share_pos.le
  have scaled := mul_le_mul_of_nonneg_right halved_low pos.le
  have scaled' := mul_le_mul_of_nonneg_right halved_high pos.le
  have small := mul_le_mul_of_nonneg_left one (show 0 ≤ 1.5 * ε by linarith)
  have kept := mul_le_mul_of_nonneg_left share_le hhi
  constructor
  · cases k with
    | zero =>
      -- nothing is shifted out
      rw [exact rfl, unit rfl, one_mul]
      exact low
    | succ k =>
      have half : (1 / 2 ^ (k + 1) : ℝ) ≤ 1 / 2 := by
        rw [pow_succ']
        refine one_div_le_one_div_of_le (by norm_num) ?_
        have := one_le_pow₀ (one_le_two (α := ℝ)) (n := k)
        linarith
      generalize (1 / 2 ^ (k + 1) : ℝ) = h at *
      have halved := mul_le_mul_of_nonneg_left half (show 0 ≤ lo by linarith)
      linarith
  · linarith

end Antumbra.Math
