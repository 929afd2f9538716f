/-
# Interpolation rounded toward its start

A quantity that slides from `a` to `b` in `s` equal steps stands, after `e` of them, at
`a` moved toward `b` by the rounded-down share of the distance. The share never passes the
distance, grows with `e`, and misses the exact one by less than a unit, so the quantity
stays between its ends, never turns back, and lags behind the exact interpolation by less
than a unit.
-/

import Mathlib.Data.Nat.Cast.Order.Field
import Mathlib.Data.Rat.Cast.Order
import Mathlib.Tactic.Linarith
import Mathlib.Tactic.Ring

namespace Antumbra.Math

/-- `a` moved toward `b` by `e` steps of `s`, rounded toward `a`. -/
def interpolate (a b e s : ℕ) : ℕ :=
  if a ≤ b then a + (b - a) * e / s else a - (a - b) * e / s

/-- The exact interpolation. -/
def interpolation (a b e s : ℕ) : ℚ := a + (b - a) * e / s

variable {a b e e' s : ℕ}

/-- A share of a distance is at most the distance. -/
theorem mul_div_le_of_le (d : ℕ) (h : e ≤ s) : d * e / s ≤ d :=
  Nat.div_le_of_le_mul (by
    rw [Nat.mul_comm s]
    exact Nat.mul_le_mul_left d h)

theorem interpolate_zero (a b s : ℕ) : interpolate a b 0 s = a := by
  unfold interpolate
  split <;> simp

theorem interpolate_self (a b : ℕ) (hs : 0 < s) : interpolate a b s s = b := by
  unfold interpolate
  rw [Nat.mul_div_cancel _ hs, Nat.mul_div_cancel _ hs]
  split <;> omega

theorem min_le_interpolate (h : e ≤ s) : min a b ≤ interpolate a b e s := by
  have down := mul_div_le_of_le (a - b) h
  unfold interpolate
  by_cases rising : a ≤ b
  · rw [if_pos rising, min_eq_left rising]
    exact Nat.le_add_right _ _
  · rw [if_neg rising, min_eq_right (by omega)]
    omega

theorem interpolate_le_max (h : e ≤ s) : interpolate a b e s ≤ max a b := by
  have up := mul_div_le_of_le (b - a) h
  unfold interpolate
  by_cases rising : a ≤ b
  · rw [if_pos rising, max_eq_right rising]
    omega
  · rw [if_neg rising, max_eq_left (by omega)]
    exact Nat.sub_le _ _

/-- More steps are closer to the end, whichever way it lies. -/
theorem interpolate_le_interpolate (rising : a ≤ b) (h : e ≤ e') :
    interpolate a b e s ≤ interpolate a b e' s := by
  have share : (b - a) * e / s ≤ (b - a) * e' / s :=
    Nat.div_le_div_right (Nat.mul_le_mul_left _ h)
  unfold interpolate
  rw [if_pos rising, if_pos rising]
  omega

theorem interpolate_le_interpolate' (falling : b ≤ a) (h : e ≤ e') :
    interpolate a b e' s ≤ interpolate a b e s := by
  have share : (a - b) * e / s ≤ (a - b) * e' / s :=
    Nat.div_le_div_right (Nat.mul_le_mul_left _ h)
  unfold interpolate
  split
  · next rising =>
    -- equal ends: nothing moves
    have none : b - a = 0 := by omega
    rw [none, Nat.zero_mul, Nat.zero_mul]
  · omega

/-! ### Against the exact interpolation -/

/-- A rounded-down quotient lags behind the exact one by less than a unit. -/
theorem cast_div_bounds (n : ℕ) (hs : 0 < s) :
    ((n / s : ℕ) : ℚ) ≤ n / s ∧ (n : ℚ) / s < (n / s : ℕ) + 1 := by
  have pos : (0 : ℚ) < s := Nat.cast_pos.mpr hs
  refine ⟨Nat.cast_div_le, ?_⟩
  rw [div_lt_iff₀ pos]
  have below := Nat.lt_mul_div_succ n hs
  rw [Nat.mul_comm] at below
  exact_mod_cast below

theorem interpolate_rounds_down (rising : a ≤ b) (hs : 0 < s) :
    (interpolate a b e s : ℚ) ≤ interpolation a b e s ∧
      interpolation a b e s < interpolate a b e s + 1 := by
  obtain ⟨le, lt⟩ := cast_div_bounds ((b - a) * e) hs
  rw [Nat.cast_mul, Nat.cast_sub rising] at le lt
  unfold interpolate interpolation
  rw [if_pos rising, Nat.cast_add]
  constructor <;> linarith

theorem interpolate_rounds_up (falling : b ≤ a) (h : e ≤ s) (hs : 0 < s) :
    interpolation a b e s ≤ interpolate a b e s ∧
      (interpolate a b e s : ℚ) < interpolation a b e s + 1 := by
  rcases Nat.eq_or_lt_of_le falling with rfl | below
  · -- equal ends: the interpolation is exact
    have exact : interpolate b b e s = b := by simp [interpolate]
    rw [exact, interpolation, sub_self, zero_mul, zero_div, add_zero]
    constructor <;> linarith
  · obtain ⟨le, lt⟩ := cast_div_bounds ((a - b) * e) hs
    rw [Nat.cast_mul, Nat.cast_sub falling] at le lt
    have opposite : ((b : ℚ) - a) * e / s = -(((a : ℚ) - b) * e / s) := by ring
    unfold interpolate interpolation
    rw [if_neg (by omega), Nat.cast_sub ((mul_div_le_of_le _ h).trans (Nat.sub_le _ _)), opposite]
    constructor <;> linarith

end Antumbra.Math
