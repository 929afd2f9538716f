/-
# Amounts that accrue over time

An accrual rule gives the part of a total earned by a time: it never falls and
never exceeds the total. Linear accrual rounds down between its two ends, a cliff
holds everything back until it passes, and freezing stops the clock.
-/

import Mathlib.Order.MinMax
import Mathlib.Tactic.Common

namespace Antumbra.Math

/-- The part of `total` earned by `t` at a constant rate from `start` to `stop`,
rounded down. -/
def linear (start stop total t : ℕ) : ℕ :=
  if t ≤ start then 0
  else if stop ≤ t then total
  else total * (t - start) / (stop - start)

/-- Nothing before the cliff. -/
def delayed (cliff : ℕ) (f : ℕ → ℕ) (t : ℕ) : ℕ :=
  if t < cliff then 0 else f t

/-- Nothing new after the freeze. -/
def frozen (stop : Option ℕ) (f : ℕ → ℕ) (t : ℕ) : ℕ :=
  match stop with
  | some c => f (min t c)
  | none => f t

variable {start stop total cliff t : ℕ} {f : ℕ → ℕ}

/-- A part of the span earns at most the whole. -/
theorem part_le {elapsed span : ℕ} (h : elapsed ≤ span) : total * elapsed / span ≤ total := by
  refine Nat.div_le_of_le_mul ?_
  rw [Nat.mul_comm span]
  exact Nat.mul_le_mul_left total h

theorem linear_le : linear start stop total t ≤ total := by
  unfold linear
  split_ifs with early late
  · exact Nat.zero_le total
  · exact Nat.le_refl total
  · exact part_le (by omega)

theorem linear_mono : Monotone (linear start stop total) := by
  intro t u h
  -- past the end the value is the total; before it only the elapsed time grows
  by_cases late : stop ≤ u
  · by_cases early : u ≤ start
    · simp [linear, early, Nat.le_trans h early]
    · rw [show linear start stop total u = total by simp [linear, early, late]]
      exact linear_le
  · unfold linear
    split_ifs with early₁ early₂ late₁
    · exact Nat.le_refl 0
    · exact Nat.zero_le _
    all_goals try omega
    exact Nat.div_le_div_right (Nat.mul_le_mul_left total (by omega))

theorem delayed_le (h : f t ≤ total) : delayed cliff f t ≤ total := by
  unfold delayed
  split
  · exact Nat.zero_le total
  · exact h

theorem delayed_mono (h : Monotone f) : Monotone (delayed cliff f) := by
  intro t u htu
  unfold delayed
  split_ifs with early₁ early₂
  · exact Nat.le_refl 0
  · exact Nat.zero_le _
  · omega
  · exact h htu

theorem frozen_mono (stop : Option ℕ) (h : Monotone f) : Monotone (frozen stop f) := by
  intro t u htu
  cases stop with
  | none => exact h htu
  | some c => exact h (by omega)

/-- Freezing loses nothing earned before the freeze. -/
theorem frozen_of_le {c : ℕ} (h : t ≤ c) : frozen (some c) f t = f t := by
  rw [frozen, Nat.min_eq_left h]

/-- A frozen rule never passes its value at the freeze. -/
theorem frozen_le_at {c : ℕ} (h : Monotone f) : frozen (some c) f t ≤ frozen (some c) f c := by
  rw [frozen_of_le (Nat.le_refl c)]
  exact h (Nat.min_le_right t c)

/-! ### The largest value seen -/

/-- The largest of a start and the values of a list is within a bound exactly when all
of them are. -/
theorem foldl_max_le_iff {xs : List ℕ} {a m : ℕ} :
    xs.foldl max a ≤ m ↔ a ≤ m ∧ ∀ x ∈ xs, x ≤ m := by
  induction xs generalizing a with
  | nil => simp
  | cons x xs ih =>
    rw [List.foldl_cons, ih]
    simp only [List.mem_cons, forall_eq_or_imp, Nat.max_le, and_assoc]

theorem foldl_max_eq_of_mem {xs : List ℕ} {a m : ℕ} (start : a ≤ m) (mem : m ∈ xs)
    (le : ∀ x ∈ xs, x ≤ m) : xs.foldl max a = m := by
  refine Nat.le_antisymm (foldl_max_le_iff.mpr ⟨start, le⟩) ?_
  exact (foldl_max_le_iff.mp (Nat.le_refl (xs.foldl max a))).2 m mem

/-- The largest value of a rule that never falls is its value at the latest time. -/
theorem foldl_max_map (h : Monotone f) (ts : List ℕ) (t : ℕ) :
    (ts.map f).foldl max (f t) = f (ts.foldl max t) := by
  induction ts generalizing t with
  | nil => rfl
  | cons u ts ih => rw [List.map_cons, List.foldl_cons, ← h.map_max, ih, List.foldl_cons]

/-- Over no times at all nothing was seen. -/
theorem greatest_at_latest (h : Monotone f) (ts : List ℕ) :
    (ts.map f).foldl max 0 = (ts.max?.map f).getD 0 := by
  cases ts with
  | nil => rfl
  | cons t ts =>
    rw [List.map_cons, List.foldl_cons, Nat.zero_max, foldl_max_map h, List.max?_cons']
    rfl

end Antumbra.Math
