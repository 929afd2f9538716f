/-
# Series summed term by term

Each term is a rounded-down multiple of the one before it. A rounding shrinks with every
later factor, so no term falls further behind the exact one than a geometric series of the
factors. Where the signs alternate and the terms fall, the sums of either sign stay within
one first term of each other.
-/

import Mathlib.Algebra.BigOperators.Group.Finset.Basic
import Mathlib.Algebra.BigOperators.Ring.Finset
import Mathlib.Algebra.Order.BigOperators.Group.Finset
import Mathlib.Data.Real.Basic
import Mathlib.Tactic.Linarith
import Mathlib.Tactic.Ring

namespace Antumbra.Math

/-! ### One term from the other -/

section

variable {t : ℕ → ℕ} {T v w : ℕ → ℝ} {c θ E : ℝ}

/-- Terms rounded down against exact ones: a factor is at most `θ`, and using a smaller one
costs at most `c`. -/
theorem terms_close (le : ∀ i, (t (i + 1) : ℝ) ≤ t i * w i)
    (lt : ∀ i, t i * w i < (t (i + 1) : ℝ) + 1) (exact : ∀ i, T (i + 1) = T i * v i)
    (nonneg : ∀ i, 0 ≤ v i) (w_le : ∀ i, w i ≤ v i) (v_le : ∀ i, v i ≤ θ)
    (drift : ∀ i, t i * (v i - w i) ≤ c) (hE : 0 ≤ E) (room : E * θ + c + 1 ≤ E)
    (start : (t 0 : ℝ) ≤ T 0 ∧ T 0 ≤ t 0 + E) (i : ℕ) :
    (t i : ℝ) ≤ T i ∧ T i ≤ t i + E := by
  induction i with
  | zero => exact start
  | succ i ih =>
    obtain ⟨low, high⟩ := ih
    have step := lt i
    have lost := drift i
    rw [exact]
    constructor
    · calc (t (i + 1) : ℝ) ≤ t i * w i := le i
        _ ≤ t i * v i := mul_le_mul_of_nonneg_left (w_le i) (Nat.cast_nonneg _)
        _ ≤ T i * v i := mul_le_mul_of_nonneg_right low (nonneg i)
    · calc T i * v i ≤ (t i + E) * v i := mul_le_mul_of_nonneg_right high (nonneg i)
        _ = t i * w i + t i * (v i - w i) + E * v i := by ring
        _ ≤ t (i + 1) + 1 + c + E * θ := by
            have := mul_le_mul_of_nonneg_left (v_le i) hE
            linarith
        _ ≤ t (i + 1) + E := by linarith

end

/-! ### Alternating sums -/

variable {t : ℕ → ℕ} {n : ℕ}

/-- The terms that are added. -/
def evenSum (t : ℕ → ℕ) (n : ℕ) : ℕ := ∑ i ∈ Finset.range n, if i % 2 = 0 then t i else 0

/-- The terms that are subtracted. -/
def oddSum (t : ℕ → ℕ) (n : ℕ) : ℕ := ∑ i ∈ Finset.range n, if i % 2 = 1 then t i else 0

theorem evenSum_succ (t : ℕ → ℕ) (n : ℕ) :
    evenSum t (n + 1) = evenSum t n + if n % 2 = 0 then t n else 0 := Finset.sum_range_succ _ _

theorem oddSum_succ (t : ℕ → ℕ) (n : ℕ) :
    oddSum t (n + 1) = oddSum t n + if n % 2 = 1 then t n else 0 := Finset.sum_range_succ _ _

/-- Falling terms: neither sum gets ahead of the other by more than the first term. -/
theorem alternating_bounds (falls : ∀ i, t (i + 1) ≤ t i) (n : ℕ) :
    oddSum t n ≤ evenSum t n ∧ evenSum t n ≤ oddSum t n + t 0 := by
  -- the term to come still fits between them on its own side
  have strong : (n % 2 = 0 → oddSum t n ≤ evenSum t n ∧ evenSum t n + t n ≤ oddSum t n + t 0) ∧
      (n % 2 = 1 → oddSum t n + t n ≤ evenSum t n ∧ evenSum t n ≤ oddSum t n + t 0) := by
    induction n with
    | zero => simp [evenSum, oddSum]
    | succ n ih =>
      have next := falls n
      rw [evenSum_succ, oddSum_succ]
      rcases Nat.mod_two_eq_zero_or_one n with even | odd
      · have := ih.1 even
        rw [if_pos even, if_neg (show ¬ n % 2 = 1 by omega)]
        omega
      · have := ih.2 odd
        rw [if_neg (show ¬ n % 2 = 0 by omega), if_pos odd]
        omega
  rcases Nat.mod_two_eq_zero_or_one n with even | odd
  · have := strong.1 even
    omega
  · have := strong.2 odd
    omega

/-- Terms that have reached zero add nothing more. -/
theorem sums_stop {m : ℕ} (zero : ∀ i, m ≤ i → t i = 0) (k : ℕ) :
    evenSum t (m + k) = evenSum t m ∧ oddSum t (m + k) = oddSum t m := by
  induction k with
  | zero => exact ⟨rfl, rfl⟩
  | succ k ih =>
    rw [← Nat.add_assoc, evenSum_succ, oddSum_succ, zero (m + k) (by omega), ite_self, ite_self,
      ih.1, ih.2]
    exact ⟨rfl, rfl⟩

/-- Neither sum exceeds its count times the first term. -/
theorem sums_le (falls : ∀ i, t (i + 1) ≤ t i) (n : ℕ) :
    evenSum t n ≤ n * t 0 ∧ oddSum t n ≤ n * t 0 := by
  have first : ∀ i, t i ≤ t 0 := by
    intro i
    induction i with
    | zero => exact le_rfl
    | succ i ih => exact (falls i).trans ih
  have bound (p : ℕ → Prop) [DecidablePred p] :
      ∑ i ∈ Finset.range n, (if p i then t i else 0) ≤ n * t 0 := by
    calc ∑ i ∈ Finset.range n, (if p i then t i else 0) ≤ ∑ _i ∈ Finset.range n, t 0 := by
          refine Finset.sum_le_sum fun i _ => ?_
          split_ifs
          · exact first i
          · exact Nat.zero_le _
      _ = n * t 0 := by rw [Finset.sum_const, Finset.card_range, smul_eq_mul]
  exact ⟨bound (· % 2 = 0), bound (· % 2 = 1)⟩

/-- The difference of the two sums, with its signs. -/
theorem evenSum_sub_oddSum (falls : ∀ i, t (i + 1) ≤ t i) (n : ℕ) :
    ((evenSum t n - oddSum t n : ℕ) : ℝ) = ∑ i ∈ Finset.range n, (-1) ^ i * (t i : ℝ) := by
  rw [Nat.cast_sub (alternating_bounds falls n).1, evenSum, oddSum, Nat.cast_sum, Nat.cast_sum,
    ← Finset.sum_sub_distrib]
  refine Finset.sum_congr rfl fun i _ => ?_
  rcases Nat.mod_two_eq_zero_or_one i with even | odd
  · rw [if_pos even, if_neg (show ¬ i % 2 = 1 by omega), (Nat.even_iff.mpr even).neg_one_pow]
    simp
  · rw [if_neg (show ¬ i % 2 = 0 by omega), if_pos odd, (Nat.odd_iff.mpr odd).neg_one_pow]
    simp

/-- Terms that fall short by at most `c`: a short term counts upwards at an odd place and
downwards at an even one. -/
theorem alternating_short {T c : ℕ → ℝ} (short : ∀ i, 0 ≤ T i - t i ∧ T i - t i ≤ c i) (n : ℕ) :
    -(∑ i ∈ Finset.range n, if i % 2 = 0 then c i else 0) ≤
        ∑ i ∈ Finset.range n, (-1) ^ i * (t i : ℝ) - ∑ i ∈ Finset.range n, (-1) ^ i * T i ∧
      ∑ i ∈ Finset.range n, (-1) ^ i * (t i : ℝ) - ∑ i ∈ Finset.range n, (-1) ^ i * T i ≤
        ∑ i ∈ Finset.range n, if i % 2 = 1 then c i else 0 := by
  have each (i : ℕ) : -(if i % 2 = 0 then c i else 0) ≤ (-1) ^ i * (t i : ℝ) - (-1) ^ i * T i ∧
      (-1) ^ i * (t i : ℝ) - (-1) ^ i * T i ≤ if i % 2 = 1 then c i else 0 := by
    obtain ⟨nonneg, at_most⟩ := short i
    rcases Nat.mod_two_eq_zero_or_one i with even | odd
    · rw [if_pos even, if_neg (show ¬ i % 2 = 1 by omega), (Nat.even_iff.mpr even).neg_one_pow]
      constructor <;> linarith
    · rw [if_neg (show ¬ i % 2 = 0 by omega), if_pos odd, (Nat.odd_iff.mpr odd).neg_one_pow]
      constructor <;> linarith
  rw [← Finset.sum_sub_distrib, ← Finset.sum_neg_distrib]
  exact ⟨Finset.sum_le_sum fun i _ => (each i).1, Finset.sum_le_sum fun i _ => (each i).2⟩

end Antumbra.Math
