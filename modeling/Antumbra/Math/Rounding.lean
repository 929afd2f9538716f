/-
# Quotients rounded up

The rounded-up quotient is the least factor that covers the dividend. Everything
a proof needs about it follows from that adjunction and from its description by
quotient and remainder.
-/

import Mathlib.Algebra.GroupWithZero.Nat
import Mathlib.Algebra.Order.Floor.Div
import Mathlib.GroupTheory.GroupAction.Ring
import Mathlib.Tactic.Ring

namespace Antumbra.Math

/-- Rounding up adds one to the quotient exactly when there is a remainder. -/
theorem ceilDiv_eq_ite (n : ℕ) {d : ℕ} (hd : 0 < d) :
    n ⌈/⌉ d = if n % d = 0 then n / d else n / d + 1 := by
  have split := Nat.div_add_mod n d
  have below := Nat.mod_lt n hd
  rw [Nat.ceilDiv_eq_add_pred_div]
  split_ifs with exact
  · rw [show n + d - 1 = d - 1 + d * (n / d) by omega, Nat.add_mul_div_left _ _ hd,
      Nat.div_eq_of_lt (by omega), Nat.zero_add]
  · rw [show n + d - 1 = n % d - 1 + d * (n / d + 1) by rw [Nat.mul_succ]; omega,
      Nat.add_mul_div_left _ _ hd, Nat.div_eq_of_lt (by omega), Nat.zero_add]

/-- The rounded-up quotient covers the dividend. -/
theorem le_mul_ceilDiv (n : ℕ) {d : ℕ} (hd : 0 < d) : n ≤ d * (n ⌈/⌉ d) :=
  (ceilDiv_le_iff_le_mul hd).mp le_rfl

/-- It overshoots the dividend by less than the divisor. -/
theorem mul_ceilDiv_lt (n : ℕ) {d : ℕ} (hd : 0 < d) : d * (n ⌈/⌉ d) < n + d := by
  have split := Nat.div_add_mod n d
  have below := Nat.mod_lt n hd
  rw [ceilDiv_eq_ite n hd]
  split_ifs with exact
  · omega
  · rw [Nat.mul_succ]
    omega

/-- A factor that does not cover the dividend is below the rounded-up quotient. -/
theorem lt_ceilDiv_iff {n d c : ℕ} (hd : 0 < d) : c < n ⌈/⌉ d ↔ d * c < n := by
  rw [← not_le, ceilDiv_le_iff_le_mul hd, not_le]

theorem ceilDiv_pos {n d : ℕ} (hn : 0 < n) (hd : 0 < d) : 0 < n ⌈/⌉ d := by
  rw [lt_ceilDiv_iff hd]
  omega

/-- The rounded-up quotient is the one factor that covers the dividend while its
predecessor does not. -/
theorem ceilDiv_eq_iff {n d q : ℕ} (hn : 0 < n) (hd : 0 < d) :
    n ⌈/⌉ d = q ↔ n ≤ d * q ∧ d * (q - 1) < n := by
  constructor
  · rintro rfl
    have pos := ceilDiv_pos hn hd
    exact ⟨le_mul_ceilDiv n hd, (lt_ceilDiv_iff hd).mp (by omega)⟩
  · rintro ⟨covers, least⟩
    rw [← lt_ceilDiv_iff hd] at least
    rw [← ceilDiv_le_iff_le_mul hd] at covers
    omega

/-- A share of `x` is at most `x`. -/
theorem share_le (x y : ℕ) {c : ℕ} (h : 0 < y + c) : (x * y) ⌈/⌉ (y + c) ≤ x := by
  rw [ceilDiv_le_iff_le_mul h, Nat.mul_comm]
  exact Nat.mul_le_mul_right x (Nat.le_add_right y c)

/-- Rounding up in one factor and down in the complement is one and the same. -/
theorem sub_ceilDiv_eq_div (x y : ℕ) {c : ℕ} (h : 0 < y + c) :
    x - (x * y) ⌈/⌉ (y + c) = x * c / (y + c) := by
  have covered := share_le x y h
  have total : x * (y + c) = x * y + x * c := Nat.mul_add x y c
  -- the quotient is pinned by what the rounded-up part covers and overshoots
  rw [eq_comm, Nat.div_eq_iff h]
  have upper := mul_ceilDiv_lt (x * y) h
  have lower := le_mul_ceilDiv (x * y) h
  rw [Nat.sub_mul, Nat.mul_comm ((x * y) ⌈/⌉ (y + c))]
  have := Nat.mul_le_mul_right (y + c) covered
  rw [Nat.mul_comm ((x * y) ⌈/⌉ (y + c))] at this
  omega

theorem sub_div_eq_ceilDiv (x y : ℕ) {c : ℕ} (h : 0 < y + c) :
    x - x * c / (y + c) = (x * y) ⌈/⌉ (y + c) := by
  rw [← sub_ceilDiv_eq_div x y h, Nat.sub_sub_self (share_le x y h)]

/-- A payment of `c` brings out `q` exactly when it tops the reserve up to what the rest
of `x` calls for. -/
theorem le_share_iff {x y q c : ℕ} (hy : 0 < y) (below : q < x) :
    q ≤ x * c / (y + c) ↔ (x * y) ⌈/⌉ (x - q) ≤ y + c := by
  rw [Nat.le_div_iff_mul_le (by omega), ceilDiv_le_iff_le_mul (by omega)]
  -- both sides say that the rest, times the new reserve, is no less than the product
  have whole : (x - q) * (y + c) + q * (y + c) = x * y + x * c := by
    rw [← Nat.add_mul, Nat.sub_add_cancel below.le, Nat.mul_add]
  omega

/-- Rounded-up shares of the parts cover the rounded-up share of the whole. -/
theorem ceilDiv_sum_le (parts : List ℕ) (r : ℕ) {d : ℕ} (hd : 0 < d) :
    (parts.sum * r) ⌈/⌉ d ≤ (parts.map fun a => (a * r) ⌈/⌉ d).sum := by
  rw [ceilDiv_le_iff_le_mul hd]
  induction parts with
  | nil => simp
  | cons a parts ih =>
    have one := le_mul_ceilDiv (a * r) hd
    rw [List.sum_cons, List.map_cons, List.sum_cons, Nat.add_mul, Nat.mul_add]
    omega

/-- They exceed it, if at all, by less than one unit a part. -/
theorem sum_ceilDiv_lt {parts : List ℕ} {r d : ℕ} (hd : 0 < d)
    (excess : (parts.sum * r) ⌈/⌉ d < (parts.map fun a => (a * r) ⌈/⌉ d).sum) :
    (parts.map fun a => (a * r) ⌈/⌉ d).sum < (parts.sum * r) ⌈/⌉ d + parts.length := by
  -- each part overshoots by at most `d - 1`, so all of them by `d - 1` times their number
  have overshoot : ∀ l : List ℕ, d * (l.map fun a => (a * r) ⌈/⌉ d).sum + l.length ≤
      l.sum * r + d * l.length := by
    intro l
    induction l with
    | nil => simp
    | cons a l ih =>
      have one := mul_ceilDiv_lt (a * r) hd
      rw [List.sum_cons, List.map_cons, List.sum_cons, List.length_cons, Nat.add_mul, Nat.mul_add,
        Nat.mul_succ]
      omega
  have all := overshoot parts
  have whole := le_mul_ceilDiv (parts.sum * r) hd
  have some_part : 0 < parts.length := by
    rw [List.length_pos_iff]
    rintro rfl
    simp at excess
  refine Nat.lt_of_mul_lt_mul_left (a := d) ?_
  rw [Nat.mul_add]
  omega

/-- A number is a rounded-up quotient of `n` exactly when the least divisor that
brings the quotient down to it does not bring it below. -/
theorem exists_ceilDiv_eq_iff {n d : ℕ} (hn : 0 < n) (hd : 0 < d) :
    (∃ v, 0 < v ∧ n ⌈/⌉ v = d) ↔ (d - 1) * (n ⌈/⌉ d) < n := by
  constructor
  · rintro ⟨v, hv, hit⟩
    obtain ⟨covers, least⟩ := (ceilDiv_eq_iff hn hv).mp hit
    -- a divisor that hits is at least the least one that comes down to `d`
    have down : n ⌈/⌉ d ≤ v := (ceilDiv_le_iff_le_mul hd).mpr (by rwa [Nat.mul_comm])
    calc (d - 1) * (n ⌈/⌉ d) ≤ (d - 1) * v := Nat.mul_le_mul_left _ down
      _ = v * (d - 1) := Nat.mul_comm _ _
      _ < n := least
  · intro least
    have hv := ceilDiv_pos hn hd
    refine ⟨n ⌈/⌉ d, hv, (ceilDiv_eq_iff hn hv).mpr ⟨?_, by rwa [Nat.mul_comm]⟩⟩
    rw [Nat.mul_comm]
    exact le_mul_ceilDiv n hd

/-- Below the square root every number is a rounded-up quotient. -/
theorem ceilDiv_hits_of_sq_lt {n d : ℕ} (hd : 0 < d) (small : (d - 1) * (d - 1) < n) :
    (d - 1) * (n ⌈/⌉ d) < n := by
  by_contra beyond
  rw [not_lt] at beyond
  have upper := mul_ceilDiv_lt n hd
  have next : (d - 1) * (n ⌈/⌉ d) + n ⌈/⌉ d = d * (n ⌈/⌉ d) := by
    rw [← Nat.succ_mul, Nat.succ_eq_add_one, Nat.sub_add_cancel hd]
  -- otherwise the factor is below `d`, and the square was not small
  have few : n ⌈/⌉ d ≤ d - 1 := by omega
  have := Nat.mul_le_mul_left (d - 1) few
  omega

end Antumbra.Math
