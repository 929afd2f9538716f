/-
# Horner's rule in fixed point

A polynomial evaluated from its last coefficient down, each product shifted back to the
scale and rounded down. On arguments below one a rounding error shrinks with every later
product, so all of them together stay below the geometric series of the argument, and so
do errors of the coefficients and of the argument itself. Coefficients of alternating sign
that fall fast enough keep every partial result between its own coefficient and zero.
-/

import Mathlib.Algebra.BigOperators.Group.Finset.Basic
import Mathlib.Algebra.BigOperators.Ring.Finset
import Mathlib.Data.Real.Basic
import Mathlib.Tactic.FieldSimp
import Mathlib.Tactic.Linarith
import Mathlib.Tactic.NormNum
import Mathlib.Tactic.Positivity
import Mathlib.Tactic.Ring

namespace Antumbra.Math

/-- The value at `v` of the polynomial with these coefficients, the lowest first. -/
def polyAt {R : Type*} [Semiring R] (v : R) : List R → R
  | [] => 0
  | c :: cs => polyAt v cs * v + c

/-- The same on numbers with `s` fractional bits, every product rounded down. -/
def polyFloor (s : ℕ) (u : ℤ) : List ℤ → ℤ
  | [] => 0
  | a :: as => polyFloor s u as * u / 2 ^ s + a

/-- Horner's rule sums the powers of the argument. -/
theorem polyAt_map_range {R : Type*} [CommSemiring R] (v : R) (c : ℕ → R) (n : ℕ) :
    polyAt v ((List.range n).map c) = ∑ i ∈ Finset.range n, c i * v ^ i := by
  induction n generalizing c with
  | zero => rfl
  | succ n ih =>
    rw [List.range_succ_eq_map, List.map_cons, List.map_map, polyAt, ih, Finset.sum_range_succ',
      Finset.sum_mul, pow_zero, mul_one]
    refine congrArg (· + c 0) (Finset.sum_congr rfl fun i _ => ?_)
    rw [Function.comp_apply, pow_succ, mul_assoc]

variable {s : ℕ} {u : ℤ} {v w θ h : ℝ}

/-! ### Rounding errors -/

/-- A quotient rounded down misses the exact one by less than one. -/
theorem ediv_bounds (n : ℤ) {d : ℤ} (hd : 0 < d) :
    ((n / d : ℤ) : ℝ) ≤ n / d ∧ (n : ℝ) / d < (n / d : ℤ) + 1 := by
  have pos : (0 : ℝ) < d := Int.cast_pos.mpr hd
  have split := Int.mul_ediv_add_emod n d
  have nonneg := Int.emod_nonneg n hd.ne'
  have below := Int.emod_lt_of_pos n hd
  rw [le_div_iff₀ pos, div_lt_iff₀ pos]
  constructor
  · have le : n / d * d ≤ n := by linarith
    exact_mod_cast le
  · have lt : n < (n / d + 1) * d := by linarith
    exact_mod_cast lt

theorem div_bounds (n : ℕ) {d : ℕ} (hd : 0 < d) :
    ((n / d : ℕ) : ℝ) ≤ n / d ∧ (n : ℝ) / d < (n / d : ℕ) + 1 := by
  obtain ⟨low, high⟩ := ediv_bounds (n : ℤ) (d := (d : ℤ)) (by exact_mod_cast hd)
  rw [← Int.natCast_ediv] at low high
  simp only [Int.cast_natCast] at low high
  exact ⟨low, high⟩

theorem ediv_two_pow_bounds (n : ℤ) (s : ℕ) :
    ((n / 2 ^ s : ℤ) : ℝ) ≤ n / 2 ^ s ∧ (n : ℝ) / 2 ^ s < (n / 2 ^ s : ℤ) + 1 := by
  have bounds := ediv_bounds n (d := 2 ^ s) (by positivity)
  push_cast at bounds
  exact bounds

/-- Rounding down at every step stays below the exact value, by at most the geometric
series of the argument. -/
theorem polyFloor_bounds (hu : 0 ≤ u) (below : (u : ℝ) / 2 ^ s < 1) (as : List ℤ) :
    (polyFloor s u as : ℝ) ≤ polyAt ((u : ℝ) / 2 ^ s) (as.map (↑)) ∧
      (polyAt ((u : ℝ) / 2 ^ s) (as.map (↑)) - polyFloor s u as) * (1 - (u : ℝ) / 2 ^ s) ≤ 1 := by
  have nonneg : (0 : ℝ) ≤ (u : ℝ) / 2 ^ s := by
    have := Int.cast_nonneg (R := ℝ) hu
    positivity
  induction as with
  | nil => simp [polyAt, polyFloor]
  | cons a as ih =>
    obtain ⟨low, gap⟩ := ih
    obtain ⟨floor_le, lt_floor⟩ := ediv_two_pow_bounds (polyFloor s u as * u) s
    rw [List.map_cons, polyAt, polyFloor]
    push_cast at floor_le lt_floor ⊢
    rw [mul_div_assoc] at floor_le lt_floor
    have scaled := mul_le_mul_of_nonneg_right low nonneg
    constructor
    · linarith
    · -- the error so far shrinks by the argument, and the new one is at most one
      have shrunk := mul_le_mul_of_nonneg_right gap nonneg
      have fresh := mul_le_mul_of_nonneg_right lt_floor.le (sub_nonneg.mpr below.le)
      linarith

/-- Coefficients that are off by at most `h` put the value off by `h` times that series. -/
theorem polyAt_close (nonneg : 0 ≤ v) (below : v < 1) {as cs : List ℝ}
    (close : List.Forall₂ (fun a c => |a - c| ≤ h) as cs) (hh : 0 ≤ h) :
    |polyAt v as - polyAt v cs| * (1 - v) ≤ h := by
  have rest : 0 ≤ 1 - v := by linarith
  induction close with
  | nil => simpa [polyAt] using hh
  | @cons a c as cs first _ ih =>
    rw [polyAt, polyAt]
    calc |polyAt v as * v + a - (polyAt v cs * v + c)| * (1 - v)
        = |(polyAt v as - polyAt v cs) * v + (a - c)| * (1 - v) := by ring_nf
      _ ≤ (|polyAt v as - polyAt v cs| * v + h) * (1 - v) := by
          refine mul_le_mul_of_nonneg_right ?_ rest
          refine (abs_add_le _ _).trans (add_le_add ?_ first)
          rw [abs_mul, abs_of_nonneg nonneg]
      _ = |polyAt v as - polyAt v cs| * (1 - v) * v + h * (1 - v) := by ring
      _ ≤ h * v + h * (1 - v) :=
          add_le_add (mul_le_mul_of_nonneg_right ih nonneg) le_rfl
      _ = h := by ring

/-- Coefficients between zero and one keep the value below that series. -/
theorem polyAt_le (nonneg : 0 ≤ v) (le : v ≤ θ) (below : θ < 1) {cs : List ℝ}
    (unit : ∀ c ∈ cs, 0 ≤ c ∧ c ≤ 1) : 0 ≤ polyAt v cs ∧ polyAt v cs * (1 - θ) ≤ 1 := by
  induction cs with
  | nil => simp [polyAt]
  | cons c cs ih =>
    obtain ⟨low, high⟩ := ih fun b mem => unit b (List.mem_cons_of_mem c mem)
    obtain ⟨c_nonneg, c_le⟩ := unit c List.mem_cons_self
    rw [polyAt]
    refine ⟨by positivity, ?_⟩
    have rest : 0 ≤ 1 - θ := by linarith
    calc (polyAt v cs * v + c) * (1 - θ) = polyAt v cs * (1 - θ) * v + c * (1 - θ) := by ring
      _ ≤ 1 * θ + 1 * (1 - θ) := add_le_add
          (mul_le_mul high le nonneg zero_le_one)
          (mul_le_mul_of_nonneg_right c_le rest)
      _ = 1 := by ring

/-- With such coefficients an argument that is off by `v - w` puts the value off by that
much times the square of the series. -/
theorem polyAt_shift (nonneg : 0 ≤ w) (shift : w ≤ v) (le : v ≤ θ) (below : θ < 1) {cs : List ℝ}
    (unit : ∀ c ∈ cs, 0 ≤ c ∧ c ≤ 1) :
    polyAt w cs ≤ polyAt v cs ∧ (polyAt v cs - polyAt w cs) * (1 - θ) ^ 2 ≤ v - w := by
  have rest : 0 ≤ 1 - θ := by linarith
  induction cs with
  | nil => simpa [polyAt] using shift
  | cons c cs ih =>
    have later : ∀ b ∈ cs, 0 ≤ b ∧ b ≤ 1 := fun b mem => unit b (List.mem_cons_of_mem c mem)
    obtain ⟨mono, gap⟩ := ih later
    obtain ⟨low, high⟩ := polyAt_le (v := w) nonneg (shift.trans le) below later
    rw [polyAt, polyAt]
    constructor
    · have := mul_le_mul mono shift nonneg (low.trans mono)
      linarith
    · calc (polyAt v cs * v + c - (polyAt w cs * w + c)) * (1 - θ) ^ 2
          = (polyAt v cs - polyAt w cs) * (1 - θ) ^ 2 * v +
              polyAt w cs * (1 - θ) * ((v - w) * (1 - θ)) := by ring
        _ ≤ (v - w) * θ + 1 * ((v - w) * (1 - θ)) := by
            refine add_le_add (mul_le_mul gap le (nonneg.trans shift) (by linarith)) ?_
            exact mul_le_mul_of_nonneg_right high (mul_nonneg (by linarith) rest)
        _ = v - w := by ring

/-! ### Ranges -/

/-- Signs alternate, and each coefficient outweighs the next one times the argument's
bound. -/
def Alternates (s : ℕ) (bound : ℤ) : List ℤ → Prop
  | [] => True
  | [_] => True
  | a :: b :: as =>
    (0 ≤ a ∧ b ≤ 0 ∧ -(b * bound) ≤ a * 2 ^ s ∨ a ≤ 0 ∧ 0 ≤ b ∧ b * bound ≤ -a * 2 ^ s) ∧
      Alternates s bound (b :: as)

instance decidableAlternates (s : ℕ) (bound : ℤ) : (as : List ℤ) → Decidable (Alternates s bound as)
  | [] => inferInstanceAs (Decidable True)
  | [_] => inferInstanceAs (Decidable True)
  | _ :: b :: as =>
    have := decidableAlternates s bound (b :: as)
    inferInstanceAs (Decidable (_ ∧ _))

/-- Every partial result lies between its leading coefficient and zero. -/
theorem polyFloor_alternates {bound a : ℤ} {as : List ℤ} (falls : Alternates s bound (a :: as))
    (hu : 0 ≤ u) (le : u ≤ bound) :
    (0 ≤ a → 0 ≤ polyFloor s u (a :: as) ∧ polyFloor s u (a :: as) ≤ a) ∧
      (a ≤ 0 → a ≤ polyFloor s u (a :: as) ∧ polyFloor s u (a :: as) ≤ 0) := by
  have pos : (0 : ℤ) < 2 ^ s := by positivity
  induction as generalizing a with
  | nil => simp [polyFloor]
  | cons b as ih =>
    obtain ⟨here, later⟩ := falls
    obtain ⟨up, down⟩ := ih later
    rw [polyFloor]
    generalize polyFloor s u (b :: as) = p at *
    rcases here with ⟨ha, hb, covers⟩ | ⟨ha, hb, covers⟩
    · obtain ⟨le_p, p_le⟩ := down hb
      have nonpos : p * u / 2 ^ s ≤ 0 :=
        Int.ediv_nonpos_of_nonpos_of_neg (mul_nonpos_of_nonpos_of_nonneg p_le hu) pos
      have product : b * bound ≤ p * u :=
        (mul_le_mul_of_nonpos_left le hb).trans (mul_le_mul_of_nonneg_right le_p hu)
      have above : -a ≤ p * u / 2 ^ s := by
        rw [Int.le_ediv_iff_mul_le pos]
        linarith
      exact ⟨fun _ => ⟨by linarith, by linarith⟩, fun _ => ⟨by linarith, by linarith⟩⟩
    · obtain ⟨le_p, p_le⟩ := up hb
      have nonneg : 0 ≤ p * u / 2 ^ s := Int.ediv_nonneg (mul_nonneg le_p hu) pos.le
      have product : p * u ≤ b * bound :=
        (mul_le_mul_of_nonneg_right p_le hu).trans (mul_le_mul_of_nonneg_left le hb)
      have below : p * u / 2 ^ s ≤ -a := by
        refine Int.ediv_le_of_le_mul pos ?_
        linarith
      exact ⟨fun _ => ⟨by linarith, by linarith⟩, fun _ => ⟨by linarith, by linarith⟩⟩

/-- Coefficients between zero and `M` keep every partial result between zero and twice `M`
on arguments of at most a half. -/
theorem polyFloor_nonneg {M : ℤ} {as : List ℤ} (hu : 0 ≤ u) (half : 2 * u ≤ 2 ^ s)
    (range : ∀ a ∈ as, 0 ≤ a ∧ a ≤ M) (hM : 0 ≤ M) :
    0 ≤ polyFloor s u as ∧ polyFloor s u as ≤ 2 * M := by
  have pos : (0 : ℤ) < 2 ^ s := by positivity
  induction as with
  | nil => exact ⟨le_rfl, by simpa [polyFloor] using hM⟩
  | cons a as ih =>
    obtain ⟨low, high⟩ := ih fun b mem => range b (List.mem_cons_of_mem a mem)
    obtain ⟨a_nonneg, a_le⟩ := range a List.mem_cons_self
    rw [polyFloor]
    have nonneg : 0 ≤ polyFloor s u as * u / 2 ^ s := Int.ediv_nonneg (mul_nonneg low hu) pos.le
    have below : polyFloor s u as * u / 2 ^ s ≤ M := by
      refine Int.ediv_le_of_le_mul pos ?_
      calc polyFloor s u as * u ≤ 2 * M * u := mul_le_mul_of_nonneg_right high hu
        _ = M * (2 * u) := by ring
        _ ≤ M * 2 ^ s := mul_le_mul_of_nonneg_left half hM
    exact ⟨by linarith, by linarith⟩

/-! ### Steps of the argument -/

/-- What one more coefficient does to the rise between two arguments. -/
theorem polyFloor_cons_sub_le {a m δ : ℤ} {as : List ℤ}
    (h : (polyFloor s (u + δ) as - polyFloor s u as) * (u + δ) + polyFloor s u as * δ ≤
      m * 2 ^ s) :
    polyFloor s (u + δ) (a :: as) - polyFloor s u (a :: as) ≤ m := by
  have pos : (0 : ℤ) < 2 ^ s := by positivity
  have rise : polyFloor s (u + δ) as * (u + δ) / 2 ^ s ≤ polyFloor s u as * u / 2 ^ s + m := by
    rw [← Int.add_mul_ediv_right _ _ pos.ne']
    exact Int.ediv_le_ediv pos (by linarith)
  rw [polyFloor, polyFloor]
  linarith

/-- With falling coefficients of alternating sign a short step of the argument raises the
value by at most one. -/
theorem polyFloor_sub_le_one {bound δ : ℤ} {as : List ℤ} (falls : Alternates s bound as)
    (hu : 0 ≤ u) (hδ : 0 ≤ δ) (le : u + δ ≤ bound) (below : bound ≤ 2 ^ s)
    (room : ∀ a ∈ as, a * δ ≤ 2 ^ s - bound) :
    polyFloor s (u + δ) as - polyFloor s u as ≤ 1 := by
  induction as with
  | nil => simp [polyFloor]
  | cons a as ih =>
    cases as with
    | nil => simp [polyFloor]
    | cons b as =>
      have later := ih falls.2 fun c mem => room c (List.mem_cons_of_mem a mem)
      obtain ⟨up, down⟩ := polyFloor_alternates falls.2 hu (by linarith)
      have short := room b (by simp)
      refine polyFloor_cons_sub_le ?_
      have moved := mul_le_mul_of_nonneg_right later (show 0 ≤ u + δ by linarith)
      -- the value itself is at most its leading coefficient, or at most zero
      rcases le_total 0 b with positive | negative
      · have := mul_le_mul_of_nonneg_right (up positive).2 hδ
        linarith
      · have := mul_nonpos_of_nonpos_of_nonneg (down negative).2 hδ
        linarith

end Antumbra.Math
