/-
# The logarithm of the decimal kernel

On the whole interval up to one the logarithm answers: the doublings times `ln 2` and twice
a sum of rounded terms. Every rounding is downward, so it never exceeds the exact one, and
all of them together stay within two hundred units.
-/

import Antumbra.Math.Series
import Antumbra.Math.Terms
import Antumbra.Math.Horner
import Antumbra.Weighted.Exact
import Antumbra.Weighted.Weighted

namespace Antumbra

open Antumbra.Math

namespace Weighted

variable {x z z2 : U128}

/-! ### The closed form -/

theorem exists_normalise (lt : x.toNat < 1000000000000000000) :
    ∃ k : ℕ, normalise 128 x 0 = .ok (BitVec.ofNat 128 (x.toNat * 2 ^ k), BitVec.ofNat 32 k) ∧
      x.toNat * 2 ^ k < 1000000000000000000 := by
  have exact : ∀ (fuel : ℕ) (m : U128) (k : U32), m.toNat < 1000000000000000000 → ∃ j : ℕ,
      normalise fuel m k = .ok (BitVec.ofNat 128 (m.toNat * 2 ^ j), k + BitVec.ofNat 32 j) ∧
        m.toNat * 2 ^ j < 1000000000000000000 := by
    intro fuel
    induction fuel with
    | zero => exact fun m k lt => ⟨0, by simp [normalise], by simpa⟩
    | succ fuel ih =>
      intro m k lt
      unfold normalise
      split
      · next below =>
        rw [BitVec.lt_def, show (ONE / 2).toNat = 500000000000000000 from rfl] at below
        have product : checkedMul m 2 = some (BitVec.ofNat 128 (m.toNat * 2)) := by
          rw [checkedMul_eq_some_iff, BitVec.toNat_ofNat, Nat.mod_eq_of_lt (by omega)]
          rfl
        have doubled : (BitVec.ofNat 128 (m.toNat * 2)).toNat = m.toNat * 2 := by
          rw [BitVec.toNat_ofNat, Nat.mod_eq_of_lt (by omega)]
        obtain ⟨j, result, small⟩ := ih (BitVec.ofNat 128 (m.toNat * 2)) (k + 1) (by omega)
        rw [doubled, mul_assoc, ← pow_succ'] at result small
        refine ⟨j + 1, ?_, small⟩
        rw [product, okOr, ok_bind, result, BitVec.ofNat_add]
        exact congrArg (fun count => Except.ok (_, count)) (by
          rw [BitVec.add_assoc, BitVec.add_comm 1]
          rfl)
      · exact ⟨0, by simp, by simpa⟩
  obtain ⟨j, result, small⟩ := exact 128 x 0 lt
  have count : (0 : U32) + BitVec.ofNat 32 j = BitVec.ofNat 32 j := BitVec.zero_add _
  exact ⟨j, by rw [result, count], small⟩

/-- The power of the series in a term, every multiplication rounded down. -/
def atanhTerm (z z2 : ℕ) : ℕ → ℕ
  | 0 => z
  | i + 1 => atanhTerm z z2 i * z2 / 1000000000000000000

/-- The first `n` terms of the series. -/
def atanhTotal (z z2 n : ℕ) : ℕ := ∑ i ∈ Finset.range n, atanhTerm z z2 i / (2 * i + 1)

theorem atanhTerm_le {z z2 : ℕ} (hz2 : z2 ≤ 1000000000000000000) (i : ℕ) :
    atanhTerm z z2 i ≤ z := by
  induction i with
  | zero => exact le_rfl
  | succ i ih =>
    rw [atanhTerm]
    refine Nat.div_le_of_le_mul ?_
    calc atanhTerm z z2 i * z2 ≤ z * 1000000000000000000 := Nat.mul_le_mul ih hz2
      _ = 1000000000000000000 * z := mul_comm _ _

theorem atanhTotal_le {z z2 : ℕ} (hz2 : z2 ≤ 1000000000000000000) (n : ℕ) :
    atanhTotal z z2 n ≤ n * z := by
  calc atanhTotal z z2 n ≤ ∑ _i ∈ Finset.range n, z :=
        Finset.sum_le_sum fun i _ => (Nat.div_le_self _ _).trans (atanhTerm_le hz2 i)
    _ = n * z := by rw [Finset.sum_const, Finset.card_range, smul_eq_mul]

/-- A product at the scale fits when its factors are at most one. -/
theorem mul_eq {a b : U128} (hb : b.toNat ≤ 1000000000000000000) :
    mul a b = .ok (BitVec.ofNat 128 (a.toNat * b.toNat / 1000000000000000000)) := by
  have ha := a.isLt
  have small : a.toNat * b.toNat / 1000000000000000000 ≤ a.toNat :=
    Nat.div_le_of_le_mul (by rw [mul_comm]; exact Nat.mul_le_mul_right _ hb)
  rw [mul, mulDivFloor_eq_ok_iff, show ONE.toNat = 1000000000000000000 from rfl,
    BitVec.toNat_ofNat, Nat.mod_eq_of_lt (by omega)]
  exact ⟨by decide, rfl⟩

/-- Every partial sum fits, so the loop adds up the closed form. -/
theorem atanhSum_eq (hz : z.toNat ≤ 1000000000000000000) (hz2 : z2.toNat ≤ 1000000000000000000) :
    atanhSum z z2 = .ok (BitVec.ofNat 128 (atanhTotal z.toNat z2.toNat 24)) := by
  have terms (i : ℕ) : atanhTerm z.toNat z2.toNat i ≤ 1000000000000000000 :=
    (atanhTerm_le hz2 i).trans hz
  have sums {i : ℕ} (hi : i ≤ 24) : atanhTotal z.toNat z2.toNat i ≤ 24000000000000000000 :=
    (atanhTotal_le hz2 i).trans (Nat.mul_le_mul hi hz)
  -- the loop after the terms before `i`
  have loop : ∀ n i : ℕ, 1 ≤ i → i + n ≤ 24 →
      (List.range' i n).foldlM (fun (state : U128 × U128) i => do
        let term ← mul state.1 z2
        let d := BitVec.ofNat 128 (2 * i + 1)
        let sum ← okOr CurveError.overflow (checkedAdd state.2 (term / d))
        return (term, sum))
        (BitVec.ofNat 128 (atanhTerm z.toNat z2.toNat (i - 1)),
          BitVec.ofNat 128 (atanhTotal z.toNat z2.toNat i)) =
      .ok (BitVec.ofNat 128 (atanhTerm z.toNat z2.toNat (i + n - 1)),
        BitVec.ofNat 128 (atanhTotal z.toNat z2.toNat (i + n))) := by
    intro n
    induction n with
    | zero => exact fun i _ _ => rfl
    | succ n ih =>
      intro i positive le
      have word (j : ℕ) : (BitVec.ofNat 128 (atanhTerm z.toNat z2.toNat j)).toNat =
          atanhTerm z.toNat z2.toNat j := by
        have := terms j
        rw [BitVec.toNat_ofNat, Nat.mod_eq_of_lt (by omega)]
      have next : mul (BitVec.ofNat 128 (atanhTerm z.toNat z2.toNat (i - 1))) z2 =
          .ok (BitVec.ofNat 128 (atanhTerm z.toNat z2.toNat i)) := by
        rw [mul_eq hz2, word]
        obtain ⟨j, rfl⟩ : ∃ j, i = j + 1 := ⟨i - 1, by omega⟩
        rfl
      have total : atanhTotal z.toNat z2.toNat (i + 1) = atanhTotal z.toNat z2.toNat i +
          atanhTerm z.toNat z2.toNat i / (2 * i + 1) := Finset.sum_range_succ _ _
      have added : checkedAdd (BitVec.ofNat 128 (atanhTotal z.toNat z2.toNat i))
          (BitVec.ofNat 128 (atanhTerm z.toNat z2.toNat i) / BitVec.ofNat 128 (2 * i + 1)) =
          some (BitVec.ofNat 128 (atanhTotal z.toNat z2.toNat (i + 1))) := by
        have before := sums (show i ≤ 24 by omega)
        have after := sums (show i + 1 ≤ 24 by omega)
        rw [checkedAdd_eq_some_iff, BitVec.toNat_udiv, word, BitVec.toNat_ofNat,
          BitVec.toNat_ofNat, BitVec.toNat_ofNat, Nat.mod_eq_of_lt (by omega),
          Nat.mod_eq_of_lt (by omega), Nat.mod_eq_of_lt (by omega), total]
      rw [List.range'_succ, List.foldlM_cons]
      simp only [next, added, okOr, ok_bind, pure_eq_ok]
      have rest := ih (i + 1) (by omega) (by omega)
      rw [show i + 1 + n = i + (n + 1) by omega, Nat.add_sub_cancel] at rest
      exact rest
  have start : atanhTotal z.toNat z2.toNat 1 = z.toNat := by
    rw [atanhTotal, Finset.sum_range_one]
    exact Nat.div_one _
  have run := loop 23 1 le_rfl le_rfl
  rw [start, show atanhTerm z.toNat z2.toNat (1 - 1) = z.toNat from rfl, BitVec.ofNat_toNat,
    BitVec.setWidth_eq] at run
  unfold atanhSum
  rw [show ATANH_TERMS - 1 = 23 from rfl]
  exact congrArg (fun result => result >>= fun state => Except.ok state.2) run

/-- `(1 - m) / (1 + m)` at the scale, rounded down. -/
def relative (m : ℕ) : ℕ :=
  (1000000000000000000 - m) * 1000000000000000000 / (1000000000000000000 + m)

/-- Half the logarithm of a reduced argument. -/
def lnHalf (m : ℕ) : ℕ :=
  atanhTotal (relative m) (relative m * relative m / 1000000000000000000) 24

/-- A reduced argument is at most a third from one, relative to both. -/
theorem relative_le {m : ℕ} (low : 500000000000000000 ≤ m) :
    3 * relative m ≤ 1000000000000000000 := by
  have bound : relative m ≤ 333333333333333333 := by
    unfold relative
    rw [Nat.div_le_iff_le_mul_add_pred (by omega)]
    omega
  omega

theorem square_le {z : ℕ} (hz : 3 * z ≤ 1000000000000000000) :
    z * z / 1000000000000000000 ≤ 1000000000000000000 :=
  Nat.div_le_of_le_mul (Nat.mul_le_mul (by omega) (by omega))

theorem lnHalf_le {m : ℕ} (low : 500000000000000000 ≤ m) : lnHalf m ≤ 8000000000000000000 := by
  have third := relative_le low
  exact (atanhTotal_le (square_le third) 24).trans (by omega)

/-- The logarithm of a reduced argument, as the kernel chains it with what follows. -/
theorem lnHalf_bind {m : U128} {α : Type} (f : U128 → Except CurveError α)
    (low : 500000000000000000 ≤ m.toNat) (lt : m.toNat < 1000000000000000000) :
    (do
      let z ← div (ONE - m) (ONE + m)
      let z2 ← mul z z
      let sum ← atanhSum z z2
      let negLnM ← okOr CurveError.overflow (checkedMul sum 2)
      f negLnM) = f (BitVec.ofNat 128 (2 * lnHalf m.toNat)) := by
  have third := relative_le low
  have bound := lnHalf_le low
  have below : m ≤ ONE := BitVec.le_def.mpr lt.le
  have num : (ONE - m).toNat = 1000000000000000000 - m.toNat := toNat_sub_of_le below
  have den : (ONE + m).toNat = 1000000000000000000 + m.toNat := by
    rw [BitVec.toNat_add, show ONE.toNat = 1000000000000000000 from rfl,
      Nat.mod_eq_of_lt (by omega)]
  have divided : div (ONE - m) (ONE + m) = .ok (BitVec.ofNat 128 (relative m.toNat)) := by
    have nonzero : ONE + m ≠ 0 := toNat_pos_iff.mpr (by omega)
    rw [div, if_neg nonzero, mulDivFloor_eq_ok_iff, num, den, BitVec.toNat_ofNat,
      Nat.mod_eq_of_lt (by omega)]
    exact ⟨nonzero, rfl⟩
  have word : (BitVec.ofNat 128 (relative m.toNat)).toNat = relative m.toNat := by
    rw [BitVec.toNat_ofNat, Nat.mod_eq_of_lt (by omega)]
  have square := square_le third
  have squared :
      (BitVec.ofNat 128 (relative m.toNat * relative m.toNat / 1000000000000000000)).toNat =
        relative m.toNat * relative m.toNat / 1000000000000000000 := by
    rw [BitVec.toNat_ofNat, Nat.mod_eq_of_lt (by omega)]
  rw [divided, ok_bind, mul_eq (by omega), ok_bind, word, atanhSum_eq (by omega) (by omega),
    ok_bind, word, squared, ← lnHalf]
  have doubled : checkedMul (BitVec.ofNat 128 (lnHalf m.toNat)) 2 =
      some (BitVec.ofNat 128 (2 * lnHalf m.toNat)) := by
    rw [checkedMul_eq_some_iff, BitVec.toNat_ofNat, BitVec.toNat_ofNat, Nat.mod_eq_of_lt (by omega),
      Nat.mod_eq_of_lt (by omega), mul_comm]
    rfl
  rw [doubled]
  rfl

/-- Below one the logarithm answers. -/
theorem negLn_eq (hx : 0 < x.toNat) (lt : x.toNat < 1000000000000000000) :
    ∃ k : ℕ, k ≤ 59 ∧ 500000000000000000 ≤ x.toNat * 2 ^ k ∧
      x.toNat * 2 ^ k < 1000000000000000000 ∧
      negLn x = .ok (BitVec.ofNat 128 (k * LN2.toNat + 2 * lnHalf (x.toNat * 2 ^ k))) := by
  obtain ⟨k, result, small⟩ := exists_normalise lt
  have word : (BitVec.ofNat 128 (x.toNat * 2 ^ k)).toNat = x.toNat * 2 ^ k := by
    rw [BitVec.toNat_ofNat, Nat.mod_eq_of_lt (by omega)]
  have low : 500000000000000000 ≤ x.toNat * 2 ^ k := by
    have half := half_le_of_normalise (by
      rw [show (ONE / 2).toNat = 500000000000000000 from rfl]
      omega) result
    rw [BitVec.le_def, word] at half
    exact half
  have shifts : k ≤ 59 := by
    by_contra many
    have power : 2 ^ 60 ≤ 2 ^ k := Nat.pow_le_pow_right (by norm_num) (by omega)
    have := Nat.mul_le_mul (show 1 ≤ x.toNat from hx) power
    omega
  refine ⟨k, shifts, low, small, ?_⟩
  have bound := lnHalf_le low
  have one : ONE.toNat = 1000000000000000000 := rfl
  have nonzero : x ≠ 0 := toNat_pos_iff.mpr hx
  have notAbove : ¬ ONE < x := by
    rw [BitVec.lt_def]
    omega
  have notOne : x ≠ ONE := fun same => absurd (congrArg BitVec.toNat same) (by omega)
  have below : ¬ ONE ≤ BitVec.ofNat 128 (x.toNat * 2 ^ k) := by
    rw [BitVec.le_def, word]
    omega
  have shifted : checkedMul LN2 ((BitVec.ofNat 32 k).setWidth 128) =
      some (BitVec.ofNat 128 (k * LN2.toNat)) := by
    rw [checkedMul_eq_some_iff, BitVec.toNat_setWidth, BitVec.toNat_ofNat, BitVec.toNat_ofNat,
      show LN2.toNat = 693147180559945309 from rfl, Nat.mod_eq_of_lt (by omega),
      Nat.mod_eq_of_lt (by omega), Nat.mod_eq_of_lt (by omega), mul_comm]
  have summed : checkedAdd (BitVec.ofNat 128 (k * LN2.toNat))
      (BitVec.ofNat 128 (2 * lnHalf (x.toNat * 2 ^ k))) =
      some (BitVec.ofNat 128 (k * LN2.toNat + 2 * lnHalf (x.toNat * 2 ^ k))) := by
    rw [checkedAdd_eq_some_iff, BitVec.toNat_ofNat, BitVec.toNat_ofNat, BitVec.toNat_ofNat,
      show LN2.toNat = 693147180559945309 from rfl, Nat.mod_eq_of_lt (by omega),
      Nat.mod_eq_of_lt (by omega), Nat.mod_eq_of_lt (by omega)]
  unfold negLn
  rw [if_neg nonzero, if_neg notAbove, if_neg notOne, result, ok_bind]
  simp only
  rw [if_neg below, lnHalf_bind _ (by omega) (by omega), word, shifted, okOr, ok_bind, summed, okOr]

/-! ### Against the real logarithm -/

/-- The relative difference of a reduced argument from one. -/
noncomputable def exactRelative (m : ℕ) : ℝ :=
  ((ONE.toNat : ℝ) - m) / (ONE.toNat + m)

theorem exactRelative_eq (m : ℕ) :
    exactRelative m = (1000000000000000000 - m) / (1000000000000000000 + m) := by
  rw [exactRelative, show ONE.toNat = 1000000000000000000 from rfl, Nat.cast_ofNat]

theorem logRatio_exactRelative {m : ℕ} (hm : 0 < m) :
    logRatio (exactRelative m) = -Real.log (m / 1000000000000000000) := by
  have pos : (0 : ℝ) < m := Nat.cast_pos.mpr hm
  rw [← logRatio_eq_log (by positivity), ← logRatio_neg, exactRelative_eq]
  congr 1
  field_simp
  ring

theorem exactRelative_range {m : ℕ} (low : 500000000000000000 ≤ m)
    (lt : m < 1000000000000000000) : 0 < exactRelative m ∧ exactRelative m ≤ 1 / 3 := by
  have low' : (500000000000000000 : ℝ) ≤ m := by exact_mod_cast low
  have lt' : (m : ℝ) < 1000000000000000000 := by exact_mod_cast lt
  rw [exactRelative_eq]
  constructor
  · exact div_pos (by linarith) (by linarith)
  · rw [div_le_iff₀ (by linarith)]
    linarith

/-- Every term is below the exact one, by less than three units. -/
theorem atanhTerm_close {m : ℕ} (low : 500000000000000000 ≤ m) (lt : m < 1000000000000000000)
    (i : ℕ) :
    (atanhTerm (relative m) (relative m * relative m / 1000000000000000000) i : ℝ) ≤
        1000000000000000000 * exactRelative m ^ (2 * i + 1) ∧
      1000000000000000000 * exactRelative m ^ (2 * i + 1) ≤
        atanhTerm (relative m) (relative m * relative m / 1000000000000000000) i + 2.25 := by
  obtain ⟨pos, third⟩ := exactRelative_range low lt
  obtain ⟨z_le, lt_z⟩ := div_bounds ((1000000000000000000 - m) * 1000000000000000000)
    (show 0 < 1000000000000000000 + m by omega)
  obtain ⟨w_le, lt_w⟩ := div_bounds (relative m * relative m)
    (show 0 < 1000000000000000000 by norm_num)
  have exact : (((1000000000000000000 - m) * 1000000000000000000 : ℕ) : ℝ) /
      ((1000000000000000000 + m : ℕ) : ℝ) = 1000000000000000000 * exactRelative m := by
    rw [exactRelative_eq, Nat.cast_mul, Nat.cast_sub lt.le]
    push_cast
    ring
  rw [exact, ← relative] at z_le lt_z
  have z_third := relative_le low
  have fall := @atanhTerm_le (relative m) _ (square_le z_third)
  generalize relative m = z at *
  generalize exactRelative m = ζ at *
  have z_nonneg : (0 : ℝ) ≤ z := Nat.cast_nonneg _
  push_cast at w_le lt_w
  have square_le : ((z * z / 1000000000000000000 : ℕ) : ℝ) / 1000000000000000000 ≤ ζ ^ 2 := by
    have squared := mul_self_le_mul_self z_nonneg z_le
    rw [div_le_iff₀ (by norm_num)]
    linarith
  have gap : ζ ^ 2 - ((z * z / 1000000000000000000 : ℕ) : ℝ) / 1000000000000000000 ≤
      2 / 1000000000000000000 := by
    have squared := mul_self_le_mul_self (z_nonneg.trans z_le) lt_z.le
    rw [sub_le_iff_le_add, ← add_div, le_div_iff₀ (by norm_num)]
    linarith
  have close := @terms_close (atanhTerm z (z * z / 1000000000000000000))
    (fun i => 1000000000000000000 * ζ ^ (2 * i + 1)) (fun _ => ζ ^ 2)
    (fun _ => ((z * z / 1000000000000000000 : ℕ) : ℝ) / 1000000000000000000) 1 (1 / 9) 2.25
  refine close (fun i => ?_) (fun i => ?_) (fun i => ?_) (fun _ => sq_nonneg ζ) (fun _ => square_le)
    (fun _ => ?_) (fun i => ?_) (by norm_num) (by norm_num) ⟨?_, ?_⟩ i
  · have floor := (div_bounds (atanhTerm z (z * z / 1000000000000000000) i *
      (z * z / 1000000000000000000)) (show 0 < 1000000000000000000 by norm_num)).1
    rw [atanhTerm, ← mul_div_assoc]
    exact_mod_cast floor
  · have floor := (div_bounds (atanhTerm z (z * z / 1000000000000000000) i *
      (z * z / 1000000000000000000)) (show 0 < 1000000000000000000 by norm_num)).2
    rw [atanhTerm, ← mul_div_assoc]
    exact_mod_cast floor
  · ring
  · have squared := mul_self_le_mul_self pos.le third
    linarith
  · have small : (atanhTerm z (z * z / 1000000000000000000) i : ℝ) ≤ 500000000000000000 := by
      have := fall i
      exact_mod_cast (show _ ≤ 500000000000000000 by omega)
    have rounded := mul_le_mul small gap (sub_nonneg.mpr square_le) (by norm_num)
    linarith
  · rw [mul_zero, zero_add, pow_one]
    exact z_le
  · rw [mul_zero, zero_add, pow_one]
    change _ ≤ (z : ℝ) + _
    linarith

/-- What rounding the ratio `(1 - m) / (1 + m)` down at the scale cuts off it, in units. -/
noncomputable def cutOff (m : ℕ) : ℝ :=
  ((1000000000000000000 - m) * 1000000000000000000 % (1000000000000000000 + m) : ℕ) /
    (1000000000000000000 + m : ℕ)

/-- What the terms after the first can lose: no more than they are, and no more than their own
rounding and that of their power. -/
noncomputable def laterCuts (m : ℕ) : ℝ :=
  ∑ i ∈ Finset.range 23,
    min (ONE.toNat * exactRelative m ^ (2 * i + 3) / (2 * i + 3 : ℕ)) (1 + 2.25 / (2 * i + 3 : ℕ))

theorem laterCuts_eq (m : ℕ) : laterCuts m = ∑ i ∈ Finset.range 23,
    min (1000000000000000000 * exactRelative m ^ (2 * i + 3) / (2 * (i : ℝ) + 3))
      (1 + 2.25 / (2 * (i : ℝ) + 3)) := by
  rw [laterCuts, show ONE.toNat = 1000000000000000000 from rfl]
  push_cast
  rfl

theorem cutOff_nonneg (m : ℕ) : 0 ≤ cutOff m := by
  unfold cutOff
  positivity

theorem cutOff_lt_one (m : ℕ) : cutOff m < 1 := by
  have pos : 0 < 1000000000000000000 + m := by omega
  rw [cutOff, div_lt_one (Nat.cast_pos.mpr pos)]
  exact Nat.cast_lt.mpr (Nat.mod_lt _ pos)

theorem laterCuts_le (m : ℕ) : laterCuts m ≤ 27 := by
  rw [laterCuts_eq]
  calc _ ≤ ∑ i ∈ Finset.range 23, (1 + 2.25 / (2 * (i : ℝ) + 3)) :=
        Finset.sum_le_sum fun i _ => min_le_right _ _
    _ ≤ 27 := by norm_num [Finset.sum_range_succ]

/-- The rounded ratio and what was cut off it. -/
theorem relative_add_cutOff {m : ℕ} (le : m ≤ 1000000000000000000) :
    (relative m : ℝ) + cutOff m = 1000000000000000000 * exactRelative m := by
  have pos : (0 : ℝ) < 1000000000000000000 + m := by positivity
  have split := Nat.div_add_mod ((1000000000000000000 - m) * 1000000000000000000)
    (1000000000000000000 + m)
  rw [← relative] at split
  have split' : (1000000000000000000 + m : ℝ) * relative m +
      ((1000000000000000000 - m) * 1000000000000000000 % (1000000000000000000 + m) : ℕ) =
        (1000000000000000000 - m) * 1000000000000000000 := by
    rw [← Nat.cast_ofNat, ← Nat.cast_sub le]
    exact_mod_cast split
  rw [exactRelative_eq, cutOff, Nat.cast_add, Nat.cast_ofNat]
  field_simp
  linarith

/-- Half the logarithm, doubled, falls short of the exact one by twice what is cut off the
first ratio, and by what the later terms lose. -/
theorem lnHalf_close {m : ℕ} (low : 500000000000000000 ≤ m) (lt : m < 1000000000000000000) :
    2 * (lnHalf m : ℝ) + 2 * cutOff m ≤
        -(1000000000000000000 * Real.log (m / 1000000000000000000)) ∧
      -(1000000000000000000 * Real.log (m / 1000000000000000000)) ≤
        2 * (lnHalf m : ℝ) + 2 * (cutOff m + laterCuts m) + 0.001 := by
  obtain ⟨pos, third⟩ := exactRelative_range low lt
  have terms := atanhTerm_close low lt
  have first := relative_add_cutOff lt.le
  rw [neg_mul_eq_mul_neg, ← logRatio_exactRelative (by omega)]
  have partialSum := logRatioSum_le 24 pos.le (third.trans_lt (by norm_num))
  have tail := abs_logRatio_sub_sum_le 24 (t := exactRelative m)
    (by rw [abs_of_pos pos]; exact third.trans_lt (by norm_num))
  rw [lnHalf, atanhTotal, laterCuts_eq]
  have start : atanhTerm (relative m) (relative m * relative m / 1000000000000000000) 0 =
      relative m := rfl
  generalize atanhTerm (relative m) (relative m * relative m / 1000000000000000000) = τ at *
  generalize exactRelative m = ζ at *
  have scaled : 1000000000000000000 * logRatioSum 24 ζ = 2 * (1000000000000000000 * ζ) +
      2 * ∑ i ∈ Finset.range 23, 1000000000000000000 * ζ ^ (2 * i + 3) / (2 * (i : ℝ) + 3) := by
    rw [logRatioSum, Finset.mul_sum, Finset.sum_range_succ', add_comm, Finset.mul_sum]
    refine congrArg₂ (· + ·) (by norm_num; ring) (Finset.sum_congr rfl fun i _ => ?_)
    rw [show 2 * (i + 1) + 1 = 2 * i + 3 by ring]
    push_cast
    ring
  -- one later term: its own rounding, and that of its power
  have each (i : ℕ) : ((τ (i + 1) / (2 * i + 3) : ℕ) : ℝ) ≤
        1000000000000000000 * ζ ^ (2 * i + 3) / (2 * (i : ℝ) + 3) ∧
      1000000000000000000 * ζ ^ (2 * i + 3) / (2 * (i : ℝ) + 3) ≤
        ((τ (i + 1) / (2 * i + 3) : ℕ) : ℝ) +
          min (1000000000000000000 * ζ ^ (2 * i + 3) / (2 * (i : ℝ) + 3))
            (1 + 2.25 / (2 * (i : ℝ) + 3)) := by
    obtain ⟨term_le, le_term⟩ := terms (i + 1)
    rw [show 2 * (i + 1) + 1 = 2 * i + 3 by ring] at term_le le_term
    obtain ⟨floor_le, lt_floor⟩ := div_bounds (τ (i + 1)) (show 0 < 2 * i + 3 by omega)
    push_cast at floor_le lt_floor
    have den : (0 : ℝ) ≤ 2 * i + 3 := by positivity
    have up := div_le_div_of_nonneg_right term_le den
    have down := div_le_div_of_nonneg_right le_term den
    rw [add_div] at down
    have whole := Nat.cast_nonneg (α := ℝ) (τ (i + 1) / (2 * i + 3))
    refine ⟨by linarith, ?_⟩
    rw [← sub_le_iff_le_add']
    exact le_min (by linarith) (by linarith)
  have whole : ((∑ i ∈ Finset.range 24, τ i / (2 * i + 1) : ℕ) : ℝ) =
      relative m + ∑ i ∈ Finset.range 23, ((τ (i + 1) / (2 * i + 3) : ℕ) : ℝ) := by
    rw [Finset.sum_range_succ', Nat.cast_add, Nat.cast_sum, add_comm, start, Nat.mul_zero,
      Nat.zero_add, Nat.div_one]
    rfl
  have upper := Finset.sum_le_sum fun i (_ : i ∈ Finset.range 23) => (each i).1
  have lower := Finset.sum_le_sum fun i (_ : i ∈ Finset.range 23) => (each i).2
  rw [Finset.sum_add_distrib] at lower
  rw [whole]
  have rest : 1000000000000000000 * |logRatio ζ - logRatioSum 24 ζ| ≤ 0.001 := by
    have power : |ζ| ^ 49 ≤ (1 / 3) ^ 49 :=
      pow_le_pow_left₀ (abs_nonneg ζ) (by rwa [abs_of_pos pos]) 49
    have square : ζ ^ 2 ≤ (1 / 3) ^ 2 := pow_le_pow_left₀ pos.le third 2
    have bound : 2 * |ζ| ^ 49 / (49 * (1 - ζ ^ 2)) ≤ 0.000000000000000000000001 := by
      rw [div_le_iff₀ (by linarith)]
      norm_num at power square ⊢
      linarith
    norm_num at tail ⊢
    linarith
  obtain ⟨-, rest_high⟩ := abs_le.mp (le_refl |logRatio ζ - logRatioSum 24 ζ|)
  constructor <;> linarith

/-- The logarithm as a number; a positive base up to one has one. -/
def nl (x : U128) : ℕ := ((negLn x).toOption.getD 0).toNat

theorem nl_eq {v : U128} (h : negLn x = .ok v) : nl x = v.toNat := by
  unfold nl
  rw [h]
  rfl

/-- A positive base up to one has a logarithm, at most `85` units below the exact one and
never above it. -/
theorem negLn_close (hx : 0 < x.toNat) (le : x.toNat ≤ 1000000000000000000) :
    negLn x = .ok (BitVec.ofNat 128 (nl x)) ∧ nl x < 2 ^ 66 ∧
      (nl x : ℝ) ≤ 1000000000000000000 * exactLog x ∧
      1000000000000000000 * exactLog x ≤ nl x + 85 := by
  rcases le.eq_or_lt with one | lt
  · have whole : x = ONE := word_ext one
    have zero : negLn x = .ok 0 := by
      rw [whole]
      decide
    rw [nl_eq zero, exactLog, one]
    exact ⟨zero, by decide, by norm_num, by norm_num⟩
  · obtain ⟨k, shifts, low, high, answer⟩ := negLn_eq hx lt
    have bound := lnHalf_le low
    obtain ⟨half_le, le_half⟩ := lnHalf_close low high
    have cut := cutOff_nonneg (x.toNat * 2 ^ k)
    have cut_lt := cutOff_lt_one (x.toNat * 2 ^ k)
    have cuts_le := laterCuts_le (x.toNat * 2 ^ k)
    obtain ⟨log_low, log_high⟩ := log_two_bounds
    have small : k * LN2.toNat + 2 * lnHalf (x.toNat * 2 ^ k) < 2 ^ 66 := by
      rw [show LN2.toNat = 693147180559945309 from rfl]
      omega
    have value : nl x = k * LN2.toNat + 2 * lnHalf (x.toNat * 2 ^ k) := by
      rw [nl_eq answer, BitVec.toNat_ofNat, Nat.mod_eq_of_lt (by omega)]
    have count : (k : ℝ) ≤ 59 := by exact_mod_cast shifts
    have count_nonneg : (0 : ℝ) ≤ k := Nat.cast_nonneg k
    have logarithm : 1000000000000000000 * exactLog x = k * (1000000000000000000 * Real.log 2) +
        -(1000000000000000000 *
          Real.log ((x.toNat * 2 ^ k : ℕ) / 1000000000000000000)) := by
      have x_pos : (0 : ℝ) < x.toNat := Nat.cast_pos.mpr hx
      have split : Real.log ((x.toNat * 2 ^ k : ℕ) / 1000000000000000000) =
          Real.log (x.toNat / 1000000000000000000) + k * Real.log 2 := by
        rw [← Real.log_pow, ← Real.log_mul (by positivity) (by positivity)]
        push_cast
        ring_nf
      rw [split, exactLog]
      ring
    have two : (LN2.toNat : ℝ) = 693147180559945309 := by
      rw [show LN2.toNat = 693147180559945309 from rfl]
      norm_num
    refine ⟨by rw [value]; exact answer, by rw [value]; exact small, ?_, ?_⟩
    · rw [value, logarithm]
      push_cast
      rw [two]
      have := mul_le_mul_of_nonneg_left log_low.le count_nonneg
      push_cast at half_le
      linarith
    · rw [value, logarithm]
      push_cast
      rw [two]
      have := mul_le_mul_of_nonneg_left log_high.le count_nonneg
      push_cast at le_half
      linarith

/-- A base from a half on is not doubled, and its logarithm falls short by what its own series
cuts off. -/
theorem nl_close_of_half (half : 500000000000000000 ≤ x.toNat)
    (le : x.toNat ≤ 1000000000000000000) :
    (nl x : ℝ) + 2 * cutOff x.toNat ≤ 1000000000000000000 * exactLog x ∧
      1000000000000000000 * exactLog x ≤
        nl x + 2 * (cutOff x.toNat + laterCuts x.toNat) + 0.001 := by
  rcases le.eq_or_lt with one | lt
  · have whole : x = ONE := word_ext one
    have zero : negLn x = .ok 0 := by
      rw [whole]
      decide
    have none : laterCuts 1000000000000000000 = 0 := by
      rw [laterCuts_eq, exactRelative_eq, Nat.cast_ofNat, sub_self, zero_div]
      exact Finset.sum_eq_zero fun i _ => by
        rw [zero_pow (by omega), mul_zero, zero_div]
        exact min_eq_left (by positivity)
    rw [nl_eq zero, exactLog, one, none]
    norm_num [cutOff]
  · obtain ⟨k, -, low, high, answer⟩ := negLn_eq (by omega) lt
    have unshifted : k = 0 := by
      by_contra shifted
      have double : 2 ^ 1 ≤ 2 ^ k := Nat.pow_le_pow_right (by norm_num) (by omega)
      have := Nat.mul_le_mul_left x.toNat double
      omega
    subst unshifted
    rw [pow_zero, mul_one] at low answer
    have bound := lnHalf_le low
    have value : nl x = 2 * lnHalf x.toNat := by
      rw [nl_eq answer, BitVec.toNat_ofNat, Nat.zero_mul, Nat.zero_add,
        Nat.mod_eq_of_lt (by omega)]
    have close := lnHalf_close half lt
    rw [value, Nat.cast_mul, Nat.cast_ofNat, exactLog, ← neg_mul_eq_mul_neg]
    exact close

end Weighted

end Antumbra
