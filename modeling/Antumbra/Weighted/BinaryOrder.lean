/-
# The power against its exponent

A larger exponent takes the exponential at a larger scaled logarithm, and a power below one
should not grow with it. It does where the logarithm no longer fits the signed word, and it may
where two exponents are so close, or one so close to equal weights, that rounding decides.
Conditions on the base and the exponents leave these out; under them the order is kept.
-/

import Antumbra.Weighted.BinaryPower

namespace Antumbra

open Antumbra.Math

namespace Binfixed

variable {x num den num1 den1 num2 den2 p p1 p2 : U128}

/-! ### The exponential at the public scale -/

theorem expAt_zero : expAt 0 = 1000000000000000000 := by decide

theorem expAt_lt_one {y : ℕ} (hy : 0 < y) : expAt y < 1000000000000000000 := by
  have value := (expAt_le y).1
  have below := expOf_lt_one (show (0 : ℤ) < y by exact_mod_cast hy)
  unfold ONE62 ONE18 at *
  omega

theorem expAt_le_expAt {y y' : ℕ} (settled : Settled y y') : expAt y' ≤ expAt y := by
  have order := expOf_le (Int.natCast_nonneg y) settled
  have value := (expAt_le y).1
  have value' := (expAt_le y').1
  unfold ONE18 at *
  omega

/-- From the sixtieth halving on nothing is left. -/
theorem expAt_vanishes {y : ℕ} (far : 60 * LN2_62 ≤ y) : expAt y = 0 := by
  have pos : 0 < LN2_62 := by decide
  have count : 60 ≤ (y : ℤ) / LN2_62 := by rwa [Int.le_ediv_iff_mul_le pos]
  obtain ⟨low, high⟩ := expSeries_bounds (Int.emod_nonneg (y : ℤ) pos.ne')
    (Int.emod_lt_of_pos (y : ℤ) pos).le
  have small : expOf y ≤ 4 := by
    refine Int.ediv_le_of_le_mul (by positivity) (high.trans ?_)
    calc ONE62 = 4 * 2 ^ 60 := by decide
      _ ≤ 4 * 2 ^ ((y : ℤ) / LN2_62).toNat :=
        mul_le_mul_of_nonneg_left (pow_le_pow_right₀ (by norm_num) (by omega)) (by norm_num)
  have value := (expAt_le y).1
  unfold ONE18 at value
  omega

/-! ### Beside the base -/

/-- From the base's own logarithm on the power is at most the base. -/
theorem expAt_le_base {y : ℕ} (hx : 0 < x.toNat) (le : x.toNat ≤ 1000000000000000000)
    (reaches : nl x ≤ y) : expAt y ≤ x.toNat := by
  obtain ⟨nl_low, -, -⟩ := nl_close hx le
  obtain ⟨-, exp_high⟩ := expAt_close y
  have base := exp_exactLog hx
  have reaches' : (nl x : ℝ) ≤ y := by exact_mod_cast reaches
  have moved : 2 ^ 62 * (Real.exp (-(y / 2 ^ 62)) - Real.exp (-exactLog x)) ≤ 2.96 := by
    refine exp_neg_sub_le (by norm_num) (by norm_num) (by positivity) ?_
    rw [mul_sub, mul_div_cancel₀ _ (by positivity)]
    linarith
  have below : (expAt y : ℝ) < x.toNat + 1 := by linarith
  exact Nat.lt_succ_iff.mp (by exact_mod_cast below)

/-- A power well above the base does not come out below it. -/
theorem base_le_expAt (hx : 0 < x.toNat) (le : x.toNat ≤ 1000000000000000000)
    (hd : 0 < den.toNat) (ordered : num.toNat ≤ den.toNat)
    (ahead : x.toNat + 3.4 ≤ exactPower x num den) : x.toNat ≤ expAt (scaledLog x num den) := by
  have close := @exactPower_sub_le_expAt x num den hx le hd
  have answered := response_le_one_of_le hx le hd ordered
  have above : (x.toNat : ℝ) < expAt (scaledLog x num den) + 1 := by linarith
  exact Nat.lt_succ_iff.mp (by exact_mod_cast above)

/-! ### Two exponents -/

theorem scaledLog_le (hd1 : den1 ≠ 0) (hd2 : den2 ≠ 0)
    (order : num1.toNat * den2.toNat ≤ num2.toNat * den1.toNat) :
    scaledLog x num1 den1 ≤ scaledLog x num2 den2 := by
  have pos1 := toNat_pos_iff.mp hd1
  have pos2 := toNat_pos_iff.mp hd2
  unfold scaledLog
  rw [Nat.le_div_iff_mul_le pos2]
  have floor := Nat.div_mul_le_self ((nl x).toNat * num1.toNat) den1.toNat
  refine Nat.le_of_mul_le_mul_right ?_ pos1
  calc (nl x).toNat * num1.toNat / den1.toNat * den2.toNat * den1.toNat
      = (nl x).toNat * num1.toNat / den1.toNat * den1.toNat * den2.toNat := by ring
    _ ≤ (nl x).toNat * num1.toNat * den2.toNat := Nat.mul_le_mul_right _ floor
    _ = (nl x).toNat * (num1.toNat * den2.toNat) := by ring
    _ ≤ (nl x).toNat * (num2.toNat * den1.toNat) := Nat.mul_le_mul_left _ order
    _ = (nl x).toNat * num2.toNat * den1.toNat := by ring

theorem scaledLog_same (hd : den ≠ 0) : scaledLog x den den = (nl x).toNat :=
  Nat.mul_div_cancel _ (toNat_pos_iff.mp hd)

/-- What an answer of the power is. -/
theorem powFrac_cases (hx : 0 < x.toNat) (le : x.toNat ≤ 1000000000000000000) (hn : num ≠ 0)
    (hd : den ≠ 0) (answer : powFrac x num den = .ok p) :
    (num = den ∧ p = x) ∨
      (num ≠ den ∧ scaledLog x num den < 2 ^ 127 ∧ p.toNat = expAt (scaledLog x num den)) ∨
      (num ≠ den ∧ 2 ^ 127 ≤ scaledLog x num den ∧ p.toNat = 1000000000000000000) := by
  by_cases same : num = den
  · subst same
    rw [powFrac_same hx le hd, Except.ok.injEq] at answer
    exact .inl ⟨rfl, answer.symm⟩
  · rw [powFrac_eq hx le hn hd same] at answer
    have bound := (expAt_le (scaledLog x num den)).2
    split_ifs at answer with large wraps
    · rw [Except.ok.injEq] at answer
      exact .inr (.inr ⟨same, wraps, by rw [← answer]; rfl⟩)
    · rw [Except.ok.injEq] at answer
      refine .inr (.inl ⟨same, by omega, ?_⟩)
      rw [← answer, BitVec.toNat_ofNat, Nat.mod_eq_of_lt (by omega)]

/-- The second logarithm is read as a negative number, and the first power is below one. -/
def Wraps (x num1 den1 num2 den2 : U128) : Prop :=
  num2 ≠ den2 ∧ 2 ^ 127 ≤ scaledLog x num2 den2 ∧
    (num1 = den1 ∨ 0 < scaledLog x num1 den1 ∧ scaledLog x num1 den1 < 2 ^ 127)

/-- No rounding stands between the two powers: the first is at equal weights, or the second is
and the first has not come out below it, or their logarithms coincide, are settled or far out. -/
def Clear (x num1 den1 num2 den2 : U128) : Prop :=
  num1 = den1 ∨ (num2 = den2 ∧ x.toNat ≤ expAt (scaledLog x num1 den1)) ∨
    (num2 ≠ den2 ∧
      (scaledLog x num1 den1 = scaledLog x num2 den2 ∨
        Settled (scaledLog x num1 den1) (scaledLog x num2 den2) ∨
        60 * LN2_62 ≤ scaledLog x num2 den2))

/-- Where neither a rounding nor the signed word comes between, a larger exponent makes the
power no larger. -/
theorem power_le_of_clear (hx : 0 < x.toNat) (le : x.toNat ≤ 1000000000000000000) (hn1 : num1 ≠ 0)
    (hd1 : den1 ≠ 0) (hn2 : num2 ≠ 0) (hd2 : den2 ≠ 0)
    (order : num1.toNat * den2.toNat ≤ num2.toNat * den1.toNat)
    (answer1 : powFrac x num1 den1 = .ok p1) (answer2 : powFrac x num2 den2 = .ok p2)
    (clear : Clear x num1 den1 num2 den2) (inside : ¬ Wraps x num1 den1 num2 den2) :
    p2.toNat ≤ p1.toNat := by
  have ordered := @scaledLog_le x _ _ _ _ hd1 hd2 order
  have outcome1 := powFrac_cases hx le hn1 hd1 answer1
  have outcome2 := powFrac_cases hx le hn2 hd2 answer2
  have bound1 := (expAt_le (scaledLog x num1 den1)).2
  rcases outcome2 with ⟨same2, rfl⟩ | ⟨differ2, fits2, value2⟩ | ⟨differ2, wraps2, value2⟩
  · -- the second power is the base itself
    rcases outcome1 with ⟨-, rfl⟩ | ⟨differ1, -, value1⟩ | ⟨-, -, value1⟩
    · exact le_rfl
    · rcases clear with same1 | ⟨-, ahead⟩ | ⟨differ2, -⟩
      · exact absurd same1 differ1
      · rw [value1]
        exact ahead
      · exact absurd same2 differ2
    · rw [value1]
      exact le
  · rcases outcome1 with ⟨same1, rfl⟩ | ⟨differ1, -, value1⟩ | ⟨-, wraps1, -⟩
    · rw [value2]
      subst same1
      rw [scaledLog_same hd1] at ordered
      exact expAt_le_base hx le (by omega)
    · rw [value1, value2]
      rcases clear with same1 | ⟨same2, -⟩ | ⟨-, equal | settled | far⟩
      · exact absurd same1 differ1
      · exact absurd same2 differ2
      · rw [equal]
      · exact expAt_le_expAt settled
      · rw [expAt_vanishes far]
        exact Nat.zero_le _
    · omega
  · -- the second power is one, and so must the first be
    rw [value2]
    rcases outcome1 with ⟨same1, -⟩ | ⟨-, fits1, value1⟩ | ⟨-, -, value1⟩
    · exact absurd ⟨differ2, wraps2, .inl same1⟩ inside
    · rcases Nat.eq_zero_or_pos (scaledLog x num1 den1) with zero | positive
      · rw [value1, zero, expAt_zero]
      · exact absurd ⟨differ2, wraps2, .inr ⟨positive, fits1⟩⟩ inside
    · exact value1.ge

/-- Where only the second exponent leaves the signed word, its power is one and the first is
less. -/
theorem power_lt_of_wraps (hx : 0 < x.toNat) (le : x.toNat ≤ 1000000000000000000) (hn1 : num1 ≠ 0)
    (hd1 : den1 ≠ 0) (hn2 : num2 ≠ 0) (hd2 : den2 ≠ 0)
    (answer1 : powFrac x num1 den1 = .ok p1) (answer2 : powFrac x num2 den2 = .ok p2)
    (wraps : Wraps x num1 den1 num2 den2) : p1.toNat < p2.toNat := by
  obtain ⟨differ2, wraps2, first⟩ := wraps
  have outcome1 := powFrac_cases hx le hn1 hd1 answer1
  rcases powFrac_cases hx le hn2 hd2 answer2 with ⟨same2, -⟩ | ⟨-, fits2, -⟩ | ⟨-, -, value2⟩
  · exact absurd same2 differ2
  · omega
  · rw [value2]
    rcases outcome1 with ⟨same1, rfl⟩ | ⟨differ1, -, value1⟩ | ⟨differ1, wraps1, -⟩
    · -- a base of one has no logarithm to leave the word with
      refine lt_of_le_of_ne le fun one => ?_
      have whole : p1 = 1000000000000000000 := word_ext one
      have zero : nl p1 = 0 := by
        rw [whole]
        decide +kernel
      rw [scaledLog, zero, Int.toNat_zero, Nat.zero_mul, Nat.zero_div] at wraps2
      omega
    · rcases first with same1 | ⟨positive, -⟩
      · exact absurd same1 differ1
      · rw [value1]
        exact expAt_lt_one positive
    · rcases first with same1 | ⟨-, fits1⟩
      · exact absurd same1 differ1
      · omega

/-! ### Conditions on the base and the exponents -/

/-- The least the kernel's logarithm of a base can be, at the working scale. -/
noncomputable def leastLog (x : U128) : ℝ := ONE62 * exactLog x - 2.96

/-- The most it can be. -/
noncomputable def mostLog (x : U128) : ℝ := ONE62 * exactLog x + 9.6

theorem leastLog_eq (x : U128) : leastLog x = 2 ^ 62 * exactLog x - 2.96 := by
  norm_num [leastLog, ONE62]

theorem mostLog_eq (x : U128) : mostLog x = 2 ^ 62 * exactLog x + 9.6 := by
  norm_num [mostLog, ONE62]

/-- Nothing the kernel rounds can come between the powers: the exponents are equal, or the first
weights are; the base is one; beside equal weights the smaller exponent's power is more than
three units above the base; and elsewhere the exponents move the logarithm by three units, or
leave nothing of the base, or all of it, or the larger one ends in the lower four fifths of an
octave. -/
def Apart (x num1 den1 num2 den2 : U128) : Prop :=
  num1 = den1 ∨ num1.toNat * den2.toNat = num2.toNat * den1.toNat ∨
    x.toNat = 1000000000000000000 ∨
    (num2 = den2 ∧ x.toNat + 3.4 ≤ exactPower x num1 den1) ∨
    (num2 ≠ den2 ∧
      ((3 : ℕ) ≤ ((num2.toNat : ℝ) / den2.toNat - num1.toNat / den1.toNat) * leastLog x ∨
        (60 * LN2_62 + 1 : ℤ) ≤ (num2.toNat : ℝ) / den2.toNat * leastLog x ∨
        (num2.toNat : ℝ) / den2.toNat * mostLog x < 1 ∨
        ∃ k : ℕ, (k * LN2_62 + 2 : ℤ) ≤ (num2.toNat : ℝ) / den2.toNat * leastLog x ∧
          (num2.toNat : ℝ) / den2.toNat * mostLog x ≤ (k * LN2_62 + 9 * 2 ^ 58 : ℤ)))

/-- The larger exponent's logarithm fits the signed word, or both leave it. -/
def Fits (x num1 den1 num2 den2 : U128) : Prop :=
  num2 = den2 ∨ (num2.toNat : ℝ) / den2.toNat * mostLog x < (2 ^ 127 : ℕ) ∨
    (2 ^ 127 + 1 : ℕ) ≤ (num1.toNat : ℝ) / den1.toNat * leastLog x

/-- Only the larger exponent's logarithm leaves the signed word, and the smaller exponent's is
not nothing. -/
def Overruns (x num1 den1 num2 den2 : U128) : Prop :=
  (2 ^ 127 + 1 : ℕ) ≤ (num2.toNat : ℝ) / den2.toNat * leastLog x ∧
    (num1 = den1 ∨ 1 ≤ (num1.toNat : ℝ) / den1.toNat * leastLog x ∧
      (num1.toNat : ℝ) / den1.toNat * mostLog x < (2 ^ 127 : ℕ))

/-- Where the scaled logarithm can be, told from the base and the exponent. -/
theorem scaledLog_range (hx : 0 < x.toNat) (le : x.toNat ≤ 1000000000000000000)
    (hd : 0 < den.toNat) :
    num.toNat / den.toNat * leastLog x < (scaledLog x num den : ℝ) + 1 ∧
      (scaledLog x num den : ℝ) ≤ num.toNat / den.toNat * mostLog x := by
  obtain ⟨nl_low, nl_high, -⟩ := nl_close hx le
  obtain ⟨floor_le, lt_floor⟩ := @scaledLog_bounds x num den hx le hd
  have nonneg : (0 : ℝ) ≤ (num.toNat : ℝ) / den.toNat := by positivity
  have low := mul_le_mul_of_nonneg_left nl_low nonneg
  have high := mul_le_mul_of_nonneg_left nl_high nonneg
  rw [leastLog_eq, mostLog_eq]
  constructor <;> linarith

/-- Exponents that move the logarithm of the base by three units settle the order. -/
theorem scaledLog_apart (hx : 0 < x.toNat) (le : x.toNat ≤ 1000000000000000000)
    (hd1 : 0 < den1.toNat) (hd2 : 0 < den2.toNat)
    (order : num1.toNat * den2.toNat ≤ num2.toNat * den1.toNat)
    (apart : (3 : ℕ) ≤
      ((num2.toNat : ℝ) / den2.toNat - num1.toNat / den1.toNat) * leastLog x) :
    scaledLog x num1 den1 + 3 ≤ scaledLog x num2 den2 := by
  obtain ⟨nl_low, -, -⟩ := nl_close hx le
  obtain ⟨floor_le, -⟩ := @scaledLog_bounds x num1 den1 hx le hd1
  obtain ⟨-, lt_floor⟩ := @scaledLog_bounds x num2 den2 hx le hd2
  have ordered : (num1.toNat : ℝ) / den1.toNat ≤ num2.toNat / den2.toNat := by
    rw [div_le_div_iff₀ (Nat.cast_pos.mpr hd1) (Nat.cast_pos.mpr hd2)]
    exact_mod_cast order
  have moved := mul_le_mul_of_nonneg_left nl_low (sub_nonneg.mpr ordered)
  rw [leastLog_eq, Nat.cast_ofNat] at apart
  have gap : (scaledLog x num1 den1 : ℝ) + 2 < scaledLog x num2 den2 := by linarith
  have gap' : scaledLog x num1 den1 + 2 < scaledLog x num2 den2 := by exact_mod_cast gap
  omega

/-- A logarithm that ends in the lower four fifths of an octave is settled against every smaller
one. -/
theorem settled_of_octave {y y' k : ℕ} (order : y ≤ y') (low : (k : ℤ) * LN2_62 < y')
    (high : (y' : ℤ) ≤ k * LN2_62 + 9 * 2 ^ 58) : y = y' ∨ Settled y y' := by
  have rest : (y' : ℤ) % LN2_62 = y' - k * LN2_62 := by
    have inside : ((y' : ℤ) - k * LN2_62) % LN2_62 = y' - k * LN2_62 :=
      Int.emod_eq_of_lt (by omega) (by unfold LN2_62 at *; omega)
    rw [← inside, Int.sub_emod, Int.mul_emod_left, sub_zero, Int.emod_emod]
  rw [Settled, rest]
  omega

theorem Apart.clear (hx : 0 < x.toNat) (le : x.toNat ≤ 1000000000000000000) (hd1 : den1 ≠ 0)
    (hd2 : den2 ≠ 0) (order : num1.toNat * den2.toNat ≤ num2.toNat * den1.toNat)
    (apart : Apart x num1 den1 num2 den2) : Clear x num1 den1 num2 den2 := by
  have pos1 := toNat_pos_iff.mp hd1
  have pos2 := toNat_pos_iff.mp hd2
  have ordered := @scaledLog_le x _ _ _ _ hd1 hd2 order
  obtain ⟨low2, high2⟩ := @scaledLog_range x num2 den2 hx le pos2
  have below_one (same : num2 = den2) : num1.toNat ≤ den1.toNat := by
    rw [same, mul_comm] at order
    exact Nat.le_of_mul_le_mul_left order pos2
  rcases apart with same1 | equal | one | ⟨same2, ahead⟩ | ⟨differ2, apart⟩
  · exact .inl same1
  · by_cases same2 : num2 = den2
    · rw [same2, mul_comm] at equal
      exact .inl (word_ext (Nat.eq_of_mul_eq_mul_left pos2 equal))
    · exact .inr (.inr ⟨same2, .inl (le_antisymm ordered (scaledLog_le hd2 hd1 equal.ge))⟩)
  · -- a base of one has no logarithm
    have zero : nl x = 0 := by
      rw [show x = 1000000000000000000 from word_ext one]
      decide +kernel
    have none (num den : U128) : scaledLog x num den = 0 := by
      rw [scaledLog, zero, Int.toNat_zero, Nat.zero_mul, Nat.zero_div]
    by_cases same2 : num2 = den2
    · refine .inr (.inl ⟨same2, ?_⟩)
      rw [none, expAt_zero]
      exact le
    · exact .inr (.inr ⟨same2, .inl (by rw [none, none])⟩)
  · exact .inr (.inl ⟨same2, base_le_expAt hx le pos1 (below_one same2) ahead⟩)
  · refine .inr (.inr ⟨differ2, ?_⟩)
    rcases apart with moved | far | near | ⟨k, from_, upto⟩
    · refine .inr (.inl (.inl ?_))
      exact_mod_cast scaledLog_apart hx le pos1 pos2 order moved
    · refine .inr (.inr ?_)
      have beyond : 60 * LN2_62 + 1 < (scaledLog x num2 den2 : ℤ) + 1 := by
        exact_mod_cast far.trans_lt low2
      omega
    · have none : (scaledLog x num2 den2 : ℝ) < 1 := by linarith
      have none' : scaledLog x num2 den2 < 1 := by exact_mod_cast none
      exact .inl (by omega)
    · have above : (k : ℤ) * LN2_62 + 2 < (scaledLog x num2 den2 : ℤ) + 1 := by
        exact_mod_cast from_.trans_lt low2
      have below : (scaledLog x num2 den2 : ℤ) ≤ k * LN2_62 + 9 * 2 ^ 58 := by
        exact_mod_cast high2.trans upto
      exact (settled_of_octave ordered (by omega) below).imp id .inl

/-- At equal weights the logarithm is far from leaving the word. -/
theorem not_overruns_of_same (hx : 0 < x.toNat) (le : x.toNat ≤ 1000000000000000000)
    (hd : den ≠ 0) : ¬ (2 ^ 127 + 1 : ℕ) ≤ (den.toNat : ℝ) / den.toNat * leastLog x := by
  have pos := toNat_pos_iff.mp hd
  obtain ⟨nl_low, -, -⟩ := nl_close hx le
  have small : (nl x : ℝ) < 2 ^ 68 := by exact_mod_cast (nl_range hx le).2
  rw [div_self (Nat.cast_ne_zero.mpr pos.ne'), one_mul, leastLog_eq, not_le]
  push_cast
  linarith

theorem Fits.not_wraps (hx : 0 < x.toNat) (le : x.toNat ≤ 1000000000000000000) (hd1 : den1 ≠ 0)
    (hd2 : den2 ≠ 0) (fits : Fits x num1 den1 num2 den2) : ¬ Wraps x num1 den1 num2 den2 := by
  rintro ⟨differ2, wraps2, first⟩
  rcases fits with same2 | inside | outside
  · exact differ2 same2
  · obtain ⟨-, high2⟩ := @scaledLog_range x num2 den2 hx le (toNat_pos_iff.mp hd2)
    have fits2 : scaledLog x num2 den2 < 2 ^ 127 := by exact_mod_cast high2.trans_lt inside
    omega
  · rcases first with rfl | ⟨-, fits1⟩
    · exact not_overruns_of_same hx le hd1 outside
    · obtain ⟨low1, -⟩ := @scaledLog_range x num1 den1 hx le (toNat_pos_iff.mp hd1)
      have wraps1 : 2 ^ 127 + 1 < scaledLog x num1 den1 + 1 := by
        exact_mod_cast outside.trans_lt low1
      omega

theorem Overruns.wraps (hx : 0 < x.toNat) (le : x.toNat ≤ 1000000000000000000) (hd1 : den1 ≠ 0)
    (hd2 : den2 ≠ 0) (overrun : Overruns x num1 den1 num2 den2) : Wraps x num1 den1 num2 den2 := by
  obtain ⟨outside, first⟩ := overrun
  obtain ⟨low2, -⟩ := @scaledLog_range x num2 den2 hx le (toNat_pos_iff.mp hd2)
  have wraps2 : 2 ^ 127 + 1 < scaledLog x num2 den2 + 1 := by
    exact_mod_cast outside.trans_lt low2
  refine ⟨?_, by omega, ?_⟩
  · rintro rfl
    exact not_overruns_of_same hx le hd2 outside
  · refine first.imp id fun ⟨some1, inside1⟩ => ?_
    obtain ⟨low1, high1⟩ := @scaledLog_range x num1 den1 hx le (toNat_pos_iff.mp hd1)
    have positive : (0 : ℝ) < scaledLog x num1 den1 := by linarith
    exact ⟨by exact_mod_cast positive, by exact_mod_cast high1.trans_lt inside1⟩

/-- Under conditions on the base and the two exponents a larger exponent makes the power no
larger; and where only its logarithm leaves the signed word, it makes it larger. -/
theorem powFrac_order (x num1 den1 num2 den2 p1 p2 : U128) (hx : 0 < x.toNat)
    (le : x.toNat ≤ 1000000000000000000) (hn1 : num1 ≠ 0) (hd1 : den1 ≠ 0) (hn2 : num2 ≠ 0)
    (hd2 : den2 ≠ 0) (order : num1.toNat * den2.toNat ≤ num2.toNat * den1.toNat)
    (answer1 : powFrac x num1 den1 = .ok p1) (answer2 : powFrac x num2 den2 = .ok p2) :
    (Apart x num1 den1 num2 den2 → Fits x num1 den1 num2 den2 → p2 ≤ p1) ∧
      (Overruns x num1 den1 num2 den2 → p1 < p2) := by
  rw [BitVec.le_def, BitVec.lt_def]
  constructor
  · intro apart fits
    exact power_le_of_clear hx le hn1 hd1 hn2 hd2 order answer1 answer2
      (apart.clear hx le hd1 hd2 order) (fits.not_wraps hx le hd1 hd2)
  · intro overrun
    exact power_lt_of_wraps hx le hn1 hd1 hn2 hd2 answer1 answer2 (overrun.wraps hx le hd1 hd2)

/-- A half to the powers one half and two; and to a power whose logarithm is read as a negative
number. -/
theorem powFrac_order_samples :
    (250000000000000000 : U128) ≤ 707106781186547524 ∧
      (707106781186547524 : U128) < 1000000000000000000 := by
  have log : exactLog 500000000000000000 = Real.log 2 := by
    rw [exactLog, show (500000000000000000 : U128).toNat = 500000000000000000 from rfl,
      ← Real.log_inv]
    norm_num
  obtain ⟨low, high⟩ := log_two_bounds
  have one : (1 : U128).toNat = 1 := rfl
  have two : (2 : U128).toNat = 2 := rfl
  constructor
  · refine (powFrac_order 500000000000000000 1 2 2 1 _ _ (by decide) (by decide) (by decide)
      (by decide) (by decide) (by decide) (by decide) (by decide +kernel) (by decide +kernel)).1
      (.inr (.inr (.inr (.inr ⟨by decide, .inl ?_⟩)))) (.inr (.inl ?_))
    · rw [leastLog_eq, log, one, two]
      norm_num
      linarith
    · rw [mostLog_eq, log, one, two]
      norm_num
      linarith
  · refine (powFrac_order 500000000000000000 1 2 100000000000000000000 1 _ _ (by decide)
      (by decide) (by decide) (by decide) (by decide) (by decide) (by decide)
      (by decide +kernel) (by decide +kernel)).2 ⟨?_, .inr ⟨?_, ?_⟩⟩
    · rw [leastLog_eq, log, one,
        show (100000000000000000000 : U128).toNat = 100000000000000000000 from rfl]
      norm_num
      linarith
    · rw [leastLog_eq, log, one, two]
      norm_num
      linarith
    · rw [mostLog_eq, log, one, two]
      norm_num
      linarith

/-- Around equal weights: a smaller exponent, and less of the power. -/
theorem smaller_exponent_less :
    powFrac 956000000000000000 499999999999999999 500000000000000001 =
        .ok 955999999999999999 ∧
      powFrac 956000000000000000 500000000000000000 500000000000000000 =
        .ok 956000000000000000 ∧
      ¬ ∀ x num1 den1 num2 den2 p1 p2 : U128, 0 < x.toNat → x.toNat ≤ 1000000000000000000 →
        num1 ≠ 0 → den1 ≠ 0 → num2 ≠ 0 → den2 ≠ 0 →
        num1.toNat * den2.toNat ≤ num2.toNat * den1.toNat →
        powFrac x num1 den1 = .ok p1 → powFrac x num2 den2 = .ok p2 → p2 ≤ p1 := by
  have first : powFrac 956000000000000000 499999999999999999 500000000000000001 =
      .ok 955999999999999999 := by decide +kernel
  have second : powFrac 956000000000000000 500000000000000000 500000000000000000 =
      .ok 956000000000000000 := by decide +kernel
  refine ⟨first, second, fun order => ?_⟩
  have grown := order _ _ _ _ _ _ _ (by decide) (by decide) (by decide) (by decide) (by decide)
    (by decide) (by decide) first second
  exact absurd grown (by decide)

end Binfixed

end Antumbra
