/-
# The binary kernel stays in its words

A sum or a product that leaves the word stops the program, but a shift drops bits without a
word, and a loop could run for ever. With those two losses refused as well the logarithm
still answers, so nothing on its way is lost; it is nonnegative, and the cast that reads it
as unsigned keeps it. The exponential needs one step of correction, and its answer is never
above one, so neither is the power, and a swap can always take it from one.
-/

import Antumbra.Weighted.Contract

namespace Antumbra

open Antumbra.Math

namespace Binfixed

/-! ### The logarithm with every loss refused -/

/-- `a << n`, refused when the exact result is not in the word. -/
def shlExact (a : ℤ) (n : ℕ) : Except Failure ℤ := fits (a * 2 ^ n)

/-- The loop of the logarithm with exact shifts and an exact count, refused when the fuel is
spent before the loop's own test ends it. -/
def normalise62Exact : ℕ → ℤ → ℤ → Except Failure (ℤ × ℤ)
  | 0, _, _ => .error .overflowed
  | fuel + 1, m, k =>
    if m < SQRT2_HALF_62 then do
      let m ← shlExact m 1
      let k ← fits (k + 1)
      normalise62Exact fuel m k
    else
      .ok (m, k)

/-- The logarithm with exact shifts: it answers only when every intermediate is in the word. -/
def negLn62Exact (x62 : ℤ) : Except Failure ℤ :=
  if x62 ≤ 0 ∨ ONE62 < x62 then
    .error (.refused .zeroAmount)
  else do
    let (m, k) ← normalise62Exact 128 x62 0
    let num ← fits (m - ONE62)
    let den ← fits (m + ONE62)
    let scaled ← shlExact num LN_SCALE
    let t ← quotient scaled den
    let square ← fits (t * t)
    let u := shr square LN_SCALE
    let p ← horner u ATANH_62
    let product ← fits (t * p)
    let lnM := shr product (LN_SCALE - 1)
    let kLn2 ← fits (k * LN2_62)
    fits (kLn2 - lnM)

theorem shlExact_eq {a : ℤ} {n : ℕ} (lower : -2 ^ 127 ≤ a * 2 ^ n) (upper : a * 2 ^ n < 2 ^ 127) :
    shlExact a n = .ok (shl a n) := by
  rw [shlExact, fits_eq lower upper, shl_eq lower upper]

/-- One fuel more than the shifts it takes lets the loop end by its own test. -/
theorem normalise62Exact_eq {fuel : ℕ} {m k : ℤ} (positive : 0 < m)
    (enough : SQRT2_HALF_62 ≤ m * 2 ^ fuel) (low : 0 ≤ k) (high : k + fuel < 2 ^ 127) :
    normalise62Exact (fuel + 1) m k = .ok (normalise62 (fuel + 1) m k) := by
  induction fuel generalizing m k with
  | zero =>
    rw [pow_zero, mul_one] at enough
    rw [normalise62Exact, normalise62, if_neg (not_lt.mpr enough), if_neg (not_lt.mpr enough)]
  | succ fuel ih =>
    rw [normalise62Exact, normalise62]
    split
    · next below =>
      have doubled := shl_one_of_lt positive below
      unfold SQRT2_HALF_62 at below
      push_cast at high
      rw [shlExact_eq (by omega) (by omega), ok_bind, fits_eq (by omega) (by omega), ok_bind,
        doubled]
      refine ih (by omega) ?_ (by omega) (by omega)
      rw [mul_assoc, ← pow_succ']
      exact enough
    · rfl

/-- Nothing is lost on the way to the logarithm. -/
theorem negLn62Exact_eq {x62 : ℤ} (hx : 0 < x62) (le : x62 ≤ ONE62) :
    negLn62Exact x62 = negLn62 x62 := by
  obtain ⟨n, reduction, low, window⟩ := exists_normalise62 hx
  have ends : normalise62Exact 128 x62 0 = .ok (normalise62 128 x62 0) :=
    normalise62Exact_eq hx (by unfold SQRT2_HALF_62; omega) le_rfl (by norm_num)
  have high : x62 * 2 ^ n ≤ 2 * ONE62 := by
    rcases window with rfl | below
    · rw [pow_zero, mul_one]
      omega
    · unfold SQRT2_HALF_62 at below
      unfold ONE62
      omega
  unfold negLn62Exact negLn62
  rw [if_neg (by omega), if_neg (by omega), ends, ok_bind, reduction]
  simp only
  generalize x62 * 2 ^ n = m at *
  unfold SQRT2_HALF_62 at low
  unfold ONE62 at *
  rw [fits_eq (by omega) (by omega), ok_bind, ok_bind, fits_eq (by omega) (by omega), ok_bind,
    ok_bind, shlExact_eq (by unfold LN_SCALE; omega) (by unfold LN_SCALE; omega), ok_bind]

/-- The logarithm of a number up to one is nonnegative, and not large. -/
theorem exists_negLn62 {x62 : ℤ} (hx : 0 < x62) (le : x62 ≤ ONE62) :
    ∃ r, negLn62 x62 = .ok r ∧ 0 ≤ r ∧ r < 2 ^ 127 := by
  obtain ⟨n, reduced, window, value⟩ := negLn62_eq hx le
  obtain ⟨low, high⟩ := abs_le.mp (abs_lnReduced_le reduced)
  have shifts := shifts_le hx window
  refine ⟨_, value, ?_, ?_⟩
  · rcases Nat.eq_zero_or_pos n with rfl | shifted
    · -- no shift: the argument is at most one, and its logarithm not positive
      rw [pow_zero, mul_one] at reduced ⊢
      have negative := ((lnReduced_bounds reduced).1 le).2.2
      rw [Nat.cast_zero, zero_mul, zero_sub]
      omega
    · have once : (1 : ℤ) ≤ n := by exact_mod_cast shifted
      unfold LN2_62 at *
      omega
  · unfold LN2_62 at *
    omega

/-! ### The power -/

/-- The logarithm of a base, in the pieces the power takes it in: both terms are in the word,
their sum is nonnegative, and read as unsigned it is the same number. -/
theorem exists_logarithm {x : U128} (hx : 0 < x.toNat) (le : x.toNat ≤ 1000000000000000000) :
    ∃ (xx m0 : U128) (j rest : ℤ), normalise18 128 x 0 = (xx, j) ∧
      mulDivFloor xx (asU128 ONE62) (asU128 ONE18) = .ok m0 ∧
      negLn62 (min (asI128 m0) ONE62) = .ok rest ∧ 0 ≤ rest ∧
      fits (j * LN2_62) = .ok (j * LN2_62) ∧
      fits (j * LN2_62 + rest) = .ok (j * LN2_62 + rest) ∧
      ((asU128 (j * LN2_62 + rest)).toNat : ℤ) = j * LN2_62 + rest := by
  obtain ⟨j, n, m, reduction, pair, logarithm, -⟩ := exists_reduction hx le
  obtain ⟨converted, signed⟩ := reduction.words
  obtain ⟨nonneg, high⟩ := reduction.range
  have shifts := reduction.shifts
  refine ⟨_, _, _, _, pair, converted, ?_, nonneg, ?_, ?_, ?_⟩
  · rw [signed, min_eq_left reduction.mantissa.2]
    exact logarithm
  · unfold LN2_62
    exact fits_eq (by omega) (by omega)
  · unfold LN2_62 at *
    exact fits_eq (by omega) (by omega)
  · unfold LN2_62 at *
    rw [asU128_toNat (by omega) (by omega), Int.toNat_of_nonneg (by omega)]

variable {x num den p reserveToken reserveCollateral cIn wToken wCollateral : U128}

/-- A power never exceeds one. -/
theorem powFrac_le_one (answer : powFrac x num den = .ok p) : p.toNat ≤ 1000000000000000000 := by
  by_cases above : Weighted.ONE < x
  · -- above one only a zero base would answer
    have none := refusal_eq_none_iff.mpr ⟨p, answer⟩
    have nonzero : x ≠ 0 := by
      rintro rfl
      exact absurd above (by decide)
    rw [Weighted.refusal_powFrac_binary, if_neg nonzero, if_pos above] at none
    split at none <;> cases none
  · exact Weighted.powFrac_le_one_binary (not_lt.mp (Weighted.one_lt_iff.not.mp above)) answer

theorem powFrac_ne_overflowed : powFrac x num den ≠ .error .overflowed := by
  intro stopped
  rw [← refusal_eq_some_iff, Weighted.refusal_powFrac_binary] at stopped
  split_ifs at stopped <;> cases stopped

/-- What a swap refuses: its own guards, and then what its power refuses. -/
theorem refusal_weightedBuy :
    refusal (weightedBuy reserveToken reserveCollateral cIn wToken wCollateral) =
      if cIn = 0 ∨ reserveToken = 0 ∨ reserveCollateral = 0 then some (.refused .zeroAmount)
      else if wToken = 0 ∨ wCollateral = 0 then some (.refused .zeroAmount)
      else if 2 ^ 128 ≤ reserveCollateral.toNat + cIn.toNat then some (.refused .overflow)
      else refusal (powFrac (Weighted.base reserveCollateral cIn) wCollateral wToken) := by
  by_cases taken : cIn = 0 ∨ reserveToken = 0 ∨ reserveCollateral = 0
  · rw [weightedBuy, if_pos taken, if_pos taken]
    rfl
  by_cases weighted : wToken = 0 ∨ wCollateral = 0
  · rw [weightedBuy, if_neg taken, if_pos weighted, if_neg taken, if_pos weighted]
    rfl
  rw [if_neg taken, if_neg weighted]
  split_ifs with large
  · rw [weightedBuy, if_neg taken, if_neg weighted, checkedAdd_eq_none_iff.mpr large]
    rfl
  · exact (Weighted.refusal_weightedBuy taken weighted (not_le.mp large)).1

theorem weightedBuy_ne_overflowed :
    weightedBuy reserveToken reserveCollateral cIn wToken wCollateral ≠ .error .overflowed := by
  intro stopped
  rw [← refusal_eq_some_iff, refusal_weightedBuy] at stopped
  split_ifs at stopped
  · cases stopped
  · cases stopped
  · cases stopped
  · exact powFrac_ne_overflowed (refusal_eq_some_iff.mp stopped)

/-- The binary kernel stays in its words: the logarithm loses nothing and is read back as it
is, the exponential is corrected once and lies between zero and one, and a swap fails for the
word's size only where its reserves or its exponent do. -/
theorem kernel_words (x62 y : ℤ)
    (x num den reserveToken reserveCollateral cIn wToken wCollateral : U128) :
    (0 < x62 → x62 ≤ ONE62 → ∃ r, negLn62Exact x62 = .ok r ∧ negLn62 x62 = .ok r ∧ 0 ≤ r ∧
        ((asU128 r).toNat : ℤ) = r) ∧
      (0 < x.toNat → x.toNat ≤ 1000000000000000000 →
        ∃ (xx m0 : U128) (j rest : ℤ), normalise18 128 x 0 = (xx, j) ∧
          mulDivFloor xx (asU128 ONE62) (asU128 ONE18) = .ok m0 ∧
          negLn62 (min (asI128 m0) ONE62) = .ok rest ∧ 0 ≤ rest ∧
          fits (j * LN2_62) = .ok (j * LN2_62) ∧
          fits (j * LN2_62 + rest) = .ok (j * LN2_62 + rest) ∧
          ((asU128 (j * LN2_62 + rest)).toNat : ℤ) = j * LN2_62 + rest) ∧
      (y < EXP_ZERO_ABOVE → (∃ r, expNeg62 y = .ok r ∧ 0 ≤ r ∧ r ≤ ONE62) ∧
        (0 < y → ∃ k s, expReduction y = .ok (k, s) ∧ 0 ≤ s ∧ s < LN2_62 ∧
          y = k * LN2_62 + s ∧ expNeg62 y = expReduced k s)) ∧
      (powFrac x num den ≠ .error .overflowed ∧
        ∀ p, powFrac x num den = .ok p → p.toNat ≤ 1000000000000000000 ∧
          checkedSub (asU128 ONE18) p = some (asU128 ONE18 - p)) ∧
      weightedBuy reserveToken reserveCollateral cIn wToken wCollateral ≠ .error .overflowed ∧
      (weightedBuy reserveToken reserveCollateral cIn wToken wCollateral =
          .error (.refused .overflow) →
        2 ^ 128 ≤ reserveCollateral.toNat + cIn.toNat ∨
          powFrac (Weighted.base reserveCollateral cIn) wCollateral wToken =
            .error (.refused .overflow)) := by
  refine ⟨fun hx le => ?_, exists_logarithm, fun near => ⟨?_, fun pos => ?_⟩,
    ⟨powFrac_ne_overflowed, fun p answer => ?_⟩, weightedBuy_ne_overflowed, fun refused => ?_⟩
  · obtain ⟨r, value, nonneg, high⟩ := exists_negLn62 hx le
    refine ⟨r, (negLn62Exact_eq hx le).trans value, value, nonneg, ?_⟩
    rw [asU128_toNat nonneg (by omega), Int.toNat_of_nonneg nonneg]
  · rcases le_or_gt y 0 with negative | pos
    · exact ⟨ONE62, expNeg62_of_nonpos negative, by decide, le_rfl⟩
    · exact ⟨expOf y, expNeg62_eq pos.le, expOf_range y⟩
  · have reduction := expReduction_eq pos near
    have split := Int.mul_ediv_add_emod y LN2_62
    refine ⟨_, _, reduction, Int.emod_nonneg y (by decide), Int.emod_lt_of_pos y (by decide),
      by rw [mul_comm]; exact split.symm, ?_⟩
    rw [expNeg62_eq_reduced pos near, reduction, ok_bind]
  · have le := powFrac_le_one answer
    exact ⟨le, (@Weighted.rest_answers p 0 le).1⟩
  · rw [← refusal_eq_some_iff, refusal_weightedBuy] at refused
    split_ifs at refused with taken weighted large
    · cases refused
    · cases refused
    · exact .inl large
    · exact .inr (refusal_eq_some_iff.mp refused)

end Binfixed

end Antumbra
