/-
# The power of the decimal kernel

The two running sums of the exponential never cross, so it answers for every word, between
zero and one. What the power is off by is what the exponent makes of the truncated
logarithm, up to a dozen units of the exponential: near one with a large exponent that is
more than its test allows.
-/

import Antumbra.Weighted.DecimalLog

namespace Antumbra

open Antumbra.Math

namespace Weighted

/-! ### The exponential -/

/-- A term of the exponential series, rounded down twice. -/
def expTerm (r : ℕ) : ℕ → ℕ
  | 0 => 1000000000000000000
  | i + 1 => expTerm r i * r / 1000000000000000000 / (i + 1)

theorem expTerm_falls {r : ℕ} (hr : r ≤ 1000000000000000000) (i : ℕ) :
    expTerm r (i + 1) ≤ expTerm r i := by
  refine (Nat.div_le_self _ _).trans (Nat.div_le_of_le_mul ?_)
  rw [mul_comm]
  exact Nat.mul_le_mul_right _ hr

theorem expTerm_le {r : ℕ} (hr : r ≤ 1000000000000000000) (i : ℕ) :
    expTerm r i ≤ 1000000000000000000 := by
  induction i with
  | zero => exact le_rfl
  | succ i ih => exact (expTerm_falls hr i).trans ih

/-- No sum leaves its word, and stopping at a term of zero leaves none out. -/
theorem expSums_eq {r : U128} (hr : r.toNat ≤ 1000000000000000000) (n i : ℕ) (le : i + 1 + n ≤ 24) :
    expSums r (List.range' (i + 1) n) (BitVec.ofNat 128 (expTerm r.toNat i))
        (BitVec.ofNat 128 (evenSum (expTerm r.toNat) (i + 1)),
          BitVec.ofNat 128 (oddSum (expTerm r.toNat) (i + 1))) =
      .ok (BitVec.ofNat 128 (evenSum (expTerm r.toNat) (i + 1 + n)),
        BitVec.ofNat 128 (oddSum (expTerm r.toNat) (i + 1 + n))) := by
  induction n generalizing i with
  | zero => rfl
  | succ n ih =>
    have terms (j : ℕ) := expTerm_le hr j
    have word (j : ℕ) : (BitVec.ofNat 128 (expTerm r.toNat j)).toNat = expTerm r.toNat j := by
      have := terms j
      rw [BitVec.toNat_ofNat, Nat.mod_eq_of_lt (by omega)]
    have sums (j : ℕ) (hj : j ≤ 24) : evenSum (expTerm r.toNat) j ≤ 24000000000000000000 ∧
        oddSum (expTerm r.toNat) j ≤ 24000000000000000000 := by
      obtain ⟨even, odd⟩ := sums_le (expTerm_falls hr) j
      have := Nat.mul_le_mul hj (terms 0)
      omega
    have next : BitVec.ofNat 128 (expTerm r.toNat i * r.toNat / 1000000000000000000) /
        BitVec.ofNat 128 (i + 1) = BitVec.ofNat 128 (expTerm r.toNat (i + 1)) := by
      have small := Nat.div_le_of_le_mul (show expTerm r.toNat i * r.toNat ≤
        1000000000000000000 * 1000000000000000000 from Nat.mul_le_mul (terms i) hr)
      refine word_ext ?_
      rw [BitVec.toNat_udiv, word, BitVec.toNat_ofNat, BitVec.toNat_ofNat,
        Nat.mod_eq_of_lt (by omega), Nat.mod_eq_of_lt (by omega)]
      rfl
    rw [List.range'_succ, expSums, mul_eq hr, word, ok_bind]
    simp only
    rw [next]
    have added (a b : ℕ) (fits : a + b < 2 ^ 128) :
        checkedAdd (BitVec.ofNat 128 a) (BitVec.ofNat 128 b) = some (BitVec.ofNat 128 (a + b)) := by
      rw [checkedAdd_eq_some_iff, BitVec.toNat_ofNat, BitVec.toNat_ofNat, BitVec.toNat_ofNat,
        Nat.mod_eq_of_lt (by omega), Nat.mod_eq_of_lt (by omega), Nat.mod_eq_of_lt fits]
    have even_succ := evenSum_succ (expTerm r.toNat) (i + 1)
    have odd_succ := oddSum_succ (expTerm r.toNat) (i + 1)
    have before := sums (i + 1) (by omega)
    have term := terms (i + 1)
    have later := ih (i + 1) (by omega)
    rw [show i + 1 + 1 + n = i + 1 + (n + 1) by omega] at later
    split_ifs with zero odd
    · -- every later term is zero as well
      have none : expTerm r.toNat (i + 1) = 0 := by
        rw [← word, zero]
        rfl
      have after : ∀ j, i + 1 ≤ j → expTerm r.toNat j = 0 := by
        intro j hj
        induction j, hj using Nat.le_induction with
        | base => exact none
        | succ j _ ih => exact Nat.le_zero.mp (ih ▸ expTerm_falls hr j)
      obtain ⟨even, odd⟩ := sums_stop after (n + 1)
      rw [even, odd]
      rfl
    · rw [if_pos odd] at odd_succ
      rw [if_neg (by omega), add_zero] at even_succ
      rw [added _ _ (by omega), okOr, ok_bind, ← odd_succ, ← even_succ]
      exact later
    · rw [if_neg odd, add_zero] at odd_succ
      rw [if_pos (by omega)] at even_succ
      rw [added _ _ (by omega), okOr, ok_bind, ← odd_succ, ← even_succ]
      exact later

/-- The alternating sum of the terms. -/
def expTotal (r : ℕ) : ℕ := evenSum (expTerm r) 24 - oddSum (expTerm r) 24

/-- The exponential of `-y`, reduced modulo `ln 2`. -/
def expAt (y : ℕ) : ℕ := expTotal (y % LN2.toNat) / 2 ^ (y / LN2.toNat)

theorem expTotal_le {r : ℕ} (hr : r ≤ 1000000000000000000) : expTotal r ≤ 1000000000000000000 := by
  obtain ⟨-, high⟩ := alternating_bounds (expTerm_falls hr) 24
  have first : expTerm r 0 = 1000000000000000000 := rfl
  unfold expTotal
  omega

theorem remainder_lt (y : ℕ) : y % LN2.toNat < 693147180559945309 := Nat.mod_lt _ (by decide)

theorem expAt_le (y : ℕ) : expAt y ≤ 1000000000000000000 :=
  (Nat.div_le_self _ _).trans (expTotal_le (by have := remainder_lt y; omega))

theorem expAt_zero : expAt 0 = 1000000000000000000 := by decide +kernel

/-- The exponential answers for every word. -/
theorem expNeg_eq (y : U128) : expNeg y = .ok (BitVec.ofNat 128 (expAt y.toNat)) := by
  have lt := remainder_lt y.toNat
  have total := expTotal_le (r := y.toNat % LN2.toNat) (by omega)
  have count : (y / LN2).toNat = y.toNat / LN2.toNat := BitVec.toNat_udiv
  have rest : (y % LN2).toNat = y.toNat % LN2.toNat := BitVec.toNat_umod
  unfold expNeg
  split
  · next zero =>
    rw [zero, toNat_zero, expAt_zero]
    rfl
  · simp only
    split_ifs with far
    · -- nothing is left after 128 halvings
      have many : 128 ≤ y.toNat / LN2.toNat := by
        rw [BitVec.le_def, count] at far
        exact far
      have power : 2 ^ 128 ≤ 2 ^ (y.toNat / LN2.toNat) := Nat.pow_le_pow_right (by norm_num) many
      rw [expAt, Nat.div_eq_of_lt (by omega)]
      rfl
    · have falls := expTerm_falls (r := y.toNat % LN2.toNat) (by omega)
      obtain ⟨even, odd⟩ := sums_le falls 24
      obtain ⟨order, -⟩ := alternating_bounds falls 24
      rw [show expTerm (y.toNat % LN2.toNat) 0 = 1000000000000000000 from rfl] at even odd
      have run := expSums_eq (r := y % LN2) (by omega) 23 0 le_rfl
      rw [rest, show 0 + 1 + 23 = 24 from rfl] at run
      have difference : checkedSub
          (BitVec.ofNat 128 (evenSum (expTerm (y.toNat % LN2.toNat)) 24))
          (BitVec.ofNat 128 (oddSum (expTerm (y.toNat % LN2.toNat)) 24)) =
          some (BitVec.ofNat 128 (expTotal (y.toNat % LN2.toNat))) := by
        have sum : expTotal (y.toNat % LN2.toNat) + oddSum (expTerm (y.toNat % LN2.toNat)) 24 =
            evenSum (expTerm (y.toNat % LN2.toNat)) 24 := Nat.sub_add_cancel order
        generalize expTotal (y.toNat % LN2.toNat) = d at *
        generalize evenSum (expTerm (y.toNat % LN2.toNat)) 24 = e at *
        generalize oddSum (expTerm (y.toNat % LN2.toNat)) 24 = o at *
        rw [checkedSub_eq_some_iff, BitVec.toNat_ofNat, BitVec.toNat_ofNat, BitVec.toNat_ofNat]
        omega
      refine (congrArg (fun sums => sums >>= fun sums => do
        let e ← okOr CurveError.overflow (checkedSub sums.1 sums.2)
        return e >>> (y / LN2).toNat) run).trans ?_
      rw [ok_bind, difference, okOr, ok_bind, count, pure_eq_ok]
      refine congrArg Except.ok (word_ext ?_)
      have small := expAt_le y.toNat
      rw [BitVec.toNat_ushiftRight, Nat.shiftRight_eq_div_pow, BitVec.toNat_ofNat,
        BitVec.toNat_ofNat,
        Nat.mod_eq_of_lt (show expTotal (y.toNat % LN2.toNat) < 2 ^ 128 by omega),
        Nat.mod_eq_of_lt (show expAt y.toNat < 2 ^ 128 by omega)]
      rfl

variable {x num den : U128}

/-! ### The closed form -/

/-- The exponent times the logarithm, rounded down: where the power takes the exponential. -/
def scaledLog (x num den : U128) : ℕ := nl x * num.toNat / den.toNat

/-- Away from equal weights the power is the exponential at the scaled logarithm, unless
that leaves the word. -/
theorem powFrac_eq (hx : 0 < x.toNat) (le : x.toNat ≤ 1000000000000000000) (hd : den ≠ 0)
    (ne : num ≠ den) :
    powFrac x num den =
      if 2 ^ 128 ≤ scaledLog x num den then .error .overflow
      else .ok (BitVec.ofNat 128 (expAt (scaledLog x num den))) := by
  obtain ⟨answer, small, -, -⟩ := negLn_close hx le
  unfold powFrac
  rw [if_neg hd]
  split_ifs with one large large
  · -- a base of one has no logarithm to leave the word with
    have zero : nl x = 0 := by
      rw [one]
      decide
    rw [scaledLog, zero, Nat.zero_mul, Nat.zero_div] at large
    omega
  · have zero : nl x = 0 := by
      rw [one]
      decide
    rw [scaledLog, zero, Nat.zero_mul, Nat.zero_div, expAt_zero]
    rfl
  · rw [answer, ok_bind, mulDivFloor_eq, if_neg hd, BitVec.toNat_ofNat,
      Nat.mod_eq_of_lt (show nl x < 2 ^ 128 by omega), ← scaledLog, if_pos large]
    rfl
  · rw [answer, ok_bind, mulDivFloor_eq, if_neg hd, BitVec.toNat_ofNat,
      Nat.mod_eq_of_lt (show nl x < 2 ^ 128 by omega), ← scaledLog, if_neg large, ok_bind,
      expNeg_eq, BitVec.toNat_ofNat, Nat.mod_eq_of_lt (not_le.mp large)]

theorem powFrac_same (hd : den ≠ 0) : powFrac x den den = .ok x := by
  unfold powFrac
  rw [if_neg hd, if_pos (rfl : den = den)]
  split_ifs with one
  · rw [one]
  · rfl

/-! ### Against the real exponential -/

/-- The second term is the remainder itself. -/
theorem expTerm_one (r : ℕ) : expTerm r 1 = r := by
  change 1000000000000000000 * r / 1000000000000000000 / 1 = r
  rw [Nat.div_one, Nat.mul_div_cancel_left _ (by norm_num)]

theorem remainder_le {r : ℕ} (hr : r ≤ 693147180559945309) :
    (r : ℝ) / 1000000000000000000 ≤ 0.6932 := by
  have : (r : ℝ) ≤ 693147180559945309 := by exact_mod_cast hr
  rw [div_le_iff₀ (by norm_num)]
  linarith

/-- The terms of the series from the third on are at most `1.301` units short. -/
theorem expTerm_close {r : ℕ} (hr : r ≤ 693147180559945309) (i : ℕ) :
    (expTerm r (i + 2) : ℝ) ≤
        1000000000000000000 * ((r / 1000000000000000000 : ℝ) ^ (i + 2) / (i + 2).factorial) ∧
      1000000000000000000 * ((r / 1000000000000000000 : ℝ) ^ (i + 2) / (i + 2).factorial) ≤
        expTerm r (i + 2) + 1.301 := by
  set v := (r : ℝ) / 1000000000000000000 with hv
  have v_nonneg : 0 ≤ v := by positivity
  have v_le : v ≤ 0.6932 := remainder_le hr
  have step (t i : ℕ) : ((t * r / 1000000000000000000 / (i + 1) : ℕ) : ℝ) ≤ t * (v / (i + 1)) ∧
      t * (v / (i + 1)) < ((t * r / 1000000000000000000 / (i + 1) : ℕ) : ℝ) + 1 := by
    obtain ⟨low, high⟩ := div_bounds (t * r) (show 0 < 1000000000000000000 * (i + 1) by positivity)
    rw [← Nat.div_div_eq_div_mul] at low high
    have exact : ((t * r : ℕ) : ℝ) / ((1000000000000000000 * (i + 1) : ℕ) : ℝ) =
        t * (v / (i + 1)) := by
      rw [hv]
      push_cast
      field_simp
    rw [exact] at low high
    exact ⟨low, high⟩
  have close := @terms_close (fun i => expTerm r (i + 2))
    (fun i => 1000000000000000000 * (v ^ (i + 2) / (i + 2).factorial)) (fun i => v / (i + 3))
    (fun i => v / (i + 3)) 0 0.2311 1.301
  have count (i : ℕ) : (((i + 2 : ℕ) : ℝ) + 1) = i + 3 := by
    push_cast
    ring
  have second : expTerm r (0 + 2) = r * r / 1000000000000000000 / (1 + 1) := by
    change expTerm r 1 * r / 1000000000000000000 / (1 + 1) = _
    rw [expTerm_one]
  have start : 1000000000000000000 * (v ^ (0 + 2) / ((0 + 2).factorial : ℝ)) =
      r * (v / ((1 : ℕ) + 1)) := by
    rw [hv]
    norm_num [Nat.factorial]
    ring
  refine close (fun i => ?_) (fun i => ?_) (fun i => ?_) (fun i => by positivity) (fun i => le_rfl)
    (fun i => ?_) (fun i => by rw [sub_self, mul_zero]) (by norm_num) (by norm_num) ⟨?_, ?_⟩ i
  · have := (step (expTerm r (i + 2)) (i + 2)).1
    rw [count] at this
    exact this
  · have := (step (expTerm r (i + 2)) (i + 2)).2
    rw [count] at this
    exact this
  · rw [show i + 1 + 2 = i + 2 + 1 by ring, Nat.factorial_succ, pow_succ]
    push_cast
    field_simp
    ring
  · have three : (3 : ℝ) ≤ i + 3 := by linarith [Nat.cast_nonneg (α := ℝ) i]
    have widest := mul_le_mul_of_nonneg_left three (show (0 : ℝ) ≤ 0.2311 by norm_num)
    rw [div_le_iff₀ (by linarith)]
    linarith
  · rw [second, start]
    exact (step r 1).1
  · rw [second, start]
    linarith [(step r 1).2]
/-- What a term is short of: nothing in the first two, and all of it in the late ones. -/
theorem expTerm_short {r : ℕ} (hr : r ≤ 693147180559945309) (i : ℕ) :
    0 ≤ 1000000000000000000 * ((r / 1000000000000000000 : ℝ) ^ i / i.factorial) - expTerm r i ∧
      1000000000000000000 * ((r / 1000000000000000000 : ℝ) ^ i / i.factorial) - expTerm r i ≤
        if i < 2 then 0 else if i < 18 then 1.301 else 0.22 := by
  rcases (by omega : i = 0 ∨ i = 1 ∨ 2 ≤ i) with rfl | rfl | later
  · norm_num [expTerm]
  · have exact : 1000000000000000000 * ((r / 1000000000000000000 : ℝ) ^ 1 / (Nat.factorial 1 : ℝ)) =
        r := by
      norm_num
      ring
    rw [expTerm_one, exact, sub_self]
    norm_num
  · obtain ⟨j, rfl⟩ : ∃ j, i = j + 2 := ⟨i - 2, by omega⟩
    obtain ⟨low, high⟩ := expTerm_close hr j
    refine ⟨by linarith, ?_⟩
    rw [if_neg (by omega)]
    split_ifs with early
    · linarith
    · have v_le : (r : ℝ) / 1000000000000000000 ≤ 0.6932 := by
        have : (r : ℝ) ≤ 693147180559945309 := by exact_mod_cast hr
        rw [div_le_iff₀ (by norm_num)]
        linarith
      have v_nonneg : 0 ≤ (r : ℝ) / 1000000000000000000 := by positivity
      have power : ((r : ℝ) / 1000000000000000000) ^ (j + 2) ≤ 0.6932 ^ 18 :=
        (pow_le_pow_of_le_one v_nonneg (by linarith) (by omega)).trans
          (pow_le_pow_left₀ v_nonneg v_le 18)
      have factorial : ((18).factorial : ℝ) ≤ (j + 2).factorial := by
        exact_mod_cast Nat.factorial_le (by omega)
      have whole : 1000000000000000000 *
          (((r : ℝ) / 1000000000000000000) ^ (j + 2) / (j + 2).factorial) ≤ 0.22 := by
        rw [← mul_div_assoc, div_le_iff₀ (by positivity)]
        norm_num [Nat.factorial] at power factorial ⊢
        linarith
      have := Nat.cast_nonneg (α := ℝ) (expTerm r (j + 2))
      linarith

theorem expTotal_eq_sum {r : ℕ} (hr : r ≤ 693147180559945309) :
    (expTotal r : ℝ) = ∑ i ∈ Finset.range 24, (-1) ^ i * (expTerm r i : ℝ) :=
  evenSum_sub_oddSum (expTerm_falls (by omega)) 24

/-- The sums are within `11.07` units of those of the exact terms. -/
theorem expTotal_sub_sum {r : ℕ} (hr : r ≤ 693147180559945309) :
    |(expTotal r : ℝ) - 1000000000000000000 * expSum 24 (r / 1000000000000000000)| ≤ 11.07 := by
  have scaled : 1000000000000000000 * expSum 24 (r / 1000000000000000000) =
      ∑ i ∈ Finset.range 24,
        (-1) ^ i * (1000000000000000000 * ((r / 1000000000000000000 : ℝ) ^ i / i.factorial)) := by
    rw [expSum, Finset.mul_sum]
    exact Finset.sum_congr rfl fun i _ => by ring
  obtain ⟨lower, upper⟩ := alternating_short (expTerm_short hr) 24
  rw [expTotal_eq_sum hr, scaled, abs_le]
  generalize ∑ i ∈ Finset.range 24, (-1) ^ i * (expTerm r i : ℝ) = S at *
  generalize ∑ i ∈ Finset.range 24,
    (-1) ^ i * (1000000000000000000 * ((r / 1000000000000000000 : ℝ) ^ i / i.factorial)) = S' at *
  norm_num [Finset.sum_range_succ] at lower upper
  constructor <;> linarith

/-- The series at a remainder is within `11.08` units of the exponential. -/
theorem expTotal_close {r : ℕ} (hr : r ≤ 693147180559945309) :
    |(expTotal r : ℝ) - 1000000000000000000 * Real.exp (-(r / 1000000000000000000))| ≤ 11.08 := by
  set v := (r : ℝ) / 1000000000000000000 with hv
  have v_nonneg : 0 ≤ v := by positivity
  have v_le : v ≤ 0.6932 := remainder_le hr
  have computed := expTotal_sub_sum hr
  rw [← hv] at computed
  have tail := abs_exp_neg_sub_sum_le (v := v) (n := 24)
    (by rw [abs_of_nonneg v_nonneg]; linarith) (by norm_num)
  have rest : 1000000000000000000 * |Real.exp (-v) - expSum 24 v| ≤ 0.001 := by
    have power : |v| ^ 24 ≤ 0.6932 ^ 24 :=
      pow_le_pow_left₀ (abs_nonneg v) (by rwa [abs_of_nonneg v_nonneg]) 24
    norm_num [Nat.factorial] at tail power ⊢
    linarith
  obtain ⟨rest_low, rest_high⟩ := abs_le.mp (le_refl |Real.exp (-v) - expSum 24 v|)
  obtain ⟨low, high⟩ := abs_le.mp computed
  rw [abs_le]
  constructor <;> linarith

/-- The exponential is at most `11.08` units below the real one and `11.71` above it. -/
theorem expAt_close (y : ℕ) :
    1000000000000000000 * Real.exp (-(y / 1000000000000000000)) - 11.08 ≤ expAt y ∧
      (expAt y : ℝ) ≤ 1000000000000000000 * Real.exp (-(y / 1000000000000000000)) + 11.71 := by
  have two : (LN2.toNat : ℝ) = 693147180559945309 := by
    rw [show LN2.toNat = 693147180559945309 from rfl]
    norm_num
  obtain ⟨log_low, log_high⟩ := log_two_bounds
  obtain ⟨low, high⟩ := abs_le.mp (expTotal_close (remainder_lt y).le)
  obtain ⟨floor_le, lt_floor⟩ := div_bounds (expTotal (y % LN2.toNat))
    (show 0 < 2 ^ (y / LN2.toNat) by positivity)
  rw [Nat.cast_pow, Nat.cast_ofNat, div_eq_mul_one_div, ← expAt] at floor_le lt_floor
  have whole : (y : ℝ) = (y / LN2.toNat : ℕ) * 693147180559945309 + (y % LN2.toNat : ℕ) := by
    have split := Nat.div_add_mod y LN2.toNat
    have split' : (LN2.toNat : ℝ) * (y / LN2.toNat : ℕ) + (y % LN2.toNat : ℕ) = y := by
      exact_mod_cast split
    rw [two] at split'
    linarith
  have shifted := @shifted_exp_close 1000000000000000000 693147180559945309
    (expTotal (y % LN2.toNat)) 0.42 11.08 11.08 (expAt y) (y % LN2.toNat : ℕ) (y / LN2.toNat)
    (by norm_num) (abs_le.mpr ⟨by linarith, by linarith⟩) (by norm_num) (Nat.cast_nonneg _)
    (by linarith) (by linarith) floor_le lt_floor
    (fun none => by rw [expAt, none, pow_zero, Nat.div_one]) (by norm_num) (by norm_num)
  rw [← whole] at shifted
  exact ⟨shifted.1, by linarith [shifted.2]⟩

/-! ### Against the real power -/

/-- What the exponent makes of the truncated logarithm, in units of the power. -/
noncomputable def drift (x num den : U128) : ℝ :=
  response x num den * (ONE.toNat * exactLog x - nl x)

theorem drift_eq (x num den : U128) :
    drift x num den = response x num den * (1000000000000000000 * exactLog x - nl x) := by
  rw [drift, show ONE.toNat = 1000000000000000000 from rfl, Nat.cast_ofNat]

/-- However large the exponent, the exponential's own roundings are all that is missing from the
power. -/
theorem exactPower_sub_le_expAt (hx : 0 < x.toNat) (le : x.toNat ≤ 1000000000000000000)
    (hd : 0 < den.toNat) :
    exactPower x num den - 11.08 ≤ expAt (scaledLog x num den) := by
  obtain ⟨-, -, nl_le, -⟩ := negLn_close hx le
  obtain ⟨exp_low, -⟩ := expAt_close (scaledLog x num den)
  obtain ⟨floor_le, -⟩ := div_bounds (nl x * num.toNat) hd
  rw [← scaledLog, Nat.cast_mul, mul_comm, mul_div_right_comm] at floor_le
  have scaled := mul_le_mul_of_nonneg_left nl_le
    (show (0 : ℝ) ≤ (num.toNat : ℝ) / den.toNat by positivity)
  have reaches : Real.exp (-((num.toNat : ℝ) / den.toNat * exactLog x)) ≤
      Real.exp (-(scaledLog x num den / 1000000000000000000)) := by
    refine Real.exp_le_exp.mpr (neg_le_neg ?_)
    rw [div_le_iff₀ (by norm_num)]
    linarith
  rw [exactPower_eq hx]
  linarith

/-- The power exceeds the real one by its drift, within a dozen units. -/
theorem expAt_scaledLog_close (hx : 0 < x.toNat) (le : x.toNat ≤ 1000000000000000000)
    (hd : 0 < den.toNat) (high : (num.toNat : ℝ) / den.toNat ≤ 99) :
    0 ≤ drift x num den ∧
      exactPower x num den + drift x num den - 11.08 ≤ expAt (scaledLog x num den) ∧
      (expAt (scaledLog x num den) : ℝ) ≤ exactPower x num den + drift x num den + 12.72 := by
  obtain ⟨-, -, nl_le, le_nl⟩ := negLn_close hx le
  obtain ⟨exp_low, exp_high⟩ := expAt_close (scaledLog x num den)
  obtain ⟨floor_le, lt_floor⟩ := div_bounds (nl x * num.toNat) hd
  rw [← scaledLog, Nat.cast_mul, mul_comm, mul_div_right_comm] at floor_le lt_floor
  have r_nonneg : (0 : ℝ) ≤ (num.toNat : ℝ) / den.toNat := by positivity
  have log_nonneg := exactLog_nonneg le
  have y_nonneg : (0 : ℝ) ≤ scaledLog x num den := Nat.cast_nonneg _
  rw [drift_eq, response_eq hx, exactPower_eq hx]
  generalize (num.toNat : ℝ) / den.toNat = r at *
  generalize (scaledLog x num den : ℝ) = y at *
  generalize (nl x : ℝ) = l at *
  generalize exactLog x = Λ at *
  have one' : Real.exp (-(r * Λ)) ≤ 1 :=
    Real.exp_le_one_iff.mpr (neg_nonpos.mpr (mul_nonneg r_nonneg log_nonneg))
  have one : Real.exp (-(y / 1000000000000000000)) ≤ 1 :=
    Real.exp_le_one_iff.mpr (neg_nonpos.mpr (by positivity))
  have pos := Real.exp_pos (-(y / 1000000000000000000))
  have pos' := Real.exp_pos (-(r * Λ))
  obtain ⟨at_most, at_least⟩ := exp_neg_sub_bounds (y / 1000000000000000000) (r * Λ)
  generalize Real.exp (-(y / 1000000000000000000)) = e at *
  generalize Real.exp (-(r * Λ)) = f at *
  -- the shortfall of the logarithm, times the exponent
  have shortfall : 0 ≤ r * (1000000000000000000 * Λ - l) :=
    mul_nonneg r_nonneg (by linarith)
  have shortfall_le : r * (1000000000000000000 * Λ - l) ≤ 99 * 200 :=
    mul_le_mul high (by linarith) (by linarith) (by norm_num)
  have distance : 1000000000000000000 * (r * Λ - y / 1000000000000000000) =
      r * (1000000000000000000 * Λ - l) + (r * l - y) := by ring
  have drifted : r * f * (1000000000000000000 * Λ - l) =
      r * (1000000000000000000 * Λ - l) * f := by ring
  rw [drifted]
  generalize r * (1000000000000000000 * Λ - l) = s at *
  generalize r * Λ - y / 1000000000000000000 = gap at *
  have fall : 1000000000000000000 * (e - f) ≤ (s + 1) * e := by
    have scaled := mul_le_mul_of_nonneg_right (show 1000000000000000000 * gap ≤ s + 1 by linarith)
      pos.le
    linarith
  have rise : s * f ≤ 1000000000000000000 * (e - f) := by
    have scaled := mul_le_mul_of_nonneg_right (show s ≤ 1000000000000000000 * gap by linarith)
      pos'.le
    linarith
  have near : 1000000000000000000 * (e - f) ≤ 19801 := by
    have := mul_le_mul_of_nonneg_left one (show 0 ≤ s + 1 by linarith)
    linarith
  have product : (s + 1) * (e - f) ≤ 0.001 := by
    have := mul_le_mul_of_nonneg_left near (show 0 ≤ s + 1 by linarith)
    linarith
  refine ⟨mul_nonneg shortfall pos'.le, by linarith, ?_⟩
  have split : (s + 1) * e = s * f + f + (s + 1) * (e - f) := by ring
  linarith

/-- The drift is at most what the power answers to all the logarithm can lose. -/
theorem drift_le (hx : 0 < x.toNat) (le : x.toNat ≤ 1000000000000000000) :
    drift x num den ≤ 85 * response x num den := by
  obtain ⟨-, -, -, le_nl⟩ := negLn_close hx le
  have lost := mul_le_mul_of_nonneg_left
    (show 1000000000000000000 * exactLog x - nl x ≤ 85 by linarith) (response_nonneg x num den)
  rw [drift_eq]
  linarith

/-- Of a base up to a half the power falls faster than the exponent grows. -/
theorem response_le_one_of_half (hx : 0 < x.toNat) (half : 2 * x.toNat ≤ 1000000000000000000) :
    response x num den ≤ 1 := by
  have pos : (0 : ℝ) < x.toNat := Nat.cast_pos.mpr hx
  have half' : 2 * (x.toNat : ℝ) ≤ 1000000000000000000 := by exact_mod_cast half
  have tangent := Real.log_le_sub_one_of_pos
    (show (0 : ℝ) < x.toNat / 1000000000000000000 by positivity)
  have share : (x.toNat : ℝ) / 1000000000000000000 ≤ 0.5 := by
    rw [div_le_iff₀ (by norm_num)]
    linarith
  have far : 0.5 ≤ exactLog x := by
    unfold exactLog
    linarith
  rw [response_eq hx]
  refine (mul_exp_neg_le (show 0 < exactLog x by linarith)).trans ?_
  rw [div_le_one (by linarith)]
  linarith

/-- The answer stays near: the exponent is at most one, or the base at most a half, or what the
power answers to all that the series can cut off the logarithm is small. -/
def SmallDrift (x num den : U128) : Prop :=
  num.toNat ≤ den.toNat ∨ 2 * x.toNat ≤ 1000000000000000000 ∨
    response x num den * (cutOff x.toNat + laterCuts x.toNat) ≤ 43.5

/-- The answer does not stay near: what the power answers to the first cut alone is large. -/
def LargeDrift (x num den : U128) : Prop := 55.6 ≤ response x num den * cutOff x.toNat

theorem SmallDrift.drift_le (hx : 0 < x.toNat) (le : x.toNat ≤ 1000000000000000000)
    (hd : 0 < den.toNat) (high : (num.toNat : ℝ) / den.toNat ≤ 99)
    (small : SmallDrift x num den) : drift x num den ≤ 87.1 := by
  have lost := @Weighted.drift_le x num den hx le
  by_cases half : 2 * x.toNat ≤ 1000000000000000000
  · linarith [@response_le_one_of_half x num den hx half]
  · rcases small with ordered | half' | small
    · linarith [response_le_one_of_le hx le hd ordered]
    · exact absurd half' half
    · obtain ⟨-, short⟩ := nl_close_of_half (x := x) (by omega) le
      have nonneg := response_nonneg x num den
      have moved := mul_le_mul_of_nonneg_left (show 1000000000000000000 * exactLog x - nl x ≤
        2 * (cutOff x.toNat + laterCuts x.toNat) + 0.001 by linarith) nonneg
      have answered := (@response_le x num den hx le).trans high
      rw [drift_eq]
      linarith

/-- A large answer to the first cut needs a base beyond a half and an exponent beyond one. -/
theorem LargeDrift.le_drift (hx : 0 < x.toNat) (le : x.toNat ≤ 1000000000000000000)
    (large : LargeDrift x num den) : 111.2 ≤ drift x num den := by
  have nonneg := response_nonneg x num den
  have cut := cutOff_nonneg x.toNat
  have cut_lt := cutOff_lt_one x.toNat
  by_cases half : 2 * x.toNat ≤ 1000000000000000000
  · have answered := @response_le_one_of_half x num den hx half
    have product := mul_le_mul answered cut_lt.le cut zero_le_one
    rw [LargeDrift] at large
    linarith
  · obtain ⟨short, -⟩ := nl_close_of_half (x := x) (by omega) le
    have moved := mul_le_mul_of_nonneg_left
      (show 2 * cutOff x.toNat ≤ 1000000000000000000 * exactLog x - nl x by linarith) nonneg
    rw [LargeDrift] at large
    rw [drift_eq]
    linarith

theorem LargeDrift.ne (hx : 0 < x.toNat) (le : x.toNat ≤ 1000000000000000000)
    (hd : 0 < den.toNat) (large : LargeDrift x num den) : num ≠ den := by
  rintro rfl
  have answered := response_le_one_of_le hx le hd le_rfl
  have product := mul_le_mul answered (cutOff_lt_one x.toNat).le (cutOff_nonneg x.toNat)
    zero_le_one
  rw [LargeDrift] at large
  linarith

/-- For every base up to one and all weights up to `99` the power answers. It is within a
hundred units of the floor of the real one where its drift is small, and further off where its
drift is large, both of them conditions on the base and the weights. -/
theorem powFrac_within (x num den : U128) (hx : 1 ≤ x.toNat) (le : x.toNat ≤ 1000000000000000000)
    (num_le : num.toNat ≤ 99) (hd : 1 ≤ den.toNat) (den_le : den.toNat ≤ 99) :
    ∃ p, powFrac x num den = .ok p ∧
      (SmallDrift x num den → |(p.toNat : ℤ) - ⌊exactPower x num den⌋| ≤ 100) ∧
      (LargeDrift x num den → 100 < |(p.toNat : ℤ) - ⌊exactPower x num den⌋|) := by
  have weight : den ≠ 0 := toNat_pos_iff.mpr hd
  by_cases same : num = den
  · refine ⟨x, same ▸ powFrac_same (same ▸ weight), fun _ => ?_,
      fun large => absurd same (large.ne hx le hd)⟩
    have ratio : (num.toNat : ℝ) / den.toNat = 1 := by
      rw [same, div_self (Nat.cast_ne_zero.mpr (by omega))]
    have power : exactPower x num den = (x.toNat : ℤ) := by
      rw [exactPower, ratio, Real.rpow_one, mul_div_cancel₀ _ (by norm_num), Int.cast_natCast]
    rw [power, Int.floor_intCast, sub_self]
    norm_num
  · have small : scaledLog x num den < 2 ^ 128 := by
      obtain ⟨-, nl_lt, -, -⟩ := negLn_close hx le
      have product := Nat.mul_le_mul nl_lt.le num_le
      have := Nat.div_le_self (nl x * num.toNat) den.toNat
      unfold scaledLog
      omega
    have high : (num.toNat : ℝ) / den.toNat ≤ 99 := by
      have one : (1 : ℝ) ≤ den.toNat := by exact_mod_cast hd
      have most : (num.toNat : ℝ) ≤ 99 := by exact_mod_cast num_le
      rw [div_le_iff₀ (by linarith)]
      linarith
    obtain ⟨nonneg, low, up⟩ := expAt_scaledLog_close hx le hd high
    have bound := expAt_le (scaledLog x num den)
    refine ⟨BitVec.ofNat 128 (expAt (scaledLog x num den)), ?_, ?_⟩
    · rw [powFrac_eq hx le weight same, if_neg (by omega)]
    · rw [BitVec.toNat_ofNat, Nat.mod_eq_of_lt (by omega)]
      have floor_le := Int.floor_le (exactPower x num den)
      have lt_floor := Int.lt_floor_add_one (exactPower x num den)
      generalize ⌊exactPower x num den⌋ = F at *
      generalize expAt (scaledLog x num den) = p at *
      constructor
      · intro condition
        have drifts := condition.drift_le hx le hd high
        have below : (p : ℝ) < F + 101 := by linarith
        have above : (F : ℝ) < p + 101 := by linarith
        have below' : (p : ℤ) < F + 101 := by exact_mod_cast below
        have above' : F < (p : ℤ) + 101 := by exact_mod_cast above
        rw [abs_le]
        omega
      · intro condition
        have drifts := condition.le_drift hx le
        have above : (F : ℝ) + 100 < p := by linarith
        have above' : F + 100 < (p : ℤ) := by exact_mod_cast above
        rw [lt_abs]
        left
        omega

/-- The cube root of a half; and a base so near one that only the first cut is left, large
enough to break the bound at the exponent `99`. -/
theorem powFrac_within_cube_root :
    (∃ p, powFrac 500000000000000000 1 3 = .ok p ∧
      |(p.toNat : ℤ) - ⌊exactPower 500000000000000000 1 3⌋| ≤ 100) ∧
      ∃ p, powFrac 999999998999999999 99 1 = .ok p ∧
        100 < |(p.toNat : ℤ) - ⌊exactPower 999999998999999999 99 1⌋| := by
  constructor
  · obtain ⟨p, answer, within, -⟩ := powFrac_within 500000000000000000 1 3 (by decide) (by decide)
      (by decide) (by decide) (by decide)
    exact ⟨p, answer, within (.inl (by decide))⟩
  · obtain ⟨p, answer, -, off⟩ := powFrac_within 999999998999999999 99 1 (by decide) (by decide)
      (by decide) (by decide) (by decide)
    refine ⟨p, answer, off ?_⟩
    have ratio : (((99 : U128).toNat : ℝ) / (1 : U128).toNat) = (99 : ℕ) := by
      rw [show (99 : U128).toNat = 99 from rfl, show (1 : U128).toNat = 1 from rfl]
      norm_num
    rw [LargeDrift, response, exactPower, ratio, Real.rpow_natCast,
      show (999999998999999999 : U128).toNat = 999999998999999999 from rfl, cutOff]
    norm_num

/-- Just below one to the power `99` the answer is `524` units too high. -/
theorem just_below_one :
    powFrac 999309158198494797 99 1 = .ok 933870992715911060 ∧
      ⌊exactPower 999309158198494797 99 1⌋ = 933870992715910536 ∧
      ¬ |((933870992715911060 : U128).toNat : ℤ) - ⌊exactPower 999309158198494797 99 1⌋| ≤ 100 := by
  have floor : ⌊exactPower 999309158198494797 99 1⌋ = 933870992715910536 := by
    have base : (999309158198494797 : U128).toNat = 999309158198494797 := rfl
    have ratio : (((99 : U128).toNat : ℝ) / (1 : U128).toNat) = (99 : ℕ) := by
      rw [show (99 : U128).toNat = 99 from rfl, show (1 : U128).toNat = 1 from rfl]
      norm_num
    rw [exactPower, base, ratio, Real.rpow_natCast, Int.floor_eq_iff]
    constructor <;> norm_num
  refine ⟨by decide +kernel, floor, ?_⟩
  rw [floor, show (933870992715911060 : U128).toNat = 933870992715911060 from rfl]
  decide

end Weighted

end Antumbra
