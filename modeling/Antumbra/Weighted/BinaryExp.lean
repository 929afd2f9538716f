/-
# The exponential of the binary kernel

The estimate of the reduction lands at most one step off and is corrected, so the kernel
computes a closed form: the Taylor series at the remainder modulo `ln 2`, shifted by the
quotient. The series never leaves its word and the clamp at zero is never reached.
-/

import Antumbra.Weighted.BinaryLog

namespace Antumbra

open Antumbra.Math

namespace Binfixed

/-! ### The closed form -/

/-- The Taylor series at a remainder. -/
def expSeries (s : ℤ) : ℤ := polyFloor 62 s EXP_62

/-- The exponential of `-y`, reduced modulo `ln 2`. -/
def expOf (y : ℤ) : ℤ := expSeries (y % LN2_62) / 2 ^ (y / LN2_62).toNat

theorem alternates_EXP_62 : Alternates 62 LN2_62 EXP_62 := by decide

variable {s y : ℤ}

/-- The series lies between zero and one. -/
theorem expSeries_bounds (hs : 0 ≤ s) (le : s ≤ LN2_62) : 0 ≤ expSeries s ∧ expSeries s ≤ ONE62 :=
  (polyFloor_alternates alternates_EXP_62 hs le).1 (by decide)

theorem alternates_suffix {k : ℕ} {bound : ℤ} {l as : List ℤ} (falls : Alternates k bound as)
    (suffix : l <:+ as) : Alternates k bound l := by
  induction as with
  | nil =>
    rw [List.suffix_nil.mp suffix]
    trivial
  | cons a as ih =>
    rcases List.suffix_cons_iff.mp suffix with rfl | later
    · exact falls
    · cases as with
      | nil => exact ih trivial later
      | cons b as => exact ih falls.2 later

theorem horner_exp (hs : 0 ≤ s) (le : s ≤ LN2_62) : horner s EXP_62 = .ok (expSeries s) := by
  refine horner_eq hs (le.trans (by decide)) fun l suffix => ?_
  cases l with
  | nil => simp [polyFloor]
  | cons a l =>
    -- every partial result lies between its own coefficient and zero
    have range : ∀ a ∈ EXP_62, |a| ≤ 2 ^ 62 := by decide
    obtain ⟨up, down⟩ := polyFloor_alternates (alternates_suffix alternates_EXP_62 suffix) hs le
    obtain ⟨low, high⟩ := abs_le.mp (range a (suffix.mem List.mem_cons_self))
    rw [abs_le]
    rcases le_total 0 a with positive | negative
    · have := up positive
      omega
    · have := down negative
      omega

/-- The quotient and the remainder the exponential goes on with, after its one correction. -/
def expReduction (y : ℤ) : Except Failure (ℤ × ℤ) := do
  let scaled ← fits (y * INV_LN2_30)
  let k := shr scaled (30 + LN_SCALE)
  let kLn2 ← fits (k * LN2_62)
  let s ← fits (y - kLn2)
  if s < 0 then do
    let k ← fits (k - 1)
    let s ← fits (s + LN2_62)
    return (k, s)
  else if LN2_62 ≤ s then do
    let k ← fits (k + 1)
    let s ← fits (s - LN2_62)
    return (k, s)
  else
    return (k, s)

/-- The exponential from its quotient and its remainder. -/
def expReduced (k s : ℤ) : Except Failure ℤ :=
  if 63 ≤ k then
    return 0
  else do
    let acc ← horner s EXP_62
    let acc := if acc < 0 then 0 else acc
    if k < 0 then
      throw .overflowed
    else
      return shr acc k.toNat

theorem expNeg62_eq_reduced (pos : 0 < y) (near : y < EXP_ZERO_ABOVE) :
    expNeg62 y = expReduction y >>= fun r => expReduced r.1 r.2 := by
  unfold expNeg62 expReduction
  rw [if_neg (by omega), if_neg (by omega)]
  simp only [bind_assoc]
  congr 1
  funext scaled
  congr 1
  funext kLn2
  congr 1
  funext s
  split
  · simp only [bind_assoc]
    rfl
  · split
    · simp only [bind_assoc]
      rfl
    · rfl

/-- The corrected reduction is the division with remainder. -/
theorem expReduction_eq (pos : 0 < y) (near : y < EXP_ZERO_ABOVE) :
    expReduction y = .ok (y / LN2_62, y % LN2_62) := by
  have nonneg := Int.emod_nonneg y (show LN2_62 ≠ 0 by decide)
  have below := Int.emod_lt_of_pos y (show 0 < LN2_62 by decide)
  have split := Int.mul_ediv_add_emod y LN2_62
  unfold EXP_ZERO_ABOVE at near
  unfold expReduction
  unfold LN2_62 at *
  generalize y % 3196577161300663915 = r at *
  generalize y / 3196577161300663915 = q at *
  obtain ⟨estimate_le, lt_estimate⟩ : shr (y * INV_LN2_30) (30 + LN_SCALE) * 2 ^ 92 ≤
      y * INV_LN2_30 ∧
        y * INV_LN2_30 < (shr (y * INV_LN2_30) (30 + LN_SCALE) + 1) * 2 ^ 92 := by
    unfold shr LN_SCALE
    omega
  rw [fits_eq (by unfold INV_LN2_30; omega) (by unfold INV_LN2_30; omega), ok_bind]
  generalize shr (y * INV_LN2_30) (30 + LN_SCALE) = k at *
  unfold INV_LN2_30 at estimate_le lt_estimate
  dsimp only
  rw [fits_eq (by omega) (by omega), ok_bind, fits_eq (by omega) (by omega), ok_bind]
  -- the estimate lands at most one step either side
  rcases (by omega : k = q - 1 ∨ k = q ∨ k = q + 1) with rfl | rfl | rfl
  · rw [if_neg (by omega), if_pos (by omega), fits_eq (by omega) (by omega), ok_bind,
      fits_eq (by omega) (by omega), ok_bind, sub_add_cancel,
      show y - (q - 1) * 3196577161300663915 - 3196577161300663915 = r by omega]
    rfl
  · rw [if_neg (by omega), if_neg (by omega), show y - k * 3196577161300663915 = r by omega]
    rfl
  · rw [if_pos (by omega), fits_eq (by omega) (by omega), ok_bind,
      fits_eq (by omega) (by omega), ok_bind, add_sub_cancel_right,
      show y - (q + 1) * 3196577161300663915 + 3196577161300663915 = r by omega]
    rfl

/-- From the 63rd halving on nothing is left. -/
theorem expOf_eq_zero (far : 63 ≤ y / LN2_62) : expOf y = 0 := by
  have pos : 0 < LN2_62 := by decide
  obtain ⟨series_nonneg, series_le⟩ :=
    expSeries_bounds (Int.emod_nonneg y pos.ne') (Int.emod_lt_of_pos y pos).le
  refine Int.ediv_eq_zero_of_lt series_nonneg (series_le.trans_lt ?_)
  calc ONE62 < 2 ^ 63 := by decide
    _ ≤ 2 ^ (y / LN2_62).toNat := pow_le_pow_right₀ (by norm_num) (by omega)

/-- On the quotient and the remainder of the division nothing leaves the word. -/
theorem expReduced_eq (hy : 0 ≤ y) : expReduced (y / LN2_62) (y % LN2_62) = .ok (expOf y) := by
  have pos : 0 < LN2_62 := by decide
  have nonneg := Int.emod_nonneg y pos.ne'
  have below := Int.emod_lt_of_pos y pos
  unfold expReduced
  by_cases far : 63 ≤ y / LN2_62
  · rw [if_pos far, expOf_eq_zero far]
    rfl
  · rw [if_neg far, horner_exp nonneg below.le, ok_bind]
    simp only [if_neg (not_lt.mpr (expSeries_bounds nonneg below.le).1),
      if_neg (not_lt.mpr (Int.ediv_nonneg hy pos.le))]
    rfl

/-- The kernel computes the closed form. -/
theorem expNeg62_eq (hy : 0 ≤ y) : expNeg62 y = .ok (expOf y) := by
  rcases hy.eq_or_lt with rfl | pos
  · rfl
  by_cases near : y < EXP_ZERO_ABOVE
  · rw [expNeg62_eq_reduced pos near, expReduction_eq pos near, ok_bind]
    exact expReduced_eq hy
  · have far := not_lt.mp near
    have quotient : 63 ≤ y / LN2_62 := by
      unfold EXP_ZERO_ABOVE at far
      rw [Int.le_ediv_iff_mul_le (by decide)]
      omega
    rw [expNeg62, if_neg (not_le.mpr pos), if_pos far, expOf_eq_zero quotient]

/-! ### Where it falls -/

/-- The fourth coefficient outweighs what follows it. -/
theorem polyFloor_drop_three_le (hs : 0 ≤ s) (le : s ≤ LN2_62) :
    polyFloor 62 s (EXP_62.drop 3) ≤ -600000000000000000 := by
  have fifth := (polyFloor_alternates (show Alternates 62 LN2_62 (EXP_62.drop 4) by decide)
    hs le).1 (by decide)
  change polyFloor 62 s (EXP_62.drop 4) * s / 2 ^ 62 + -768614336404564651 ≤ _
  change 0 ≤ polyFloor 62 s (EXP_62.drop 4) ∧ _ ≤ (192153584101141163 : ℤ) at fifth
  have product := mul_le_mul fifth.2 le hs (by norm_num)
  have quotient : polyFloor 62 s (EXP_62.drop 4) * s / 2 ^ 62 ≤ 168000000000000000 := by
    unfold LN2_62 at product
    refine Int.ediv_le_of_le_mul (by norm_num) (product.trans (by norm_num))
  linarith

/-- Two or three steps of the remainder never raise the series, nor does one step while the
series is steep: what its later terms gain by rounding is less than what the first lose. -/
theorem expSeries_add_le {δ : ℤ} (hδ : δ = 1 ∨ δ = 2 ∨ δ = 3) (hs : 0 ≤ s)
    (le : s + δ ≤ LN2_62) (steep : δ = 1 → s + 1 ≤ 9 * 2 ^ 58) :
    expSeries (s + δ) ≤ expSeries s := by
  have room : ∀ a ∈ EXP_62.drop 3, a * δ ≤ 2 ^ 62 - LN2_62 := by
    rcases hδ with rfl | rfl | rfl <;> decide
  have third := polyFloor_sub_le_one (show Alternates 62 LN2_62 (EXP_62.drop 3) by decide) hs
    (by omega) le (by decide) room
  have negative := polyFloor_drop_three_le hs (show s ≤ LN2_62 by omega)
  have second_cons : EXP_62.drop 2 = 2 ^ 61 :: EXP_62.drop 3 := rfl
  have first_cons : EXP_62.drop 1 = -2 ^ 62 :: EXP_62.drop 2 := rfl
  have cons : EXP_62 = 2 ^ 62 :: EXP_62.drop 1 := rfl
  have second_eq : polyFloor 62 s (EXP_62.drop 2) =
      polyFloor 62 s (EXP_62.drop 3) * s / 2 ^ 62 + 2 ^ 61 := by
    rw [second_cons, polyFloor]
  have first_eq : polyFloor 62 s (EXP_62.drop 1) =
      polyFloor 62 s (EXP_62.drop 2) * s / 2 ^ 62 + -2 ^ 62 := by
    rw [first_cons, polyFloor]
  have steps : 0 ≤ δ := by omega
  have reach : 0 ≤ s + δ := by omega
  have second : polyFloor 62 (s + δ) (EXP_62.drop 2) - polyFloor 62 s (EXP_62.drop 2) ≤ 1 := by
    rw [second_cons]
    refine polyFloor_cons_sub_le ?_
    have moved := mul_le_mul_of_nonneg_right third reach
    have lost := mul_nonpos_of_nonpos_of_nonneg (negative.trans (by norm_num)) steps
    unfold LN2_62 at le
    linarith
  have scaled := Int.mul_ediv_self_le (x := polyFloor 62 s (EXP_62.drop 3) * s) (k := 2 ^ 62)
    (by norm_num)
  have scaled' := Int.mul_ediv_self_le (x := polyFloor 62 s (EXP_62.drop 2) * s) (k := 2 ^ 62)
    (by norm_num)
  have half : 2 ^ 62 * polyFloor 62 s (EXP_62.drop 2) ≤ 2 ^ 123 - 600000000000000000 * s := by
    have product := mul_le_mul_of_nonneg_right negative hs
    rw [second_eq]
    linarith
  have first : polyFloor 62 (s + δ) (EXP_62.drop 1) - polyFloor 62 s (EXP_62.drop 1) ≤ δ := by
    rw [first_cons]
    refine polyFloor_cons_sub_le ?_
    have moved := mul_le_mul_of_nonneg_right second reach
    unfold LN2_62 at le
    rcases hδ with rfl | rfl | rfl
    · have := steep rfl
      linarith
    · linarith
    · linarith
  have slope : s + δ + polyFloor 62 s (EXP_62.drop 1) ≤ 0 := by
    have product := mul_le_mul_of_nonneg_right half hs
    have rest : 0 ≤ (LN2_62 - s) * (2 ^ 124 + 2 ^ 123 - 600000000000000000 * (s + LN2_62)) := by
      unfold LN2_62 at *
      exact mul_nonneg (by omega) (by omega)
    unfold LN2_62 at *
    rw [first_eq]
    linarith [(by omega : δ ≤ 3)]
  have rise : polyFloor 62 (s + δ) EXP_62 - polyFloor 62 s EXP_62 ≤ 0 := by
    rw [cons]
    refine polyFloor_cons_sub_le ?_
    have moved := mul_le_mul_of_nonneg_right first reach
    have lost := mul_nonpos_of_nonpos_of_nonneg slope steps
    linarith
  exact sub_nonpos.mp rise

theorem expSeries_le {s' : ℤ} (hs : 0 ≤ s) (apart : s + 2 ≤ s') (le : s' ≤ LN2_62) :
    expSeries s' ≤ expSeries s := by
  have steps : ∀ n : ℕ, 2 ≤ n → s + n ≤ LN2_62 → expSeries (s + n) ≤ expSeries s := by
    intro n
    induction n using Nat.twoStepInduction with
    | zero => omega
    | one => omega
    | more n ih _ =>
      intro _ le
      rcases Nat.lt_or_ge n 2 with short | long
      · exact expSeries_add_le (by omega) hs le (by omega)
      · have last := expSeries_add_le (δ := 2) (s := s + n) (by omega) (by omega) (by omega)
          (by omega)
        rw [add_assoc] at last
        exact last.trans (ih long (by omega))
  obtain ⟨n, rfl⟩ : ∃ n : ℕ, s' = s + n := ⟨(s' - s).toNat, by omega⟩
  exact steps n (by omega) le

theorem expSeries_lt_one (hs : 0 < s) (le : s ≤ LN2_62) : expSeries s < ONE62 := by
  have first : expSeries 1 < ONE62 := by decide
  rcases (by omega : s = 1 ∨ s = 2 ∨ 3 ≤ s) with rfl | rfl | far
  · exact first
  · decide
  · exact (expSeries_le (by norm_num) far le).trans_lt first

/-- The series ends just below a half. -/
theorem le_expSeries (hs : 0 ≤ s) (le : s ≤ LN2_62) :
    2 ^ 61 - 2 ≤ expSeries s ∧ (s ≤ LN2_62 - 3 → 2 ^ 61 ≤ expSeries s) ∧
      (s = LN2_62 - 2 ∨ s = LN2_62 - 1 → expSeries s = 2 ^ 61 - 1) := by
  have end₀ : expSeries LN2_62 = 2 ^ 61 - 2 := by decide
  have end₁ : expSeries (LN2_62 - 1) = 2 ^ 61 - 1 := by decide
  have end₂ : expSeries (LN2_62 - 2) = 2 ^ 61 - 1 := by decide
  have end₃ : expSeries (LN2_62 - 3) = 2 ^ 61 := by decide
  have end₄ : 2 ^ 61 ≤ expSeries (LN2_62 - 4) := by decide
  rcases (by omega : s ≤ LN2_62 - 5 ∨ s = LN2_62 - 4 ∨ s = LN2_62 - 3 ∨ s = LN2_62 - 2 ∨
    s = LN2_62 - 1 ∨ s = LN2_62) with far | rfl | rfl | rfl | rfl | rfl
  · have above := expSeries_le hs (show s + 2 ≤ LN2_62 - 3 by omega) (by omega)
    omega
  all_goals omega

/-- Two arguments between which no rounding can turn the order: three steps apart, or two
that do not end on a multiple of `ln 2`, or one where the series is steep. -/
def Settled (y y' : ℤ) : Prop :=
  y + 3 ≤ y' ∨ y + 2 = y' ∧ y' % LN2_62 ≠ 0 ∨
    y + 1 = y' ∧ y' % LN2_62 ≠ 0 ∧ y' % LN2_62 ≤ 9 * 2 ^ 58

/-- Between settled arguments the exponential never rises, also where the shift changes. -/
theorem expOf_le {y' : ℤ} (hy : 0 ≤ y) (settled : Settled y y') : expOf y' ≤ expOf y := by
  unfold Settled at settled
  have pos : 0 < LN2_62 := by decide
  have split := Int.mul_ediv_add_emod y LN2_62
  have split' := Int.mul_ediv_add_emod y' LN2_62
  have nonneg := Int.emod_nonneg y pos.ne'
  have nonneg' := Int.emod_nonneg y' pos.ne'
  have below := Int.emod_lt_of_pos y pos
  have below' := Int.emod_lt_of_pos y' pos
  have count := Int.ediv_nonneg hy pos.le
  have order : y / LN2_62 ≤ y' / LN2_62 := Int.ediv_le_ediv pos (by omega)
  unfold expOf
  generalize y % LN2_62 = s at *
  generalize y' % LN2_62 = s' at *
  generalize y / LN2_62 = k at *
  generalize y' / LN2_62 = k' at *
  rcases order.eq_or_lt with rfl | further
  · refine Int.ediv_le_ediv (by positivity) ?_
    rcases (by omega : s + 2 ≤ s' ∨ s + 1 = s' ∧ s' ≤ 9 * 2 ^ 58) with apart | ⟨rfl, steep⟩
    · exact expSeries_le nonneg apart below'.le
    · exact expSeries_add_le (.inl rfl) nonneg below'.le fun _ => steep
  · -- one more halving at least
    obtain ⟨half, top, seam⟩ := le_expSeries nonneg below.le
    have one := (expSeries_bounds nonneg' below'.le).2
    have halved (e : ℕ) (many : k.toNat + e ≤ k'.toNat)
        (le : expSeries s' / 2 ^ e ≤ expSeries s) :
        expSeries s' / 2 ^ k'.toNat ≤ expSeries s / 2 ^ k.toNat := by
      obtain ⟨d, shifts⟩ := Nat.exists_eq_add_of_le many
      rw [shifts, show k.toNat + e + d = e + (k.toNat + d) by ring, pow_add,
        ← Int.ediv_ediv_of_nonneg (by positivity)]
      refine (Int.ediv_le_ediv (by positivity) le).trans ?_
      rw [pow_add, ← Int.ediv_ediv_of_nonneg (by positivity)]
      exact Int.ediv_le_self _ (Int.ediv_nonneg (by linarith) (by positivity))
    unfold ONE62 at one
    rcases Int.add_one_le_iff.mpr further |>.eq_or_lt with rfl | more
    · refine halved 1 (by omega) ?_
      have apart : 3 ≤ LN2_62 - s + s' ∨ LN2_62 - s + s' = 2 ∧ s' ≠ 0 := by
        rcases settled with far | ⟨two, inside⟩ | ⟨one, inside, -⟩
        · exact .inl (by linarith)
        · exact .inr ⟨by linarith, inside⟩
        · exact absurd (by linarith [below.le]) (show ¬ LN2_62 - s + s' = 1 by omega)
      rcases (by omega : s ≤ LN2_62 - 3 ∨ s = LN2_62 - 2 ∧ 0 < s' ∨ s = LN2_62 - 1 ∧ 0 < s')
        with early | ⟨last, later⟩ | ⟨last, later⟩
      · have := top early
        omega
      · have value := seam (.inl last)
        have under := expSeries_lt_one later below'.le
        unfold ONE62 at under
        omega
      · have value := seam (.inr last)
        have under := expSeries_lt_one later below'.le
        unfold ONE62 at under
        omega
    · refine halved 2 (by omega) ?_
      omega

/-- Only at zero is the exponential one. -/
theorem expOf_lt_one (hy : 0 < y) : expOf y < ONE62 := by
  have pos : 0 < LN2_62 := by decide
  have split := Int.mul_ediv_add_emod y LN2_62
  have nonneg := Int.emod_nonneg y pos.ne'
  have below := Int.emod_lt_of_pos y pos
  have count := Int.ediv_nonneg hy.le pos.le
  have series := (expSeries_bounds nonneg below.le).1
  unfold expOf
  rcases count.eq_or_lt with none | some
  · rw [← none] at split ⊢
    rw [Int.toNat_zero, pow_zero, Int.ediv_one]
    exact expSeries_lt_one (by omega) below.le
  · have one := (expSeries_bounds nonneg below.le).2
    refine Int.ediv_lt_of_lt_mul (by positivity) ?_
    have double : (2 : ℤ) ^ 1 ≤ 2 ^ (y / LN2_62).toNat :=
      pow_le_pow_right₀ (by norm_num) (by omega)
    unfold ONE62 at *
    omega

/-! ### Against the real exponential -/

/-- The coefficients of the exponential series from the fourth on, at the scale. -/
noncomputable def expCoefficients : List ℝ :=
  (List.range 18).map fun i : ℕ => ONE62 * ((-1) ^ (i + 3) / (Nat.factorial (i + 3) : ℝ))

/-- The kernel's coefficients are these, rounded. -/
theorem exp_close :
    List.Forall₂ (fun a c => |a - c| ≤ (1 / 2 : ℝ)) ((EXP_62.drop 3).map (↑)) expCoefficients := by
  simp only [expCoefficients, ONE62_cast, EXP_62, List.drop_succ_cons, List.drop_zero,
    List.range_succ, List.range_zero, List.nil_append, List.cons_append, List.map_cons,
    List.map_nil, abs_le]
  norm_num [Nat.factorial]

/-- The series is off by what its products round down and its coefficients round. -/
theorem expSeries_close (hs : 0 ≤ s) (le : s ≤ LN2_62) :
    2 ^ 62 * Real.exp (-(s / 2 ^ 62)) - 3.81 ≤ expSeries s ∧
      (expSeries s : ℝ) ≤ 2 ^ 62 * Real.exp (-(s / 2 ^ 62)) + 0.55 := by
  set v := (s : ℝ) / 2 ^ 62 with hv
  have v_nonneg : 0 ≤ v := by
    have := Int.cast_nonneg (R := ℝ) hs
    positivity
  have v_le : v ≤ 0.6932 := by
    unfold LN2_62 at le
    have : (s : ℝ) ≤ 3196577161300663915 := by exact_mod_cast le
    rw [hv, div_le_iff₀ (by positivity)]
    linarith
  obtain ⟨rounded_le, rounded_gap⟩ := polyFloor_bounds (s := 62) hs (by linarith) EXP_62
  have coefficients := polyAt_close v_nonneg (by linarith) exp_close (by norm_num)
  have tail := abs_exp_neg_sub_sum_le (v := v) (n := 21)
    (by rw [abs_of_nonneg v_nonneg]; linarith) (by norm_num)
  rw [← hv] at rounded_le rounded_gap
  have computed : polyAt v (EXP_62.map (↑)) =
      polyAt v ((EXP_62.drop 3).map (↑)) * v ^ 3 + 2 ^ 62 * (v ^ 2 / 2 - v + 1) := by
    rw [show EXP_62 = 2 ^ 62 :: -2 ^ 62 :: 2 ^ 61 :: EXP_62.drop 3 from rfl]
    simp only [List.map_cons, polyAt, List.drop_succ_cons, List.drop_zero]
    push_cast
    ring
  have exact : 2 ^ 62 * expSum 21 v =
      polyAt v expCoefficients * v ^ 3 + 2 ^ 62 * (v ^ 2 / 2 - v + 1) := by
    rw [expCoefficients, ONE62_cast, polyAt_map_range, expSum, Finset.sum_range_succ',
      Finset.sum_range_succ', Finset.sum_range_succ', Finset.sum_mul, mul_add, mul_add, mul_add,
      Finset.mul_sum, add_assoc, add_assoc]
    refine congrArg₂ (· + ·) (Finset.sum_congr rfl fun i _ => by ring) ?_
    norm_num [Nat.factorial]
    ring
  have apart : 0.3068 ≤ 1 - v := by linarith
  have cube : v ^ 3 ≤ 0.3332 :=
    (pow_le_pow_left₀ v_nonneg v_le 3).trans (by norm_num)
  have moved : |polyAt v (EXP_62.map (↑)) - 2 ^ 62 * expSum 21 v| ≤ 0.5432 := by
    rw [computed, exact, add_sub_add_right_eq_sub, ← sub_mul, abs_mul,
      abs_of_nonneg (pow_nonneg v_nonneg 3)]
    have wide : |polyAt v ((EXP_62.drop 3).map (↑)) - polyAt v expCoefficients| ≤ 1.63 := by
      have := mul_le_mul_of_nonneg_left apart
        (abs_nonneg (polyAt v ((EXP_62.drop 3).map (↑)) - polyAt v expCoefficients))
      linarith
    calc _ ≤ 1.63 * (0.3332 : ℝ) :=
          mul_le_mul wide cube (pow_nonneg v_nonneg 3) (by norm_num)
      _ ≤ 0.5432 := by norm_num
  have rest : |2 ^ 62 * Real.exp (-v) - 2 ^ 62 * expSum 21 v| ≤ 0.001 := by
    have power : |v| ^ 21 ≤ 0.6932 ^ 21 :=
      pow_le_pow_left₀ (abs_nonneg v) (by rwa [abs_of_nonneg v_nonneg]) 21
    rw [← mul_sub, abs_mul, abs_of_pos (by norm_num : (0 : ℝ) < 2 ^ 62)]
    norm_num [Nat.factorial] at tail power ⊢
    linarith
  change _ ≤ (polyFloor 62 s EXP_62 : ℝ) ∧ (polyFloor 62 s EXP_62 : ℝ) ≤ _
  generalize polyAt v (EXP_62.map (↑)) = poly at *
  generalize (polyFloor 62 s EXP_62 : ℝ) = p at *
  obtain ⟨moved_low, moved_high⟩ := abs_le.mp moved
  obtain ⟨rest_low, rest_high⟩ := abs_le.mp rest
  have rounding : poly - p ≤ 3.26 := by
    have := mul_le_mul_of_nonneg_left apart (sub_nonneg.mpr rounded_le)
    linarith
  constructor <;> linarith

/-- The rounded `ln 2` is a little above the exact one. -/
theorem ln2_excess :
    2 ^ 62 * Real.log 2 ≤ LN2_62 ∧ (LN2_62 : ℝ) ≤ 2 ^ 62 * Real.log 2 + 0.06 := by
  obtain ⟨log_low, log_high⟩ := log_two_bounds
  unfold LN2_62
  norm_num at log_low log_high ⊢
  constructor <;> linarith

/-- The exponential is at most `3.81` units below the real one and `0.64` above it. -/
theorem expOf_close (hy : 0 ≤ y) :
    2 ^ 62 * Real.exp (-(y / 2 ^ 62)) - 3.81 ≤ expOf y ∧
      (expOf y : ℝ) ≤ 2 ^ 62 * Real.exp (-(y / 2 ^ 62)) + 0.64 := by
  have pos : 0 < LN2_62 := by decide
  have nonneg := Int.emod_nonneg y pos.ne'
  have below := Int.emod_lt_of_pos y pos
  have split := Int.mul_ediv_add_emod y LN2_62
  obtain ⟨series_low, series_high⟩ := expSeries_close nonneg below.le
  obtain ⟨ln2_low, ln2_high⟩ := ln2_excess
  obtain ⟨k, hk⟩ : ∃ k : ℕ, y / LN2_62 = k :=
    Int.eq_ofNat_of_zero_le (Int.ediv_nonneg hy pos.le)
  obtain ⟨floor_le, lt_floor⟩ := ediv_two_pow_bounds (expSeries (y % LN2_62)) k
  rw [div_eq_mul_one_div] at floor_le lt_floor
  have large : 0.69 * 2 ^ 62 ≤ (LN2_62 : ℝ) := by
    unfold LN2_62
    norm_num
  have whole : (y : ℝ) = k * LN2_62 + (y % LN2_62 : ℤ) := by
    rw [hk] at split
    have split' : (LN2_62 * k + (y % LN2_62 : ℤ) : ℝ) = y := by exact_mod_cast split
    linarith
  rw [expOf, hk, Int.toNat_natCast, whole]
  have shifted := shifted_exp_close (by norm_num) (abs_le.mpr ⟨by linarith, by linarith⟩) large
    (Int.cast_nonneg (R := ℝ) nonneg) series_low series_high floor_le lt_floor
    (fun none => by rw [none, pow_zero, Int.ediv_one]) (by norm_num)
    (show 3.81 / 2 + 1 + 1.5 * (0.06 : ℝ) ≤ 3.81 by norm_num)
  exact ⟨shifted.1, by linarith [shifted.2]⟩

end Binfixed

end Antumbra
