/-
# The reserves over a whole sale

Each buy moves the reserves along the power law of the weights it finds, up to the rounding
of its price, and the weights slide between two ends. Over a whole history, whatever else
happens in it, the reserves stay between the power laws of the two ends, and the roundings
add up: buying in many small parts or in one does not move the price by more than that.
-/

import Antumbra.Weighted.Price
import Antumbra.Weighted.Proceeds

namespace Antumbra

open Antumbra.Math

namespace PoolProgram

open Weighted (weightAt ONE exponent)
open PoolEntry (buys)

variable {p : Addressing ProgramId} {selfId : ProgramId} {poolId : Bytes 32}
variable {s₀ s : Pool} {a a' : Accounts} {e : PoolEntry} {es : List PoolEntry}
variable {y : PoolState} {w w' : U128}

/-! ### The exponents of a schedule -/

/-- The exponent at a token weight. -/
noncomputable def exponentAt (w : U128) : ℝ := exponent w (ONE - w)

theorem exponentAt_eq (pos : 0 < w.toNat) (le : w ≤ ONE) :
    exponentAt w = 1000000000000000000 / w.toNat - 1 := by
  have pos' : (w.toNat : ℝ) ≠ 0 := Nat.cast_ne_zero.mpr (by omega)
  rw [exponentAt, exponent, toNat_sub_of_le le, Nat.cast_sub (BitVec.le_def.mp le), sub_div,
    div_self pos', show ONE.toNat = 1000000000000000000 from rfl]
  norm_num

/-- A larger token weight has a smaller exponent. -/
theorem exponentAt_anti (pos : 0 < w.toNat) (le : w ≤ w') (le_one : w' ≤ ONE) :
    exponentAt w' ≤ exponentAt w := by
  have more := BitVec.le_def.mp le
  rw [exponentAt_eq pos (BitVec.le_trans le le_one), exponentAt_eq (by omega) le_one]
  have pos' : (0 : ℝ) < w.toNat := by exact_mod_cast pos
  have more' : (w.toNat : ℝ) ≤ w'.toNat := by exact_mod_cast more
  have := div_le_div_of_nonneg_left (show (0 : ℝ) ≤ 1000000000000000000 by norm_num) pos' more'
  linarith

theorem exponentAt_nonneg (w : U128) : 0 ≤ exponentAt w := by
  unfold exponentAt exponent
  positivity

/-- Both ends of a schedule lie between one hundredth and one. -/
structure Moderate (s : Pool) : Prop where
  start_least : 10000000000000000 ≤ s.wStart
  end_least : 10000000000000000 ≤ s.wEnd
  start_most : s.wStart ≤ ONE
  end_most : s.wEnd ≤ ONE

/-- The exponents a schedule passes through lie between those of its ends. -/
noncomputable def lowExponent (s : Pool) : ℝ := exponentAt (max s.wStart s.wEnd)

noncomputable def highExponent (s : Pool) : ℝ := exponentAt (min s.wStart s.wEnd)

theorem Moderate.ends (h : Moderate s) :
    10000000000000000 ≤ (min s.wStart s.wEnd).toNat ∧ max s.wStart s.wEnd ≤ ONE := by
  obtain ⟨start_least, end_least, start_most, end_most⟩ := h
  rw [BitVec.le_def] at start_least end_least start_most end_most
  rw [BitVec.le_def, toNat_min, toNat_max]
  exact ⟨le_min start_least end_least, max_le start_most end_most⟩

theorem Moderate.high_le (h : Moderate s) : highExponent s ≤ 99 := by
  obtain ⟨least, most⟩ := h.ends
  have le : min s.wStart s.wEnd ≤ ONE := BitVec.le_trans (BitVec.le_def.mpr (by
    rw [toNat_min, toNat_max]
    exact min_le_max)) most
  have least' : (10000000000000000 : ℝ) ≤ (min s.wStart s.wEnd).toNat := by exact_mod_cast least
  rw [highExponent, exponentAt_eq (by omega) le]
  have := div_le_div_of_nonneg_left (show (0 : ℝ) ≤ 1000000000000000000 by norm_num)
    (by norm_num) least'
  norm_num at this ⊢
  linarith

/-- A weight the schedule answers is between the ends, so its exponent is too. -/
theorem Moderate.exponent_mem (h : Moderate s) (forward : s.tStart < s.tEnd) {now : U64}
    (weight : weightAt s.wStart s.wEnd s.tStart s.tEnd now = .ok w) :
    lowExponent s ≤ exponentAt w ∧ exponentAt w ≤ highExponent s := by
  obtain ⟨least, most⟩ := h.ends
  obtain ⟨weights, sound⟩ := @Weighted.weightAt_sound s.wStart s.wEnd s.tStart s.tEnd forward
  obtain ⟨answer, -, -, above, below, -⟩ := sound now
  obtain rfl := Except.ok.inj (weight.symm.trans answer)
  have pos := BitVec.le_def.mp above
  exact ⟨exponentAt_anti (by omega) below most,
    exponentAt_anti (by omega) above (BitVec.le_trans below most)⟩

/-! ### One turn and a run -/

/-- What rounding can give away in one buy of a pool opened as `s₀`, until the collateral
reserve has grown to `c`. -/
noncomputable def givenAway (s₀ : Pool) (c : ℝ) : ℝ :=
  s₀.reserveToken.toNat * ((199 : ℕ) + c / s₀.reserveCollateral.toNat) / ONE.toNat

/-- What rounding can withhold in one buy. -/
noncomputable def withheld (s₀ : Pool) : ℝ :=
  1 + (100 : ℕ) * s₀.reserveToken.toNat / ONE.toNat

theorem givenAway_eq (s₀ : Pool) (c : ℝ) :
    givenAway s₀ c = s₀.reserveToken.toNat * (199 + c / s₀.reserveCollateral.toNat) /
      1000000000000000000 := by
  rw [givenAway, show ONE.toNat = 1000000000000000000 from rfl, Nat.cast_ofNat, Nat.cast_ofNat]

theorem withheld_eq (s₀ : Pool) :
    withheld s₀ = 1 + 100 * s₀.reserveToken.toNat / 1000000000000000000 := by
  rw [withheld, show ONE.toNat = 1000000000000000000 from rfl, Nat.cast_ofNat, Nat.cast_ofNat]

theorem givenAway_nonneg (s₀ : Pool) {c : ℝ} (hc : 0 ≤ c) : 0 ≤ givenAway s₀ c := by
  unfold givenAway
  positivity

theorem givenAway_mono (s₀ : Pool) {c c' : ℝ} (le : c ≤ c') : givenAway s₀ c ≤ givenAway s₀ c' := by
  unfold givenAway
  gcongr

/-- The reserves of `s` follow the power laws of a schedule from those of `s₀`, up to the
rounding of `n` buys. -/
def Follows (s₀ : Pool) (n : ℕ) (s : Pool) : Prop :=
  Along (lowExponent s₀) (highExponent s₀) (n * givenAway s₀ s.reserveCollateral.toNat)
    (n * withheld s₀) s₀.reserveToken.toNat s₀.reserveCollateral.toNat s.reserveToken.toNat
    s.reserveCollateral.toNat

theorem Terms.lowExponent_eq (h : Terms s₀ s) : lowExponent s = lowExponent s₀ := by
  rw [lowExponent, lowExponent, h.wStart, h.wEnd]

theorem Terms.highExponent_eq (h : Terms s₀ s) : highExponent s = highExponent s₀ := by
  rw [highExponent, highExponent, h.wStart, h.wEnd]

theorem Terms.moderate (h : Terms s₀ s) (moderate : Moderate s₀) : Moderate s :=
  ⟨h.wStart.symm ▸ moderate.start_least, h.wEnd.symm ▸ moderate.end_least,
    h.wStart.symm ▸ moderate.start_most, h.wEnd.symm ▸ moderate.end_most⟩

/-- A buy follows the law from the record it finds. -/
theorem Priced.follows {now : U64} {collateralIn wToken tokensOut : U128}
    (h : Priced s now collateralIn wToken tokensOut) (moderate : Moderate s)
    (forward : s.tStart < s.tEnd) : Follows s 1 (s.bought now collateralIn tokensOut) := by
  obtain ⟨collateral, tokens⟩ := h.reserves
  obtain ⟨low_le, le_high⟩ := moderate.exponent_mem forward h.weight
  have along := Weighted.bought_along h.price low_le le_high moderate.high_le
  have left : ((s.bought now collateralIn tokensOut).reserveToken.toNat : ℝ) =
      s.reserveToken.toNat - tokensOut.toNat := by
    rw [← tokens]
    push_cast
    ring
  rw [Follows, givenAway_eq, withheld_eq, left, collateral, Nat.cast_add, Nat.cast_one, one_mul,
    one_mul]
  exact along

/-- One more buy: its slack is no larger than that of the opening's reserves. -/
theorem Follows.trans {n : ℕ} {t : Pool} (some_collateral : 0 < s₀.reserveCollateral.toNat)
    (terms : Terms s₀ s) (fewer : s.reserveToken.toNat ≤ s₀.reserveToken.toNat)
    (h : Follows s₀ n s) (h' : Follows s 1 t) : Follows s₀ (n + 1) t := by
  have pos : (0 : ℝ) < s₀.reserveCollateral.toNat := by exact_mod_cast some_collateral
  have fewer' : (s.reserveToken.toNat : ℝ) ≤ s₀.reserveToken.toNat := by exact_mod_cast fewer
  have grown := h.grows
  have grown' := h'.grows
  rw [Follows, terms.lowExponent_eq, terms.highExponent_eq, Nat.cast_one, one_mul, one_mul] at h'
  have step : givenAway s t.reserveCollateral.toNat ≤ givenAway s₀ t.reserveCollateral.toNat := by
    unfold givenAway
    gcongr
  have step' : withheld s ≤ withheld s₀ := by
    unfold withheld
    gcongr
  have before : (n : ℝ) * givenAway s₀ s.reserveCollateral.toNat ≤
      n * givenAway s₀ t.reserveCollateral.toNat :=
    mul_le_mul_of_nonneg_left (givenAway_mono s₀ grown') (Nat.cast_nonneg n)
  have nonneg : 0 ≤ (n : ℝ) * givenAway s₀ s.reserveCollateral.toNat :=
    mul_nonneg (Nat.cast_nonneg n) (givenAway_nonneg s₀ (Nat.cast_nonneg _))
  have nonneg' : 0 ≤ (n : ℝ) * withheld s₀ := by
    unfold withheld
    positivity
  have both := Along.trans pos (exponentAt_nonneg _) (exponentAt_nonneg _) nonneg nonneg' h h'
  rw [Follows]
  push_cast
  exact both.mono (by linarith) (by linarith)

/-- Every run from a stocked pool on a moderate schedule follows the power laws of its ends. -/
theorem run_follows (moderate : Moderate s₀) (forward : s₀.tStart < s₀.tEnd)
    (some_collateral : 0 < s₀.reserveCollateral.toNat) {held : ℕ}
    (run : Trace Turn ⟨s₀, held⟩ es y) : Follows s₀ (flow buys es) y.record := by
  have kept : Terms s₀ y.record ∧ y.record.reserveToken.toNat ≤ s₀.reserveToken.toNat ∧
      Follows s₀ (flow buys es) y.record := by
    refine run.invariant (fun es y => Terms s₀ y.record ∧
      y.record.reserveToken.toNat ≤ s₀.reserveToken.toNat ∧
      Follows s₀ (flow buys es) y.record) ⟨Terms.refl s₀, Nat.le_refl _, ?_⟩ ?_
    · have pos : (0 : ℝ) < s₀.reserveCollateral.toNat := by exact_mod_cast some_collateral
      simpa [Follows] using Along.refl pos
    · rintro es t e u ⟨terms, fewer, follows⟩ last
      refine ⟨terms.trans last.terms, last.tokens.trans fewer, ?_⟩
      rw [flow_append, flow_singleton]
      cases last with
      | bought priced =>
        exact follows.trans some_collateral terms fewer
          (priced.follows (terms.moderate moderate) (by rwa [terms.tStart, terms.tEnd]))
      | withdrawn | paused | credited | refused => exact follows
  exact kept.2.2

/-- Over any history of a pool opened with both weights between one hundredth and one, whatever
is paused, paid, credited or refused in between: the token reserve that stays is the opening
one times a power of what share of the collateral reserve the opening one is, with an exponent
between those of the schedule's two ends, up to the rounding of each buy. -/
theorem reserves_follow {pool holding creator : Named}
    {reserveToken reserveCollateral wStart wEnd feeRate : U128} {tStart tEnd : U64}
    {feeTreasury : AccountId} (distinct : Distinct [pool, holding, creator]) {a₀ : Accounts}
    (opened : openPool p selfId poolId a₀ pool holding creator reserveToken reserveCollateral
      wStart wEnd tStart tEnd feeTreasury feeRate = .ok a)
    (start : 10000000000000000 ≤ wStart ∧ wStart ≤ ONE)
    (finish : 10000000000000000 ≤ wEnd ∧ wEnd ≤ ONE) (history : History p selfId poolId a es a') :
    ∃ s, read (a' (poolPda p selfId poolId)) = .ok s ∧
      reserveToken.toNat * ((reserveCollateral.toNat : ℝ) / s.reserveCollateral.toNat) ^
            exponentAt (min wStart wEnd) -
          flow buys es * (reserveToken.toNat * (199 + (s.reserveCollateral.toNat : ℝ) /
            reserveCollateral.toNat) / 1000000000000000000) ≤ s.reserveToken.toNat ∧
      s.reserveToken.toNat ≤
        reserveToken.toNat * ((reserveCollateral.toNat : ℝ) / s.reserveCollateral.toNat) ^
            exponentAt (max wStart wEnd) +
          flow buys es * (1 + 100 * reserveToken.toNat / 1000000000000000000 : ℝ) := by
  obtain ⟨s₀, anchored, empty, forward, -, -, some_collateral, rfl⟩ :=
    anchored_of_openPool distinct opened
  obtain ⟨s, anchored', run⟩ := anchored.run history
  rw [empty] at run
  have follows := run_follows ⟨start.1, finish.1, start.2, finish.2⟩ forward
    (toNat_pos_iff.mp some_collateral) run
  rw [Follows, givenAway_eq, withheld_eq] at follows
  exact ⟨s, read_eq_ok_iff.mpr anchored'.stored, follows.least, follows.most⟩

theorem reserves_follow_falling :
    ∃ s, read (demoBoughtTwice (poolPda demo lbpProgram demoPoolId)) = .ok s ∧
      s.reserveToken.toNat ≤
        (1000000 : U128).toNat * (((1000 : U128).toNat : ℝ) / s.reserveCollateral.toNat) ^
            exponentAt (max 990000000000000000 10000000000000000) +
          flow buys [.bought 1500 10, .bought 1600 10] *
            (1 + 100 * (1000000 : U128).toNat / 1000000000000000000 : ℝ) := by
  obtain ⟨s, stored, -, most⟩ := reserves_follow
    (show Distinct [demoRow, demoHolding, demoCreator] by decide) demoOpened_eq (by decide)
    (by decide) demo_bought
  exact ⟨s, stored, most⟩

/-- On a pool of one fixed weight it does not matter how a sum of collateral is split into
buys, nor what else happens between them: two histories that took in the same sum leave token
reserves that differ by no more than the rounding of their buys. -/
theorem split_within {pool holding creator : Named}
    {reserveToken reserveCollateral weight feeRate : U128} {tStart tEnd : U64}
    {feeTreasury : AccountId} (distinct : Distinct [pool, holding, creator]) {a₀ : Accounts}
    (opened : openPool p selfId poolId a₀ pool holding creator reserveToken reserveCollateral
      weight weight tStart tEnd feeTreasury feeRate = .ok a)
    (moderate : 10000000000000000 ≤ weight ∧ weight ≤ ONE) {a'' : Accounts}
    {fs : List PoolEntry} (history : History p selfId poolId a es a')
    (history' : History p selfId poolId a fs a'')
    (same : flow PoolEntry.collateralIn es = flow PoolEntry.collateralIn fs) :
    ∃ s t, read (a' (poolPda p selfId poolId)) = .ok s ∧
      read (a'' (poolPda p selfId poolId)) = .ok t ∧
      (s.reserveToken.toNat : ℝ) - t.reserveToken.toNat ≤
        flow buys es * (1 + 100 * reserveToken.toNat / 1000000000000000000 : ℝ) +
          flow buys fs * (reserveToken.toNat * (199 + (t.reserveCollateral.toNat : ℝ) /
            reserveCollateral.toNat) / 1000000000000000000) := by
  obtain ⟨s, stored, -, most⟩ := reserves_follow distinct opened moderate moderate history
  obtain ⟨t, stored', least, -⟩ := reserves_follow distinct opened moderate moderate history'
  obtain ⟨s₀, s', -, opening, stored_s, books⟩ := proceeds_accounted distinct opened history
  obtain ⟨t₀, t', -, opening', stored_t, books'⟩ := proceeds_accounted distinct opened history'
  obtain rfl := Except.ok.inj (stored.symm.trans stored_s)
  obtain rfl := Except.ok.inj (stored'.symm.trans stored_t)
  obtain rfl := Except.ok.inj (opening.symm.trans opening')
  refine ⟨s, t, stored, stored', ?_⟩
  -- both collateral reserves are the opening one and the sum
  have level : s.reserveCollateral.toNat = t.reserveCollateral.toNat := by
    rw [books.collateral, books'.collateral, same]
  have upper : max weight weight = weight := word_ext (by rw [toNat_max, max_self])
  have lower : min weight weight = weight := word_ext (by rw [toNat_min, min_self])
  rw [upper, level] at most
  rw [lower] at least
  linarith

/-- The same pool at equal weights throughout. -/
def demoFlat : Accounts :=
  (demoOpened 500000000000000000 500000000000000000).toOption.getD demoAccounts

def demoHalf : Accounts := land demoFlat (demoPurchase 1500 10)

/-- Twenty units at once, or ten and ten. -/
theorem split_within_twenty :
    ∃ s t, read (land demoFlat (demoPurchase 1500 20) (poolPda demo lbpProgram demoPoolId)) =
        .ok s ∧
      read (land demoHalf (demoPurchase 1600 10) (poolPda demo lbpProgram demoPoolId)) = .ok t ∧
      (s.reserveToken.toNat : ℝ) - t.reserveToken.toNat ≤
        flow buys [.bought 1500 20] *
            (1 + 100 * (1000000 : U128).toNat / 1000000000000000000 : ℝ) +
          flow buys [.bought 1500 10, .bought 1600 10] * ((1000000 : U128).toNat *
            (199 + (t.reserveCollateral.toNat : ℝ) / (1000 : U128).toNat) /
              1000000000000000000) := by
  have opened : demoOpened 500000000000000000 500000000000000000 = .ok demoFlat :=
    eq_ok_getD (by decide +kernel)
  have once : History demo lbpProgram demoPoolId demoFlat [.bought 1500 20]
      (land demoFlat (demoPurchase 1500 20)) :=
    Trace.start.next (demo_step (by decide) (by decide +kernel) rfl rfl)
  have half : History demo lbpProgram demoPoolId demoFlat [.bought 1500 10] demoHalf :=
    Trace.start.next (demo_step (by decide) (by decide +kernel) rfl rfl)
  have twice : History demo lbpProgram demoPoolId demoFlat [.bought 1500 10, .bought 1600 10]
      (land demoHalf (demoPurchase 1600 10)) :=
    half.next (demo_step (by decide) (by decide +kernel) rfl rfl)
  exact split_within (show Distinct [demoRow, demoHolding, demoCreator] by decide) opened
    (by decide) once twice rfl

end PoolProgram

end Antumbra
