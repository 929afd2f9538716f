/-
# Protocol fees

A fee is a share of an amount, rounded up against whoever pays it. The ceiling
on the rate is part of the configuration, so a rate above it is refused when it
is set and never has to be checked again; with the ceiling at most one, the fee
never consumes more than the amount.
-/

import Antumbra.Core.MulDiv
import Antumbra.Math.Fallible

namespace Antumbra

open Antumbra.Math

/-- One hundred percent, in millionths. -/
def RATE_ONE : U128 := 1000000

/-- The per-swap cap: 1% of the collateral moved. -/
def CAP_PER_SWAP : U128 := 10000

/-- The at-close cap: 5% of the collateral raised. -/
def CAP_AT_CLOSE : U128 := 50000

/-- A rate and the ceiling it may never exceed. -/
structure FeeConfig where
  rate : U128
  cap : U128
  rate_le : rate ≤ cap
  cap_le : cap ≤ RATE_ONE

namespace FeeConfig

/-- Refuses a rate above the cap rather than clamping it. -/
def new (rate cap : U128) : Except CurveError FeeConfig :=
  if hcap : RATE_ONE < cap then
    .error .zeroAmount
  else if hrate : cap < rate then
    .error .exceedsRealCollateral
  else
    .ok { rate, cap, rate_le := BitVec.not_lt.mp hrate, cap_le := BitVec.not_lt.mp hcap }

/-- The rate both launchpads ship at. -/
def zero (cap : U128) : Except CurveError FeeConfig := FeeConfig.new 0 cap

/-- Change the rate under the same ceiling: the answer, and the configuration it leaves. -/
def setRate (cfg : FeeConfig) (rate : U128) : Except CurveError Unit × FeeConfig :=
  if h : cfg.cap < rate then
    (.error .exceedsRealCollateral, cfg)
  else
    (.ok (), { cfg with rate, rate_le := BitVec.not_lt.mp h })

/-- `amount * rate`, rounded up. -/
def feeOn (cfg : FeeConfig) (amount : U128) : Except CurveError U128 :=
  if cfg.rate = 0 then
    .ok 0
  else do
    let fee ← mulDivCeil amount cfg.rate RATE_ONE
    if amount < fee then
      .error .exceedsRealCollateral
    else
      return fee

/-- The fee comes off the input before pricing: the fee and what is priced. -/
def buyFee (cfg : FeeConfig) (cIn : U128) : Except CurveError (U128 × U128) :=
  if cIn = 0 then
    .error .zeroAmount
  else do
    let fee ← cfg.feeOn cIn
    let effective ← okOr .overflow (checkedSub cIn fee)
    if effective = 0 then
      .error .zeroAmount
    else
      return (fee, effective)

/-- A fee taken off what changes hands: the fee and what is paid on. -/
def takeFee (cfg : FeeConfig) (amount : U128) : Except CurveError (U128 × U128) := do
  let fee ← cfg.feeOn amount
  let paid ← okOr .overflow (checkedSub amount fee)
  return (fee, paid)

/-- The fee comes off the raw output after pricing: the fee and what the seller is paid. -/
def sellFee (cfg : FeeConfig) (cOutRaw : U128) : Except CurveError (U128 × U128) :=
  cfg.takeFee cOutRaw

/-- The fee comes off the collateral balance when the creator withdraws: the fee and what
the creator is paid. -/
def closeFee (cfg : FeeConfig) (collateralBalance : U128) : Except CurveError (U128 × U128) :=
  cfg.takeFee collateralBalance

theorem new_eq_ok_iff {rate cap : U128} {cfg : FeeConfig} :
    FeeConfig.new rate cap = .ok cfg ↔ cfg.rate = rate ∧ cfg.cap = cap := by
  unfold new
  split
  · next h =>
    simp only [reduceCtorEq, false_iff, not_and]
    rintro - rfl
    exact BitVec.not_lt.mpr cfg.cap_le h
  · split
    · next h =>
      simp only [reduceCtorEq, false_iff, not_and]
      rintro rfl rfl
      exact BitVec.not_lt.mpr cfg.rate_le h
    · obtain ⟨rate', cap', _, _⟩ := cfg
      simp only [Except.ok.injEq, FeeConfig.mk.injEq]
      exact ⟨fun h => ⟨h.1.symm, h.2.symm⟩, fun h => ⟨h.1.symm, h.2.symm⟩⟩

theorem new_eq_ok {rate cap : U128} (hrate : rate ≤ cap) (hcap : cap ≤ RATE_ONE) :
    FeeConfig.new rate cap = .ok ⟨rate, cap, hrate, hcap⟩ :=
  new_eq_ok_iff.mpr ⟨rfl, rfl⟩

variable (cfg : FeeConfig)

theorem toNat_rate_le : cfg.rate.toNat ≤ RATE_ONE.toNat := by
  have := cfg.rate_le
  have := cfg.cap_le
  rw [BitVec.le_def] at *
  omega

/-- A share of an amount is at most the amount. -/
theorem feeShare_le (amount : ℕ) : (amount * cfg.rate.toNat) ⌈/⌉ RATE_ONE.toNat ≤ amount := by
  have pos : 0 < RATE_ONE.toNat := by decide
  rw [ceilDiv_le_iff_le_mul pos, Nat.mul_comm]
  exact Nat.mul_le_mul_right amount cfg.toNat_rate_le

/-- The fee is always the rounded-up share: no branch of `feeOn` refuses. -/
theorem feeOn_eq_ok_iff {amount fee : U128} :
    cfg.feeOn amount = .ok fee ↔
      fee.toNat = (amount.toNat * cfg.rate.toNat) ⌈/⌉ RATE_ONE.toNat := by
  -- with a rate of at most one the fee never exceeds the amount
  have share := cfg.feeShare_le amount.toNat
  unfold feeOn
  split
  · next zero =>
    have free : (amount.toNat * cfg.rate.toNat) ⌈/⌉ RATE_ONE.toNat = 0 := by
      rw [zero, toNat_zero, Nat.mul_zero, zero_ceilDiv]
    rw [Except.ok.injEq, free, ← BitVec.toNat_inj]
    exact eq_comm
  · simp only [bind_eq_ok_iff, mulDivCeil_eq_ok_iff]
    constructor
    · rintro ⟨fee', ⟨-, formula⟩, answer⟩
      split at answer
      · cases answer
      · cases answer
        exact formula
    · intro formula
      refine ⟨fee, ⟨by decide, formula⟩, ?_⟩
      rw [if_neg (by rw [BitVec.not_lt, BitVec.le_def]; omega), pure_eq_ok]

/-- A buy's input splits into the rounded-up fee and the rounded-down rest, and is
refused exactly when nothing is left to price. -/
theorem buyFee_eq_ok_iff {cIn fee effective : U128} :
    cfg.buyFee cIn = .ok (fee, effective) ↔
      fee.toNat + effective.toNat = cIn.toNat ∧
        effective.toNat = cIn.toNat * (RATE_ONE.toNat - cfg.rate.toNat) / RATE_ONE.toNat ∧
        effective ≠ 0 := by
  have share := cfg.feeShare_le cIn.toNat
  have rate_le := cfg.toNat_rate_le
  have pos : 0 < RATE_ONE.toNat := by decide
  -- rounding the fee up is rounding the rest down
  have complement := sub_ceilDiv_eq_div cIn.toNat cfg.rate.toNat
    (c := RATE_ONE.toNat - cfg.rate.toNat) (by omega)
  rw [Nat.add_sub_cancel' rate_le] at complement
  unfold buyFee
  split
  · next zero =>
    simp only [reduceCtorEq, zero, toNat_zero, Nat.zero_mul, Nat.zero_div, false_iff,
      not_and, not_not]
    exact fun _ none => word_ext none
  · simp only [bind_eq_ok_iff, feeOn_eq_ok_iff, okOr_eq_ok_iff, checkedSub_eq_some_iff]
    constructor
    · rintro ⟨fee', formula, effective', sum, answer⟩
      split at answer
      · cases answer
      · next nonzero =>
        cases answer
        exact ⟨by omega, by omega, nonzero⟩
    · rintro ⟨sum, formula, nonzero⟩
      refine ⟨fee, by omega, effective, by omega, ?_⟩
      rw [if_neg nonzero, pure_eq_ok]

/-! ### Every configuration a program can hold -/

/-- The configuration after a sequence of rate changes, accepted or refused. -/
def setRates (cfg : FeeConfig) (rates : List U128) : FeeConfig :=
  rates.foldl (fun cfg rate => (cfg.setRate rate).2) cfg

theorem setRate_cap (rate : U128) : (cfg.setRate rate).2.cap = cfg.cap := by
  unfold setRate
  split <;> rfl

/-- No sequence of rate changes moves the ceiling. -/
theorem setRates_cap (rates : List U128) : (cfg.setRates rates).cap = cfg.cap := by
  induction rates generalizing cfg with
  | nil => rfl
  | cons rate rates ih => exact (ih _).trans (cfg.setRate_cap rate)

/-- A refused rate change changes nothing. -/
theorem setRate_refused {rate : U128} {e : CurveError} (h : (cfg.setRate rate).1 = .error e) :
    (cfg.setRate rate).2 = cfg := by
  unfold setRate at h ⊢
  split at h
  · next above => rw [dif_pos above]
  · cases h

/-! ### What the fees come to -/

/-- The fee on an amount, as a word. -/
def feeShare (amount : U128) : U128 :=
  BitVec.ofNat 128 ((amount.toNat * cfg.rate.toNat) ⌈/⌉ RATE_ONE.toNat)

theorem toNat_feeShare (amount : U128) :
    (cfg.feeShare amount).toNat = (amount.toNat * cfg.rate.toNat) ⌈/⌉ RATE_ONE.toNat := by
  have share := cfg.feeShare_le amount.toNat
  have := amount.isLt
  rw [feeShare, BitVec.toNat_ofNat, Nat.mod_eq_of_lt (by omega)]

theorem feeOn_eq (amount : U128) : cfg.feeOn amount = .ok (cfg.feeShare amount) :=
  cfg.feeOn_eq_ok_iff.mpr (cfg.toNat_feeShare amount)

theorem feeShare_le_amount (amount : U128) : cfg.feeShare amount ≤ amount := by
  rw [BitVec.le_def, toNat_feeShare]
  exact cfg.feeShare_le amount.toNat

/-- A fee taken off an amount splits it exactly. -/
theorem takeFee_eq (amount : U128) :
    ∃ paid, cfg.takeFee amount = .ok (cfg.feeShare amount, paid) ∧
      (cfg.feeShare amount).toNat + paid.toNat = amount.toNat := by
  have covered := cfg.feeShare_le_amount amount
  have sub : checkedSub amount (cfg.feeShare amount) = some (amount - cfg.feeShare amount) :=
    if_pos covered
  refine ⟨amount - cfg.feeShare amount, ?_, ?_⟩
  · rw [takeFee, feeOn_eq, ok_bind, sub]
    rfl
  · rw [toNat_sub_of_le covered]
    rw [BitVec.le_def] at covered
    omega

/-- What is taken off an amount and what is paid on are determined by the share. -/
theorem takeFee_eq_ok_iff {amount fee paid : U128} :
    cfg.takeFee amount = .ok (fee, paid) ↔
      fee.toNat = (amount.toNat * cfg.rate.toNat) ⌈/⌉ RATE_ONE.toNat ∧
        fee.toNat + paid.toNat = amount.toNat := by
  obtain ⟨rest, answer, parts⟩ := cfg.takeFee_eq amount
  rw [answer, Except.ok.injEq, Prod.mk.injEq, ← toNat_feeShare]
  constructor
  · rintro ⟨rfl, rfl⟩
    exact ⟨rfl, parts⟩
  · rintro ⟨share, split⟩
    exact ⟨word_ext share.symm, word_ext (by omega)⟩

/-- A positive input is refused exactly when less than one unit of it would be priced. -/
theorem buyFee_refused_iff {cIn : U128} :
    (∃ e, cfg.buyFee cIn = .error e) ↔
      cIn.toNat * (RATE_ONE.toNat - cfg.rate.toNat) < RATE_ONE.toNat := by
  have pos : 0 < RATE_ONE.toNat := by decide
  have rest_le : cIn.toNat * (RATE_ONE.toNat - cfg.rate.toNat) / RATE_ONE.toNat ≤ cIn.toNat :=
    Nat.div_le_of_le_mul (by
      rw [Nat.mul_comm]
      exact Nat.mul_le_mul_right _ (Nat.sub_le _ _))
  have := cIn.isLt
  constructor
  · rintro ⟨e, refused⟩
    by_contra enough
    rw [not_lt] at enough
    -- otherwise the rest is at least one, and the split of `buyFee_eq_ok_iff` exists
    have some_rest := (Nat.one_le_div_iff pos).mpr enough
    let effective := BitVec.ofNat 128
      (cIn.toNat * (RATE_ONE.toNat - cfg.rate.toNat) / RATE_ONE.toNat)
    have value : effective.toNat = _ :=
      (BitVec.toNat_ofNat _ 128).trans (Nat.mod_eq_of_lt (by omega))
    have answer : cfg.buyFee cIn = .ok (cIn - effective, effective) := by
      rw [buyFee_eq_ok_iff, toNat_sub_of_le (by rw [BitVec.le_def]; omega), toNat_pos_iff]
      exact ⟨by omega, value, by omega⟩
    rw [answer] at refused
    cases refused
  · intro short
    refine exists_error_of_ne_ok ?_
    rintro ⟨fee, effective⟩ answer
    obtain ⟨-, formula, nonzero⟩ := cfg.buyFee_eq_ok_iff.mp answer
    rw [Nat.div_eq_of_lt short] at formula
    exact toNat_pos_iff.mp nonzero |>.ne' formula

/-- A buy that is not refused takes the fee `feeOn` quotes. -/
theorem buyFee_split {cIn fee effective : U128} (answer : cfg.buyFee cIn = .ok (fee, effective)) :
    fee = cfg.feeShare cIn ∧ 0 < effective.toNat ∧
      (cfg.feeShare cIn).toNat + effective.toNat = cIn.toNat := by
  obtain ⟨total, formula, nonzero⟩ := cfg.buyFee_eq_ok_iff.mp answer
  have rate_le := cfg.toNat_rate_le
  have pos : 0 < RATE_ONE.toNat := by decide
  -- both leave the same rest
  have rest := sub_ceilDiv_eq_div cIn.toNat cfg.rate.toNat
    (c := RATE_ONE.toNat - cfg.rate.toNat) (by omega)
  rw [Nat.add_sub_cancel' rate_le, ← formula, ← cfg.toNat_feeShare] at rest
  have share := BitVec.le_def.mp (cfg.feeShare_le_amount cIn)
  exact ⟨word_ext (by omega), toNat_pos_iff.mp nonzero, by omega⟩

/-- The fees on the parts of an amount, in order. -/
theorem mapM_feeOn (amounts : List U128) :
    amounts.mapM cfg.feeOn = .ok (amounts.map cfg.feeShare) := by
  induction amounts with
  | nil => rfl
  | cons amount amounts ih => simp [List.mapM_cons, feeOn_eq, ih]

/-- The fees on the parts are together no less than the fee on the whole, and more than
it, if at all, by less than the number of parts. -/
theorem feeShare_parts {amounts : List U128} {whole : U128}
    (sum : whole.toNat = (amounts.map BitVec.toNat).sum) :
    (cfg.feeShare whole).toNat ≤ ((amounts.map cfg.feeShare).map BitVec.toNat).sum ∧
      ((cfg.feeShare whole).toNat < ((amounts.map cfg.feeShare).map BitVec.toNat).sum →
        ((amounts.map cfg.feeShare).map BitVec.toNat).sum <
          (cfg.feeShare whole).toNat + amounts.length) := by
  have values : (amounts.map cfg.feeShare).map BitVec.toNat =
      (amounts.map BitVec.toNat).map fun a => (a * cfg.rate.toNat) ⌈/⌉ RATE_ONE.toNat := by
    rw [List.map_map, List.map_map]
    refine List.map_congr_left fun amount _ => ?_
    rw [Function.comp_apply, Function.comp_apply, cfg.toNat_feeShare]
  have length : amounts.length = (amounts.map BitVec.toNat).length := List.length_map _ |>.symm
  have pos : 0 < RATE_ONE.toNat := by decide
  rw [values, toNat_feeShare, sum, length]
  exact ⟨ceilDiv_sum_le _ _ pos, sum_ceilDiv_lt pos⟩

/-- For every configuration made by `new` or `zero` and any rate changes since: the rate
never passes the ceiling nor the ceiling one hundred percent, and a refused change changes
nothing; a fee is never refused, is the rounded-up share and never more than the amount; the
fee at a sell or a close and what is paid on make up the amount; a positive buy is refused
exactly when less than one unit of it would be priced, and otherwise its fee and its input
make it up; and the fees on the parts of an amount are together no less than the fee on the
whole, and more than it, if at all, by less than the number of parts. -/
theorem fees_exact {rate cap : U128} {cfg₀ : FeeConfig}
    (made : FeeConfig.new rate cap = .ok cfg₀ ∨ FeeConfig.zero cap = .ok cfg₀)
    (rates : List U128) :
    let cfg := cfg₀.setRates rates
    (cfg.rate ≤ cfg.cap ∧ cfg.cap = cap ∧ cfg.cap ≤ RATE_ONE ∧
        ∀ r e, (cfg.setRate r).1 = .error e → (cfg.setRate r).2 = cfg) ∧
      (∀ amount, ∃ fee, cfg.feeOn amount = .ok fee ∧
        fee.toNat = (amount.toNat * cfg.rate.toNat) ⌈/⌉ RATE_ONE.toNat ∧ fee ≤ amount ∧
        (∃ paid, cfg.sellFee amount = .ok (fee, paid) ∧
          fee.toNat + paid.toNat = amount.toNat) ∧
        (∃ paid, cfg.closeFee amount = .ok (fee, paid) ∧
          fee.toNat + paid.toNat = amount.toNat) ∧
        (0 < amount.toNat →
          ((∃ e, cfg.buyFee amount = .error e) ↔
            amount.toNat * (RATE_ONE.toNat - cfg.rate.toNat) < RATE_ONE.toNat) ∧
          ∀ fee' effective, cfg.buyFee amount = .ok (fee', effective) →
            fee' = fee ∧ 0 < effective.toNat ∧
              fee.toNat + effective.toNat = amount.toNat)) ∧
      ∀ (amounts : List U128) (whole fee : U128),
        whole.toNat = (amounts.map BitVec.toNat).sum → cfg.feeOn whole = .ok fee →
          ∃ fees, amounts.mapM cfg.feeOn = .ok fees ∧
            fee.toNat ≤ (fees.map BitVec.toNat).sum ∧
            (fee.toNat < (fees.map BitVec.toNat).sum →
              (fees.map BitVec.toNat).sum < fee.toNat + amounts.length) := by
  intro cfg
  have cap_eq : cfg₀.cap = cap := by
    rcases made with made | made
    · exact (new_eq_ok_iff.mp made).2
    · exact (new_eq_ok_iff.mp made).2
  refine ⟨⟨cfg.rate_le, (cfg₀.setRates_cap rates).trans cap_eq, cfg.cap_le,
    fun r e => cfg.setRate_refused⟩, fun amount => ?_, fun amounts whole fee sum answer => ?_⟩
  · exact ⟨cfg.feeShare amount, cfg.feeOn_eq amount, cfg.toNat_feeShare amount,
      cfg.feeShare_le_amount amount, cfg.takeFee_eq amount, cfg.takeFee_eq amount,
      fun _ => ⟨cfg.buyFee_refused_iff, fun _ _ => cfg.buyFee_split⟩⟩
  · rw [feeOn_eq, Except.ok.injEq] at answer
    subst answer
    exact ⟨amounts.map cfg.feeShare, cfg.mapM_feeOn amounts, cfg.feeShare_parts sum⟩

theorem fees_exact_small :
    let cfg := (⟨5000, 10000, by decide, by decide⟩ : FeeConfig).setRates [20000, 3000]
    (cfg.rate ≤ cfg.cap ∧ cfg.cap = 10000 ∧ cfg.cap ≤ RATE_ONE ∧
        ∀ r e, (cfg.setRate r).1 = .error e → (cfg.setRate r).2 = cfg) ∧
      ∀ amount, ∃ fee, cfg.feeOn amount = .ok fee ∧
        fee.toNat = (amount.toNat * cfg.rate.toNat) ⌈/⌉ RATE_ONE.toNat ∧ fee ≤ amount := by
  obtain ⟨bounds, fees, -⟩ :=
    fees_exact (.inl (new_eq_ok (by decide : (5000 : U128) ≤ 10000) (by decide))) [20000, 3000]
  refine ⟨bounds, fun amount => ?_⟩
  obtain ⟨fee, answer, share, covered, -⟩ := fees amount
  exact ⟨fee, answer, share, covered⟩

end FeeConfig

end Antumbra
