/-
# Closing a sale

The creator is paid once the sale reserve is zero, and the reserve falls only by
buys whose input is exact and whose output is whatever the curve gives for it.
Here the chain runs a sale from its opening through any accepted buys, and the
question is when the reserve can still be brought to zero: the remainder must be
an output the curve can give, and the payment for it must fit in a word.
-/

import Antumbra.Curve.Instructions

namespace Antumbra

open Antumbra.Math

/-- Why a transaction did not land. -/
inductive Failure
  | refused (e : SpelError)
  | transferFailed
  deriving DecidableEq

/-- A sale's two accounts, as the chain holds them. -/
structure Listing where
  sale : Account
  holding : Account
  deriving DecidableEq

/-- A buy someone sends: a payer and two amounts. -/
structure Purchase where
  buyer : AccountWithMetadata
  collateralIn : U128
  minTokensOut : U128

/-- What an instruction leaves of row `i`. -/
def SpelOutput.post (out : SpelOutput) (i : ℕ) (before : AccountWithMetadata) : Account :=
  (out.accounts.getD i before).account

/-- The native transfer program on the two accounts it is called with. -/
def authTransfer (call : ChainedCall) : Option (Account × Account) :=
  match call.accounts with
  | [sender, recipient] =>
    (checkedSub sender.account.balance call.amount).bind fun debited =>
      (checkedAdd recipient.account.balance call.amount).map fun credited =>
        ({ sender.account with balance := debited }, { recipient.account with balance := credited })
  | _ => none

/-- The holding after the payments that name it as their recipient. -/
def settle : List ChainedCall → Account → Option Account
  | [], holding => some holding
  | call :: calls, _ => (authTransfer call).bind fun moved => settle calls moved.2

namespace Listing

variable (p : Addressing ProgramId) (selfId : ProgramId) (saleId : Bytes 32)

/-- A program owns the accounts it opened. -/
def claimed (account : Account) : Account := { account with programOwner := selfId }

/-- Open a sale on the chain. -/
def create (sale holding creator : AccountWithMetadata)
    (vt vc saleReserve seedReserve : U128) (feeTreasury : AccountId) (feeRate : U128) :
    Except Failure Listing := do
  let out ← (SaleProgram.createSale p selfId sale holding creator saleId vt vc saleReserve
    seedReserve feeTreasury feeRate).mapError .refused
  return {
    sale := claimed selfId (out.post 0 sale)
    holding := claimed selfId (out.post 1 holding) }

/-- Run a buy on the chain: the program, then the payment it chains. -/
def buy (l : Listing) (x : Purchase) : Except Failure Listing := do
  let sale : AccountWithMetadata := ⟨l.sale, false, SaleProgram.salePda p selfId saleId⟩
  let holding : AccountWithMetadata := ⟨l.holding, false, SaleProgram.holdingPda p selfId saleId⟩
  let out ← (SaleProgram.executeBuy p selfId sale x.buyer holding saleId x.collateralIn
    x.minTokensOut).mapError .refused
  let paid ← okOr .transferFailed (settle out.calls (out.post 2 holding))
  return { sale := out.post 0 sale, holding := paid }

/-- A sequence of buys, all accepted. -/
def buys (l : Listing) : List Purchase → Except Failure Listing
  | [] => .ok l
  | x :: xs => do
    let l ← l.buy p selfId saleId x
    l.buys xs

/-- The record says that nothing is left to sell. -/
def Closed (l : Listing) : Prop :=
  ∃ s, SaleProgram.read l.sale = .ok s ∧ s.saleReserve = 0

/-- Some sequence of accepted buys closes the sale. -/
def Closable (l : Listing) : Prop := ∃ xs l', l.buys p selfId saleId xs = .ok l' ∧ l'.Closed

/-- One accepted buy closes the sale. -/
def ClosableAtOnce (l : Listing) : Prop := ∃ x l', l.buy p selfId saleId x = .ok l' ∧ l'.Closed

end Listing

namespace Sale

/-- The virtual tokens that stay when everything is sold. -/
def rest (s : Sale) : ℕ := s.vt.toNat - s.saleReserve.toNat

/-- The virtual collateral at which no more than the rest stays. -/
def closingLevel (s : Sale) : ℕ := (s.vt.toNat * s.vc.toNat) ⌈/⌉ s.rest

/-- Paying up to the closing level takes no more than what is for sale. -/
def ExactRemainder (s : Sale) : Prop := (s.rest - 1) * s.closingLevel < s.vt.toNat * s.vc.toNat

/-- The least input that leaves `effective` to price after the fee. -/
def gross (s : Sale) (effective : ℕ) : ℕ :=
  (effective * RATE_ONE.toNat) ⌈/⌉ (RATE_ONE.toNat - s.feeRate.toNat)

/-- The closing payment stays inside a word, on the curve and in the holding. -/
def ClosingFits (s : Sale) (held : ℕ) : Prop :=
  s.closingLevel < 2 ^ 128 ∧ held + s.gross (s.closingLevel - s.vc.toNat) < 2 ^ 128

end Sale

namespace Listing

open SaleProgram (read_eq_ok_iff)

variable {p : Addressing ProgramId} {selfId : ProgramId} {saleId : Bytes 32}
variable {tokens collateral : ℕ} {l l' : Listing} {s : Sale}

/-- What holds of a listing between its opening and its close. -/
structure Listed (p : Addressing ProgramId) (selfId : ProgramId) (saleId : Bytes 32)
    (tokens collateral : ℕ) (l : Listing) (s : Sale) : Prop where
  stored : l.sale.data = saleCodec.encode s
  saleOwner : l.sale.programOwner = selfId
  holdingOwner : l.holding.programOwner = selfId
  treasury : s.treasury = SaleProgram.holdingPda p selfId saleId
  rate_le : s.feeRate ≤ CAP_PER_SWAP
  funded : l.holding.balance.toNat = s.realCollateral.toNat + s.feesAccrued.toNat
  offsets : Curve.Offsets tokens collateral s.curve

/-- A single payment lands exactly when the payer covers it and the sum fits. -/
theorem settle_payment_eq_some_iff {program : ProgramId} {sender recipient : AccountWithMetadata}
    {amount : U128} {before held : Account} :
    settle [⟨program, [sender, recipient], amount⟩] before = some held ↔
      amount ≤ sender.account.balance ∧
        recipient.account.balance.toNat + amount.toNat < 2 ^ 128 ∧
        held = { recipient.account with balance := recipient.account.balance + amount } := by
  simp only [settle, authTransfer, Option.bind_eq_some_iff, Option.map_eq_some_iff,
    checkedSub_eq_some_iff_le, checkedAdd_eq_some_iff_fits, Option.some.injEq]
  constructor
  · rintro ⟨_, ⟨_, ⟨covered, rfl⟩, _, ⟨fits, rfl⟩, rfl⟩, rfl⟩
    exact ⟨covered, fits, rfl⟩
  · rintro ⟨covered, fits, rfl⟩
    exact ⟨_, ⟨_, ⟨covered, rfl⟩, _, ⟨fits, rfl⟩, rfl⟩, rfl⟩

/-! ### Opening -/

theorem listed_of_create {sale holding creator : AccountWithMetadata}
    {vt vc saleReserve seedReserve : U128} {feeTreasury : AccountId} {feeRate : U128}
    (created : create p selfId saleId sale holding creator vt vc saleReserve seedReserve feeTreasury
      feeRate = .ok l) :
    ∃ s, Listed p selfId saleId (vt.toNat - saleReserve.toNat) vc.toNat l s ∧
      s.vt = vt ∧ s.vc = vc ∧ s.saleReserve = saleReserve := by
  simp only [create, bind_eq_ok_iff, mapError_eq_ok_iff, pure_eq_ok, Except.ok.injEq] at created
  obtain ⟨out, accepted, rfl⟩ := created
  obtain ⟨s, rfl, -, -, fresh, treasury, -, -, -, rate_le, raised, fees, hvt, hvc, reserve,
    offsets⟩ := SaleProgram.createSale_eq_ok accepted
  exact ⟨s,
    { stored := rfl
      saleOwner := rfl
      holdingOwner := rfl
      treasury
      rate_le
      funded := by
        rw [raised, fees]
        simp [SpelOutput.post, claimed, fresh, Account.default]
      offsets }, hvt, hvc, reserve⟩

/-! ### One buy -/

/-- The conditions under which a buy is accepted. -/
structure Buys (l : Listing) (s : Sale) (x : Purchase) (fee effective out : U128) : Prop where
  unsold : s.saleReserve ≠ 0
  signed : x.buyer.isAuthorized = true
  owned : x.buyer.account.programOwner = AUTH_TRANSFER_PROGRAM_ID
  covered : x.collateralIn ≤ x.buyer.account.balance
  fits : l.holding.balance.toNat + x.collateralIn.toNat < 2 ^ 128
  split : fee.toNat + effective.toNat = x.collateralIn.toNat
  share : effective.toNat =
    x.collateralIn.toNat * (RATE_ONE.toNat - s.feeRate.toNat) / RATE_ONE.toNat
  nonzero : effective ≠ 0
  quote : s.curve.quoteBuy effective = .ok out
  minimum : x.minTokensOut ≤ out

/-- The listing after an accepted buy. -/
def after (l : Listing) (s : Sale) (x : Purchase) (fee effective out : U128) : Listing where
  sale := SaleProgram.write l.sale (s.bought fee effective out)
  holding := { l.holding with balance := l.holding.balance + x.collateralIn }

/-- A buy on a listed sale: accepted exactly under `Buys`, and then with that effect. -/
theorem buy_eq_ok_iff (listed : Listed p selfId saleId tokens collateral l s) (x : Purchase) :
    l.buy p selfId saleId x = .ok l' ↔
      ∃ fee effective out, Buys l s x fee effective out ∧ l' = l.after s x fee effective out := by
  have funded := listed.funded
  simp only [buy, bind_eq_ok_iff, mapError_eq_ok_iff, okOr_eq_ok_iff, pure_eq_ok, Except.ok.injEq,
    SaleProgram.executeBuy_eq_ok_iff ⟨l.sale, false, SaleProgram.salePda p selfId saleId⟩
      listed.stored listed.rate_le listed.offsets]
  constructor
  · rintro ⟨_, ⟨fee, effective, tokensOut, h, rfl⟩, held, paid, rfl⟩
    obtain ⟨-, -, rfl⟩ := settle_payment_eq_some_iff.mp paid
    exact ⟨fee, effective, tokensOut,
      { unsold := h.unsold, signed := h.signed, owned := h.owned, covered := h.covered,
        fits := h.fits, split := h.split, share := h.share, nonzero := h.nonzero,
        quote := h.quote, minimum := h.minimum }, rfl⟩
  · rintro ⟨fee, effective, tokensOut, h, rfl⟩
    have split := h.split
    have fits := h.fits
    refine ⟨_, ⟨fee, effective, tokensOut, ?_, rfl⟩, _,
      settle_payment_eq_some_iff.mpr ⟨h.covered, h.fits, rfl⟩, rfl⟩
    exact
      { saleAt := rfl, holdingAt := rfl, saleOwner := listed.saleOwner,
        holdingOwner := listed.holdingOwner, treasury := listed.treasury, unsold := h.unsold,
        signed := h.signed, owned := h.owned, covered := h.covered, fits := h.fits,
        split := h.split, share := h.share, nonzero := h.nonzero, quote := h.quote,
        minimum := h.minimum, accrues := by omega }

/-- The record and the holding move together, and the curve underneath buys. -/
theorem Buys.listed {x : Purchase} {fee effective out : U128}
    (h : Buys l s x fee effective out) (listed : Listed p selfId saleId tokens collateral l s) :
    Listed p selfId saleId tokens collateral (l.after s x fee effective out)
      (s.bought fee effective out) := by
  have funded := listed.funded
  have split := h.split
  have fits := h.fits
  obtain ⟨-, -, -, realCollateral⟩ := listed.offsets.toNat_bought h.quote
  have fees : (s.feesAccrued + fee).toNat = s.feesAccrued.toNat + fee.toNat := by
    rw [BitVec.toNat_add, Nat.mod_eq_of_lt (by omega)]
  have held : (l.holding.balance + x.collateralIn).toNat =
      l.holding.balance.toNat + x.collateralIn.toNat := by
    rw [BitVec.toNat_add, Nat.mod_eq_of_lt fits]
  exact
    { stored := rfl
      saleOwner := listed.saleOwner
      holdingOwner := listed.holdingOwner
      treasury := listed.treasury
      rate_le := listed.rate_le
      funded := by
        dsimp only [after, Sale.bought]
        rw [held, fees, realCollateral]
        dsimp only [Sale.curve]
        omega
      offsets := listed.offsets.bought h.quote }

/-- What buys do to a record and its holding over a stretch of them: the rate stands,
the product does not fall, and the collateral priced is at most what the fee leaves of
the collateral paid. -/
structure Progress (s s' : Sale) (held held' : ℕ) : Prop where
  rate_eq : s'.feeRate = s.feeRate
  fair : s.curve.pool.Fair s'.curve.pool
  priced : s'.vc.toNat * RATE_ONE.toNat + held * (RATE_ONE.toNat - s.feeRate.toNat) ≤
    s.vc.toNat * RATE_ONE.toNat + held' * (RATE_ONE.toNat - s.feeRate.toNat)

theorem Progress.refl (s : Sale) (held : ℕ) : Progress s s held held :=
  ⟨rfl, Pool.Fair.refl _, Nat.le_refl _⟩

theorem Progress.trans {s s' s'' : Sale} {held held' held'' : ℕ} (h : Progress s s' held held')
    (h' : Progress s' s'' held' held'') : Progress s s'' held held'' := by
  have first := h.priced
  have second := h'.priced
  rw [h.rate_eq] at second
  exact ⟨h'.rate_eq.trans h.rate_eq, h.fair.trans h'.fair, by omega⟩

theorem Buys.progress {x : Purchase} {fee effective out : U128}
    (h : Buys l s x fee effective out) (listed : Listed p selfId saleId tokens collateral l s) :
    Progress s (s.bought fee effective out) l.holding.balance.toNat
      (l.after s x fee effective out).holding.balance.toNat := by
  obtain ⟨-, vc, -, -⟩ := listed.offsets.toNat_bought h.quote
  have held : (l.after s x fee effective out).holding.balance.toNat =
      l.holding.balance.toNat + x.collateralIn.toNat := by
    rw [after, BitVec.toNat_add, Nat.mod_eq_of_lt h.fits]
  have share := Nat.div_mul_le_self
    (x.collateralIn.toNat * (RATE_ONE.toNat - s.feeRate.toNat)) RATE_ONE.toNat
  rw [← h.share] at share
  refine ⟨rfl, listed.offsets.fair_bought h.quote, ?_⟩
  rw [held, Nat.add_mul, show (s.bought fee effective out).vc.toNat = _ from vc, Nat.add_mul]
  dsimp only [Sale.curve]
  omega

/-! ### A run of buys -/

theorem buys_listed (listed : Listed p selfId saleId tokens collateral l s) {xs : List Purchase}
    (run : l.buys p selfId saleId xs = .ok l') :
    ∃ s', Listed p selfId saleId tokens collateral l' s' ∧
      Progress s s' l.holding.balance.toNat l'.holding.balance.toNat := by
  induction xs generalizing l s with
  | nil =>
    simp only [buys, Except.ok.injEq] at run
    subst run
    exact ⟨s, listed, Progress.refl _ _⟩
  | cons x xs ih =>
    simp only [buys, bind_eq_ok_iff] at run
    obtain ⟨l₁, step, run⟩ := run
    obtain ⟨fee, effective, out, h, rfl⟩ := (buy_eq_ok_iff listed x).mp step
    obtain ⟨s', listed', progress⟩ := ih (h.listed listed) run
    exact ⟨s', listed', (h.progress listed).trans progress⟩

/-! ### The last buy -/

theorem Listed.read_eq (listed : Listed p selfId saleId tokens collateral l s) :
    SaleProgram.read l.sale = .ok s :=
  read_eq_ok_iff.mpr listed.stored

theorem Listed.closed_iff (listed : Listed p selfId saleId tokens collateral l s) :
    l.Closed ↔ s.saleReserve = 0 := by
  unfold Closed
  rw [listed.read_eq]
  simp

theorem Listed.rest_eq (listed : Listed p selfId saleId tokens collateral l s) :
    s.rest = tokens := by
  have vt : s.vt.toNat = s.saleReserve.toNat + tokens := listed.offsets.tokens_eq
  unfold Sale.rest
  omega

theorem Listed.product_pos (listed : Listed p selfId saleId tokens collateral l s) :
    0 < s.vt.toNat * s.vc.toNat := by
  have vt : s.vt.toNat = s.saleReserve.toNat + tokens := listed.offsets.tokens_eq
  have vc : s.vc.toNat = s.realCollateral.toNat + collateral := listed.offsets.collateral_eq
  have := listed.offsets.tokens_pos
  have := listed.offsets.collateral_pos
  exact Nat.mul_pos (by omega) (by omega)

theorem Listed.rate_lt (listed : Listed p selfId saleId tokens collateral l s) :
    s.feeRate.toNat < RATE_ONE.toNat := by
  have capped := listed.rate_le
  rw [BitVec.le_def] at capped
  exact Nat.lt_of_le_of_lt capped (by decide)

/-- A buy closes the sale exactly when it takes the whole reserve, that is when the
rounded-up rest is the rest the sale keeps. -/
theorem Buys.closes_iff {x : Purchase} {fee effective out : U128}
    (h : Buys l s x fee effective out) (listed : Listed p selfId saleId tokens collateral l s) :
    (s.bought fee effective out).saleReserve = 0 ↔
      (s.vt.toNat * s.vc.toNat) ⌈/⌉ (s.vc.toNat + effective.toNat) = s.rest := by
  obtain ⟨-, -, saleReserve, -⟩ := listed.offsets.toNat_bought h.quote
  obtain ⟨-, -, formula, covered⟩ := Curve.quoteBuy_eq_ok_iff.mp h.quote
  have pos := toNat_pos_iff.mp h.nonzero
  have vt : s.vt.toNat = s.saleReserve.toNat + tokens := listed.offsets.tokens_eq
  -- nothing is left for sale exactly when what stays is the rest
  have complement := sub_div_eq_ceilDiv s.vt.toNat s.vc.toNat (c := effective.toNat) (by omega)
  rw [BitVec.le_def] at covered
  change (s.curve.bought effective out).saleReserve = 0 ↔ _
  rw [← BitVec.toNat_inj, saleReserve, ← complement, listed.rest_eq, toNat_zero]
  dsimp only [Sale.curve] at *
  rw [← formula]
  omega

/-- A buy that closes the sale hits the rest exactly, so the rest can be hit. -/
theorem Buys.exactRemainder {x : Purchase} {fee effective out : U128}
    (h : Buys l s x fee effective out) (listed : Listed p selfId saleId tokens collateral l s)
    (closes : (s.bought fee effective out).saleReserve = 0) : s.ExactRemainder := by
  have pos := toNat_pos_iff.mp h.nonzero
  have rest_pos : 0 < s.rest := listed.rest_eq ▸ listed.offsets.tokens_pos
  exact (exists_ceilDiv_eq_iff listed.product_pos rest_pos).mp
    ⟨s.vc.toNat + effective.toNat, by omega, (h.closes_iff listed).mp closes⟩

/-- Whatever buys close the sale pay at least up to the closing level, so the closing
payment fits where theirs did. -/
theorem Listed.closingFits (listed : Listed p selfId saleId tokens collateral l s) {s' : Sale}
    (listed' : Listed p selfId saleId tokens collateral l' s')
    (progress : Progress s s' l.holding.balance.toNat l'.holding.balance.toNat)
    (closed : s'.saleReserve = 0) : s.ClosingFits l.holding.balance.toNat := by
  have rest_pos : 0 < s.rest := listed.rest_eq ▸ listed.offsets.tokens_pos
  have keep := listed.rate_lt
  have vt' : s'.vt.toNat = s.rest := by
    have vt' : s'.vt.toNat = s'.saleReserve.toNat + tokens := listed'.offsets.tokens_eq
    rw [vt', closed, listed.rest_eq, toNat_zero, Nat.zero_add]
  -- the product at the close is at least the one now, over the rest alone
  have level : s.closingLevel ≤ s'.vc.toNat := by
    refine (ceilDiv_le_iff_le_mul rest_pos).mpr ?_
    have fair := progress.fair
    unfold Pool.Fair Pool.product at fair
    rwa [show s'.curve.pool.x = s.rest from vt'] at fair
  have held' := l'.holding.balance.isLt
  have priced := progress.priced
  refine ⟨Nat.lt_of_le_of_lt level s'.vc.isLt, ?_⟩
  by_cases higher : s.closingLevel ≤ s.vc.toNat
  · rw [Nat.sub_eq_zero_of_le higher, Sale.gross, Nat.zero_mul, zero_ceilDiv]
    exact l.holding.balance.isLt
  -- what was priced up to the level was paid for, the fee on top
  have paid : (s.closingLevel - s.vc.toNat) * RATE_ONE.toNat ≤
      (RATE_ONE.toNat - s.feeRate.toNat) *
        (l'.holding.balance.toNat - l.holding.balance.toNat) := by
    have levels := Nat.mul_le_mul_right RATE_ONE.toNat level
    rw [Nat.sub_mul, Nat.mul_comm (RATE_ONE.toNat - s.feeRate.toNat), Nat.sub_mul]
    omega
  have gross : s.gross (s.closingLevel - s.vc.toNat) ≤
      l'.holding.balance.toNat - l.holding.balance.toNat :=
    (ceilDiv_le_iff_le_mul (by omega)).mpr paid
  have paid_pos : 0 < s.gross (s.closingLevel - s.vc.toNat) :=
    ceilDiv_pos (Nat.mul_pos (by omega) (by decide)) (by omega)
  omega

/-- A payer without limits. -/
def unlimited : AccountWithMetadata where
  account := { Account.default with programOwner := AUTH_TRANSFER_PROGRAM_ID, balance := -1 }
  isAuthorized := true
  accountId := AccountId.default

/-- The input `gross` asks for leaves exactly the wanted amount after the fee. -/
theorem gross_share {rate one : ℕ} (effective : ℕ) (below : rate < one) :
    ((effective * one) ⌈/⌉ (one - rate)) * (one - rate) / one = effective := by
  have covers := le_mul_ceilDiv (effective * one) (d := one - rate) (by omega)
  have least := mul_ceilDiv_lt (effective * one) (d := one - rate) (by omega)
  rw [Nat.mul_comm ((effective * one) ⌈/⌉ (one - rate)), Nat.div_eq_iff (by omega)]
  omega

theorem le_gross {rate one : ℕ} (effective : ℕ) (below : rate < one) :
    effective ≤ (effective * one) ⌈/⌉ (one - rate) := by
  have share := gross_share effective below
  calc effective
      = ((effective * one) ⌈/⌉ (one - rate)) * (one - rate) / one := share.symm
    _ ≤ ((effective * one) ⌈/⌉ (one - rate)) * one / one :=
        Nat.div_le_div_right (Nat.mul_le_mul_left _ (Nat.sub_le one rate))
    _ = (effective * one) ⌈/⌉ (one - rate) := Nat.mul_div_cancel _ (by omega)

theorem toNat_ofNat_of_lt {n : ℕ} (h : n < 2 ^ 128) : (BitVec.ofNat 128 n).toNat = n := by
  rw [BitVec.toNat_ofNat, Nat.mod_eq_of_lt h]

/-- While something is left to sell, the closing level is still ahead. -/
theorem Listed.vc_lt_closingLevel (listed : Listed p selfId saleId tokens collateral l s)
    (unsold : s.saleReserve ≠ 0) : s.vc.toNat < s.closingLevel := by
  have vt : s.vt.toNat = s.saleReserve.toNat + tokens := listed.offsets.tokens_eq
  have rest_pos : 0 < s.rest := listed.rest_eq ▸ listed.offsets.tokens_pos
  have rest_eq := listed.rest_eq
  have some_left := toNat_pos_iff.mp unsold
  refine (lt_ceilDiv_iff rest_pos).mpr (Nat.mul_lt_mul_of_pos_right (by omega) ?_)
  exact Nat.pos_of_mul_pos_left listed.product_pos

/-- Where the rest can be hit, paying up to the closing level buys all that is left. -/
theorem Listed.closing_quote (listed : Listed p selfId saleId tokens collateral l s)
    (unsold : s.saleReserve ≠ 0) (exact : s.ExactRemainder) (fits : s.closingLevel < 2 ^ 128) :
    s.curve.quoteBuy (BitVec.ofNat 128 (s.closingLevel - s.vc.toNat)) = .ok s.saleReserve := by
  have vt : s.vt.toNat = s.saleReserve.toNat + tokens := listed.offsets.tokens_eq
  have rest_pos : 0 < s.rest := listed.rest_eq ▸ listed.offsets.tokens_pos
  have rest_eq := listed.rest_eq
  have higher := listed.vc_lt_closingLevel unsold
  have level_eq : s.vc.toNat + (s.closingLevel - s.vc.toNat) = s.closingLevel := by omega
  have payment := toNat_ofNat_of_lt (n := s.closingLevel - s.vc.toNat) (by omega)
  -- at the closing level the rest is what stays, neither less nor more
  have hit : (s.vt.toNat * s.vc.toNat) ⌈/⌉ s.closingLevel = s.rest := by
    refine (ceilDiv_eq_iff listed.product_pos (by omega)).mpr ⟨?_, ?_⟩
    · rw [Nat.mul_comm s.closingLevel]
      exact le_mul_ceilDiv _ rest_pos
    · rw [Nat.mul_comm]
      exact exact
  have complement := sub_ceilDiv_eq_div s.vt.toNat s.vc.toNat
    (c := s.closingLevel - s.vc.toNat) (by omega)
  rw [level_eq, hit] at complement
  refine Curve.quoteBuy_eq_ok_iff.mpr ⟨toNat_pos_iff.mpr (by omega), ?_, ?_, BitVec.le_refl _⟩
  · rw [payment, show s.curve.vc = s.vc from rfl, level_eq]
    exact fits
  · rw [payment, show s.curve.vc = s.vc from rfl, show s.curve.vt = s.vt from rfl, level_eq,
      ← complement]
    omega

/-- Where the rest can be hit and the payment fits, one buy closes the sale. -/
theorem Listed.closableAtOnce (listed : Listed p selfId saleId tokens collateral l s)
    (unsold : s.saleReserve ≠ 0) (exact : s.ExactRemainder)
    (fits : s.ClosingFits l.holding.balance.toNat) : l.ClosableAtOnce p selfId saleId := by
  have keep := listed.rate_lt
  have higher := listed.vc_lt_closingLevel unsold
  have quote := listed.closing_quote unsold exact fits.1
  obtain ⟨level_fits, gross_fits⟩ := fits
  have share := gross_share (s.closingLevel - s.vc.toNat) keep
  have covers := le_gross (s.closingLevel - s.vc.toNat) keep
  unfold Sale.gross at gross_fits
  -- From here on only what the gross input covers and what it leaves matters.
  generalize (s.closingLevel - s.vc.toNat) * RATE_ONE.toNat ⌈/⌉
    (RATE_ONE.toNat - s.feeRate.toNat) = g at *
  have effective := toNat_ofNat_of_lt (n := s.closingLevel - s.vc.toNat) (by omega)
  have input := toNat_ofNat_of_lt (n := g) (by omega)
  have fee := toNat_ofNat_of_lt (n := g - (s.closingLevel - s.vc.toNat)) (by omega)
  have h : Buys l s ⟨unlimited, BitVec.ofNat 128 g, 0⟩
      (BitVec.ofNat 128 (g - (s.closingLevel - s.vc.toNat)))
      (BitVec.ofNat 128 (s.closingLevel - s.vc.toNat)) s.saleReserve :=
    { unsold
      signed := rfl
      owned := rfl
      covered := by
        rw [BitVec.le_def, input, show unlimited.account.balance.toNat = 2 ^ 128 - 1 from rfl]
        omega
      fits := by rw [input]; omega
      split := by rw [fee, effective, input]; omega
      share := by rw [effective, input, share]
      nonzero := toNat_pos_iff.mpr (by omega)
      quote
      minimum := BitVec.le_def.mpr (Nat.zero_le _) }
  have closes : (s.curve.bought (BitVec.ofNat 128 (s.closingLevel - s.vc.toNat))
      s.saleReserve).saleReserve = 0 := BitVec.sub_self s.saleReserve
  exact ⟨_, _, (buy_eq_ok_iff listed _).mpr ⟨_, _, _, h, rfl⟩,
    (h.listed listed).closed_iff.mpr closes⟩

theorem Listed.closableAtOnce_iff (listed : Listed p selfId saleId tokens collateral l s)
    (unsold : s.saleReserve ≠ 0) :
    l.ClosableAtOnce p selfId saleId ↔
      s.ExactRemainder ∧ s.ClosingFits l.holding.balance.toNat := by
  constructor
  · rintro ⟨x, l', step, closed⟩
    obtain ⟨fee, effective, out, h, rfl⟩ := (buy_eq_ok_iff listed x).mp step
    have closes := (h.listed listed).closed_iff.mp closed
    exact ⟨h.exactRemainder listed closes,
      listed.closingFits (h.listed listed) (h.progress listed) closes⟩
  · rintro ⟨exact, fits⟩
    exact listed.closableAtOnce unsold exact fits

theorem Listed.closingFits_of_closable (listed : Listed p selfId saleId tokens collateral l s)
    (closable : l.Closable p selfId saleId) : s.ClosingFits l.holding.balance.toNat := by
  obtain ⟨xs, l', run, closed⟩ := closable
  obtain ⟨s', listed', progress⟩ := buys_listed listed run
  exact listed.closingFits listed' progress (listed'.closed_iff.mp closed)

theorem closable_of_closableAtOnce (h : l.ClosableAtOnce p selfId saleId) :
    l.Closable p selfId saleId := by
  obtain ⟨x, l', step, closed⟩ := h
  exact ⟨[x], l', by simp [buys, step], closed⟩

/-- When one unit of collateral already takes more than is left, no buy is accepted. -/
theorem Listed.not_closable (listed : Listed p selfId saleId tokens collateral l s)
    (unsold : s.saleReserve ≠ 0)
    (overshoots : s.saleReserve.toNat < s.vt.toNat / (s.vc.toNat + 1)) :
    ¬ l.Closable p selfId saleId := by
  rintro ⟨xs, l', run, closed⟩
  cases xs with
  | nil =>
    simp only [buys, Except.ok.injEq] at run
    subst run
    exact unsold (listed.closed_iff.mp closed)
  | cons x xs =>
    simp only [buys, bind_eq_ok_iff] at run
    obtain ⟨l₁, step, -⟩ := run
    obtain ⟨fee, effective, out, h, -⟩ := (buy_eq_ok_iff listed x).mp step
    obtain ⟨-, -, formula, covered⟩ := Curve.quoteBuy_eq_ok_iff.mp h.quote
    have pos := toNat_pos_iff.mp h.nonzero
    rw [BitVec.le_def, formula] at covered
    -- the output grows with the input, so one unit buys the least there is
    have more : s.vt.toNat / (s.vc.toNat + 1) ≤
        s.vt.toNat * effective.toNat / (s.vc.toNat + effective.toNat) := by
      rw [Nat.le_div_iff_mul_le (by omega)]
      calc s.vt.toNat / (s.vc.toNat + 1) * (s.vc.toNat + effective.toNat)
          ≤ s.vt.toNat / (s.vc.toNat + 1) * ((s.vc.toNat + 1) * effective.toNat) := by
            refine Nat.mul_le_mul_left _ ?_
            have := Nat.le_mul_of_pos_right s.vc.toNat pos
            rw [Nat.add_mul, Nat.one_mul]
            omega
        _ = s.vt.toNat / (s.vc.toNat + 1) * (s.vc.toNat + 1) * effective.toNat := by
            rw [Nat.mul_assoc]
        _ ≤ s.vt.toNat * effective.toNat :=
            Nat.mul_le_mul_right _ (Nat.div_mul_le_self _ _)
    dsimp only [Sale.curve] at covered
    omega

/-- When an open sale can be closed. In every state that accepted buys lead to: one buy
closes it exactly when its remainder can be hit and the payment fits; where the remainder
can be hit, any closing at all needs nothing but that fit; and a sale opened at a product
above the square of the tokens it keeps never leaves a remainder that cannot be hit. -/
theorem closable_iff {sale holding creator : AccountWithMetadata}
    {vt vc saleReserve seedReserve : U128} {feeTreasury : AccountId} {feeRate : U128}
    {l₀ : Listing}
    (created : create p selfId saleId sale holding creator vt vc saleReserve seedReserve
      feeTreasury feeRate = .ok l₀)
    {xs : List Purchase} (run : l₀.buys p selfId saleId xs = .ok l)
    (stored : SaleProgram.read l.sale = .ok s) (unsold : s.saleReserve ≠ 0) :
    (s.ExactRemainder →
        (l.Closable p selfId saleId ↔ s.ClosingFits l.holding.balance.toNat)) ∧
      (l.ClosableAtOnce p selfId saleId ↔
        s.ExactRemainder ∧ s.ClosingFits l.holding.balance.toNat) ∧
      ((vt.toNat - saleReserve.toNat - 1) * (vt.toNat - saleReserve.toNat - 1) <
          vt.toNat * vc.toNat → s.ExactRemainder) := by
  obtain ⟨s₀, listed₀, hvt, hvc, -⟩ := listed_of_create created
  obtain ⟨s', listed, progress⟩ := buys_listed listed₀ run
  obtain rfl : s' = s := by
    have read := listed.read_eq
    rw [stored, Except.ok.injEq] at read
    exact read.symm
  refine ⟨fun exact => ⟨listed.closingFits_of_closable, fun fits => ?_⟩,
    listed.closableAtOnce_iff unsold, fun steep => ?_⟩
  · exact closable_of_closableAtOnce (listed.closableAtOnce unsold exact fits)
  · -- the product has not fallen since the opening, and the rest is the same
    have rest_pos : 0 < s'.rest := listed.rest_eq ▸ listed.offsets.tokens_pos
    have fair : s₀.vt.toNat * s₀.vc.toNat ≤ s'.vt.toNat * s'.vc.toNat := progress.fair
    rw [hvt, hvc] at fair
    refine ceilDiv_hits_of_sq_lt rest_pos ?_
    rw [listed.rest_eq]
    omega

/-! ### Paying the creator -/

/-- The creator is paid exactly from a sale that closed, and what the payment has to fit
is the collateral raised: the fees stay behind. -/
theorem Listed.withdraw_accepted_iff (listed : Listed p selfId saleId tokens collateral l s)
    (creator : AccountWithMetadata) :
    (∃ out, SaleProgram.withdraw p selfId ⟨l.sale, false, SaleProgram.salePda p selfId saleId⟩
        ⟨l.holding, false, SaleProgram.holdingPda p selfId saleId⟩ creator saleId = .ok out) ↔
      creator.isAuthorized = true ∧ s.creator = creator.accountId ∧ l.Closed ∧
        s.realCollateral ≠ 0 ∧
        creator.account.balance.toNat + s.realCollateral.toNat < 2 ^ 128 := by
  have funded := listed.funded
  have fees_le : s.feesAccrued ≤ l.holding.balance := by
    rw [BitVec.le_def]
    omega
  -- the holding carries the fees and what was raised, and the fees come off
  have payable_eq : l.holding.balance - s.feesAccrued = s.realCollateral := by
    apply word_ext
    rw [toNat_sub_of_le fees_le]
    omega
  rw [listed.closed_iff]
  simp only [SaleProgram.withdraw_eq_ok_iff ⟨l.sale, false, SaleProgram.salePda p selfId saleId⟩
    listed.stored, payable_eq]
  constructor
  · rintro ⟨out, signed, -, byCreator, closed, -, some_raised, fits, -⟩
    exact ⟨signed, byCreator, closed, some_raised, fits⟩
  · rintro ⟨signed, byCreator, closed, some_raised, fits⟩
    exact ⟨_, signed, ⟨trivial, trivial, listed.saleOwner, listed.holdingOwner⟩, byCreator, closed,
      fees_le, some_raised, fits, rfl⟩

/-! ### Two sales on small curves -/

/-- The deployed program. -/
def curveProgram : ProgramId :=
  ⟨[3373259593, 2321974040, 612748124, 4191002922, 2807538979, 108822322, 1867689235,
    281374629], rfl⟩

/-- The sale id `"sale"`. -/
def demoSaleId : Bytes 32 := seedFromStr "sale" (by decide)

def demoHoldingSeed : Bytes 32 :=
  ⟨[240, 255, 45, 39, 225, 191, 225, 140, 191, 227, 30, 183, 53, 48, 97, 41, 116, 148, 90, 223,
    13, 188, 169, 99, 82, 236, 222, 27, 83, 237, 203, 108], rfl⟩

def demoSalePda : AccountId :=
  ⟨[36, 195, 74, 180, 121, 38, 70, 56, 118, 236, 242, 182, 50, 38, 5, 93, 171, 114, 187, 199, 128,
    249, 164, 58, 71, 47, 210, 64, 248, 43, 227, 71], rfl⟩

def demoHoldingPda : AccountId :=
  ⟨[1, 194, 184, 170, 52, 159, 80, 133, 169, 145, 164, 132, 66, 148, 138, 102, 147, 147, 46, 245,
    148, 212, 22, 230, 197, 229, 97, 109, 37, 132, 247, 246], rfl⟩

/-- The platform on the two addresses of that sale. -/
def demo : Addressing ProgramId where
  sha256 bytes :=
    if bytes = demoSaleId.toList ++ holdingWord.toList then demoHoldingSeed else holdingWord
  forPublicPda program seed :=
    if program = curveProgram ∧ seed = ⟨demoSaleId⟩ then demoSalePda
    else if program = curveProgram ∧ seed = ⟨demoHoldingSeed⟩ then demoHoldingPda
    else AccountId.default

/-- A row naming an address nothing was written to. -/
def fresh (accountId : AccountId) (isAuthorized : Bool) : AccountWithMetadata where
  account := Account.default
  isAuthorized
  accountId

/-- A sale on the small curves below, with its fee treasury at the creator. -/
def demoRecord (c : Curve) (feeRate feesAccrued : U128) : Sale where
  vt := c.vt
  vc := c.vc
  saleReserve := c.saleReserve
  realCollateral := c.realCollateral
  seedReserve := 0
  creator := AccountId.default
  treasury := demoHoldingPda
  feeTreasury := AccountId.default
  feeRate
  feesAccrued

def demoListing (s : Sale) (held : U128) : Listing where
  sale := ⟨curveProgram, 0, saleCodec.encode s, 0⟩
  holding := ⟨curveProgram, held, [], 0⟩

/-- A curve of 1000 tokens against 1000 at a fee of one percent: after a buy of 100 what is left
of it can be hit, and one more buy closes the sale. -/
theorem closable_iff_small :
    let s := demoRecord ⟨910, 1099, 410, 99⟩ 10000 1
    let l := demoListing s 100
    s.ExactRemainder ∧ l.Closable demo curveProgram demoSaleId ∧
      l.ClosableAtOnce demo curveProgram demoSaleId := by
  have created : create demo curveProgram demoSaleId (fresh demoSalePda false)
      (fresh demoHoldingPda false) (fresh AccountId.default true) 1000 1000 500 0
        AccountId.default 10000 =
      .ok (demoListing (demoRecord ⟨1000, 1000, 500, 0⟩ 10000 0) 0) := by
    decide +kernel
  have run : (demoListing (demoRecord ⟨1000, 1000, 500, 0⟩ 10000 0) 0).buys demo curveProgram
      demoSaleId [⟨unlimited, 100, 0⟩] =
        .ok (demoListing (demoRecord ⟨910, 1099, 410, 99⟩ 10000 1) 100) := by
    decide +kernel
  obtain ⟨closable, atOnce, hits⟩ :=
    closable_iff created run (read_eq_ok_iff.mpr rfl) (by decide)
  have exact := hits (by decide)
  have fits : (demoRecord ⟨910, 1099, 410, 99⟩ 10000 1).ClosingFits 100 := by
    unfold Sale.ClosingFits
    decide +kernel
  exact ⟨exact, (closable exact).mpr fits, atOnce.mpr ⟨exact, fits⟩⟩

/-- A sale of 51 tokens on a curve of 100 against 1: the first unit of collateral buys 50,
the last token cannot be bought, and the unit stays locked. -/
theorem open_sale_not_closable :
    ∃ l₀ l s,
      create demo curveProgram demoSaleId (fresh demoSalePda false) (fresh demoHoldingPda false)
          (fresh AccountId.default true) 100 1 51 0 AccountId.default 0 = .ok l₀ ∧
        l₀.buys demo curveProgram demoSaleId [⟨unlimited, 1, 0⟩] = .ok l ∧
        SaleProgram.read l.sale = .ok s ∧ s.saleReserve ≠ 0 ∧ l.holding.balance = 1 ∧
        ¬ l.Closable demo curveProgram demoSaleId := by
  have created : create demo curveProgram demoSaleId (fresh demoSalePda false)
      (fresh demoHoldingPda false) (fresh AccountId.default true) 100 1 51 0 AccountId.default 0 =
      .ok (demoListing (demoRecord ⟨100, 1, 51, 0⟩ 0 0) 0) := by decide +kernel
  have run : (demoListing (demoRecord ⟨100, 1, 51, 0⟩ 0 0) 0).buys demo curveProgram demoSaleId
      [⟨unlimited, 1, 0⟩] = .ok (demoListing (demoRecord ⟨50, 2, 1, 1⟩ 0 0) 1) := by
    decide +kernel
  have stored : SaleProgram.read (demoListing (demoRecord ⟨50, 2, 1, 1⟩ 0 0) 1).sale =
      .ok (demoRecord ⟨50, 2, 1, 1⟩ 0 0) := read_eq_ok_iff.mpr rfl
  obtain ⟨s₀, listed₀, -⟩ := listed_of_create created
  obtain ⟨s, listed, -⟩ := buys_listed listed₀ run
  obtain rfl : demoRecord ⟨50, 2, 1, 1⟩ 0 0 = s :=
    Except.ok.inj (stored.symm.trans listed.read_eq)
  exact ⟨_, _, _, created, run, stored, by decide, rfl,
    listed.not_closable (by decide) (by decide)⟩

end Listing

end Antumbra
