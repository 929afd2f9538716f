/-
# Accepted instructions of the sale program

Each instruction is a chain of checks over its rows. Here the chains are read once:
when an instruction on a stored sale is accepted, and what it then leaves.
-/

import Antumbra.Curve.Sale
import Antumbra.Curve.Solvency

namespace Antumbra

open Antumbra.Math

/-- The record after an accepted buy. -/
def Sale.bought (s : Sale) (fee effective out : U128) : Sale :=
  { s with
    feesAccrued := s.feesAccrued + fee
    vt := (s.curve.bought effective out).vt
    vc := (s.curve.bought effective out).vc
    saleReserve := (s.curve.bought effective out).saleReserve
    realCollateral := (s.curve.bought effective out).realCollateral }

namespace SaleProgram

variable {p : Addressing ProgramId} {selfId : ProgramId} {saleId : Bytes 32}
variable {tokens collateral : ℕ} {s : Sale} {out : SpelOutput}

theorem read_eq_ok_iff {account : Account} : read account = .ok s ↔
    account.data = saleCodec.encode s := by
  simp [read, Codec.readAll_eq_some_iff]

theorem read_write (account : Account) (s : Sale) : read (write account s) = .ok s :=
  read_eq_ok_iff.mpr rfl

/-! ### Opening -/

/-- An accepted opening writes the record of a fresh sale, and nothing else. -/
theorem createSale_eq_ok {sale holding creator : AccountWithMetadata}
    {vt vc saleReserve seedReserve : U128} {feeTreasury : AccountId} {feeRate : U128}
    (accepted : createSale p selfId sale holding creator saleId vt vc saleReserve seedReserve
      feeTreasury feeRate = .ok out) :
    ∃ s, out = ⟨[{ sale with account := write sale.account s }, holding, creator], []⟩ ∧
      sale.accountId = salePda p selfId saleId ∧ holding.accountId = holdingPda p selfId saleId ∧
      holding.account = Account.default ∧ s.treasury = holdingPda p selfId saleId ∧
      s.creator = creator.accountId ∧ s.feeTreasury = feeTreasury ∧ s.feeRate = feeRate ∧
      s.feeRate ≤ CAP_PER_SWAP ∧ s.realCollateral = 0 ∧ s.feesAccrued = 0 ∧
      s.vt = vt ∧ s.vc = vc ∧ s.saleReserve = saleReserve ∧
      Curve.Offsets (vt.toNat - saleReserve.toNat) vc.toNat s.curve := by
  simp only [createSale, checkSigner, checkInit, checkPda, bind_eq_ok_iff, mapError_eq_ok_iff,
    ensure_eq_ok_iff, pure_eq_ok, Except.ok.injEq] at accepted
  obtain ⟨-, -, -, -, -, fresh, -, saleAt, -, holdingAt, c, opened, cfg, config, rfl⟩ := accepted
  obtain ⟨rate, cap⟩ := FeeConfig.new_eq_ok_iff.mp config
  have offsets := Curve.Offsets.of_new opened
  obtain ⟨-, -, rfl⟩ := Curve.new_eq_ok_iff.mp opened
  exact ⟨_, rfl, saleAt, holdingAt, fresh, holdingAt, rfl, rfl, rfl,
    by rw [← rate, ← cap]; exact cfg.rate_le, rfl, rfl, rfl, rfl, rfl, offsets⟩

/-! ### Buying -/

/-- The conditions under which a buy is accepted, with the amounts it is split into and the
tokens it gets. -/
structure BuyAccepted (p : Addressing ProgramId) (selfId : ProgramId)
    (sale buyer holding : AccountWithMetadata) (saleId : Bytes 32) (s : Sale)
    (collateralIn minTokensOut fee effective tokensOut : U128) : Prop where
  signed : buyer.isAuthorized = true
  saleAt : sale.accountId = salePda p selfId saleId
  holdingAt : holding.accountId = holdingPda p selfId saleId
  saleOwner : sale.account.programOwner = selfId
  unsold : s.saleReserve ≠ 0
  split : fee.toNat + effective.toNat = collateralIn.toNat
  share : effective.toNat =
    collateralIn.toNat * (RATE_ONE.toNat - s.feeRate.toNat) / RATE_ONE.toNat
  nonzero : effective ≠ 0
  quote : s.curve.quoteBuy effective = .ok tokensOut
  minimum : minTokensOut ≤ tokensOut
  treasury : s.treasury = holding.accountId
  holdingOwner : holding.account.programOwner = selfId
  owned : buyer.account.programOwner = AUTH_TRANSFER_PROGRAM_ID
  covered : collateralIn ≤ buyer.account.balance
  fits : holding.account.balance.toNat + collateralIn.toNat < 2 ^ 128
  accrues : s.feesAccrued.toNat + fee.toNat < 2 ^ 128

theorem isClosed_eq_false_iff {c : Curve} : c.isClosed = false ↔ c.saleReserve ≠ 0 := by
  simp [Curve.isClosed]

/-- A buy of a stored sale: accepted exactly under `BuyAccepted`, and then it records the buy
and chains its payment. -/
theorem executeBuy_eq_ok_iff (sale : AccountWithMetadata) {buyer holding : AccountWithMetadata}
    {collateralIn minTokensOut : U128} (stored : sale.account.data = saleCodec.encode s)
    (rate_le : s.feeRate ≤ CAP_PER_SWAP) (offsets : Curve.Offsets tokens collateral s.curve) :
    executeBuy p selfId sale buyer holding saleId collateralIn minTokensOut = .ok out ↔
      ∃ fee effective tokensOut, BuyAccepted p selfId sale buyer holding saleId s collateralIn
          minTokensOut fee effective tokensOut ∧
        out = ⟨[{ sale with account := write sale.account (s.bought fee effective tokensOut) },
          buyer, holding], [⟨AUTH_TRANSFER_PROGRAM_ID, [buyer, holding], collateralIn⟩]⟩ := by
  have config := FeeConfig.new_eq_ok rate_le (show CAP_PER_SWAP ≤ RATE_ONE by decide)
  have outcome := fun effective =>
    Curve.buy_outcome s.curve effective minTokensOut offsets.tokens_le offsets.collateral_le
  simp only [executeBuy, checkSigner, checkPda, bind_eq_ok_iff, mapError_eq_ok_iff,
    ensure_eq_ok_iff, pure_eq_ok, okOr_eq_ok_iff, Except.ok.injEq, read_eq_ok_iff,
    isClosed_eq_false_iff, isSome_checkedAdd_iff, checkedAdd_eq_some_iff_fits]
  constructor
  · rintro ⟨_, signed, _, saleAt, _, holdingAt, _, saleOwner, s', stored', _, unsold, cfg, rate,
      ⟨fee, effective⟩, fees, tokensOut, answer, _, treasury, _, holdingOwner, _, owned, _, covered,
      _, fits, accrued, ⟨accrues, rfl⟩, rfl⟩
    -- the record the program read is the stored one
    obtain rfl := saleCodec.encode_injective (stored.symm.trans stored')
    rw [config, Except.ok.injEq] at rate
    subst rate
    obtain ⟨split, share, nonzero⟩ := (FeeConfig.buyFee_eq_ok_iff _).mp fees
    obtain ⟨got, quote, minimum, run⟩ | ⟨e, -, run⟩ := outcome effective
    · dsimp only at answer
      rw [run, Except.ok.injEq] at answer
      subst answer
      exact ⟨fee, effective, got,
        { signed, saleAt, holdingAt, saleOwner, unsold, split, share, nonzero, quote, minimum,
          treasury, holdingOwner, owned, covered, fits, accrues },
        by simp only [run]; rfl⟩
    · dsimp only at answer
      rw [run] at answer
      cases answer
  · rintro ⟨fee, effective, tokensOut, h, rfl⟩
    have fees :=
      (FeeConfig.buyFee_eq_ok_iff ⟨s.feeRate, CAP_PER_SWAP, rate_le, by decide⟩).mpr
        ⟨h.split, h.share, h.nonzero⟩
    obtain ⟨got, quote, -, run⟩ | ⟨e, refuses, -⟩ := outcome effective
    · rw [h.quote, Except.ok.injEq] at quote
      subst quote
      exact ⟨(), h.signed, (), h.saleAt, (), h.holdingAt, (), h.saleOwner, s, stored, (), h.unsold,
        _, config, (fee, effective), fees, tokensOut, congrArg Prod.fst run, (), h.treasury, (),
        h.holdingOwner, (), h.owned, (), h.covered, (), h.fits, _, ⟨h.accrues, rfl⟩,
        by simp only [run]; rfl⟩
    · exact absurd h.minimum (refuses tokensOut h.quote)

/-- The fee of an accepted buy is the rounded-up share of its input. -/
theorem BuyAccepted.fee_eq {sale buyer holding : AccountWithMetadata}
    {collateralIn minTokensOut fee effective tokensOut : U128}
    (h : BuyAccepted p selfId sale buyer holding saleId s collateralIn minTokensOut fee effective
      tokensOut) (rate_le : s.feeRate ≤ CAP_PER_SWAP) :
    fee.toNat = (collateralIn.toNat * s.feeRate.toNat) ⌈/⌉ RATE_ONE.toNat := by
  have split := h.split
  have share := h.share
  rw [BitVec.le_def] at rate_le
  have below : s.feeRate.toNat ≤ RATE_ONE.toNat := Nat.le_trans rate_le (by decide)
  have complement := sub_ceilDiv_eq_div collateralIn.toNat s.feeRate.toNat
    (c := RATE_ONE.toNat - s.feeRate.toNat) (by rw [Nat.add_sub_cancel' below]; decide)
  rw [Nat.add_sub_cancel' below] at complement
  have le := share_le collateralIn.toNat s.feeRate.toNat
    (c := RATE_ONE.toNat - s.feeRate.toNat) (by rw [Nat.add_sub_cancel' below]; decide)
  rw [Nat.add_sub_cancel' below] at le
  omega

/-! ### Sweeping and withdrawing -/

/-- A sweep of a stored sale. -/
theorem collectFees_eq_ok_iff (sale : AccountWithMetadata)
    {holding feeTreasury : AccountWithMetadata}
    (stored : sale.account.data = saleCodec.encode s) :
    collectFees p selfId sale holding feeTreasury saleId = .ok out ↔
      (sale.accountId = salePda p selfId saleId ∧ holding.accountId = holdingPda p selfId saleId ∧
        sale.account.programOwner = selfId ∧ holding.account.programOwner = selfId) ∧
      s.feeTreasury = feeTreasury.accountId ∧ s.feesAccrued ≠ 0 ∧
      s.feesAccrued ≤ holding.account.balance ∧
      feeTreasury.account.balance.toNat + s.feesAccrued.toNat < 2 ^ 128 ∧
      out = ⟨[{ sale with account := write sale.account { s with feesAccrued := 0 } },
        { holding with account :=
            { holding.account with balance := holding.account.balance - s.feesAccrued } },
        { feeTreasury with account :=
            { feeTreasury.account with
              balance := feeTreasury.account.balance + s.feesAccrued } }], []⟩ := by
  simp only [collectFees, checkPda, bind_eq_ok_iff, ensure_eq_ok_iff, okOr_eq_ok_iff, pure_eq_ok,
    Except.ok.injEq, read_eq_ok_iff, checkedSub_eq_some_iff_le, checkedAdd_eq_some_iff_fits, not_or,
    not_not]
  constructor
  · rintro ⟨_, saleAt, _, holdingAt, _, ⟨saleOwner, holdingOwner⟩, s', stored', _, treasury, _,
      some, held, ⟨covered, rfl⟩, swept, ⟨fits, rfl⟩, rfl⟩
    obtain rfl := saleCodec.encode_injective (stored.symm.trans stored')
    exact ⟨⟨saleAt, holdingAt, saleOwner, holdingOwner⟩, treasury, some, covered, fits, rfl⟩
  · rintro ⟨⟨saleAt, holdingAt, saleOwner, holdingOwner⟩, treasury, some, covered, fits, rfl⟩
    exact ⟨(), saleAt, (), holdingAt, (), ⟨saleOwner, holdingOwner⟩, s, stored, (), treasury, (),
      some, _, ⟨covered, rfl⟩, _, ⟨fits, rfl⟩, rfl⟩

/-- A payment of the creator of a stored sale. -/
theorem withdraw_eq_ok_iff (sale : AccountWithMetadata) {holding creator : AccountWithMetadata}
    (stored : sale.account.data = saleCodec.encode s) :
    withdraw p selfId sale holding creator saleId = .ok out ↔
      creator.isAuthorized = true ∧
      (sale.accountId = salePda p selfId saleId ∧ holding.accountId = holdingPda p selfId saleId ∧
        sale.account.programOwner = selfId ∧ holding.account.programOwner = selfId) ∧
      s.creator = creator.accountId ∧ s.saleReserve = 0 ∧
      s.feesAccrued ≤ holding.account.balance ∧ holding.account.balance - s.feesAccrued ≠ 0 ∧
      creator.account.balance.toNat + (holding.account.balance - s.feesAccrued).toNat < 2 ^ 128 ∧
      out = ⟨[sale,
        { holding with account := { holding.account with balance := s.feesAccrued } },
        { creator with account :=
            { creator.account with
              balance := creator.account.balance +
                (holding.account.balance - s.feesAccrued) } }], []⟩ := by
  -- what stays is what was subtracted
  have stays : holding.account.balance - (holding.account.balance - s.feesAccrued) =
      s.feesAccrued := by bv_omega
  have le : s.feesAccrued ≤ holding.account.balance →
      holding.account.balance - s.feesAccrued ≤ holding.account.balance := by
    intro covered
    rw [BitVec.le_def, toNat_sub_of_le covered]
    exact Nat.sub_le _ _
  simp only [withdraw, checkSigner, checkPda, bind_eq_ok_iff, ensure_eq_ok_iff, okOr_eq_ok_iff,
    pure_eq_ok, Except.ok.injEq, read_eq_ok_iff, checkedSub_eq_some_iff_le,
    checkedAdd_eq_some_iff_fits, not_or, not_not]
  constructor
  · rintro ⟨_, signed, _, saleAt, _, holdingAt, _, ⟨saleOwner, holdingOwner⟩, s', stored', _, named,
      _, closed, payable, ⟨covered, rfl⟩, _, some, held, ⟨-, rfl⟩, paid, ⟨fits, rfl⟩, rfl⟩
    obtain rfl := saleCodec.encode_injective (stored.symm.trans stored')
    exact ⟨signed, ⟨saleAt, holdingAt, saleOwner, holdingOwner⟩, named, closed, covered, some, fits,
      by rw [stays]⟩
  · rintro ⟨signed, ⟨saleAt, holdingAt, saleOwner, holdingOwner⟩, named, closed, covered, some,
      fits, rfl⟩
    exact ⟨(), signed, (), saleAt, (), holdingAt, (), ⟨saleOwner, holdingOwner⟩, s, stored, (),
      named, (), closed, _, ⟨covered, rfl⟩, (), some, _, ⟨le covered, rfl⟩, _, ⟨fits, rfl⟩,
      by rw [stays]⟩

end SaleProgram

end Antumbra
