/-
# Accepted instructions of the pool program

Each instruction on a pool is a chain of checks over its rows. Here the chains are read
once: when an instruction on a stored pool is accepted, and what it then leaves.
-/

import Antumbra.Weighted.Pool

namespace Antumbra

open Antumbra.Math

namespace PoolProgram

open SaleProgram (checkSigner checkInit checkPda)
open Weighted (weightAt ONE)

/-- A pool's own account. -/
def poolPda (p : Addressing ProgramId) (selfId : ProgramId) (poolId : Bytes 32) : AccountId :=
  computePda p selfId [poolId]

/-- A pool's holding account. -/
def holdingPda (p : Addressing ProgramId) (selfId : ProgramId) (poolId : Bytes 32) : AccountId :=
  computePda p selfId [poolId, holdingWord]

/-- The record after an accepted buy. -/
def Pool.bought (s : Pool) (now : U64) (collateralIn tokensOut : U128) : Pool :=
  { s with
    reserveToken := s.reserveToken - tokensOut
    reserveCollateral := s.reserveCollateral + collateralIn
    lastSeen := now }

/-- The fee at the close, on all that was raised. -/
@[irreducible] def Pool.closeShare (s : Pool) (raised : ℕ) : ℕ :=
  (raised * s.feeRate.toNat) ⌈/⌉ RATE_ONE.toNat

variable {p : Addressing ProgramId} {selfId : ProgramId} {poolId : Bytes 32}
variable {s : Pool} {out : SpelOutput}

/-- An accepted opening writes the record of a fresh pool, and nothing else. -/
theorem exists_of_createPool {pool holding creator : AccountWithMetadata}
    {reserveToken reserveCollateral wStart wEnd feeRate : U128} {tStart tEnd : U64}
    {feeTreasury : AccountId}
    (accepted : createPool p selfId pool holding creator poolId reserveToken reserveCollateral
      wStart wEnd tStart tEnd feeTreasury feeRate = .ok out) :
    ∃ s : Pool, out = ⟨[{ pool with account := write pool.account s }, holding, creator], []⟩ ∧
      pool.accountId = poolPda p selfId poolId ∧
      holding.accountId = holdingPda p selfId poolId ∧ holding.account = Account.default ∧
      tStart < tEnd ∧ feeRate ≤ CAP_AT_CLOSE ∧ reserveToken ≠ 0 ∧ reserveCollateral ≠ 0 ∧
      s = ⟨reserveToken, reserveCollateral, wStart, wEnd, tStart, tEnd, tStart, 0,
        creator.accountId, holdingPda p selfId poolId, feeTreasury, feeRate⟩ := by
  have opened := accepted
  simp only [createPool, checkSigner, checkInit, checkPda, bind_eq_ok_iff, mapError_eq_ok_iff,
    ensure_eq_ok_iff, pure_eq_ok, Except.ok.injEq, not_or] at accepted
  obtain ⟨-, -, -, -, -, fresh, -, poolAt, -, holdingAt, cfg, config, w, weight, -,
    ⟨some_tokens, some_collateral⟩, rfl⟩ := accepted
  obtain ⟨rate, cap⟩ := FeeConfig.new_eq_ok_iff.mp config
  obtain ⟨-, -, -, -, forward, -⟩ := createPool_eq_ok ⟨_, _, _, opened, read_write _ _⟩
  refine ⟨_, rfl, poolAt, holdingAt, fresh, forward, ?_, some_tokens, some_collateral, ?_⟩
  · rw [← rate, ← cap]
    exact cfg.rate_le
  · rw [← show holding.accountId = holdingPda p selfId poolId from holdingAt]

/-! ### Buying -/

/-- The conditions under which a buy is accepted, with the weight it is priced at and the
tokens it gets. -/
structure BuyAccepted (p : Addressing ProgramId) (selfId : ProgramId)
    (pool buyer holding : AccountWithMetadata) (poolId : Bytes 32) (s : Pool) (now : U64)
    (collateralIn minTokensOut wToken tokensOut : U128) : Prop where
  signed : buyer.isAuthorized = true
  poolAt : pool.accountId = poolPda p selfId poolId
  holdingAt : holding.accountId = holdingPda p selfId poolId
  poolOwner : pool.account.programOwner = selfId
  unpaused : s.paused = 0
  seen : s.lastSeen ≤ now
  weight : weightAt s.wStart s.wEnd s.tStart s.tEnd now = .ok wToken
  weight_le : wToken ≤ ONE
  price : Binfixed.weightedBuy s.reserveToken s.reserveCollateral collateralIn wToken
    (ONE - wToken) = .ok tokensOut
  minimum : minTokensOut ≤ tokensOut
  treasury : s.treasury = holding.accountId
  holdingOwner : holding.account.programOwner = selfId
  owned : buyer.account.programOwner = AUTH_TRANSFER_PROGRAM_ID
  covered : collateralIn ≤ buyer.account.balance
  fits : holding.account.balance.toNat + collateralIn.toNat < 2 ^ 128

/-- A buy on a stored pool: accepted exactly under `BuyAccepted`, and then it records the buy
and chains its payment. -/
theorem executeBuy_eq_ok_iff (pool : AccountWithMetadata) {buyer holding : AccountWithMetadata}
    {now : U64} {collateralIn minTokensOut : U128}
    (stored : pool.account.data = poolCodec.encode s) :
    executeBuy p selfId pool buyer holding poolId now collateralIn minTokensOut = .ok out ↔
      ∃ wToken tokensOut, BuyAccepted p selfId pool buyer holding poolId s now collateralIn
          minTokensOut wToken tokensOut ∧
        out = ⟨[{ pool with account := write pool.account (s.bought now collateralIn tokensOut) },
          buyer, holding], [⟨AUTH_TRANSFER_PROGRAM_ID, [buyer, holding], collateralIn⟩]⟩ := by
  simp only [executeBuy, checkSigner, checkPda, bind_eq_ok_iff, mapError_eq_ok_iff,
    ensure_eq_ok_iff, okOr_eq_ok_iff, pure_eq_ok, Except.ok.injEq, read_eq_ok_iff,
    isSome_checkedAdd_iff, checkedAdd_eq_some_iff_fits, checkedSub_eq_some_iff_le, not_or, not_not]
  constructor
  · rintro ⟨_, signed, _, poolAt, _, holdingAt, _, poolOwner, s', stored', _, unpaused, _, seen,
      wToken, weight, wCollateral, ⟨weight_le, rfl⟩, tokensOut, price, _, minimum, _, ⟨-, rfl⟩, _,
      ⟨-, rfl⟩, _, ⟨treasury, holdingOwner⟩, _, owned, _, covered, _, fits, rfl⟩
    -- the record the program read is the stored one
    obtain rfl := poolCodec.encode_injective (stored.symm.trans stored')
    exact ⟨wToken, tokensOut,
      { signed, poolAt, holdingAt, poolOwner, unpaused, seen, weight, weight_le, price, minimum,
        treasury, holdingOwner, owned, covered, fits }, rfl⟩
  · rintro ⟨wToken, tokensOut, h, rfl⟩
    -- a price that was found stays within both reserves
    obtain ⟨-, room, within⟩ := Weighted.weightedBuy_eq_ok h.price
    exact ⟨(), h.signed, (), h.poolAt, (), h.holdingAt, (), h.poolOwner, s, stored, (), h.unpaused,
      (), h.seen, wToken, h.weight, _, ⟨h.weight_le, rfl⟩, tokensOut, h.price, (), h.minimum, _,
      ⟨within, rfl⟩, _, ⟨room, rfl⟩, (), ⟨h.treasury, h.holdingOwner⟩, (), h.owned, (), h.covered,
      (), h.fits, rfl⟩

/-! ### Pausing and closing -/

/-- A pause of a stored pool, or its end. -/
theorem setPaused_eq_ok_iff (pool : AccountWithMetadata) {creator : AccountWithMetadata}
    {paused : U8} (stored : pool.account.data = poolCodec.encode s) :
    setPaused p selfId pool creator poolId paused = .ok out ↔
      creator.isAuthorized = true ∧ pool.accountId = poolPda p selfId poolId ∧
      pool.account.programOwner = selfId ∧ s.creator = creator.accountId ∧
      out = ⟨[{ pool with account := write pool.account { s with paused } }, creator], []⟩ := by
  simp only [setPaused, checkSigner, checkPda, bind_eq_ok_iff, ensure_eq_ok_iff, pure_eq_ok,
    Except.ok.injEq, read_eq_ok_iff]
  constructor
  · rintro ⟨_, signed, _, poolAt, _, poolOwner, s', stored', _, named, rfl⟩
    obtain rfl := poolCodec.encode_injective (stored.symm.trans stored')
    exact ⟨signed, poolAt, poolOwner, named, rfl⟩
  · rintro ⟨signed, poolAt, poolOwner, named, rfl⟩
    exact ⟨(), signed, (), poolAt, (), poolOwner, s, stored, (), named, rfl⟩

/-- The conditions under which the creator of a pool is paid, with the parts the holding is
split into. -/
structure WithdrawAccepted (p : Addressing ProgramId) (selfId : ProgramId)
    (pool holding creator feeTreasury : AccountWithMetadata) (poolId : Bytes 32) (s : Pool)
    (now : U64) (fee toCreator : U128) : Prop where
  signed : creator.isAuthorized = true
  poolAt : pool.accountId = poolPda p selfId poolId
  holdingAt : holding.accountId = holdingPda p selfId poolId
  poolOwner : pool.account.programOwner = selfId
  holdingOwner : holding.account.programOwner = selfId
  byCreator : s.creator = creator.accountId
  toTreasury : s.feeTreasury = feeTreasury.accountId
  ended : s.tEnd ≤ now
  raised : holding.account.balance ≠ 0
  share : fee.toNat = s.closeShare holding.account.balance.toNat
  split : fee.toNat + toCreator.toNat = holding.account.balance.toNat
  creatorFits : creator.account.balance.toNat + toCreator.toNat < 2 ^ 128
  treasuryFits : feeTreasury.account.balance.toNat + fee.toNat < 2 ^ 128

/-- The treasury is credited the fee, also where there is none. -/
theorem treasury_taken_eq_ok_iff {e : SpelError} {fee balance taken : U128} :
    (if 0 < fee then okOr e (checkedAdd balance fee) else pure balance) = .ok taken ↔
      balance.toNat + fee.toNat < 2 ^ 128 ∧ taken = balance + fee := by
  by_cases some_fee : 0 < fee
  · rw [if_pos some_fee, okOr_eq_ok_iff, checkedAdd_eq_some_iff_fits]
  · have none : fee = 0 := BitVec.le_zero_iff.mp (BitVec.not_lt.mp some_fee)
    have fits := balance.isLt
    rw [if_neg some_fee, none, pure_eq_ok, Except.ok.injEq, toNat_zero,
      show balance + 0 = balance from BitVec.add_zero balance]
    exact ⟨fun same => ⟨by omega, same.symm⟩, fun same => same.2.symm⟩

/-- A payment of the creator of a stored pool: accepted exactly under `WithdrawAccepted`, and
then it empties the holding and leaves the record alone. -/
theorem withdraw_eq_ok_iff (pool : AccountWithMetadata)
    {holding creator feeTreasury : AccountWithMetadata} {now : U64}
    (stored : pool.account.data = poolCodec.encode s) (rate_le : s.feeRate ≤ CAP_AT_CLOSE) :
    withdraw p selfId pool holding creator feeTreasury poolId now = .ok out ↔
      ∃ fee toCreator,
        WithdrawAccepted p selfId pool holding creator feeTreasury poolId s now fee toCreator ∧
        out = ⟨[pool,
          { holding with account := { holding.account with balance := 0 } },
          { creator with account :=
              { creator.account with balance := creator.account.balance + toCreator } },
          { feeTreasury with account :=
              { feeTreasury.account with balance := feeTreasury.account.balance + fee } }],
          []⟩ := by
  have config := FeeConfig.new_eq_ok rate_le (show CAP_AT_CLOSE ≤ RATE_ONE by decide)
  have fees (fee toCreator : U128) :
      FeeConfig.closeFee ⟨s.feeRate, CAP_AT_CLOSE, rate_le, by decide⟩ holding.account.balance =
          .ok (fee, toCreator) ↔
        fee.toNat = s.closeShare holding.account.balance.toNat ∧
          fee.toNat + toCreator.toNat = holding.account.balance.toNat := by
    rw [Pool.closeShare]
    exact FeeConfig.takeFee_eq_ok_iff _
  simp only [withdraw, checkSigner, checkPda, bind_eq_ok_iff, mapError_eq_ok_iff,
    ensure_eq_ok_iff, okOr_eq_ok_iff, pure_eq_ok, Except.ok.injEq, read_eq_ok_iff,
    checkedAdd_eq_some_iff_fits, not_or, not_not]
  constructor
  · rintro ⟨_, signed, _, poolAt, _, holdingAt, _, ⟨poolOwner, holdingOwner⟩, s', stored', _,
      byCreator, _, toTreasury, _, ended, _, raised, cfg, rate, ⟨fee, toCreator⟩, parts, paid,
      ⟨creatorFits, rfl⟩, taken, swept, rfl⟩
    obtain rfl := poolCodec.encode_injective (stored.symm.trans stored')
    rw [config, Except.ok.injEq] at rate
    subst rate
    obtain ⟨share, split⟩ := (fees fee toCreator).mp parts
    obtain ⟨treasuryFits, rfl⟩ := treasury_taken_eq_ok_iff.mp swept
    exact ⟨fee, toCreator,
      { signed, poolAt, holdingAt, poolOwner, holdingOwner, byCreator, toTreasury, ended, raised,
        share, split, creatorFits, treasuryFits }, rfl⟩
  · rintro ⟨fee, toCreator, h, rfl⟩
    have parts := (fees fee toCreator).mpr ⟨h.share, h.split⟩
    exact ⟨(), h.signed, (), h.poolAt, (), h.holdingAt, (), ⟨h.poolOwner, h.holdingOwner⟩, s,
      stored, (), h.byCreator, (), h.toTreasury, (), h.ended, (), h.raised, _, config,
      (fee, toCreator), parts, _, ⟨h.creatorFits, rfl⟩, _,
      treasury_taken_eq_ok_iff.mpr ⟨h.treasuryFits, rfl⟩, rfl⟩

end PoolProgram

end Antumbra
