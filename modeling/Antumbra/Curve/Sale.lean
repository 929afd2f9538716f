/-
# The bonding-curve sale program

A sale is a record in a program-derived account, with a second derived account
holding the collateral. Opening it, buying, sweeping the fee and paying the
creator are four instructions over account rows; every refusal has a code and a
text. The payment of a buy is a call into the native transfer program.
-/

import Antumbra.Core.Address
import Antumbra.Curve.Curve
import Antumbra.Curve.Fees

namespace Antumbra

open Antumbra.Math

/-- A program is named by eight 32-bit words. -/
abbrev ProgramId := List.Vector U32 8

structure Account where
  programOwner : ProgramId
  balance : U128
  data : List U8
  nonce : U128
  deriving DecidableEq

/-- An address nothing was written to. -/
def Account.default : Account where
  programOwner := List.Vector.replicate 8 0
  balance := 0
  data := []
  nonce := 0

/-- An account as a transaction row names it. -/
structure AccountWithMetadata where
  account : Account
  isAuthorized : Bool
  accountId : AccountId
  deriving DecidableEq

/-- A transfer of native balance the runtime is asked to make in the same transaction. -/
structure ChainedCall where
  programId : ProgramId
  accounts : List AccountWithMetadata
  amount : U128
  deriving DecidableEq

/-- The rows an instruction leaves and the calls it chains. -/
structure SpelOutput where
  accounts : List AccountWithMetadata
  calls : List ChainedCall
  deriving DecidableEq

inductive SpelError
  | unauthorized (message : String)
  | accountAlreadyInitialized (accountIndex : ℕ)
  | pdaMismatch (accountName : String) (expected actual : AccountId)
  | custom (code : ℕ) (message : String)
  deriving DecidableEq

def E_BAD_SALE : ℕ := 5001
def E_NOT_ANCHORED : ℕ := 5002
def E_PRICING_REFUSED : ℕ := 5003
def E_CLOSED : ℕ := 5004
def E_BUYER_UNOWNED : ℕ := 5005
def E_INSUFFICIENT : ℕ := 5006
def E_TREASURY_OVERFLOW : ℕ := 5007
def E_TREASURY_MISMATCH : ℕ := 5008
def E_FEE_TREASURY_MISMATCH : ℕ := 5009
def E_FEE_RATE_ABOVE_CAP : ℕ := 5010

/-- The native transfer program, pinned. -/
def AUTH_TRANSFER_PROGRAM_ID : ProgramId :=
  ⟨[583309054, 2344528779, 3806558405, 2890696795, 2257354672, 3978764116, 2273929063,
    1518858078], rfl⟩

/-- On-chain sale state. -/
structure Sale where
  vt : U128
  vc : U128
  saleReserve : U128
  realCollateral : U128
  seedReserve : U128
  creator : AccountId
  /-- The sale's holding account, recorded so that a buy cannot name another. -/
  treasury : AccountId
  feeTreasury : AccountId
  /-- In millionths. -/
  feeRate : U128
  /-- Fee taken on buys and not yet swept. -/
  feesAccrued : U128
  deriving DecidableEq

/-- The stored form of a sale: its fields in order. -/
def saleCodec : Codec Sale :=
  (Codec.u128.prod <| Codec.u128.prod <| Codec.u128.prod <| Codec.u128.prod <| Codec.u128.prod <|
    accountIdCodec.prod <| accountIdCodec.prod <| accountIdCodec.prod <|
      Codec.u128.prod Codec.u128).map
    { toFun := fun s => (s.vt, s.vc, s.saleReserve, s.realCollateral, s.seedReserve, s.creator,
        s.treasury, s.feeTreasury, s.feeRate, s.feesAccrued)
      invFun := fun (vt, vc, saleReserve, realCollateral, seedReserve, creator, treasury,
          feeTreasury, feeRate, feesAccrued) =>
        { vt, vc, saleReserve, realCollateral, seedReserve, creator, treasury, feeTreasury,
          feeRate, feesAccrued }
      left_inv := fun _ => rfl
      right_inv := fun _ => rfl }

/-- The pricing state a sale carries. -/
def Sale.curve (s : Sale) : Curve where
  vt := s.vt
  vc := s.vc
  saleReserve := s.saleReserve
  realCollateral := s.realCollateral

namespace SaleProgram

variable (p : Addressing ProgramId) (selfId : ProgramId)

/-! ### Row checks -/

/-- `#[account(signer)]`. -/
def checkSigner (name : String) (index : ℕ) (row : AccountWithMetadata) : Except SpelError Unit :=
  ensure (row.isAuthorized = true)
    (.unauthorized ("Account '" ++ name ++ "' (index " ++ toString index ++ ") must be a signer"))

/-- `#[account(init)]`. -/
def checkInit (index : ℕ) (row : AccountWithMetadata) : Except SpelError Unit :=
  ensure (row.account = Account.default) (.accountAlreadyInitialized index)

/-- `#[account(pda = ...)]`. -/
def checkPda (name : String) (seeds : List (Bytes 32)) (row : AccountWithMetadata) :
    Except SpelError Unit :=
  ensure (row.accountId = computePda p selfId seeds)
    (.pdaMismatch name (computePda p selfId seeds) row.accountId)

/-- A sale's own account. -/
def salePda (saleId : Bytes 32) : AccountId := computePda p selfId [saleId]

/-- A sale's holding account. -/
def holdingPda (saleId : Bytes 32) : AccountId := computePda p selfId [saleId, holdingWord]

/-- Replace an account's stored record. -/
def write (account : Account) (state : Sale) : Account :=
  { account with data := saleCodec.encode state }

def read (account : Account) : Except SpelError Sale :=
  okOr (.custom E_BAD_SALE "sale failed to deserialize") (saleCodec.readAll account.data)

/-! ### Instructions -/

/-- Open a sale. -/
def createSale (sale holding creator : AccountWithMetadata) (saleId : Bytes 32)
    (vt vc saleReserve seedReserve : U128) (feeTreasury : AccountId) (feeRate : U128) :
    Except SpelError SpelOutput := do
  checkSigner "creator" 2 creator
  checkInit 0 sale
  checkInit 1 holding
  checkPda p selfId "sale" [saleId] sale
  checkPda p selfId "holding" [saleId, holdingWord] holding
  let _ ← (Curve.new vt vc saleReserve).mapError
    fun _ => SpelError.custom E_BAD_SALE "curve parameters are degenerate"
  let _ ← (FeeConfig.new feeRate CAP_PER_SWAP).mapError
    fun _ => SpelError.custom E_FEE_RATE_ABOVE_CAP "fee rate exceeds the 1% cap"
  let state : Sale :=
    { vt, vc, saleReserve
      realCollateral := 0
      seedReserve
      creator := creator.accountId
      treasury := holding.accountId
      feeTreasury, feeRate
      feesAccrued := 0 }
  return { accounts := [{ sale with account := write sale.account state }, holding, creator]
           calls := [] }

/-- Sweep the accrued fee from the holding to the fee treasury. -/
def collectFees (sale holding feeTreasury : AccountWithMetadata) (saleId : Bytes 32) :
    Except SpelError SpelOutput := do
  checkPda p selfId "sale" [saleId] sale
  checkPda p selfId "holding" [saleId, holdingWord] holding
  ensure (¬ (sale.account.programOwner ≠ selfId ∨ holding.account.programOwner ≠ selfId))
    (.custom E_NOT_ANCHORED "sale or holding is not owned by this program")
  let state ← read sale.account
  ensure (state.feeTreasury = feeTreasury.accountId)
    (.custom E_FEE_TREASURY_MISMATCH "fee treasury is not the account this sale was created with")
  let amount := state.feesAccrued
  ensure (amount ≠ 0) (.custom E_PRICING_REFUSED "no fees accrued")
  let held ← okOr (.custom E_TREASURY_OVERFLOW "holding cannot cover the fee")
    (checkedSub holding.account.balance amount)
  let swept ← okOr (.custom E_TREASURY_OVERFLOW "fee treasury would overflow")
    (checkedAdd feeTreasury.account.balance amount)
  return { accounts :=
             [{ sale with account := write sale.account { state with feesAccrued := 0 } },
              { holding with account := { holding.account with balance := held } },
              { feeTreasury with account := { feeTreasury.account with balance := swept } }]
           calls := [] }

/-- Close the sale and pay the creator what the holding carries beyond the fee. -/
def withdraw (sale holding creator : AccountWithMetadata) (saleId : Bytes 32) :
    Except SpelError SpelOutput := do
  checkSigner "creator" 2 creator
  checkPda p selfId "sale" [saleId] sale
  checkPda p selfId "holding" [saleId, holdingWord] holding
  ensure (¬ (sale.account.programOwner ≠ selfId ∨ holding.account.programOwner ≠ selfId))
    (.custom E_NOT_ANCHORED "sale or holding is not owned by this program")
  let state ← read sale.account
  ensure (state.creator = creator.accountId)
    (.custom E_TREASURY_MISMATCH "signer is not the creator of this sale")
  ensure (state.saleReserve = 0)
    (.custom E_CLOSED "the sale has not closed: tokens remain unsold")
  let payable ← okOr (.custom E_TREASURY_OVERFLOW "holding is short of the accrued fee")
    (checkedSub holding.account.balance state.feesAccrued)
  ensure (payable ≠ 0) (.custom E_PRICING_REFUSED "nothing to withdraw")
  let held ← okOr (.custom E_TREASURY_OVERFLOW "holding underflow")
    (checkedSub holding.account.balance payable)
  let paid ← okOr (.custom E_TREASURY_OVERFLOW "creator balance overflow")
    (checkedAdd creator.account.balance payable)
  return { accounts :=
             [sale,
              { holding with account := { holding.account with balance := held } },
              { creator with account := { creator.account with balance := paid } }]
           calls := [] }

/-- Price and record a buy, and chain the payment. -/
def executeBuy (sale buyer holding : AccountWithMetadata) (saleId : Bytes 32)
    (collateralIn minTokensOut : U128) : Except SpelError SpelOutput := do
  checkSigner "buyer" 1 buyer
  checkPda p selfId "sale" [saleId] sale
  checkPda p selfId "holding" [saleId, holdingWord] holding
  ensure (sale.account.programOwner = selfId)
    (.custom E_NOT_ANCHORED "no sale is committed at this id")
  let state ← read sale.account
  ensure (state.curve.isClosed = false)
    (.custom E_CLOSED "the sale reserve is exhausted; this sale is closed")
  let cfg ← (FeeConfig.new state.feeRate CAP_PER_SWAP).mapError
    fun _ => SpelError.custom E_FEE_RATE_ABOVE_CAP "stored fee rate exceeds the cap"
  let (fee, effective) ← (cfg.buyFee collateralIn).mapError
    fun _ => SpelError.custom E_PRICING_REFUSED "the whole input would be fee"
  let (answer, curve) := state.curve.buy effective minTokensOut
  let _ ← answer.mapError
    fun _ => SpelError.custom E_PRICING_REFUSED "buy refused: slippage, size or reserve"
  ensure (state.treasury = holding.accountId)
    (.custom E_TREASURY_MISMATCH "holding is not the account this sale was created with")
  ensure (holding.account.programOwner = selfId)
    (.custom E_TREASURY_MISMATCH "the holding account is not owned by this program")
  -- Owned by *the* transfer program, not merely by some program.
  ensure (buyer.account.programOwner = AUTH_TRANSFER_PROGRAM_ID)
    (.custom E_BUYER_UNOWNED "the buyer account is held by no program and cannot pay")
  ensure (collateralIn ≤ buyer.account.balance)
    (.custom E_INSUFFICIENT "the buyer cannot cover this purchase")
  ensure ((checkedAdd holding.account.balance collateralIn).isSome = true)
    (.custom E_TREASURY_OVERFLOW "the holding balance would overflow")
  let payment : ChainedCall :=
    { programId := AUTH_TRANSFER_PROGRAM_ID, accounts := [buyer, holding], amount := collateralIn }
  let feesAccrued ← okOr (.custom E_TREASURY_OVERFLOW "accrued fees overflow")
    (checkedAdd state.feesAccrued fee)
  let state' : Sale :=
    { state with
      feesAccrued
      vt := curve.vt
      vc := curve.vc
      saleReserve := curve.saleReserve
      realCollateral := curve.realCollateral }
  return { accounts := [{ sale with account := write sale.account state' }, buyer, holding]
           calls := [payment] }

end SaleProgram

end Antumbra
