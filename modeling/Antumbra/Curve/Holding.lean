/-
# What a sale's holding owes

The collateral of a sale and the fees on it lie in one account. Buys put them in
together, anyone may sweep the fees, and the creator takes the rest at the close.
Here the sale runs among arbitrary accounts and calls, and its holding is a till: no
order of calls leaves the fees or the collateral short.
-/

import Antumbra.Curve.Closing
import Antumbra.Math.Till

namespace Antumbra

open Antumbra.Math

/-- The accounts of the chain. -/
abbrev Accounts := AccountId → Account

/-- A row as a caller names it: an account, and whether it signed. -/
structure Named where
  accountId : AccountId
  isAuthorized : Bool
  deriving DecidableEq

/-- A call on one sale, with the rows it names. -/
inductive SaleCall
  | executeBuy (sale buyer holding : Named) (collateralIn minTokensOut : U128)
  | collectFees (sale holding feeTreasury : Named)
  | withdraw (sale holding creator : Named)
  deriving DecidableEq

/-- The row as the program sees it. -/
def Named.row (n : Named) (a : Accounts) : AccountWithMetadata where
  account := a n.accountId
  isAuthorized := n.isAuthorized
  accountId := n.accountId

@[simp] theorem Named.row_account (n : Named) (a : Accounts) :
    (n.row a).account = a n.accountId := rfl

@[simp] theorem Named.row_accountId (n : Named) (a : Accounts) :
    (n.row a).accountId = n.accountId := rfl

/-- The accounts named are distinct. -/
def Distinct (rows : List Named) : Prop := (rows.map Named.accountId).Nodup

instance (rows : List Named) : Decidable (Distinct rows) :=
  inferInstanceAs (Decidable (rows.map Named.accountId).Nodup)

theorem distinct_iff {x y z : Named} :
    Distinct [x, y, z] ↔ x.accountId ≠ y.accountId ∧ x.accountId ≠ z.accountId ∧
      y.accountId ≠ z.accountId := by
  simp [Distinct, and_assoc]

namespace Accounts

/-- The accounts after the rows an instruction left. -/
def record (a : Accounts) (rows : List AccountWithMetadata) : Accounts :=
  rows.foldl (fun a row => Function.update a row.accountId row.account) a

/-- One chained transfer. -/
def transfer (a : Accounts) (call : ChainedCall) : Option Accounts :=
  match call.accounts with
  | [sender, recipient] => (authTransfer call).map fun moved =>
      record a [{ sender with account := moved.1 }, { recipient with account := moved.2 }]
  | _ => none

/-- The program becomes the owner of an account it opened. -/
def claim (selfId : ProgramId) (a : Accounts) (accountId : AccountId) : Accounts :=
  Function.update a accountId (Listing.claimed selfId (a accountId))

/-- What the balance of an account grew by. -/
def received (a a' : Accounts) (accountId : AccountId) : ℕ :=
  (a' accountId).balance.toNat - (a accountId).balance.toNat

end Accounts

namespace SaleCall

def rows : SaleCall → List Named
  | executeBuy sale buyer holding _ _ => [sale, buyer, holding]
  | collectFees sale holding feeTreasury => [sale, holding, feeTreasury]
  | withdraw sale holding creator => [sale, holding, creator]

/-- The rows of the sale and of its holding. -/
def sale : SaleCall → Named
  | executeBuy sale _ _ _ _ | collectFees sale _ _ | withdraw sale _ _ => sale

def holding : SaleCall → Named
  | executeBuy _ _ holding _ _ | collectFees _ holding _ | withdraw _ holding _ => holding

/-- What an accepted call enters in the sale's history: what was paid in, or what the
receiving account got. -/
def entry {ρ : Type} (a a' : Accounts) : SaleCall → Entry ρ
  | executeBuy _ _ _ collateralIn _ => .take collateralIn.toNat
  | collectFees _ _ feeTreasury => .sweep (a.received a' feeTreasury.accountId)
  | withdraw _ _ creator => .pay (a.received a' creator.accountId)

end SaleCall

namespace Accounts

open SaleProgram (salePda holdingPda)

variable (p : Addressing ProgramId) (selfId : ProgramId) (saleId : Bytes 32)

/-- The instruction a call runs. -/
def instruction (a : Accounts) : SaleCall → Except SpelError SpelOutput
  | .executeBuy sale buyer holding collateralIn minTokensOut =>
    SaleProgram.executeBuy p selfId (sale.row a) (buyer.row a) (holding.row a) saleId collateralIn
      minTokensOut
  | .collectFees sale holding feeTreasury =>
    SaleProgram.collectFees p selfId (sale.row a) (holding.row a) (feeTreasury.row a) saleId
  | .withdraw sale holding creator =>
    SaleProgram.withdraw p selfId (sale.row a) (holding.row a) (creator.row a) saleId

/-- Run a call on the chain: the program, then the transfers it chains. -/
def execute (a : Accounts) (c : SaleCall) : Except Failure Accounts := do
  let out ← (a.instruction p selfId saleId c).mapError .refused
  -- the rows are written first, and the chained transfers see them
  okOr .transferFailed (out.calls.foldlM transfer (a.record out.accounts))

/-- The accounts after a call, accepted or not. -/
def land (a : Accounts) (c : SaleCall) : Accounts :=
  match a.execute p selfId saleId c with
  | .ok a' => a'
  | .error _ => a

/-- Open a sale on the chain. -/
def openSale (a : Accounts) (sale holding creator : Named)
    (vt vc saleReserve seedReserve : U128) (feeTreasury : AccountId) (feeRate : U128) :
    Except Failure Accounts := do
  let out ← (SaleProgram.createSale p selfId (sale.row a) (holding.row a) (creator.row a) saleId vt
    vc saleReserve seedReserve feeTreasury feeRate).mapError .refused
  return claim selfId (claim selfId (a.record out.accounts) sale.accountId) holding.accountId

/-- What can happen to a sale: a call on it, accepted or refused, or anything else, which
neither writes the sale's record nor debits its holding. -/
inductive Step : Accounts → Entry (SaleCall × Failure) → Accounts → Prop
  | accepted (a a' : Accounts) (c : SaleCall) (distinct : Distinct c.rows)
    (run : a.execute p selfId saleId c = .ok a') : Step a (c.entry a a') a'
  | refused (a : Accounts) (c : SaleCall) (why : Failure) (distinct : Distinct c.rows)
    (run : a.execute p selfId saleId c = .error why) : Step a (.refuse (c, why)) a
  | elsewhere (a a' : Accounts)
    (record : (a' (salePda p selfId saleId)).data =
      (a (salePda p selfId saleId)).data)
    (saleOwner : (a' (salePda p selfId saleId)).programOwner =
      (a (salePda p selfId saleId)).programOwner)
    (holdingOwner : (a' (holdingPda p selfId saleId)).programOwner =
      (a (holdingPda p selfId saleId)).programOwner)
    (undebited : (a (holdingPda p selfId saleId)).balance.toNat ≤
      (a' (holdingPda p selfId saleId)).balance.toNat) :
    Step a (.credit (a.received a' (holdingPda p selfId saleId))) a'

/-- The histories of a sale from given accounts on. -/
abbrev History (a₀ : Accounts) (es : List (Entry (SaleCall × Failure))) (a : Accounts) : Prop :=
  Trace (Step p selfId saleId) a₀ es a

/-! ### Writing rows -/

variable {p selfId saleId}
variable {tokens collateral : ℕ} {a a' : Accounts} {s : Sale} {rows : List AccountWithMetadata}

/-- A transfer lands exactly when its sender covers it and the sum fits. -/
theorem transfer_eq_some_iff {program : ProgramId} {sender recipient : AccountWithMetadata}
    {amount : U128} :
    transfer a ⟨program, [sender, recipient], amount⟩ = some a' ↔
      amount ≤ sender.account.balance ∧
        recipient.account.balance.toNat + amount.toNat < 2 ^ 128 ∧
        a' = a.record [
          { sender with
            account := { sender.account with balance := sender.account.balance - amount } },
          { recipient with
            account := { recipient.account with
              balance := recipient.account.balance + amount } }] := by
  simp only [transfer, authTransfer, Option.bind_eq_some_iff, Option.map_eq_some_iff,
    checkedSub_eq_some_iff_le, checkedAdd_eq_some_iff_fits, Prod.exists, Prod.mk.injEq]
  constructor
  · rintro ⟨_, _, ⟨_, ⟨covered, rfl⟩, _, ⟨fits, rfl⟩, rfl, rfl⟩, rfl⟩
    exact ⟨covered, fits, rfl⟩
  · rintro ⟨covered, fits, rfl⟩
    exact ⟨_, _, ⟨_, ⟨covered, rfl⟩, _, ⟨fits, rfl⟩, rfl, rfl⟩, rfl⟩

theorem received_eq {accountId : AccountId} {amount : U128}
    (credited : (a' accountId).balance = (a accountId).balance + amount)
    (fits : (a accountId).balance.toNat + amount.toNat < 2 ^ 128) :
    a.received a' accountId = amount.toNat := by
  rw [received, credited, BitVec.toNat_add, Nat.mod_eq_of_lt fits, Nat.add_sub_cancel_left]

theorem execute_eq_ok_iff {c : SaleCall} :
    a.execute p selfId saleId c = .ok a' ↔ ∃ out, a.instruction p selfId saleId c = .ok out ∧
      out.calls.foldlM transfer (a.record out.accounts) = some a' := by
  simp only [execute, bind_eq_ok_iff, mapError_eq_ok_iff, okOr_eq_ok_iff]

theorem execute_of_isOk {c : SaleCall} (h : (a.execute p selfId saleId c).isOk = true) :
    a.execute p selfId saleId c = .ok (a.land p selfId saleId c) := by
  unfold land
  cases accepted : a.execute p selfId saleId c with
  | error why =>
    rw [accepted] at h
    exact absurd h Bool.false_ne_true
  | ok a' => rfl

/-! ### What accepted calls do -/

/-- What holds of a sale's two accounts in every state. -/
structure Anchored (p : Addressing ProgramId) (selfId : ProgramId) (saleId : Bytes 32)
    (tokens collateral : ℕ) (feeRate : U128) (a : Accounts) (s : Sale) : Prop where
  stored : (a (salePda p selfId saleId)).data = saleCodec.encode s
  saleOwner : (a (salePda p selfId saleId)).programOwner = selfId
  holdingOwner : (a (holdingPda p selfId saleId)).programOwner = selfId
  rate_eq : s.feeRate = feeRate
  rate_le : s.feeRate ≤ CAP_PER_SWAP
  offsets : Curve.Offsets tokens collateral s.curve
  covered : s.feesAccrued ≤ (a (holdingPda p selfId saleId)).balance

variable {feeRate : U128}

/-- Every instruction checks its first two addresses. -/
theorem addresses_of_instruction {c : SaleCall} {out : SpelOutput}
    (run : a.instruction p selfId saleId c = .ok out) :
    c.sale.accountId = salePda p selfId saleId ∧
      c.holding.accountId = holdingPda p selfId saleId := by
  cases c with
  | executeBuy sale buyer holding collateralIn minTokensOut =>
    simp only [instruction, SaleProgram.executeBuy, SaleProgram.checkPda, bind_eq_ok_iff,
      ensure_eq_ok_iff] at run
    obtain ⟨_, -, _, saleAt, _, holdingAt, -⟩ := run
    exact ⟨saleAt, holdingAt⟩
  | collectFees sale holding feeTreasury =>
    simp only [instruction, SaleProgram.collectFees, SaleProgram.checkPda, bind_eq_ok_iff,
      ensure_eq_ok_iff] at run
    obtain ⟨_, saleAt, _, holdingAt, -⟩ := run
    exact ⟨saleAt, holdingAt⟩
  | withdraw sale holding creator =>
    simp only [instruction, SaleProgram.withdraw, SaleProgram.checkPda, bind_eq_ok_iff,
      ensure_eq_ok_iff] at run
    obtain ⟨_, -, _, saleAt, _, holdingAt, -⟩ := run
    exact ⟨saleAt, holdingAt⟩

theorem Anchored.stored_row (h : Anchored p selfId saleId tokens collateral feeRate a s)
    {c : SaleCall} {out : SpelOutput} (run : a.instruction p selfId saleId c = .ok out) :
    (c.sale.row a).account.data = saleCodec.encode s := by
  rw [Named.row_account, (addresses_of_instruction run).1]
  exact h.stored

/-- An accepted buy moves its whole input into the holding and records its parts. -/
theorem Anchored.executeBuy (h : Anchored p selfId saleId tokens collateral feeRate a s)
    {sale buyer holding : Named} {collateralIn minTokensOut : U128}
    (distinct : Distinct [sale, buyer, holding])
    (run : a.execute p selfId saleId (.executeBuy sale buyer holding collateralIn minTokensOut) =
      .ok a') :
    ∃ fee effective tokensOut,
      SaleProgram.BuyAccepted p selfId (sale.row a) (buyer.row a) (holding.row a) saleId s
        collateralIn minTokensOut fee effective tokensOut ∧
      a' (salePda p selfId saleId) =
        SaleProgram.write (a (salePda p selfId saleId))
          (s.bought fee effective tokensOut) ∧
      a' (holdingPda p selfId saleId) =
        { a (holdingPda p selfId saleId) with
          balance := (a (holdingPda p selfId saleId)).balance + collateralIn } := by
  obtain ⟨out, run, transfers⟩ := execute_eq_ok_iff.mp run
  have stored : (sale.row a).account.data = saleCodec.encode s := h.stored_row run
  obtain ⟨fee, effective, tokensOut, accepted, rfl⟩ :=
    (SaleProgram.executeBuy_eq_ok_iff (sale.row a) stored h.rate_le h.offsets).mp run
  obtain ⟨_, transfer, last⟩ := Option.bind_eq_some_iff.mp transfers
  obtain rfl := Option.some.inj last
  obtain ⟨-, -, rfl⟩ := transfer_eq_some_iff.mp transfer
  obtain ⟨notBuyer, notHolding, -⟩ := distinct_iff.mp distinct
  rw [← accepted.saleAt, ← accepted.holdingAt]
  -- the transfer leaves the record alone
  exact ⟨fee, effective, tokensOut, accepted,
    by simp [record, notBuyer, notHolding], by simp [record]⟩

/-- An accepted sweep moves what accrued to the fee treasury. -/
theorem Anchored.collectFees (h : Anchored p selfId saleId tokens collateral feeRate a s)
    {sale holding feeTreasury : Named} (distinct : Distinct [sale, holding, feeTreasury])
    (run : a.execute p selfId saleId (.collectFees sale holding feeTreasury) = .ok a') :
    a' (salePda p selfId saleId) =
        SaleProgram.write (a (salePda p selfId saleId)) { s with feesAccrued := 0 } ∧
      a' (holdingPda p selfId saleId) =
        { a (holdingPda p selfId saleId) with
          balance := (a (holdingPda p selfId saleId)).balance - s.feesAccrued } ∧
      a.received a' feeTreasury.accountId = s.feesAccrued.toNat := by
  obtain ⟨out, run, transfers⟩ := execute_eq_ok_iff.mp run
  have stored : (sale.row a).account.data = saleCodec.encode s := h.stored_row run
  obtain ⟨⟨saleAt, holdingAt, -⟩, -, -, -, fits, rfl⟩ :=
    (SaleProgram.collectFees_eq_ok_iff (sale.row a) stored).mp run
  obtain rfl := Option.some.inj transfers
  obtain ⟨notHolding, notTreasury, apart⟩ := distinct_iff.mp distinct
  rw [← saleAt, ← holdingAt]
  -- three different rows, each written once
  exact ⟨by simp [record, notHolding, notTreasury], by simp [record, apart],
    received_eq (by simp [record]) fits⟩

/-- An accepted payment of the creator leaves what accrued. -/
theorem Anchored.withdraw (h : Anchored p selfId saleId tokens collateral feeRate a s)
    {sale holding creator : Named} (distinct : Distinct [sale, holding, creator])
    (run : a.execute p selfId saleId (.withdraw sale holding creator) = .ok a') :
    s.saleReserve = 0 ∧
      a' (salePda p selfId saleId) = a (salePda p selfId saleId) ∧
      a' (holdingPda p selfId saleId) =
        { a (holdingPda p selfId saleId) with balance := s.feesAccrued } ∧
      a.received a' creator.accountId =
        (a (holdingPda p selfId saleId)).balance.toNat - s.feesAccrued.toNat := by
  obtain ⟨out, run, transfers⟩ := execute_eq_ok_iff.mp run
  have stored : (sale.row a).account.data = saleCodec.encode s := h.stored_row run
  obtain ⟨-, ⟨saleAt, holdingAt, -⟩, -, closed, covered, -, fits, rfl⟩ :=
    (SaleProgram.withdraw_eq_ok_iff (sale.row a) stored).mp run
  obtain rfl := Option.some.inj transfers
  obtain ⟨notHolding, notCreator, apart⟩ := distinct_iff.mp distinct
  rw [← saleAt, ← holdingAt]
  exact ⟨closed, by simp [record, notHolding, notCreator], by simp [record, apart],
    (received_eq (by simp [record]) fits).trans (toNat_sub_of_le covered)⟩

/-- No sweep is refused for lack of funds: the holding covers what accrued. -/
theorem Anchored.not_short (h : Anchored p selfId saleId tokens collateral feeRate a s)
    {c : SaleCall} :
    a.instruction p selfId saleId c ≠
      .error (.custom E_TREASURY_OVERFLOW "holding cannot cover the fee") := by
  intro refused
  cases c with
  | executeBuy sale buyer holding collateralIn minTokensOut =>
    -- no refusal of a buy has this text
    simp only [instruction, SaleProgram.executeBuy, SaleProgram.checkSigner, SaleProgram.checkPda,
      SaleProgram.read, bind_eq_error_iff, ensure_eq_error_iff, okOr_eq_error_iff,
      mapError_eq_error_iff, pure_eq_ok, reduceCtorEq, SpelError.custom.injEq, String.reduceEq,
      and_false, exists_false, or_false] at refused
  | collectFees sale holding feeTreasury =>
    simp only [instruction, SaleProgram.collectFees, SaleProgram.checkPda,
      SaleProgram.read, bind_eq_error_iff, ensure_eq_error_iff, ensure_eq_ok_iff,
      okOr_eq_error_iff, okOr_eq_ok_iff, Codec.readAll_eq_some_iff, pure_eq_ok, reduceCtorEq,
      SpelError.custom.injEq, String.reduceEq, and_false, exists_false, or_false, false_or,
      and_true] at refused
    obtain ⟨_, saleAt, _, holdingAt, _, -, s', stored, _, -, _, -, short⟩ := refused
    rw [Named.row_account, show sale.accountId = _ from saleAt] at stored
    -- the record read is the one kept, whose fees the holding covers
    obtain rfl := saleCodec.encode_injective (h.stored.symm.trans stored)
    rw [Named.row_account, show holding.accountId = _ from holdingAt] at short
    have covered := checkedSub_eq_some_iff_le.mpr ⟨h.covered, rfl⟩
    exact Option.some_ne_none _ (covered.symm.trans short)
  | withdraw sale holding creator =>
    simp only [instruction, SaleProgram.withdraw, SaleProgram.checkSigner, SaleProgram.checkPda,
      SaleProgram.read, bind_eq_error_iff, ensure_eq_error_iff, okOr_eq_error_iff,
      pure_eq_ok, reduceCtorEq, SpelError.custom.injEq, String.reduceEq, and_false, exists_false,
      or_false] at refused

/-! ### The holding is a till -/

/-- The fee of a payment at a rate. -/
def feeOf (feeRate : U128) (amount : ℕ) : ℕ := (amount * feeRate.toNat) ⌈/⌉ RATE_ONE.toNat

theorem feeOf_le (capped : feeRate ≤ CAP_PER_SWAP) (amount : ℕ) : feeOf feeRate amount ≤ amount :=
  FeeConfig.feeShare_le ⟨feeRate, CAP_PER_SWAP, capped, by decide⟩ amount

/-- A sale as a till: the fees are the house's and the rest is the creator's. -/
def till (held : U128) (s : Sale) : Till where
  held := held.toNat
  fees := s.feesAccrued.toNat
  raised := s.realCollateral.toNat
  closed := s.curve.isClosed

/-- The refusal of a sweep for lack of funds. -/
def shortOfFee : Failure := .refused (.custom E_TREASURY_OVERFLOW "holding cannot cover the fee")

/-- An accepted buy is a payment into the till. -/
theorem Anchored.take (h : Anchored p selfId saleId tokens collateral feeRate a s)
    {sale buyer holding : Named} {collateralIn minTokensOut : U128}
    (distinct : Distinct [sale, buyer, holding])
    (run : a.execute p selfId saleId (.executeBuy sale buyer holding collateralIn minTokensOut) =
      .ok a') :
    ∃ s', Anchored p selfId saleId tokens collateral feeRate a' s' ∧
      Till.Step (ρ := SaleCall × Failure) (feeOf feeRate)
        (till (a (holdingPda p selfId saleId)).balance s) (.take collateralIn.toNat)
        (till (a' (holdingPda p selfId saleId)).balance s') := by
  obtain ⟨fee, effective, tokensOut, accepted, sale', holding'⟩ := h.executeBuy distinct run
  have fits := accepted.fits
  rw [Named.row_account, ← Named.row_accountId holding a, accepted.holdingAt] at fits
  have split := accepted.split
  have fee_eq : fee.toNat = feeOf feeRate collateralIn.toNat :=
    h.rate_eq ▸ accepted.fee_eq h.rate_le
  have covered := BitVec.le_def.mp h.covered
  obtain ⟨-, -, -, raised⟩ := h.offsets.toNat_bought accepted.quote
  -- the till gets the whole input, of which the fee is the house's
  have paidIn : till ((a (holdingPda p selfId saleId)).balance + collateralIn)
      (s.bought fee effective tokensOut) =
      { held := (a (holdingPda p selfId saleId)).balance.toNat + collateralIn.toNat
        fees := s.feesAccrued.toNat + feeOf feeRate collateralIn.toNat
        raised := s.realCollateral.toNat +
          (collateralIn.toNat - feeOf feeRate collateralIn.toNat)
        closed := (s.bought fee effective tokensOut).curve.isClosed } := by
    refine Till.ext ?_ ?_ ?_ rfl
    · exact BitVec.toNat_add_of_lt fits
    · exact (BitVec.toNat_add_of_lt accepted.accrues).trans (by rw [fee_eq])
    · rw [← fee_eq, show collateralIn.toNat - fee.toNat = effective.toNat by omega]
      exact raised
  refine ⟨s.bought fee effective tokensOut, ?_, ?_⟩
  · exact
      { stored := by rw [sale']; rfl
        saleOwner := by rw [sale']; exact h.saleOwner
        holdingOwner := by rw [holding']; exact h.holdingOwner
        rate_eq := h.rate_eq
        rate_le := h.rate_le
        offsets := h.offsets.bought accepted.quote
        covered := by
          have within := congrArg Till.fees paidIn
          have held := congrArg Till.held paidIn
          rw [holding', BitVec.le_def]
          dsimp only [till] at within held ⊢
          omega }
  · rw [holding', paidIn]
    exact .take (till (a (holdingPda p selfId saleId)).balance s) _
      (SaleProgram.isClosed_eq_false_iff.mpr accepted.unsold) _

/-- An accepted sweep takes the house's part. -/
theorem Anchored.sweep (h : Anchored p selfId saleId tokens collateral feeRate a s)
    {sale holding feeTreasury : Named} (distinct : Distinct [sale, holding, feeTreasury])
    (run : a.execute p selfId saleId (.collectFees sale holding feeTreasury) = .ok a') :
    ∃ s', Anchored p selfId saleId tokens collateral feeRate a' s' ∧
      Till.Step (ρ := SaleCall × Failure) (feeOf feeRate)
        (till (a (holdingPda p selfId saleId)).balance s)
        (.sweep (a.received a' feeTreasury.accountId))
        (till (a' (holdingPda p selfId saleId)).balance s') := by
  obtain ⟨sale', holding', swept⟩ := h.collectFees distinct run
  have left : till ((a (holdingPda p selfId saleId)).balance - s.feesAccrued)
      { s with feesAccrued := 0 } =
      { till (a (holdingPda p selfId saleId)).balance s with
        held := (a (holdingPda p selfId saleId)).balance.toNat - s.feesAccrued.toNat, fees := 0 } :=
    Till.ext (toNat_sub_of_le h.covered) rfl rfl rfl
  refine ⟨{ s with feesAccrued := 0 }, ?_, ?_⟩
  · exact
      { stored := by rw [sale']; rfl
        saleOwner := by rw [sale']; exact h.saleOwner
        holdingOwner := by rw [holding']; exact h.holdingOwner
        rate_eq := h.rate_eq
        rate_le := h.rate_le
        offsets := h.offsets
        covered := BitVec.le_def.mpr (Nat.zero_le _) }
  · rw [swept, holding', left]
    exact .sweep (till (a (holdingPda p selfId saleId)).balance s)

/-- An accepted payment of the creator takes the rest. -/
theorem Anchored.pay (h : Anchored p selfId saleId tokens collateral feeRate a s)
    {sale holding creator : Named} (distinct : Distinct [sale, holding, creator])
    (run : a.execute p selfId saleId (.withdraw sale holding creator) = .ok a') :
    ∃ s', Anchored p selfId saleId tokens collateral feeRate a' s' ∧
      Till.Step (ρ := SaleCall × Failure) (feeOf feeRate)
        (till (a (holdingPda p selfId saleId)).balance s)
        (.pay (a.received a' creator.accountId))
        (till (a' (holdingPda p selfId saleId)).balance s') := by
  obtain ⟨closed, sale', holding', paid⟩ := h.withdraw distinct run
  refine ⟨s, ?_, ?_⟩
  · exact
      { stored := by rw [sale']; exact h.stored
        saleOwner := by rw [sale']; exact h.saleOwner
        holdingOwner := by rw [holding']; exact h.holdingOwner
        rate_eq := h.rate_eq
        rate_le := h.rate_le
        offsets := h.offsets
        covered := by rw [holding']; exact BitVec.le_refl _ }
  · rw [paid, holding']
    -- the program pays the creator of a closed sale only
    refine .pay (till (a (holdingPda p selfId saleId)).balance s) ?_
    exact decide_eq_true closed

/-- Money from elsewhere is put into the till. -/
theorem Anchored.credit (h : Anchored p selfId saleId tokens collateral feeRate a s)
    (record : (a' (salePda p selfId saleId)).data = (a (salePda p selfId saleId)).data)
    (saleOwner : (a' (salePda p selfId saleId)).programOwner =
      (a (salePda p selfId saleId)).programOwner)
    (holdingOwner : (a' (holdingPda p selfId saleId)).programOwner =
      (a (holdingPda p selfId saleId)).programOwner)
    (undebited : (a (holdingPda p selfId saleId)).balance.toNat ≤
      (a' (holdingPda p selfId saleId)).balance.toNat) :
    Anchored p selfId saleId tokens collateral feeRate a' s ∧
      Till.Step (ρ := SaleCall × Failure) (feeOf feeRate)
        (till (a (holdingPda p selfId saleId)).balance s)
        (.credit (a.received a' (holdingPda p selfId saleId)))
        (till (a' (holdingPda p selfId saleId)).balance s) := by
  constructor
  · exact
      { stored := record.trans h.stored
        saleOwner := saleOwner.trans h.saleOwner
        holdingOwner := holdingOwner.trans h.holdingOwner
        rate_eq := h.rate_eq
        rate_le := h.rate_le
        offsets := h.offsets
        covered := Nat.le_trans h.covered undebited }
  · have grown : till (a' (holdingPda p selfId saleId)).balance s =
        { till (a (holdingPda p selfId saleId)).balance s with
          held := (a (holdingPda p selfId saleId)).balance.toNat +
            a.received a' (holdingPda p selfId saleId) } :=
      Till.ext (Nat.add_sub_cancel' undebited).symm rfl rfl rfl
    rw [grown]
    exact .credit (till (a (holdingPda p selfId saleId)).balance s) _

theorem Anchored.not_short_of_execute
    (h : Anchored p selfId saleId tokens collateral feeRate a s) {c : SaleCall} :
    a.execute p selfId saleId c ≠ .error shortOfFee := by
  intro refused
  simp only [execute, shortOfFee, bind_eq_error_iff, mapError_eq_error_iff, okOr_eq_error_iff,
    Failure.refused.injEq, reduceCtorEq, and_false, exists_false, or_false, exists_eq_right]
    at refused
  exact h.not_short refused

/-- Every step of a sale is a step of its till, and no sweep is short of funds. -/
theorem Anchored.step (h : Anchored p selfId saleId tokens collateral feeRate a s)
    {e : Entry (SaleCall × Failure)} (step : Step p selfId saleId a e a') :
    (∃ s', Anchored p selfId saleId tokens collateral feeRate a' s' ∧
      Till.Step (feeOf feeRate) (till (a (holdingPda p selfId saleId)).balance s) e
        (till (a' (holdingPda p selfId saleId)).balance s')) ∧
      ∀ c, e ≠ .refuse (c, shortOfFee) := by
  cases step with
  | accepted a' c distinct run =>
    cases c with
    | executeBuy sale buyer holding collateralIn minTokensOut =>
      exact ⟨h.take distinct run, fun _ => nofun⟩
    | collectFees sale holding feeTreasury => exact ⟨h.sweep distinct run, fun _ => nofun⟩
    | withdraw sale holding creator => exact ⟨h.pay distinct run, fun _ => nofun⟩
  | refused c why distinct run =>
    refine ⟨⟨s, h, .refuse _ _⟩, ?_⟩
    rintro c' same
    obtain ⟨rfl, rfl⟩ := Prod.mk.inj (Entry.refuse.inj same)
    exact h.not_short_of_execute run
  | elsewhere a' record saleOwner holdingOwner undebited =>
    exact ⟨⟨s, h.credit record saleOwner holdingOwner undebited⟩, fun _ => nofun⟩

/-- An opened sale is a till with nothing in it. -/
theorem anchored_of_openSale {sale holding creator : Named}
    {vt vc saleReserve seedReserve : U128} {feeTreasury : AccountId}
    (distinct : Distinct [sale, holding, creator])
    (opened : a.openSale p selfId saleId sale holding creator vt vc saleReserve seedReserve
      feeTreasury feeRate = .ok a') :
    ∃ s, Anchored p selfId saleId (vt.toNat - saleReserve.toNat) vc.toNat feeRate a' s ∧
      till (a' (holdingPda p selfId saleId)).balance s = ⟨0, 0, 0, s.curve.isClosed⟩ := by
  simp only [openSale, bind_eq_ok_iff, mapError_eq_ok_iff, pure_eq_ok, Except.ok.injEq] at opened
  obtain ⟨out, accepted, rfl⟩ := opened
  obtain ⟨s, rfl, saleAt, holdingAt, fresh, -, -, -, rate_eq, rate_le, raised, fees, -, -, -,
    offsets⟩ := SaleProgram.createSale_eq_ok accepted
  obtain ⟨apart, notCreator, notCreator'⟩ := distinct_iff.mp distinct
  rw [Named.row_accountId] at saleAt holdingAt
  rw [Named.row_account] at fresh
  -- both accounts were new, so the program owns them now
  have atSale (b : Accounts) : claim selfId (claim selfId b sale.accountId) holding.accountId
      sale.accountId = Listing.claimed selfId (b sale.accountId) := by
    simp [claim, apart]
  have atHolding (b : Accounts) : claim selfId (claim selfId b sale.accountId) holding.accountId
      holding.accountId = Listing.claimed selfId (b holding.accountId) := by
    simp [claim, apart.symm]
  refine ⟨s, ?_, ?_⟩
  · exact
      { stored := by
          rw [← saleAt, atSale]
          simp [record, notCreator, apart, Listing.claimed, SaleProgram.write]
        saleOwner := by rw [← saleAt, atSale]; rfl
        holdingOwner := by rw [← holdingAt, atHolding]; rfl
        rate_eq
        rate_le
        offsets
        covered := by rw [fees]; exact BitVec.le_def.mpr (Nat.zero_le _) }
  · rw [← holdingAt, atHolding, till, fees, raised]
    simp [record, notCreator', Listing.claimed, fresh, Account.default]

open Entry (total taken swept paid credited charged)

/-- What a sale's history adds up to. In every state the holding covers the accrued fees, and
until the creator is paid also the collateral raised; no sweep was refused for lack of funds;
the fees accrued and swept are the fees of the accepted buys, and the creator is paid out of
the rest; after the creator is paid no buy is accepted, and a further payment is at most what
was credited from elsewhere. -/
theorem holding_covers {sale holding creator : Named}
    {vt vc saleReserve seedReserve : U128} {feeTreasury : AccountId}
    (distinct : Distinct [sale, holding, creator])
    {a₀ : Accounts} (opened : a₀.openSale p selfId saleId sale holding creator vt vc saleReserve
      seedReserve feeTreasury feeRate = .ok a)
    {es : List (Entry (SaleCall × Failure))} (history : History p selfId saleId a es a') :
    ∃ s, SaleProgram.read (a' (salePda p selfId saleId)) = .ok s ∧
      s.feesAccrued.toNat ≤ (a' (holdingPda p selfId saleId)).balance.toNat ∧
      ((∀ n, .pay n ∉ es) → s.realCollateral.toNat + s.feesAccrued.toNat ≤
        (a' (holdingPda p selfId saleId)).balance.toNat) ∧
      (∀ c, .refuse (c, shortOfFee) ∉ es) ∧
      s.feesAccrued.toNat + total swept es = total (charged (feeOf feeRate)) es ∧
      total paid es + total (charged (feeOf feeRate)) es +
          ((a' (holdingPda p selfId saleId)).balance.toNat - s.feesAccrued.toNat) =
        total taken es + total credited es ∧
      ∀ before n after, es = before ++ .pay n :: after →
        (∀ m, .take m ∉ after) ∧ total paid after ≤ total credited after := by
  obtain ⟨s₀, anchored₀, empty⟩ := anchored_of_openSale distinct opened
  have start := anchored₀.rate_eq ▸ anchored₀.rate_le
  -- the history is one of the till, and no entry of it is a sweep short of funds
  have kept : (∃ s, Anchored p selfId saleId (vt.toNat - saleReserve.toNat) vc.toNat feeRate a' s ∧
      Trace (Till.Step (feeOf feeRate)) ⟨0, 0, 0, s₀.curve.isClosed⟩ es
        (till (a' (holdingPda p selfId saleId)).balance s)) ∧
      ∀ c, .refuse (c, shortOfFee) ∉ es := by
    refine history.invariant (fun es a' => (∃ s, Anchored p selfId saleId _ _ feeRate a' s ∧
      Trace (Till.Step (feeOf feeRate)) ⟨0, 0, 0, s₀.curve.isClosed⟩ es
        (till (a' (holdingPda p selfId saleId)).balance s)) ∧
      ∀ c, .refuse (c, shortOfFee) ∉ es) ?_ ?_
    · exact ⟨⟨s₀, anchored₀, empty ▸ .start⟩, by simp⟩
    · rintro es b e b' ⟨⟨s, anchored, run⟩, unrefused⟩ step
      obtain ⟨⟨s', anchored', last⟩, unshort⟩ := anchored.step step
      refine ⟨⟨s', anchored', run.next last⟩, fun c mem => ?_⟩
      rcases List.mem_append.mp mem with earlier | now
      · exact unrefused c earlier
      · exact unshort c (List.mem_singleton.mp now).symm
  obtain ⟨⟨s, anchored, run⟩, unrefused⟩ := kept
  -- from here on it is arithmetic on the till's books
  have books := Till.books (feeOf_le start) run
  have rest : total paid es + total (charged (feeOf feeRate)) es +
      ((a' (holdingPda p selfId saleId)).balance.toNat - s.feesAccrued.toNat) =
      total taken es + total credited es := by
    obtain ⟨covered, house, -, cash⟩ := books
    dsimp only [till] at covered house cash
    omega
  refine ⟨s, SaleProgram.read_eq_ok_iff.mpr anchored.stored, books.covered, books.raised_covered,
    unrefused, books.house, rest, ?_⟩
  -- after a payment the till is closed and holds the fees alone
  rintro before n after rfl
  exact Till.after_pay (feeOf_le start) run

/-! ### A sale sold at once -/

def demoAddress (n : U8) : AccountId := ⟨List.Vector.replicate 32 n⟩

/-- A buyer with eleven units, and nothing else. -/
def demoAccounts : Accounts := fun accountId =>
  if accountId = demoAddress 2 then
    { Account.default with programOwner := AUTH_TRANSFER_PROGRAM_ID, balance := 11 }
  else
    Account.default

def demoSale : Named := ⟨Listing.demoSalePda, false⟩

def demoHolding : Named := ⟨Listing.demoHoldingPda, false⟩

/-- The sale of 500 tokens on a curve of 1000 against 10, at a fee of one percent. -/
def demoOpening : Except Failure Accounts :=
  demoAccounts.openSale Listing.demo Listing.curveProgram Listing.demoSaleId demoSale demoHolding
    ⟨demoAddress 1, true⟩ 1000 10 500 0 (demoAddress 3) 10000

def demoOpened : Accounts := demoOpening.toOption.getD demoAccounts

def demoBuy : SaleCall := .executeBuy demoSale ⟨demoAddress 2, true⟩ demoHolding 11 0

def demoSweep : SaleCall := .collectFees demoSale demoHolding ⟨demoAddress 3, false⟩

def demoPayment : SaleCall := .withdraw demoSale demoHolding ⟨demoAddress 1, true⟩

/-- The sale after the one buy that takes everything. -/
def demoBought : Accounts :=
  demoOpened.land Listing.demo Listing.curveProgram Listing.demoSaleId demoBuy

def demoSwept : Accounts :=
  demoBought.land Listing.demo Listing.curveProgram Listing.demoSaleId demoSweep

def demoPaid : Accounts :=
  demoSwept.land Listing.demo Listing.curveProgram Listing.demoSaleId demoPayment

theorem demoOpening_eq : demoOpening = .ok demoOpened := by
  have isOk : demoOpening.isOk = true := by decide +kernel
  unfold demoOpened
  cases opened : demoOpening with
  | error why =>
    rw [opened] at isOk
    exact absurd isOk Bool.false_ne_true
  | ok a => rfl

theorem demo_history : History Listing.demo Listing.curveProgram Listing.demoSaleId demoOpened
    [.take 11, .sweep 1, .pay 10] demoPaid := by
  have swept : demoBought.received demoSwept (demoAddress 3) = 1 := by decide +kernel
  have paid : demoSwept.received demoPaid (demoAddress 1) = 10 := by decide +kernel
  rw [← swept, ← paid]
  have bought : History Listing.demo Listing.curveProgram Listing.demoSaleId demoOpened
      [.take 11] demoBought :=
    Trace.start.next (.accepted demoOpened demoBought demoBuy (by decide)
      (execute_of_isOk (by decide +kernel)))
  have collected : History Listing.demo Listing.curveProgram Listing.demoSaleId demoOpened
      [.take 11, .sweep _] demoSwept :=
    bought.next (.accepted demoBought demoSwept demoSweep (by decide)
      (execute_of_isOk (by decide +kernel)))
  exact collected.next (.accepted demoSwept demoPaid demoPayment (by decide)
    (execute_of_isOk (by decide +kernel)))

/-- Eleven units are paid: one is swept, ten go to the creator, and nothing is left. -/
theorem holding_covers_sold :
    let es : List (Entry (SaleCall × Failure)) := [.take 11, .sweep 1, .pay 10]
    let held := (demoPaid
      (holdingPda Listing.demo Listing.curveProgram Listing.demoSaleId)).balance.toNat
    ∃ s, SaleProgram.read
        (demoPaid (salePda Listing.demo Listing.curveProgram Listing.demoSaleId)) = .ok s ∧
      s.feesAccrued.toNat ≤ held ∧
      ((∀ n, .pay n ∉ es) → s.realCollateral.toNat + s.feesAccrued.toNat ≤ held) ∧
      (∀ c, .refuse (c, shortOfFee) ∉ es) ∧
      s.feesAccrued.toNat + total swept es = total (charged (feeOf 10000)) es ∧
      total paid es + total (charged (feeOf 10000)) es + (held - s.feesAccrued.toNat) =
        total taken es + total credited es ∧
      ∀ before n after, es = before ++ .pay n :: after →
        (∀ m, .take m ∉ after) ∧ total paid after ≤ total credited after :=
  holding_covers (show Distinct [demoSale, demoHolding, ⟨demoAddress 1, true⟩] by decide)
    demoOpening_eq demo_history

end Accounts

end Antumbra
