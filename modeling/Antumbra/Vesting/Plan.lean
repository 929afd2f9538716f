/-
# Planning a transaction

The planning half of the program sees the rows of a transaction and its
instruction, never stored data. It decides the effects, the transfers, the times
at which the transaction may land and the events, or refuses. Each instruction's
conditions are stated once; nothing later looks into the program again.
-/

import Antumbra.Vesting.Accrual

namespace Antumbra

open Antumbra.Math

namespace Vesting

/-- One program's shard of one account. -/
structure ProgramShardSelector where
  account : AccountId
  program : AccountId
  deriving DecidableEq

/-- A row of a transaction. -/
structure AccountMeta where
  accountId : AccountId
  programAccountId : AccountId
  isAuthorized : Bool
  deriving DecidableEq

/-- The shard a row names. -/
def AccountMeta.selector (row : AccountMeta) : ProgramShardSelector :=
  ⟨row.accountId, row.programAccountId⟩

structure PlanInput where
  selfAccountId : AccountId
  accounts : List AccountMeta

/-- The block timestamps at which a transaction may land: from `start`, and before `stop`
if there is one. -/
structure TimestampWindow where
  start : U64
  stop : Option U64
  deriving DecidableEq

def TimestampWindow.contains (w : TimestampWindow) (now : U64) : Bool :=
  decide (w.start ≤ now) &&
    match w.stop with
    | some stop => decide (now < stop)
    | none => true

/-- What a transfer program is asked to do. -/
inductive TransferInstruction
  | native (amount : U128)
  | token (amount : U128) (definitionId : AccountId)
  deriving DecidableEq

/-- A call into another program, with the seeds of the accounts it may debit for us. -/
structure ChainedCall where
  programAccountId : AccountId
  accounts : List ProgramShardSelector
  instruction : TransferInstruction
  pdaSeeds : List PdaSeed
  deriving DecidableEq

inductive Event
  | scheduleCreated (scheduleId : Bytes 32) (beneficiary holding : AccountId) (asset : Asset)
      (kind : U8) (total : U128)
  | batchCreated (batchId : Bytes 32) (holding : AccountId) (asset : Asset) (count : U32)
      (totalEach : U128)
  | claimed (scheduleId : Bytes 32) (amount : U128) (at_ : U64) (destination : AccountId)
  | cancelled (scheduleId : Bytes 32) (at_ : U64) (refund : U128) (refundTo : AccountId)
  | madeNonCancelable (scheduleId : Bytes 32)
  | beneficiaryTransferred (scheduleId : Bytes 32) (source target : AccountId)
  | milestoneSignalled (scheduleId : Bytes 32) (index : U32)
  deriving DecidableEq

/-- What a transaction does, if every part of it succeeds. -/
structure Plan where
  effects : List (AccountMeta × Effect)
  calls : List ChainedCall
  window : Option TimestampWindow
  events : List Event
  deriving DecidableEq

/-! ### Row checks -/

/-- Exactly `n` rows. -/
def rows (n : ℕ) (input : PlanInput) : Except Panic (List.Vector AccountMeta n) :=
  if h : input.accounts.length = n then
    .ok ⟨input.accounts, h⟩
  else
    refuse E_ACCOUNTS "wrong number of accounts for this instruction"

variable (p : Platform)

def expectSchedule (row : AccountMeta) (me : AccountId) (scheduleId : Bytes 32) :
    Except Panic Unit :=
  refuseUnless (row.accountId = scheduleAccount p me scheduleId ∧ row.programAccountId = me)
    E_NOT_ANCHORED "the schedule row is not this program's shard of the schedule PDA"

def expectHolding (row : AccountMeta) (me : AccountId) (seedId : Bytes 32) (asset : Asset) :
    Except Panic Unit := do
  refuseUnless (row.accountId = holdingAccount p me seedId)
    E_ESCROW_MISMATCH "the holding row is not the escrow PDA"
  refuseUnless (row.programAccountId = asset.shardProgram p)
    E_WRONG_ASSET "the holding row selects the wrong shard for this asset"

def expectAssetRow (row : AccountMeta) (asset : Asset) : Except Panic Unit :=
  refuseUnless (row.programAccountId = asset.shardProgram p)
    E_WRONG_ASSET "this row must select the asset's shard"

def expectSignerHandle (row : AccountMeta) (me : AccountId) : Except Panic Unit := do
  refuseUnless (row.isAuthorized = true) E_NOT_SIGNED "the signer row carries no signature"
  refuseUnless (row.programAccountId = me) E_ACCOUNTS
    "a signer handle selects this program's shard"

/-! ### Transfers -/

def transferCall (asset : Asset) (source target : AccountMeta) (amount : U128) : ChainedCall :=
  match asset with
  | .native =>
    { programAccountId := NATIVE_TOKEN_PROGRAM_ID
      accounts := [source.selector, target.selector]
      instruction := .native amount
      pdaSeeds := [] }
  | .token definitionId =>
    { programAccountId := p.tokenProgram
      accounts := [source.selector, target.selector]
      instruction := .token amount definitionId
      pdaSeeds := [] }

/-- The native program's transfer out of an account derived from `seed`. -/
def custodyTransfer (source : AccountId) (seed : PdaSeed) (target : AccountId) (amount : U128) :
    ChainedCall where
  programAccountId := NATIVE_TOKEN_PROGRAM_ID
  accounts := [⟨source, NATIVE_TOKEN_PROGRAM_ID⟩, ⟨target, NATIVE_TOKEN_PROGRAM_ID⟩]
  instruction := .native amount
  pdaSeeds := [seed]

/-- A payout out of an escrow: the transfer with the escrow's seed attached. -/
def payout (asset : Asset) (holding : AccountMeta) (seedId : Bytes 32) (target : AccountMeta)
    (amount : U128) : ChainedCall :=
  match asset with
  | .native => custodyTransfer holding.accountId (holdingSeed p seedId) target.accountId amount
  | .token _ =>
    { transferCall p asset holding target amount with pdaSeeds := [holdingSeed p seedId] }

/-! ### The plan -/

/-- One member of a batch: its row and the creation of its schedule. -/
def planMember (me : AccountId) (batchId : Bytes 32) (holding creator : AccountMeta) (asset : Asset)
    (terms : Terms) (member : (AccountMeta × AccountId) × ℕ) :
    Except Panic (AccountMeta × Effect) := do
  let ((row, who), i) := member
  let sid := batchScheduleId p batchId (BitVec.ofNat 32 i)
  refuseUnless (row.accountId = scheduleAccount p me sid ∧ row.programAccountId = me)
    E_BATCH "a schedule row is not the next PDA of this batch"
  let state ← newState creator.accountId holding.accountId who asset terms
  return (row, .create state)

/-- The plan entry point. -/
def plan (input : PlanInput) (ix : Instruction) : Except Panic Plan :=
  let me := input.selfAccountId
  match ix with
  | .createSchedule scheduleId beneficiary asset terms => do
    let v ← rows 3 input
    let schedule := v.get 0
    let holding := v.get 1
    let creator := v.get 2
    expectSchedule p schedule me scheduleId
    expectHolding p holding me scheduleId asset
    expectAssetRow p creator asset
    refuseUnless (creator.isAuthorized = true) E_NOT_SIGNED "the creator must sign"
    let state ← newState creator.accountId holding.accountId beneficiary asset terms
    return {
      effects := [(schedule, .create state)]
      calls := [transferCall p asset creator holding terms.total]
      window := none
      events := [.scheduleCreated scheduleId beneficiary holding.accountId asset terms.kind
        terms.total] }
  | .createScheduleBatch batchId beneficiaries asset terms =>
    match input.accounts with
    | holding :: creator :: members => do
      refuseUnless (1 ≤ beneficiaries.length ∧ members.length = beneficiaries.length)
        E_BATCH "one schedule row per beneficiary, at least one"
      expectHolding p holding me batchId asset
      expectAssetRow p creator asset
      refuseUnless (creator.isAuthorized = true) E_NOT_SIGNED "the creator must sign"
      refuseUnless (beneficiaries.length < 2 ^ 32) E_BATCH "too many schedules"
      let count := BitVec.ofNat 32 beneficiaries.length
      let sum ← okOr (.refused E_BATCH "batch total overflows")
        (checkedMul terms.total (count.setWidth 128))
      let effects ← (members.zip beneficiaries).zipIdx.mapM
        (planMember p me batchId holding creator asset terms)
      return {
        effects
        calls := [transferCall p asset creator holding sum]
        window := none
        events := [.batchCreated batchId holding.accountId asset count terms.total] }
    | _ => refuse E_BATCH "one schedule row per beneficiary, at least one"
  | .claim scheduleId batchId asset amount at_ => do
    let v ← rows 4 input
    let schedule := v.get 0
    let holding := v.get 1
    let destination := v.get 2
    let beneficiary := v.get 3
    let seedId := batchId.getD scheduleId
    expectSchedule p schedule me scheduleId
    expectHolding p holding me seedId asset
    expectAssetRow p destination asset
    expectSignerHandle beneficiary me
    refuseUnless (0 < amount) E_NOTHING_CLAIMABLE "a claim names a positive amount"
    return {
      effects := [(schedule, .claim beneficiary.accountId holding.accountId asset amount at_)]
      calls := [payout p asset holding seedId destination amount]
      window := some ⟨at_, none⟩
      events := [.claimed scheduleId amount at_ destination.accountId] }
  | .cancel scheduleId batchId asset at_ refund => do
    let v ← rows 4 input
    let schedule := v.get 0
    let holding := v.get 1
    let refundRow := v.get 2
    let authority := v.get 3
    let seedId := batchId.getD scheduleId
    expectSchedule p schedule me scheduleId
    expectHolding p holding me seedId asset
    expectAssetRow p refundRow asset
    expectSignerHandle authority me
    let until_ ← okOr (.refused E_TIME_WENT_BACKWARDS "cancellation time overflows")
      (checkedAdd at_ CANCEL_WINDOW_MS)
    return {
      effects := [(schedule, .cancel authority.accountId holding.accountId refundRow.accountId asset
        at_ refund)]
      calls := if 0 < refund then [payout p asset holding seedId refundRow refund] else []
      window := some ⟨at_, some until_⟩
      events := [.cancelled scheduleId at_ refund refundRow.accountId] }
  | .makeNonCancelable scheduleId => do
    let v ← rows 2 input
    let schedule := v.get 0
    let creator := v.get 1
    expectSchedule p schedule me scheduleId
    expectSignerHandle creator me
    return {
      effects := [(schedule, .makeNonCancelable creator.accountId)]
      calls := []
      window := none
      events := [.madeNonCancelable scheduleId] }
  | .transferBeneficiary scheduleId newBeneficiary => do
    let v ← rows 2 input
    let schedule := v.get 0
    let beneficiary := v.get 1
    expectSchedule p schedule me scheduleId
    expectSignerHandle beneficiary me
    return {
      effects := [(schedule, .transferBeneficiary beneficiary.accountId newBeneficiary)]
      calls := []
      window := none
      events := [.beneficiaryTransferred scheduleId beneficiary.accountId newBeneficiary] }
  | .signalMilestone scheduleId index => do
    let v ← rows 2 input
    let schedule := v.get 0
    let authority := v.get 1
    expectSchedule p schedule me scheduleId
    expectSignerHandle authority me
    return {
      effects := [(schedule, .signalMilestone authority.accountId index)]
      calls := []
      window := none
      events := [.milestoneSignalled scheduleId index] }

/-! ### Rows for clients -/

namespace Rows

variable (program : AccountId)

def create (scheduleId : Bytes 32) (asset : Asset) (creator : AccountId) :
    List ProgramShardSelector :=
  [⟨scheduleAccount p program scheduleId, program⟩,
    ⟨holdingAccount p program scheduleId, asset.shardProgram p⟩,
    ⟨creator, asset.shardProgram p⟩]

def batch (batchId : Bytes 32) (n : U32) (asset : Asset) (creator : AccountId) :
    List ProgramShardSelector :=
  [⟨holdingAccount p program batchId, asset.shardProgram p⟩, ⟨creator, asset.shardProgram p⟩] ++
    (List.range n.toNat).map fun i =>
      ⟨scheduleAccount p program (batchScheduleId p batchId (BitVec.ofNat 32 i)), program⟩

def claim (scheduleId : Bytes 32) (batchId : Option (Bytes 32)) (asset : Asset)
    (destination beneficiary : AccountId) : List ProgramShardSelector :=
  [⟨scheduleAccount p program scheduleId, program⟩,
    ⟨holdingAccount p program (batchId.getD scheduleId), asset.shardProgram p⟩,
    ⟨destination, asset.shardProgram p⟩,
    ⟨beneficiary, program⟩]

def cancel (scheduleId : Bytes 32) (batchId : Option (Bytes 32)) (asset : Asset)
    (refundTo authority : AccountId) : List ProgramShardSelector :=
  claim p program scheduleId batchId asset refundTo authority

/-- The rows of the instructions that move no money. -/
def handle (scheduleId : Bytes 32) (signer : AccountId) : List ProgramShardSelector :=
  [⟨scheduleAccount p program scheduleId, program⟩, ⟨signer, program⟩]

end Rows

/-- The row of an account is authorised when the account signed. -/
def signedRow (signers : List AccountId) (selector : ProgramShardSelector) : AccountMeta :=
  ⟨selector.account, selector.program, decide (selector.account ∈ signers)⟩

/-- The rows of a transaction with these signers. -/
def signedBy (signers : List AccountId) (selectors : List ProgramShardSelector) :
    List AccountMeta :=
  selectors.map (signedRow signers)

end Vesting

end Antumbra
