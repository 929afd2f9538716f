/-
# The vesting program's wire types

What a creator chooses, what a transaction says, what is stored, and what the
planning half of the program asks the applying half to do. A refusal is a panic
that carries a code and a text and fails the whole transaction.
-/

import Antumbra.Core.Address
import Antumbra.Math.Fallible

namespace Antumbra

open Antumbra.Math

namespace Vesting

/-! ### Refusals -/

def E_BAD_SCHEDULE : ℕ := 7001
def E_NOT_ANCHORED : ℕ := 7002
def E_NOTHING_CLAIMABLE : ℕ := 7003
def E_NOT_BENEFICIARY : ℕ := 7004
def E_TIME_WENT_BACKWARDS : ℕ := 7005
def E_ESCROW_MISMATCH : ℕ := 7006
def E_NOT_CREATOR : ℕ := 7009
def E_NOT_CANCELABLE : ℕ := 7010
def E_ALREADY_CANCELLED : ℕ := 7011
def E_NOT_TRANSFERABLE : ℕ := 7012
def E_MILESTONE_BAD : ℕ := 7013
def E_NOT_AUTHORITY : ℕ := 7015
def E_WRONG_ASSET : ℕ := 7016
def E_WRONG_REFUND : ℕ := 7017
def E_BATCH : ℕ := 7018
def E_EXISTS : ℕ := 7019
def E_REFUND_AMOUNT : ℕ := 7020
def E_ACCOUNTS : ℕ := 7021
def E_NOT_SIGNED : ℕ := 7022

/-- How a run of the program stops without a result. -/
inductive Panic
  | refused (code : ℕ) (why : String)
  | arithmetic
  deriving DecidableEq, Repr

/-- Refuse the transaction with `code`. -/
def refuse {α : Type} (code : ℕ) (why : String) : Except Panic α := .error (.refused code why)

def refuseUnless (ok : Prop) [Decidable ok] (code : ℕ) (why : String) : Except Panic Unit :=
  ensure ok (.refused code why)

@[simp] theorem refuse_ne_ok {α : Type} {code : ℕ} {why : String} {a : α} :
    refuse code why ≠ .ok a := by
  simp [refuse]

@[simp] theorem refuseUnless_eq_ok_iff {ok : Prop} [Decidable ok] {code : ℕ} {why : String}
    {u : Unit} : refuseUnless ok code why = .ok u ↔ ok :=
  ensure_eq_ok_iff

/-! ### Constants -/

/-- How far past the time it names a cancellation may still land, in milliseconds. -/
def CANCEL_WINDOW_MS : U64 := 120000

/-- Milestone schedules keep one bit per tranche in a 64-bit word. -/
def MAX_TRANCHES : U32 := 64

/-- Native balance is the shard at the all-zero program of any account. -/
def NATIVE_TOKEN_PROGRAM_ID : AccountId := AccountId.default

/-- What the platform supplies: hashing and address derivation, and the token program. -/
structure Platform extends Addressing AccountId where
  tokenProgram : AccountId

/-! ### Assets, terms, instructions -/

/-- What a schedule escrows. -/
inductive Asset
  | native
  | token (definitionId : AccountId)
  deriving DecidableEq

/-- The program whose shard holds this asset on any account. -/
def Asset.shardProgram (p : Platform) : Asset → AccountId
  | .native => NATIVE_TOKEN_PROGRAM_ID
  | .token _ => p.tokenProgram

/-- The stored form of an asset. -/
def Asset.code : Asset → U8 × Bytes 32
  | .native => (0, List.Vector.replicate 32 0)
  | .token definitionId => (1, definitionId.value)

theorem Asset.code_injective : Function.Injective Asset.code := by
  intro a b same
  cases a with
  | native =>
    cases b with
    | native => rfl
    | token definitionId => simp [Asset.code] at same
  | token definitionId =>
    cases b with
    | native => simp [Asset.code] at same
    | token definitionId' =>
      exact congrArg Asset.token (AccountId.ext (congrArg Prod.snd same))

/-- The terms a creator chooses. The total is per schedule, also in a batch. -/
structure Terms where
  /-- 0 is cliff and linear, 1 linear, 2 milestones. -/
  kind : U8
  start : U64
  cliff : U64
  end_ : U64
  total : U128
  /-- Equal tranches of a milestone schedule, zero for the time-based kinds. -/
  tranches : U32
  cancelable : Bool
  transferable : Bool
  /-- Zero means the creator. -/
  cancelAuthority : AccountId
  /-- Zero means the creator. -/
  milestoneAuthority : AccountId
  /-- Where a cancellation refunds. -/
  refundTo : AccountId
  deriving DecidableEq

/-- The program's instruction. -/
inductive Instruction
  | createSchedule (scheduleId : Bytes 32) (beneficiary : AccountId) (asset : Asset) (terms : Terms)
  | createScheduleBatch (batchId : Bytes 32) (beneficiaries : List AccountId) (asset : Asset)
      (terms : Terms)
  | claim (scheduleId : Bytes 32) (batchId : Option (Bytes 32)) (asset : Asset) (amount : U128)
      (at_ : U64)
  | cancel (scheduleId : Bytes 32) (batchId : Option (Bytes 32)) (asset : Asset) (at_ : U64)
      (refund : U128)
  | makeNonCancelable (scheduleId : Bytes 32)
  | transferBeneficiary (scheduleId : Bytes 32) (newBeneficiary : AccountId)
  | signalMilestone (scheduleId : Bytes 32) (index : U32)
  deriving DecidableEq

/-! ### Stored state -/

/-- On-chain schedule state. -/
structure VestingSchedule where
  kind : U8
  start : U64
  cliff : U64
  end_ : U64
  total : U128
  claimed : U128
  /-- The largest time any claim or the cancellation named. -/
  lastSeen : U64
  beneficiary : AccountId
  /-- The escrow, fixed at creation. -/
  escrow : AccountId
  creator : AccountId
  /-- 1 while cancelable; the move to 0 is one-way. -/
  cancelable : U8
  transferable : U8
  /-- The instant accrual stopped, or 0. -/
  cancelledAt : U64
  /-- Bit `i` set means milestone `i` has been signalled. -/
  signalled : U64
  tranches : U32
  /-- 0 is native, 1 a token. -/
  asset : U8
  tokenDefinition : Bytes 32
  refundTo : AccountId
  cancelAuthority : AccountId
  milestoneAuthority : AccountId
  deriving DecidableEq

/-- The stored form of a schedule: its fields in order, 312 bytes. -/
def scheduleCodec : Codec VestingSchedule :=
  (Codec.u8.prod <| Codec.u64.prod <| Codec.u64.prod <| Codec.u64.prod <| Codec.u128.prod <|
    Codec.u128.prod <| Codec.u64.prod <| accountIdCodec.prod <| accountIdCodec.prod <|
    accountIdCodec.prod <| Codec.u8.prod <| Codec.u8.prod <| Codec.u64.prod <| Codec.u64.prod <|
    Codec.u32.prod <| Codec.u8.prod <| (Codec.bytes 32).prod <| accountIdCodec.prod <|
      accountIdCodec.prod accountIdCodec).map
    { toFun := fun s => (s.kind, s.start, s.cliff, s.end_, s.total, s.claimed, s.lastSeen,
        s.beneficiary, s.escrow, s.creator, s.cancelable, s.transferable, s.cancelledAt,
        s.signalled, s.tranches, s.asset, s.tokenDefinition, s.refundTo, s.cancelAuthority,
        s.milestoneAuthority)
      invFun := fun (kind, start, cliff, end_, total, claimed, lastSeen, beneficiary, escrow,
          creator, cancelable, transferable, cancelledAt, signalled, tranches, asset,
          tokenDefinition, refundTo, cancelAuthority, milestoneAuthority) =>
        { kind, start, cliff, end_, total, claimed, lastSeen, beneficiary, escrow, creator,
          cancelable, transferable, cancelledAt, signalled, tranches, asset, tokenDefinition,
          refundTo, cancelAuthority, milestoneAuthority }
      left_inv := fun _ => rfl
      right_inv := fun _ => rfl }

example : scheduleCodec.length = 312 := rfl

/-- What the plan asks `apply` to do to a schedule. -/
inductive Effect
  | create (state : VestingSchedule)
  | claim (beneficiary holding : AccountId) (asset : Asset) (amount : U128) (at_ : U64)
  | cancel (authority holding refundTo : AccountId) (asset : Asset) (at_ : U64) (refund : U128)
  | makeNonCancelable (creator : AccountId)
  | transferBeneficiary (beneficiary newBeneficiary : AccountId)
  | signalMilestone (authority : AccountId) (index : U32)
  deriving DecidableEq

/-! ### Addresses -/

section Addresses

variable (p : Platform)

def scheduleSeed (scheduleId : Bytes 32) : PdaSeed := combineSeeds p.toAddressing [scheduleId]

/-- The escrow seed of a schedule, or of a batch. -/
def holdingSeed (id : Bytes 32) : PdaSeed := combineSeeds p.toAddressing [id, holdingWord]

/-- The index of a batch member, as 32 bytes. -/
def batchIndex (i : U32) : Bytes 32 :=
  ⟨Codec.u32.encode i ++ List.replicate 28 0, by
    rw [List.length_append, Codec.u32.length_encode, List.length_replicate]
    rfl⟩

/-- The id of schedule `i` of a batch. -/
def batchScheduleId (batchId : Bytes 32) (i : U32) : Bytes 32 :=
  (combineSeeds p.toAddressing [batchId, batchIndex i]).value

def scheduleAccount (program : AccountId) (scheduleId : Bytes 32) : AccountId :=
  p.forPublicPda program (scheduleSeed p scheduleId)

def holdingAccount (program : AccountId) (id : Bytes 32) : AccountId :=
  p.forPublicPda program (holdingSeed p id)

end Addresses

end Vesting

end Antumbra
