/-
# The rule book of vesting

What the vesting program is for, said without bytes, rows or seeds: a register of schedules
and balances, and for each instruction when it is allowed and what it changes. Times and
amounts are numbers, and what has accrued is the rule of the schedule's kind.
-/

import Antumbra.Vesting.Batch

namespace Antumbra

open Antumbra.Math

namespace Vesting

/-! ### The register -/

/-- The schedules by address, the balances, and the time. -/
structure Register where
  now : U64
  record : AccountId → Option VestingSchedule
  balance : Balances

/-- A register with records at the given places, each written over what was there. -/
def recorded (record : AccountId → Option VestingSchedule)
    (news : List (AccountId × VestingSchedule)) : AccountId → Option VestingSchedule :=
  news.foldl (fun record new => Function.update record new.1 (some new.2)) record

/-- The records of a batch and their places. -/
def batchRecords (d : Deployment) (creator : AccountId) (batchId : Bytes 32)
    (beneficiaries : List AccountId) (asset : Asset) (terms : Terms) :
    List (AccountId × VestingSchedule) :=
  beneficiaries.zipIdx.map fun (who, i) => (d.slot batchId i,
    initialState creator (holdingAccount d.toPlatform d.me batchId) who asset terms)

/-- When an instruction signed by `handle`, with `target` for its payout, is allowed, and the
register it leads to. -/
inductive Rule (d : Deployment) (target handle : AccountId) :
    Register → Instruction → Register → Prop
  | createSchedule {l : Register} {scheduleId : Bytes 32} {who : AccountId} {asset : Asset}
      {terms : Terms} (sound : terms.Sound)
      (free : l.record (scheduleAccount d.toPlatform d.me scheduleId) = none)
      (key : d.derived handle = false) (funds : terms.total.toNat ≤ l.balance (handle, asset)) :
      Rule d target handle l (.createSchedule scheduleId who asset terms)
        { l with
          record := recorded l.record [(scheduleAccount d.toPlatform d.me scheduleId,
            initialState handle (holdingAccount d.toPlatform d.me scheduleId) who asset terms)]
          balance := move l.balance (handle, asset)
            (holdingAccount d.toPlatform d.me scheduleId, asset) terms.total.toNat }
  | createScheduleBatch {l : Register} {batchId : Bytes 32} {beneficiaries : List AccountId}
      {asset : Asset} {terms : Terms} (somebody : beneficiaries ≠ []) (sound : terms.Sound)
      (few : beneficiaries.length < 2 ^ 32)
      (fits : terms.total.toNat * beneficiaries.length < 2 ^ 128)
      (free : ∀ i < beneficiaries.length, l.record (d.slot batchId i) = none)
      (apart : ((List.range beneficiaries.length).map (d.slot batchId)).Nodup)
      (key : d.derived handle = false)
      (funds : terms.total.toNat * beneficiaries.length ≤ l.balance (handle, asset)) :
      Rule d target handle l (.createScheduleBatch batchId beneficiaries asset terms)
        { l with
          record := recorded l.record (batchRecords d handle batchId beneficiaries asset terms)
          balance := move l.balance (handle, asset)
            (holdingAccount d.toPlatform d.me batchId, asset)
            (terms.total.toNat * beneficiaries.length) }
  | claim {l : Register} {scheduleId : Bytes 32} {batchId : Option (Bytes 32)} {asset : Asset}
      {amount : U128} {at_ : U64} {s : VestingSchedule}
      (stored : l.record (scheduleAccount d.toPlatform d.me scheduleId) = some s)
      (beneficiary : s.beneficiary = handle)
      (escrow : s.escrow = holdingAccount d.toPlatform d.me (batchId.getD scheduleId))
      (hasset : asset.code = (s.asset, s.tokenDefinition)) (positive : 0 < amount)
      (inTime : at_ ≤ l.now)
      (earned : s.claimed.toNat + amount.toNat ≤ s.accrued at_.toNat) :
      Rule d target handle l (.claim scheduleId batchId asset amount at_)
        { l with
          record := recorded l.record [(scheduleAccount d.toPlatform d.me scheduleId,
            { s with claimed := s.claimed + amount, lastSeen := max s.lastSeen at_ })]
          balance := move l.balance (s.escrow, asset) (target, asset) amount.toNat }
  | cancel {l : Register} {scheduleId : Bytes 32} {batchId : Option (Bytes 32)} {asset : Asset}
      {at_ : U64} {refund : U128} {s : VestingSchedule}
      (stored : l.record (scheduleAccount d.toPlatform d.me scheduleId) = some s)
      (authority : s.cancelAuthority = handle) (cancelable : s.cancelable ≠ 0)
      (live : s.cancelledAt = 0) (refundTo : s.refundTo = target)
      (escrow : s.escrow = holdingAccount d.toPlatform d.me (batchId.getD scheduleId))
      (hasset : asset.code = (s.asset, s.tokenDefinition))
      (fits : at_.toNat + CANCEL_WINDOW_MS.toNat < 2 ^ 64)
      (inTime : at_ ≤ l.now ∧ l.now.toNat < at_.toNat + CANCEL_WINDOW_MS.toNat)
      (forward : s.lastSeen ≤ at_)
      (rest : refund.toNat = s.total.toNat - s.accrued at_.toNat) :
      Rule d target handle l (.cancel scheduleId batchId asset at_ refund)
        { l with
          record := recorded l.record [(scheduleAccount d.toPlatform d.me scheduleId,
            { s with cancelledAt := max at_ 1, lastSeen := at_ })]
          balance := move l.balance (s.escrow, asset) (target, asset) refund.toNat }
  | makeNonCancelable {l : Register} {scheduleId : Bytes 32} {s : VestingSchedule}
      (stored : l.record (scheduleAccount d.toPlatform d.me scheduleId) = some s)
      (creator : s.creator = handle) (cancelable : s.cancelable ≠ 0) :
      Rule d target handle l (.makeNonCancelable scheduleId)
        { l with record := recorded l.record [(scheduleAccount d.toPlatform d.me scheduleId,
          { s with cancelable := 0 })] }
  | transferBeneficiary {l : Register} {scheduleId : Bytes 32} {newBeneficiary : AccountId}
      {s : VestingSchedule}
      (stored : l.record (scheduleAccount d.toPlatform d.me scheduleId) = some s)
      (transferable : s.transferable ≠ 0) (beneficiary : s.beneficiary = handle) :
      Rule d target handle l (.transferBeneficiary scheduleId newBeneficiary)
        { l with record := recorded l.record [(scheduleAccount d.toPlatform d.me scheduleId,
          { s with beneficiary := newBeneficiary })] }
  | signalMilestone {l : Register} {scheduleId : Bytes 32} {index : U32} {s : VestingSchedule}
      (stored : l.record (scheduleAccount d.toPlatform d.me scheduleId) = some s)
      (authority : s.milestoneAuthority = handle) (kind : s.kind = 2) (live : s.cancelledAt = 0)
      (below : index.toNat < s.tranches.toNat)
      (clear : s.signalled.getLsbD index.toNat = false) :
      Rule d target handle l (.signalMilestone scheduleId index)
        { l with record := recorded l.record [(scheduleAccount d.toPlatform d.me scheduleId,
          { s with signalled := s.signalled ||| bitAt 64 index.toNat })] }

end Vesting

end Antumbra
