/-
# Exactly which claims and cancellations are accepted

The rows a client builds for a stored schedule always plan, the record's arithmetic
never refuses and the escrow always pays. So a claim is accepted exactly when it is
positive, in time and at most what is claimable, and a cancellation exactly when its
own conditions hold: nothing that has vested is ever stuck.
-/

import Antumbra.Vesting.Single

namespace Antumbra

open Antumbra.Math

namespace Vesting

namespace Deployment

variable (d : Deployment)

/-- The chain takes the transaction. -/
def Accepts (w : World) (tx : Transaction) : Prop := ∃ w', d.execute w tx = .ok w'

end Deployment

variable {d : Deployment} {w : World} {s : VestingSchedule} {scheduleId : Bytes 32}
  {batchId : Option (Bytes 32)} {asset : Asset}

/-- The rows of a payout that a client builds are those the plan asks for. -/
theorem custody_of_rows (seedId : Bytes 32) (target signer : AccountId) :
    Custody d.toPlatform d.me scheduleId seedId asset
      (signedRow [signer] ⟨scheduleAccount d.toPlatform d.me scheduleId, d.me⟩)
      (signedRow [signer]
        ⟨holdingAccount d.toPlatform d.me seedId, asset.shardProgram d.toPlatform⟩)
      (signedRow [signer] ⟨target, asset.shardProgram d.toPlatform⟩)
      (signedRow [signer] ⟨signer, d.me⟩) where
  schedule := ⟨rfl, rfl⟩
  holding := ⟨rfl, rfl⟩
  target := rfl
  signer := ⟨by simp [signedRow], rfl⟩

/-- The beneficiary's claim acts exactly up to what is claimable. -/
theorem acts_claim_iff (valid : Valid s) (hasset : asset.code = (s.asset, s.tokenDefinition))
    {v : U128} {at_ : U64} (amount : U128) (hv : claimable s at_ = .ok v) :
    (∃ s', Acts (.claim s.beneficiary s.escrow asset amount at_) s s') ↔ amount ≤ v := by
  constructor
  · rintro ⟨s', acts⟩
    cases acts with
    | claim _ _ _ howed hamount _ =>
      obtain rfl := Except.ok.inj (hv.symm.trans howed)
      exact hamount
  · intro hamount
    refine ⟨_, .claim rfl rfl hasset hv hamount ?_⟩
    -- what is claimed and claimable is at most what is earned
    have value := (claimable_eq_ok_iff valid.wellFormed).mp hv
    have earned := valid.wellFormed.accrued_le at_.toNat
    have claimed := valid.claimed_le
    have total := s.total.isLt
    rw [BitVec.le_def] at hamount
    omega

/-- The authority's cancellation acts exactly on a live cancelable record, from its last seen
time on, with the exact refund. -/
theorem acts_cancel_iff (valid : Valid s) (hasset : asset.code = (s.asset, s.tokenDefinition))
    {v : U128} {at_ : U64} (refund : U128) (hv : vested s at_ = .ok v) :
    (∃ s', Acts (.cancel s.cancelAuthority s.escrow s.refundTo asset at_ refund) s s') ↔
      s.cancelable ≠ 0 ∧ s.cancelledAt = 0 ∧ s.lastSeen ≤ at_ ∧ refund = s.total - v := by
  have value := (vested_eq_ok_iff valid.wellFormed).mp hv
  have earned := valid.wellFormed.accrued_le at_.toNat
  have rest : (s.total - v).toNat = s.total.toNat - s.accrued at_.toNat := by
    rw [toNat_sub_of_le (by rw [BitVec.le_def]; omega), value]
  constructor
  · rintro ⟨s', acts⟩
    cases acts with
    | cancel _ hcancelable live _ _ _ forward hrefund =>
      rw [unvested_eq_ok_iff valid.wellFormed live] at hrefund
      exact ⟨hcancelable, live, forward, word_ext (hrefund.trans rest.symm)⟩
  · rintro ⟨hcancelable, live, forward, rfl⟩
    exact ⟨_, .cancel rfl hcancelable live rfl rfl hasset forward
      ((unvested_eq_ok_iff valid.wellFormed live).mpr rest)⟩

/-! ### Verdicts -/

section Views

variable {rowList : List AccountMeta} {pl : Plan} {schedule holding target signer : AccountMeta}
  {amount refund : U128} {at_ : U64}

theorem Planned.positive {p : Platform} {me : AccountId}
    (h : Planned p me rowList (.claim scheduleId batchId asset amount at_) pl) : 0 < amount := by
  cases h with
  | claim _ positive => exact positive

theorem Planned.fits {p : Platform} {me : AccountId}
    (h : Planned p me rowList (.cancel scheduleId batchId asset at_ refund) pl) :
    at_.toNat + CANCEL_WINDOW_MS.toNat < 2 ^ 64 := by
  cases h with
  | cancel _ fits => exact fits

/-- What a planned claim does and when it may land. -/
theorem Planned.claim_view
    (h : Planned d.toPlatform d.me [schedule, holding, target, signer]
      (.claim scheduleId batchId asset amount at_) pl) :
    PlansAct d [schedule, holding, target, signer] pl schedule
        (.claim signer.accountId holding.accountId asset amount at_) holding.accountId
        target.accountId asset ∧
      ∀ now, pl.window.all (·.contains now) = true ↔ at_ ≤ now := by
  cases h with
  | claim custody positive =>
    refine ⟨custody.plansAct rfl (if_pos positive).symm (by simp) rfl (if_pos rfl), fun now => ?_⟩
    simp only [Option.all_some, TimestampWindow.contains, Bool.and_true, decide_eq_true_eq]

/-- What a planned cancellation does and when it may land. -/
theorem Planned.cancel_view
    (h : Planned d.toPlatform d.me [schedule, holding, target, signer]
      (.cancel scheduleId batchId asset at_ refund) pl) :
    PlansAct d [schedule, holding, target, signer] pl schedule
        (.cancel signer.accountId holding.accountId target.accountId asset at_ refund)
        holding.accountId target.accountId asset ∧
      ∀ now, pl.window.all (·.contains now) = true ↔
        at_ ≤ now ∧ now.toNat < at_.toNat + CANCEL_WINDOW_MS.toNat := by
  cases h with
  | cancel custody fits =>
    refine ⟨custody.plansAct rfl rfl (by simp) rfl (if_pos rfl), fun now => ?_⟩
    simp only [Option.all_some, TimestampWindow.contains, Bool.and_eq_true, decide_eq_true_eq,
      BitVec.lt_def, BitVec.toNat_add_of_lt fits]

end Views

/-- A transaction is accepted when it can be planned and its plan is accepted. -/
theorem accepts_iff {tx : Transaction} {possible verdict : Prop}
    (planned : (∃ pl, Planned d.toPlatform d.me tx.rows tx.ix pl) ↔ possible)
    (accepted : ∀ pl, Planned d.toPlatform d.me tx.rows tx.ix pl → (d.Accepts w tx ↔ verdict)) :
    d.Accepts w tx ↔ possible ∧ verdict := by
  constructor
  · rintro ⟨w', executed⟩
    obtain ⟨pl, hpl, -⟩ := Deployment.execute_eq_ok_iff.mp executed
    exact ⟨planned.mp ⟨pl, hpl⟩, (accepted pl hpl).mp ⟨w', executed⟩⟩
  · rintro ⟨can, holds⟩
    obtain ⟨pl, hpl⟩ := planned.mpr can
    exact (accepted pl hpl).mpr holds

/-- The claim of a stored record is accepted exactly when it is positive, in time and at most
what is claimable. -/
theorem accepts_claim_iff (sound : Sound d w)
    (stored : w.shard (scheduleAccount d.toPlatform d.me scheduleId) = store s)
    (escrow : s.escrow = holdingAccount d.toPlatform d.me (batchId.getD scheduleId))
    (hasset : asset.code = (s.asset, s.tokenDefinition)) {amount v : U128} {at_ : U64}
    (hv : claimable s at_ = .ok v) (destination : AccountId) :
    d.Accepts w
        (d.claimTransaction scheduleId batchId asset amount at_ destination s.beneficiary) ↔
      0 < amount ∧ at_ ≤ w.now ∧ amount ≤ v := by
  have acts := acts_claim_iff (sound.valid _ s stored) hasset amount hv
  -- the effect names the escrow by its address
  rw [escrow] at acts
  apply accepts_iff
  · constructor
    · rintro ⟨pl, planned⟩
      exact planned.positive
    · intro positive
      exact ⟨_, .claim (custody_of_rows _ destination s.beneficiary) positive⟩
  · intro pl planned
    obtain ⟨view, window⟩ := planned.claim_view
    exact (view.accepted_iff (plan_eq_ok_of_planned planned) sound stored).trans
      (and_congr (window w.now) acts)

/-- The cancellation of a stored record is accepted exactly on a live cancelable record, inside
its window, from the last seen time on and with the exact refund. -/
theorem accepts_cancel_iff (sound : Sound d w)
    (stored : w.shard (scheduleAccount d.toPlatform d.me scheduleId) = store s)
    (escrow : s.escrow = holdingAccount d.toPlatform d.me (batchId.getD scheduleId))
    (hasset : asset.code = (s.asset, s.tokenDefinition)) {refund v : U128} {at_ : U64}
    (hv : vested s at_ = .ok v) :
    d.Accepts w (d.cancelTransaction scheduleId batchId asset at_ refund s.refundTo
        s.cancelAuthority) ↔
      at_.toNat + CANCEL_WINDOW_MS.toNat < 2 ^ 64 ∧
        (at_ ≤ w.now ∧ w.now.toNat < at_.toNat + CANCEL_WINDOW_MS.toNat) ∧
          s.cancelable ≠ 0 ∧ s.cancelledAt = 0 ∧ s.lastSeen ≤ at_ ∧ refund = s.total - v := by
  have acts := acts_cancel_iff (sound.valid _ s stored) hasset refund hv
  rw [escrow] at acts
  apply accepts_iff
  · constructor
    · rintro ⟨pl, planned⟩
      exact planned.fits
    · intro fits
      exact ⟨_, .cancel (custody_of_rows _ s.refundTo s.cancelAuthority) fits⟩
  · intro pl planned
    obtain ⟨view, window⟩ := planned.cancel_view
    exact (view.accepted_iff (plan_eq_ok_of_planned planned) sound stored).trans
      (and_congr (window w.now) acts)

/-- Nothing that has vested is ever stuck. In every reachable chain a stored schedule stands at
the address of its id with the escrow of its id or batch, in its own asset. With these the
beneficiary's claim is accepted exactly when it is positive, in time and at most what is
claimable, and the authority's cancellation exactly on a live cancelable schedule, inside its
window, from the last seen time on and with the exact refund. So all that is claimable can be
claimed, and a live cancelable schedule cancelled, at the block's own time. -/
theorem nothing_stuck (d : Deployment) (w : World) (k : AccountId) (s : VestingSchedule)
    (reachable : d.Reachable CANCEL_WINDOW_MS w) (stored : w.shard k = store s) :
    Own d k s ∧
    ∀ (scheduleId : Bytes 32) (batchId : Option (Bytes 32)) (asset : Asset),
      k = scheduleAccount d.toPlatform d.me scheduleId →
      s.escrow = holdingAccount d.toPlatform d.me (batchId.getD scheduleId) →
      asset.code = (s.asset, s.tokenDefinition) →
      (∀ destination amount at_, ∃ v, claimable s at_ = .ok v ∧
        (d.Accepts w
            (d.claimTransaction scheduleId batchId asset amount at_ destination s.beneficiary) ↔
          0 < amount ∧ at_ ≤ w.now ∧ amount ≤ v)) ∧
      (∀ at_ refund, ∃ v, vested s at_ = .ok v ∧ v ≤ s.total ∧
        (d.Accepts w (d.cancelTransaction scheduleId batchId asset at_ refund s.refundTo
            s.cancelAuthority) ↔
          at_.toNat + CANCEL_WINDOW_MS.toNat < 2 ^ 64 ∧
            (at_ ≤ w.now ∧ w.now.toNat < at_.toNat + CANCEL_WINDOW_MS.toNat) ∧
              s.cancelable ≠ 0 ∧ s.cancelledAt = 0 ∧ s.lastSeen ≤ at_ ∧
                refund = s.total - v)) ∧
      (∀ destination, ∃ v, claimable s w.now = .ok v ∧ (0 < v → d.Accepts w
        (d.claimTransaction scheduleId batchId asset v w.now destination s.beneficiary))) ∧
      (w.now.toNat + CANCEL_WINDOW_MS.toNat < 2 ^ 64 → s.cancelable ≠ 0 → s.cancelledAt = 0 →
        ∃ v, vested s w.now = .ok v ∧ d.Accepts w (d.cancelTransaction scheduleId batchId asset
          w.now (s.total - v) s.refundTo s.cancelAuthority)) := by
  obtain ⟨valid, seen, own⟩ := (kept_of_reachable reachable).record stored
  have sound := sound_of_reachable reachable
  refine ⟨own, ?_⟩
  rintro scheduleId batchId asset rfl escrow hasset
  refine ⟨?_, ?_, ?_, ?_⟩
  · intro destination amount at_
    obtain ⟨v, hv⟩ := exists_claimable valid.wellFormed at_
    exact ⟨v, hv, accepts_claim_iff sound stored escrow hasset hv destination⟩
  · intro at_ refund
    obtain ⟨v, hv, value⟩ := exists_vested valid.wellFormed at_
    have le : v ≤ s.total := by
      rw [BitVec.le_def, value]
      exact valid.wellFormed.accrued_le at_.toNat
    exact ⟨v, hv, le, accepts_cancel_iff sound stored escrow hasset hv⟩
  · -- the block's own time is in time
    intro destination
    obtain ⟨v, hv⟩ := exists_claimable valid.wellFormed w.now
    refine ⟨v, hv, fun positive => ?_⟩
    exact (accepts_claim_iff sound stored escrow hasset hv destination).mpr
      ⟨positive, BitVec.le_refl _, BitVec.le_refl _⟩
  · -- nothing was seen after the block's own time, which opens the window
    intro fits hcancelable live
    obtain ⟨v, hv, -⟩ := exists_vested valid.wellFormed w.now
    have window : w.now.toNat < w.now.toNat + CANCEL_WINDOW_MS.toNat :=
      Nat.lt_add_of_pos_right (by decide)
    exact ⟨v, hv, (accepts_cancel_iff sound stored escrow hasset hv).mpr
      ⟨fits, ⟨BitVec.le_refl _, window⟩, hcancelable, live, seen, rfl⟩⟩

/-- Half of the sample's total can be claimed at its half. -/
theorem nothing_stuck_sample : Sample.deployment.Accepts Sample.chain Sample.claim := by
  obtain ⟨claims, -⟩ := (nothing_stuck Sample.deployment Sample.chain Sample.first _
    Sample.reachable_chain Sample.stored_first).2
      (batchScheduleId Sample.deployment.toPlatform Sample.batchId 0) (some Sample.batchId) .native
      (by decide +kernel) (by decide +kernel) (by decide +kernel)
  obtain ⟨v, computed, verdict⟩ := claims (Sample.account 4) 300 1700000900000
  have half : claimable (Sample.record Sample.escrow) 1700000900000 = .ok 300 := by decide +kernel
  obtain rfl := Except.ok.inj (computed.symm.trans half)
  exact verdict.mpr (by decide +kernel)

end Vesting

end Antumbra
