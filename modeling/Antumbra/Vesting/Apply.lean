/-
# Applying an effect

The applying half of the program sees one schedule's bytes and one effect, and
replaces the bytes or refuses. Read as a relation it is a state machine: a record
comes into being once, and then acts under the conditions each effect checks.
What an act can do is said once here, and every fact about stored schedules is
derived from it.
-/

import Antumbra.Vesting.Accrual

namespace Antumbra

open Antumbra.Math

namespace Vesting

/-! ### The program -/

/-- Decode a stored schedule, refusing an empty shard. -/
def load (pre : List U8) : Except Panic VestingSchedule := do
  refuseUnless (pre ≠ []) E_NOT_ANCHORED "no schedule is committed at this id"
  okOr (.refused E_BAD_SCHEDULE "schedule failed to deserialize") (scheduleCodec.readAll pre)

def store (s : VestingSchedule) : List U8 := scheduleCodec.encode s

def expectAsset (s : VestingSchedule) (asset : Asset) : Except Panic Unit :=
  refuseUnless (asset.code = (s.asset, s.tokenDefinition)) E_WRONG_ASSET
    "the instruction names a different asset from the schedule's"

/-- One effect against one schedule shard: the bytes that replace it. -/
def apply (effect : Effect) (pre : List U8) : Except Panic (Option (List U8)) :=
  match effect with
  | .create state => do
    -- Any existing bytes are refused, so that a replayed creation cannot land twice.
    refuseUnless (pre = []) E_EXISTS "a schedule already exists at this id"
    return some (store state)
  | .claim beneficiary holding asset amount at_ => do
    let s ← load pre
    refuseUnless (s.beneficiary = beneficiary) E_NOT_BENEFICIARY
      "signer is not the beneficiary this schedule names"
    refuseUnless (s.escrow = holding) E_ESCROW_MISMATCH "holding is not this schedule's"
    expectAsset s asset
    let owed ← claimable s at_
    refuseUnless (amount ≤ owed) E_NOTHING_CLAIMABLE
      "the amount exceeds what has vested by that time and is unclaimed"
    let claimed ← okOr (.refused E_BAD_SCHEDULE "claimed overflows") (checkedAdd s.claimed amount)
    return some (store { s with claimed, lastSeen := max s.lastSeen at_ })
  | .cancel authority holding refundTo asset at_ refund => do
    let s ← load pre
    refuseUnless (s.cancelAuthority = authority) E_NOT_AUTHORITY
      "signer is not this schedule's cancel authority"
    refuseUnless (s.cancelable ≠ 0) E_NOT_CANCELABLE "this schedule was made non-cancelable"
    refuseUnless (s.cancelledAt = 0) E_ALREADY_CANCELLED "already cancelled"
    refuseUnless (s.refundTo = refundTo) E_WRONG_REFUND
      "refund account is not the one fixed at creation"
    refuseUnless (s.escrow = holding) E_ESCROW_MISMATCH "holding is not this schedule's"
    expectAsset s asset
    -- A claim already paid what had vested by `lastSeen`.
    refuseUnless (s.lastSeen ≤ at_) E_TIME_WENT_BACKWARDS
      "the cancellation names a time before this schedule's last claim"
    let rest ← unvested s at_
    refuseUnless (refund = rest) E_REFUND_AMOUNT
      "the refund is not exactly the unvested part at that time"
    -- A time of zero would leave the schedule looking uncancelled.
    return some (store { s with cancelledAt := max at_ 1, lastSeen := at_ })
  | .makeNonCancelable creator => do
    let s ← load pre
    refuseUnless (s.creator = creator) E_NOT_CREATOR "signer is not the creator"
    refuseUnless (s.cancelable ≠ 0) E_NOT_CANCELABLE "already non-cancelable"
    return some (store { s with cancelable := 0 })
  | .transferBeneficiary beneficiary newBeneficiary => do
    let s ← load pre
    refuseUnless (s.transferable ≠ 0) E_NOT_TRANSFERABLE
      "this position was created non-transferable"
    refuseUnless (s.beneficiary = beneficiary) E_NOT_BENEFICIARY
      "signer is not the current beneficiary"
    return some (store { s with beneficiary := newBeneficiary })
  | .signalMilestone authority index => do
    let s ← load pre
    refuseUnless (s.milestoneAuthority = authority) E_NOT_AUTHORITY
      "signer is not this schedule's milestone authority"
    refuseUnless (s.kind = 2) E_MILESTONE_BAD "not a milestone schedule"
    refuseUnless (s.cancelledAt = 0) E_ALREADY_CANCELLED "the schedule was cancelled"
    refuseUnless (index < min s.tranches MAX_TRANCHES) E_MILESTONE_BAD
      "milestone index out of range"
    let bit := bitAt 64 index.toNat
    refuseUnless (s.signalled &&& bit = 0) E_MILESTONE_BAD "already signalled"
    return some (store { s with signalled := s.signalled ||| bit })

/-! ### What an act can do -/

/-- An effect other than a creation acts on a stored record. -/
inductive Acts : Effect → VestingSchedule → VestingSchedule → Prop
  | claim {s : VestingSchedule} {beneficiary holding : AccountId} {asset : Asset} {amount : U128}
      {at_ : U64} {owed : U128} (hbeneficiary : s.beneficiary = beneficiary)
      (hescrow : s.escrow = holding) (hasset : asset.code = (s.asset, s.tokenDefinition))
      (howed : claimable s at_ = .ok owed) (hamount : amount ≤ owed)
      (fits : s.claimed.toNat + amount.toNat < 2 ^ 128) :
      Acts (.claim beneficiary holding asset amount at_) s
        { s with claimed := s.claimed + amount, lastSeen := max s.lastSeen at_ }
  | cancel {s : VestingSchedule} {authority holding refundTo : AccountId} {asset : Asset}
      {at_ : U64} {refund : U128} (hauthority : s.cancelAuthority = authority)
      (hcancelable : s.cancelable ≠ 0) (live : s.cancelledAt = 0)
      (hrefundTo : s.refundTo = refundTo) (hescrow : s.escrow = holding)
      (hasset : asset.code = (s.asset, s.tokenDefinition)) (forward : s.lastSeen ≤ at_)
      (hrefund : unvested s at_ = .ok refund) :
      Acts (.cancel authority holding refundTo asset at_ refund) s
        { s with cancelledAt := max at_ 1, lastSeen := at_ }
  | makeNonCancelable {s : VestingSchedule} {creator : AccountId} (hcreator : s.creator = creator)
      (hcancelable : s.cancelable ≠ 0) :
      Acts (.makeNonCancelable creator) s { s with cancelable := 0 }
  | transferBeneficiary {s : VestingSchedule} {beneficiary newBeneficiary : AccountId}
      (htransferable : s.transferable ≠ 0) (hbeneficiary : s.beneficiary = beneficiary) :
      Acts (.transferBeneficiary beneficiary newBeneficiary) s
        { s with beneficiary := newBeneficiary }
  | signalMilestone {s : VestingSchedule} {authority : AccountId} {index : U32}
      (hauthority : s.milestoneAuthority = authority) (hkind : s.kind = 2)
      (live : s.cancelledAt = 0) (index_lt : index < min s.tranches MAX_TRANCHES)
      (clear : s.signalled.getLsbD index.toNat = false) :
      Acts (.signalMilestone authority index) s
        { s with signalled := s.signalled ||| bitAt 64 index.toNat }

theorem store_injective : Function.Injective store := scheduleCodec.encode_injective

theorem store_ne_nil (s : VestingSchedule) : store s ≠ [] :=
  scheduleCodec.encode_ne_nil (by decide) s

theorem load_eq_ok_iff {pre : List U8} {s : VestingSchedule} :
    load pre = .ok s ↔ pre = store s := by
  simp only [load, bind_eq_ok_iff, refuseUnless_eq_ok_iff, okOr_eq_ok_iff,
    Codec.readAll_eq_some_iff, exists_const]
  constructor
  · exact fun h => h.2
  · exact fun h => ⟨h ▸ store_ne_nil s, h⟩

theorem index_lt_64 {s : VestingSchedule} {index : U32} (h : index < min s.tranches MAX_TRANCHES) :
    index.toNat < 64 ∧ index.toNat < s.tranches.toNat := by
  rw [BitVec.lt_def, toNat_min, show MAX_TRANCHES.toNat = 64 from rfl] at h
  omega

/-- The program read as a relation: an effect is accepted on empty bytes exactly when it
is a creation, and on a stored record exactly when it acts on it. -/
theorem apply_eq_ok_iff {effect : Effect} {pre : List U8} {post : Option (List U8)} :
    apply effect pre = .ok post ↔
      (∃ s, effect = .create s ∧ pre = [] ∧ post = some (store s)) ∨
        ∃ s s', pre = store s ∧ Acts effect s s' ∧ post = some (store s') := by
  constructor
  · intro h
    -- the checks of each effect, in the order the program makes them
    cases effect with
    | create state =>
      simp only [apply, bind_eq_ok_iff, refuseUnless_eq_ok_iff, pure_eq_ok, Except.ok.injEq] at h
      obtain ⟨_, empty, rfl⟩ := h
      exact .inl ⟨state, rfl, empty, rfl⟩
    | claim beneficiary holding asset amount at_ =>
      simp only [apply, expectAsset, bind_eq_ok_iff, refuseUnless_eq_ok_iff, pure_eq_ok,
        okOr_eq_ok_iff, load_eq_ok_iff, checkedAdd_eq_some_iff_fits, Except.ok.injEq] at h
      obtain ⟨s, rfl, _, hbeneficiary, _, hescrow, _, hasset, owed, howed, _, hamount, _,
        ⟨fits, rfl⟩, rfl⟩ := h
      exact .inr ⟨s, _, rfl, .claim hbeneficiary hescrow hasset howed hamount fits, rfl⟩
    | cancel authority holding refundTo asset at_ refund =>
      simp only [apply, expectAsset, bind_eq_ok_iff, refuseUnless_eq_ok_iff, pure_eq_ok,
        load_eq_ok_iff, Except.ok.injEq] at h
      obtain ⟨s, rfl, _, hauthority, _, hcancelable, _, live, _, hrefundTo, _, hescrow, _, hasset,
        _, forward, rest, hrest, _, rfl, rfl⟩ := h
      exact .inr ⟨s, _, rfl,
        .cancel hauthority hcancelable live hrefundTo hescrow hasset forward hrest, rfl⟩
    | makeNonCancelable creator =>
      simp only [apply, bind_eq_ok_iff, refuseUnless_eq_ok_iff, pure_eq_ok, load_eq_ok_iff,
        Except.ok.injEq] at h
      obtain ⟨s, rfl, _, hcreator, _, hcancelable, rfl⟩ := h
      exact .inr ⟨s, _, rfl, .makeNonCancelable hcreator hcancelable, rfl⟩
    | transferBeneficiary beneficiary newBeneficiary =>
      simp only [apply, bind_eq_ok_iff, refuseUnless_eq_ok_iff, pure_eq_ok, load_eq_ok_iff,
        Except.ok.injEq] at h
      obtain ⟨s, rfl, _, htransferable, _, hbeneficiary, rfl⟩ := h
      exact .inr ⟨s, _, rfl, .transferBeneficiary htransferable hbeneficiary, rfl⟩
    | signalMilestone authority index =>
      simp only [apply, bind_eq_ok_iff, refuseUnless_eq_ok_iff, pure_eq_ok, load_eq_ok_iff,
        Except.ok.injEq] at h
      obtain ⟨s, rfl, _, hauthority, _, hkind, _, live, _, index_lt, _, clear, rfl⟩ := h
      rw [and_bitAt_eq_zero_iff (index_lt_64 index_lt).1] at clear
      exact .inr ⟨s, _, rfl, .signalMilestone hauthority hkind live index_lt clear, rfl⟩
  · rintro (⟨s, rfl, rfl, rfl⟩ | ⟨s, s', rfl, acts, rfl⟩)
    · simp [apply, refuseUnless, ensure]
    · -- under the conditions of an act no check refuses
      cases acts with
      | claim hbeneficiary hescrow hasset howed hamount fits =>
        simp only [apply, expectAsset, bind_eq_ok_iff, refuseUnless_eq_ok_iff, pure_eq_ok,
          okOr_eq_ok_iff, load_eq_ok_iff, checkedAdd_eq_some_iff_fits, Except.ok.injEq]
        exact ⟨s, rfl, (), hbeneficiary, (), hescrow, (), hasset, _, howed, (), hamount, _,
          ⟨fits, rfl⟩, rfl⟩
      | cancel hauthority hcancelable live hrefundTo hescrow hasset forward hrefund =>
        simp only [apply, expectAsset, bind_eq_ok_iff, refuseUnless_eq_ok_iff, pure_eq_ok,
          load_eq_ok_iff, Except.ok.injEq]
        exact ⟨s, rfl, (), hauthority, (), hcancelable, (), live, (), hrefundTo, (), hescrow, (),
          hasset, (), forward, _, hrefund, (), rfl, rfl⟩
      | makeNonCancelable hcreator hcancelable =>
        simp only [apply, bind_eq_ok_iff, refuseUnless_eq_ok_iff, pure_eq_ok, load_eq_ok_iff,
          Except.ok.injEq]
        exact ⟨s, rfl, (), hcreator, (), hcancelable, rfl⟩
      | transferBeneficiary htransferable hbeneficiary =>
        simp only [apply, bind_eq_ok_iff, refuseUnless_eq_ok_iff, pure_eq_ok, load_eq_ok_iff,
          Except.ok.injEq]
        exact ⟨s, rfl, (), htransferable, (), hbeneficiary, rfl⟩
      | signalMilestone hauthority hkind live index_lt clear =>
        rw [← and_bitAt_eq_zero_iff (index_lt_64 index_lt).1] at clear
        simp only [apply, bind_eq_ok_iff, refuseUnless_eq_ok_iff, pure_eq_ok, load_eq_ok_iff,
          Except.ok.injEq]
        exact ⟨s, rfl, (), hauthority, (), hkind, (), live, (), index_lt, (), clear, rfl⟩

end Vesting

end Antumbra
