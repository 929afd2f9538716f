/-
# What a planned transaction meets

The conditions under which each instruction is planned and the plan it gets, as a
relation. Two views follow from it that do not mention the instruction: what is
true of every planned effect, and what every planned act asks of the chain.
-/

import Antumbra.Vesting.Apply
import Antumbra.Vesting.Plan

namespace Antumbra

open Antumbra.Math

namespace Vesting

variable {p : Platform} {me : AccountId}

/-! ### Rows -/

/-- The row is the program's shard of the schedule's address. -/
structure IsSchedule (p : Platform) (me : AccountId) (scheduleId : Bytes 32) (row : AccountMeta) :
    Prop where
  account : row.accountId = scheduleAccount p me scheduleId
  program : row.programAccountId = me

/-- The row is the asset's shard of the escrow's address. -/
structure IsHolding (p : Platform) (me : AccountId) (seedId : Bytes 32) (asset : Asset)
    (row : AccountMeta) : Prop where
  account : row.accountId = holdingAccount p me seedId
  program : row.programAccountId = asset.shardProgram p

/-- The row is a signed handle on the program's shard. -/
structure IsHandle (me : AccountId) (row : AccountMeta) : Prop where
  signed : row.isAuthorized = true
  program : row.programAccountId = me

@[simp] theorem expectSchedule_eq_ok_iff {row : AccountMeta} {scheduleId : Bytes 32} {u : Unit} :
    expectSchedule p row me scheduleId = .ok u ↔ IsSchedule p me scheduleId row := by
  rw [expectSchedule, refuseUnless_eq_ok_iff]
  exact ⟨fun h => ⟨h.1, h.2⟩, fun h => ⟨h.account, h.program⟩⟩

@[simp] theorem expectHolding_eq_ok_iff {row : AccountMeta} {seedId : Bytes 32} {asset : Asset}
    {u : Unit} : expectHolding p row me seedId asset = .ok u ↔ IsHolding p me seedId asset row := by
  simp only [expectHolding, bind_eq_ok_iff, refuseUnless_eq_ok_iff, exists_const]
  exact ⟨fun h => ⟨h.1, h.2⟩, fun h => ⟨h.account, h.program⟩⟩

@[simp] theorem expectAssetRow_eq_ok_iff {row : AccountMeta} {asset : Asset} {u : Unit} :
    expectAssetRow p row asset = .ok u ↔ row.programAccountId = asset.shardProgram p :=
  refuseUnless_eq_ok_iff

@[simp] theorem expectSignerHandle_eq_ok_iff {row : AccountMeta} {u : Unit} :
    expectSignerHandle row me = .ok u ↔ IsHandle me row := by
  simp only [expectSignerHandle, bind_eq_ok_iff, refuseUnless_eq_ok_iff, exists_const]
  exact ⟨fun h => ⟨h.1, h.2⟩, fun h => ⟨h.signed, h.program⟩⟩

@[simp] theorem rows_eq_ok_iff {n : ℕ} {input : PlanInput} {v : List.Vector AccountMeta n} :
    rows n input = .ok v ↔ input.accounts = v.toList := by
  unfold rows
  split
  · next len =>
    constructor
    · intro same
      cases same
      rfl
    · intro same
      exact congrArg Except.ok (Subtype.ext same)
  · next short =>
    refine ⟨fun refused => absurd refused refuse_ne_ok, fun same => absurd ?_ short⟩
    rw [same, v.toList_length]

/-- The four rows of a payout. -/
structure Custody (p : Platform) (me : AccountId) (scheduleId seedId : Bytes 32) (asset : Asset)
    (schedule holding target signer : AccountMeta) : Prop where
  schedule : IsSchedule p me scheduleId schedule
  holding : IsHolding p me seedId asset holding
  target : target.programAccountId = asset.shardProgram p
  signer : IsHandle me signer

/-! ### Conditions -/

/-- How an instruction with these rows is planned. -/
inductive Planned (p : Platform) (me : AccountId) : List AccountMeta → Instruction → Plan → Prop
  | createSchedule {schedule holding creator : AccountMeta} {scheduleId : Bytes 32}
      {beneficiary : AccountId} {asset : Asset} {terms : Terms} {state : VestingSchedule}
      (hschedule : IsSchedule p me scheduleId schedule)
      (hholding : IsHolding p me scheduleId asset holding)
      (hcreator : creator.programAccountId = asset.shardProgram p)
      (signed : creator.isAuthorized = true)
      (hstate : newState creator.accountId holding.accountId beneficiary asset terms = .ok state) :
      Planned p me [schedule, holding, creator]
        (.createSchedule scheduleId beneficiary asset terms)
        { effects := [(schedule, .create state)]
          calls := [transferCall p asset creator holding terms.total]
          window := none
          events := [.scheduleCreated scheduleId beneficiary holding.accountId asset terms.kind
            terms.total] }
  | createScheduleBatch {holding creator : AccountMeta} {members : List AccountMeta}
      {batchId : Bytes 32} {beneficiaries : List AccountId} {asset : Asset} {terms : Terms}
      {sum : U128} {effects : List (AccountMeta × Effect)}
      (hlength : 1 ≤ beneficiaries.length ∧ members.length = beneficiaries.length)
      (hholding : IsHolding p me batchId asset holding)
      (hcreator : creator.programAccountId = asset.shardProgram p)
      (signed : creator.isAuthorized = true)
      (few : beneficiaries.length < 2 ^ 32)
      (hsum : terms.total.toNat * beneficiaries.length = sum.toNat)
      (heffects : (members.zip beneficiaries).zipIdx.mapM
        (planMember p me batchId holding creator asset terms) = .ok effects) :
      Planned p me (holding :: creator :: members)
        (.createScheduleBatch batchId beneficiaries asset terms)
        { effects
          calls := [transferCall p asset creator holding sum]
          window := none
          events := [.batchCreated batchId holding.accountId asset
            (BitVec.ofNat 32 beneficiaries.length) terms.total] }
  | claim {schedule holding destination beneficiary : AccountMeta} {scheduleId : Bytes 32}
      {batchId : Option (Bytes 32)} {asset : Asset} {amount : U128} {at_ : U64}
      (custody : Custody p me scheduleId (batchId.getD scheduleId) asset schedule holding
        destination beneficiary)
      (positive : 0 < amount) :
      Planned p me [schedule, holding, destination, beneficiary]
        (.claim scheduleId batchId asset amount at_)
        { effects := [(schedule, .claim beneficiary.accountId holding.accountId asset amount at_)]
          calls := [payout p asset holding (batchId.getD scheduleId) destination amount]
          window := some ⟨at_, none⟩
          events := [.claimed scheduleId amount at_ destination.accountId] }
  | cancel {schedule holding refundRow authority : AccountMeta} {scheduleId : Bytes 32}
      {batchId : Option (Bytes 32)} {asset : Asset} {at_ : U64} {refund : U128}
      (custody : Custody p me scheduleId (batchId.getD scheduleId) asset schedule holding
        refundRow authority)
      (fits : at_.toNat + CANCEL_WINDOW_MS.toNat < 2 ^ 64) :
      Planned p me [schedule, holding, refundRow, authority]
        (.cancel scheduleId batchId asset at_ refund)
        { effects := [(schedule, .cancel authority.accountId holding.accountId refundRow.accountId
            asset at_ refund)]
          calls := if 0 < refund then
            [payout p asset holding (batchId.getD scheduleId) refundRow refund] else []
          window := some ⟨at_, some (at_ + CANCEL_WINDOW_MS)⟩
          events := [.cancelled scheduleId at_ refund refundRow.accountId] }
  | makeNonCancelable {schedule creator : AccountMeta} {scheduleId : Bytes 32}
      (hschedule : IsSchedule p me scheduleId schedule) (handle : IsHandle me creator) :
      Planned p me [schedule, creator] (.makeNonCancelable scheduleId)
        { effects := [(schedule, .makeNonCancelable creator.accountId)]
          calls := []
          window := none
          events := [.madeNonCancelable scheduleId] }
  | transferBeneficiary {schedule beneficiary : AccountMeta} {scheduleId : Bytes 32}
      {newBeneficiary : AccountId}
      (hschedule : IsSchedule p me scheduleId schedule) (handle : IsHandle me beneficiary) :
      Planned p me [schedule, beneficiary] (.transferBeneficiary scheduleId newBeneficiary)
        { effects := [(schedule, .transferBeneficiary beneficiary.accountId newBeneficiary)]
          calls := []
          window := none
          events := [.beneficiaryTransferred scheduleId beneficiary.accountId newBeneficiary] }
  | signalMilestone {schedule authority : AccountMeta} {scheduleId : Bytes 32} {index : U32}
      (hschedule : IsSchedule p me scheduleId schedule) (handle : IsHandle me authority) :
      Planned p me [schedule, authority] (.signalMilestone scheduleId index)
        { effects := [(schedule, .signalMilestone authority.accountId index)]
          calls := []
          window := none
          events := [.milestoneSignalled scheduleId index] }

/-! ### The program plans exactly these -/

variable {input : PlanInput} {ix : Instruction} {pl : Plan} {rowList : List AccountMeta}

theorem toList_three (v : List.Vector AccountMeta 3) : v.toList = [v.get 0, v.get 1, v.get 2] := by
  obtain ⟨l, len⟩ := v
  match l, len with
  | [_, _, _], _ => rfl

theorem toList_four (v : List.Vector AccountMeta 4) :
    v.toList = [v.get 0, v.get 1, v.get 2, v.get 3] := by
  obtain ⟨l, len⟩ := v
  match l, len with
  | [_, _, _, _], _ => rfl

theorem toList_two (v : List.Vector AccountMeta 2) : v.toList = [v.get 0, v.get 1] := by
  obtain ⟨l, len⟩ := v
  match l, len with
  | [_, _], _ => rfl

/-- The count of a batch loses nothing on its way to 128 bits. -/
theorem toNat_count {n : ℕ} (few : n < 2 ^ 32) :
    ((BitVec.ofNat 32 n).setWidth 128).toNat = n := by
  rw [BitVec.toNat_setWidth, BitVec.toNat_ofNat, Nat.mod_eq_of_lt few, Nat.mod_eq_of_lt (by omega)]

/-- The effects of a batch are one creation for each beneficiary, each on the row of its
index. -/
theorem planMembers_eq_ok {batchId : Bytes 32} {holding creator : AccountMeta} {asset : Asset}
    {terms : Terms} {members : List AccountMeta} {beneficiaries : List AccountId}
    {effects : List (AccountMeta × Effect)} (same : members.length = beneficiaries.length)
    (h : (members.zip beneficiaries).zipIdx.mapM
      (planMember p me batchId holding creator asset terms) = .ok effects) :
    effects.length = beneficiaries.length ∧ ∀ planned ∈ effects, ∃ i who state,
      i < beneficiaries.length ∧
        IsSchedule p me (batchScheduleId p batchId (BitVec.ofNat 32 i)) planned.1 ∧
          newState creator.accountId holding.accountId who asset terms = .ok state ∧
            planned.2 = .create state := by
  have count : (members.zip beneficiaries).length = beneficiaries.length := by
    rw [List.length_zip, same, Nat.min_self]
  refine ⟨by rw [length_of_mapM h, List.length_zipIdx, count], fun planned mem => ?_⟩
  obtain ⟨⟨⟨row, who⟩, i⟩, member, answer⟩ := exists_of_mem_mapM h mem
  simp only [planMember, bind_eq_ok_iff, refuseUnless_eq_ok_iff, exists_const, pure_eq_ok,
    Except.ok.injEq] at answer
  obtain ⟨hrow, state, hstate, rfl⟩ := answer
  exact ⟨i, who, state, count ▸ List.snd_lt_of_mem_zipIdx member, ⟨hrow.1, hrow.2⟩, hstate, rfl⟩

theorem planned_of_plan_eq_ok (h : plan p input ix = .ok pl) :
    Planned p input.selfAccountId input.accounts ix pl := by
  cases ix with
  | createSchedule scheduleId beneficiary asset terms =>
    simp only [plan, bind_eq_ok_iff, rows_eq_ok_iff, expectSchedule_eq_ok_iff,
      expectHolding_eq_ok_iff, expectAssetRow_eq_ok_iff, refuseUnless_eq_ok_iff, pure_eq_ok,
      Except.ok.injEq, exists_const] at h
    obtain ⟨v, accounts, hschedule, hholding, hcreator, signed, state, hstate, rfl⟩ := h
    rw [accounts, toList_three]
    exact .createSchedule hschedule hholding hcreator signed hstate
  | createScheduleBatch batchId beneficiaries asset terms =>
    -- the one instruction without a fixed number of rows
    dsimp only [plan] at h
    split at h
    · next accounts =>
      simp only [bind_eq_ok_iff, expectHolding_eq_ok_iff, expectAssetRow_eq_ok_iff,
        refuseUnless_eq_ok_iff, okOr_eq_ok_iff, pure_eq_ok, Except.ok.injEq, exists_const] at h
      obtain ⟨hlength, hholding, hcreator, signed, few, sum, hsum, effects, heffects, rfl⟩ := h
      rw [accounts]
      exact .createScheduleBatch hlength hholding hcreator signed few (toNat_count few ▸
        checkedMul_eq_some_iff.mp hsum) heffects
    · exact absurd h refuse_ne_ok
  | claim scheduleId batchId asset amount at_ =>
    simp only [plan, bind_eq_ok_iff, rows_eq_ok_iff, expectSchedule_eq_ok_iff,
      expectHolding_eq_ok_iff, expectAssetRow_eq_ok_iff, expectSignerHandle_eq_ok_iff,
      refuseUnless_eq_ok_iff, pure_eq_ok, Except.ok.injEq, exists_const] at h
    obtain ⟨v, accounts, hschedule, hholding, htarget, hsigner, positive, rfl⟩ := h
    rw [accounts, toList_four]
    exact .claim ⟨hschedule, hholding, htarget, hsigner⟩ positive
  | cancel scheduleId batchId asset at_ refund =>
    simp only [plan, bind_eq_ok_iff, rows_eq_ok_iff, expectSchedule_eq_ok_iff,
      expectHolding_eq_ok_iff, expectAssetRow_eq_ok_iff, expectSignerHandle_eq_ok_iff,
      okOr_eq_ok_iff, checkedAdd_eq_some_iff_fits, pure_eq_ok, Except.ok.injEq, exists_const] at h
    obtain ⟨v, accounts, hschedule, hholding, htarget, hsigner, until_, ⟨fits, rfl⟩, rfl⟩ := h
    rw [accounts, toList_four]
    exact .cancel ⟨hschedule, hholding, htarget, hsigner⟩ fits
  | makeNonCancelable scheduleId =>
    simp only [plan, bind_eq_ok_iff, rows_eq_ok_iff, expectSchedule_eq_ok_iff,
      expectSignerHandle_eq_ok_iff, pure_eq_ok, Except.ok.injEq, exists_const] at h
    obtain ⟨v, accounts, hschedule, handle, rfl⟩ := h
    rw [accounts, toList_two]
    exact .makeNonCancelable hschedule handle
  | transferBeneficiary scheduleId newBeneficiary =>
    simp only [plan, bind_eq_ok_iff, rows_eq_ok_iff, expectSchedule_eq_ok_iff,
      expectSignerHandle_eq_ok_iff, pure_eq_ok, Except.ok.injEq, exists_const] at h
    obtain ⟨v, accounts, hschedule, handle, rfl⟩ := h
    rw [accounts, toList_two]
    exact .transferBeneficiary hschedule handle
  | signalMilestone scheduleId index =>
    simp only [plan, bind_eq_ok_iff, rows_eq_ok_iff, expectSchedule_eq_ok_iff,
      expectSignerHandle_eq_ok_iff, pure_eq_ok, Except.ok.injEq, exists_const] at h
    obtain ⟨v, accounts, hschedule, handle, rfl⟩ := h
    rw [accounts, toList_two]
    exact .signalMilestone hschedule handle

theorem plan_eq_ok_of_planned (h : Planned p me rowList ix pl) :
    plan p ⟨me, rowList⟩ ix = .ok pl := by
  cases h with
  | createSchedule hschedule hholding hcreator signed hstate =>
    simp only [plan, bind_eq_ok_iff, rows_eq_ok_iff, expectSchedule_eq_ok_iff,
      expectHolding_eq_ok_iff, expectAssetRow_eq_ok_iff, refuseUnless_eq_ok_iff, pure_eq_ok,
      Except.ok.injEq, exists_const]
    exact ⟨⟨[_, _, _], rfl⟩, rfl, hschedule, hholding, hcreator, signed, _, hstate, rfl⟩
  | createScheduleBatch hlength hholding hcreator signed few hsum heffects =>
    simp only [plan, bind_eq_ok_iff, expectHolding_eq_ok_iff, expectAssetRow_eq_ok_iff,
      refuseUnless_eq_ok_iff, okOr_eq_ok_iff, checkedMul_eq_some_iff, pure_eq_ok, Except.ok.injEq,
      exists_const]
    exact ⟨hlength, hholding, hcreator, signed, few, _, (toNat_count few).symm ▸ hsum, _, heffects,
      rfl⟩
  | claim custody positive =>
    simp only [plan, bind_eq_ok_iff, rows_eq_ok_iff, expectSchedule_eq_ok_iff,
      expectHolding_eq_ok_iff, expectAssetRow_eq_ok_iff, expectSignerHandle_eq_ok_iff,
      refuseUnless_eq_ok_iff, pure_eq_ok, Except.ok.injEq, exists_const]
    exact ⟨⟨[_, _, _, _], rfl⟩, rfl, custody.schedule, custody.holding, custody.target,
      custody.signer, positive, rfl⟩
  | cancel custody fits =>
    simp only [plan, bind_eq_ok_iff, rows_eq_ok_iff, expectSchedule_eq_ok_iff,
      expectHolding_eq_ok_iff, expectAssetRow_eq_ok_iff, expectSignerHandle_eq_ok_iff,
      okOr_eq_ok_iff, checkedAdd_eq_some_iff_fits, pure_eq_ok, Except.ok.injEq, exists_const]
    exact ⟨⟨[_, _, _, _], rfl⟩, rfl, custody.schedule, custody.holding, custody.target,
      custody.signer, _, ⟨fits, rfl⟩, rfl⟩
  | makeNonCancelable hschedule handle =>
    simp only [plan, bind_eq_ok_iff, rows_eq_ok_iff, expectSchedule_eq_ok_iff,
      expectSignerHandle_eq_ok_iff, pure_eq_ok, Except.ok.injEq, exists_const]
    exact ⟨⟨[_, _], rfl⟩, rfl, hschedule, handle, rfl⟩
  | transferBeneficiary hschedule handle =>
    simp only [plan, bind_eq_ok_iff, rows_eq_ok_iff, expectSchedule_eq_ok_iff,
      expectSignerHandle_eq_ok_iff, pure_eq_ok, Except.ok.injEq, exists_const]
    exact ⟨⟨[_, _], rfl⟩, rfl, hschedule, handle, rfl⟩
  | signalMilestone hschedule handle =>
    simp only [plan, bind_eq_ok_iff, rows_eq_ok_iff, expectSchedule_eq_ok_iff,
      expectSignerHandle_eq_ok_iff, pure_eq_ok, Except.ok.injEq, exists_const]
    exact ⟨⟨[_, _], rfl⟩, rfl, hschedule, handle, rfl⟩

/-- The planning half read as a relation. -/
theorem plan_eq_ok_iff : plan p ⟨me, rowList⟩ ix = .ok pl ↔ Planned p me rowList ix pl :=
  ⟨planned_of_plan_eq_ok, plan_eq_ok_of_planned⟩

end Vesting

end Antumbra
