/-
# The rows clients build and the rows the program takes

The builders lay out the rows of an instruction from its ids and its asset and two accounts
the client is free to choose. The plan, written apart from them, looks at rows it is given.
Its checks pass on what the builders lay out, with the signing row authorised, and on nothing
else; a batch of nobody is the one layout it does not take. Once planned, an instruction acts
on these rows and moves its amount between them.
-/

import Antumbra.Vesting.Chain

namespace Antumbra

open Antumbra.Math

namespace Vesting

variable (p : Platform)

/-! ### The checks of the plan on its rows -/

-- so that the rows of two, three and four have positions by number
theorem neZero_two : NeZero 2 := ⟨two_ne_zero⟩

theorem neZero_three : NeZero 3 := ⟨three_ne_zero⟩

theorem neZero_four : NeZero 4 := ⟨four_ne_zero⟩

attribute [local instance] neZero_two neZero_three neZero_four

/-- One member row of a batch. -/
def checkMember (me : AccountId) (batchId : Bytes 32)
    (member : (AccountMeta × AccountId) × ℕ) : Except Panic Unit :=
  let ((row, _), i) := member
  refuseUnless
    (row.accountId = scheduleAccount p me (batchScheduleId p batchId (BitVec.ofNat 32 i)) ∧
      row.programAccountId = me)
    E_BATCH "a schedule row is not the next PDA of this batch"

/-- The checks `plan` makes of its rows, in its order, and no other. -/
def checkRows (input : PlanInput) (ix : Instruction) : Except Panic Unit :=
  let me := input.selfAccountId
  match ix with
  | .createSchedule scheduleId _ asset _ => do
    let v ← rows 3 input
    expectSchedule p (v.get 0) me scheduleId
    expectHolding p (v.get 1) me scheduleId asset
    expectAssetRow p (v.get 2) asset
    refuseUnless ((v.get 2).isAuthorized = true) E_NOT_SIGNED "the creator must sign"
  | .createScheduleBatch batchId beneficiaries asset _ =>
    match input.accounts with
    | holding :: creator :: members => do
      refuseUnless (1 ≤ beneficiaries.length ∧ members.length = beneficiaries.length)
        E_BATCH "one schedule row per beneficiary, at least one"
      expectHolding p holding me batchId asset
      expectAssetRow p creator asset
      refuseUnless (creator.isAuthorized = true) E_NOT_SIGNED "the creator must sign"
      refuseUnless (beneficiaries.length < 2 ^ 32) E_BATCH "too many schedules"
      forM (members.zip beneficiaries).zipIdx (checkMember p me batchId)
    | _ => refuse E_BATCH "one schedule row per beneficiary, at least one"
  | .claim scheduleId batchId asset _ _ => do
    let v ← rows 4 input
    expectSchedule p (v.get 0) me scheduleId
    expectHolding p (v.get 1) me (batchId.getD scheduleId) asset
    expectAssetRow p (v.get 2) asset
    expectSignerHandle (v.get 3) me
  | .cancel scheduleId batchId asset _ _ => do
    let v ← rows 4 input
    expectSchedule p (v.get 0) me scheduleId
    expectHolding p (v.get 1) me (batchId.getD scheduleId) asset
    expectAssetRow p (v.get 2) asset
    expectSignerHandle (v.get 3) me
  | .makeNonCancelable scheduleId => do
    let v ← rows 2 input
    expectSchedule p (v.get 0) me scheduleId
    expectSignerHandle (v.get 1) me
  | .transferBeneficiary scheduleId _ => do
    let v ← rows 2 input
    expectSchedule p (v.get 0) me scheduleId
    expectSignerHandle (v.get 1) me
  | .signalMilestone scheduleId _ => do
    let v ← rows 2 input
    expectSchedule p (v.get 0) me scheduleId
    expectSignerHandle (v.get 1) me

/-- What a row check says when it refuses. -/
def rowRefusals : List Panic :=
  [.refused E_ACCOUNTS "wrong number of accounts for this instruction",
    .refused E_NOT_ANCHORED "the schedule row is not this program's shard of the schedule PDA",
    .refused E_ESCROW_MISMATCH "the holding row is not the escrow PDA",
    .refused E_WRONG_ASSET "the holding row selects the wrong shard for this asset",
    .refused E_WRONG_ASSET "this row must select the asset's shard",
    .refused E_NOT_SIGNED "the signer row carries no signature",
    .refused E_ACCOUNTS "a signer handle selects this program's shard",
    .refused E_NOT_SIGNED "the creator must sign",
    .refused E_BATCH "one schedule row per beneficiary, at least one",
    .refused E_BATCH "too many schedules",
    .refused E_BATCH "a schedule row is not the next PDA of this batch"]

/-! ### What clients build -/

/-- The rows the matching builder returns for an instruction, with the accounts the client
chooses: where a payout goes, and whose row signs. The batch builder counts in 32 bits. -/
def Laid (program target handle : AccountId) (ix : Instruction)
    (selectors : List ProgramShardSelector) : Prop :=
  match ix with
  | .createSchedule scheduleId _ asset _ =>
    selectors = Rows.create p program scheduleId asset handle
  | .createScheduleBatch batchId beneficiaries asset _ =>
    ∃ n : U32, n.toNat = beneficiaries.length ∧
      selectors = Rows.batch p program batchId n asset handle
  | .claim scheduleId batchId asset _ _ =>
    selectors = Rows.claim p program scheduleId batchId asset target handle
  | .cancel scheduleId batchId asset _ _ =>
    selectors = Rows.cancel p program scheduleId batchId asset target handle
  | .makeNonCancelable scheduleId => selectors = Rows.handle p program scheduleId handle
  | .transferBeneficiary scheduleId _ => selectors = Rows.handle p program scheduleId handle
  | .signalMilestone scheduleId _ => selectors = Rows.handle p program scheduleId handle

/-- The place of the row that signs. -/
def Instruction.signerRow : Instruction → ℕ
  | .createSchedule .. => 2
  | .claim .. => 3
  | .cancel .. => 3
  | _ => 1

/-- The signing row is authorised. -/
def Instruction.Signed (ix : Instruction) (rowList : List AccountMeta) : Prop :=
  ∃ row, rowList[ix.signerRow]? = some row ∧ row.isAuthorized = true

/-- A batch names somebody. -/
def Instruction.NamesSomebody : Instruction → Prop
  | .createScheduleBatch _ beneficiaries _ _ => beneficiaries ≠ []
  | _ => True

/-! ### What a plan does with the rows -/

/-- A transfer of an asset from one account to another. -/
def between (asset : Asset) (source target : AccountId) (amount : U128) (seeds : List PdaSeed) :
    ChainedCall where
  programAccountId := asset.shardProgram p
  accounts := [⟨source, asset.shardProgram p⟩, ⟨target, asset.shardProgram p⟩]
  instruction :=
    match asset with
    | .native => .native amount
    | .token definitionId => .token amount definitionId
  pdaSeeds := seeds

/-- What the instruction asks of each schedule row it lays out. -/
def carried (program target handle : AccountId) :
    Instruction → List (ProgramShardSelector × Effect)
  | .createSchedule scheduleId beneficiary asset terms =>
    [(⟨scheduleAccount p program scheduleId, program⟩,
      .create (initialState handle (holdingAccount p program scheduleId) beneficiary asset terms))]
  | .createScheduleBatch batchId beneficiaries asset terms =>
    beneficiaries.zipIdx.map fun (who, i) =>
      (⟨scheduleAccount p program (batchScheduleId p batchId (BitVec.ofNat 32 i)), program⟩,
        .create (initialState handle (holdingAccount p program batchId) who asset terms))
  | .claim scheduleId batchId asset amount at_ =>
    [(⟨scheduleAccount p program scheduleId, program⟩,
      .claim handle (holdingAccount p program (batchId.getD scheduleId)) asset amount at_)]
  | .cancel scheduleId batchId asset at_ refund =>
    [(⟨scheduleAccount p program scheduleId, program⟩,
      .cancel handle (holdingAccount p program (batchId.getD scheduleId)) target asset at_ refund)]
  | .makeNonCancelable scheduleId =>
    [(⟨scheduleAccount p program scheduleId, program⟩, .makeNonCancelable handle)]
  | .transferBeneficiary scheduleId newBeneficiary =>
    [(⟨scheduleAccount p program scheduleId, program⟩, .transferBeneficiary handle newBeneficiary)]
  | .signalMilestone scheduleId index =>
    [(⟨scheduleAccount p program scheduleId, program⟩, .signalMilestone handle index)]

/-- What the instruction moves: its funding into the escrow, or its payout out of it under the
seed of the batch when one is named and of the schedule otherwise. -/
def moved (program target handle : AccountId) : Instruction → List ChainedCall
  | .createSchedule scheduleId _ asset terms =>
    [between p asset handle (holdingAccount p program scheduleId) terms.total []]
  | .createScheduleBatch batchId beneficiaries asset terms =>
    [between p asset handle (holdingAccount p program batchId)
      (BitVec.ofNat 128 (terms.total.toNat * beneficiaries.length)) []]
  | .claim scheduleId batchId asset amount _ =>
    [between p asset (holdingAccount p program (batchId.getD scheduleId)) target amount
      [holdingSeed p (batchId.getD scheduleId)]]
  | .cancel scheduleId batchId asset _ refund =>
    if 0 < refund then
      [between p asset (holdingAccount p program (batchId.getD scheduleId)) target refund
        [holdingSeed p (batchId.getD scheduleId)]]
    else []
  | _ => []

/-- The amount of the instruction is one the chain can move. -/
def Instruction.Movable : Instruction → Prop
  | .createScheduleBatch _ beneficiaries _ terms =>
    terms.total.toNat * beneficiaries.length < 2 ^ 128
  | _ => True

/-- What a plan checks apart from its rows: the terms are sound, a claim is of something, and
the sum of a batch and the end of a cancellation's window fit. -/
def Instruction.Sound : Instruction → Prop
  | .createSchedule _ _ _ terms => terms.Sound
  | .createScheduleBatch _ beneficiaries _ terms =>
    terms.Sound ∧ terms.total.toNat * beneficiaries.length < 2 ^ 128
  | .claim _ _ _ amount _ => 0 < amount
  | .cancel _ _ _ at_ _ => at_.toNat + CANCEL_WINDOW_MS.toNat < 2 ^ 64
  | _ => True

variable {p} {me program target handle : AccountId} {input : PlanInput} {ix : Instruction}
  {rowList : List AccountMeta} {row : AccountMeta} {e : Panic} {pl : Plan}

/-! ### Rows as selectors -/

theorem isSchedule_iff {scheduleId : Bytes 32} :
    IsSchedule p me scheduleId row ↔ row.selector = ⟨scheduleAccount p me scheduleId, me⟩ := by
  rw [AccountMeta.selector, ProgramShardSelector.mk.injEq]
  exact ⟨fun h => ⟨h.account, h.program⟩, fun h => ⟨h.1, h.2⟩⟩

theorem isHolding_iff {seedId : Bytes 32} {asset : Asset} :
    IsHolding p me seedId asset row ↔
      row.selector = ⟨holdingAccount p me seedId, asset.shardProgram p⟩ := by
  rw [AccountMeta.selector, ProgramShardSelector.mk.injEq]
  exact ⟨fun h => ⟨h.account, h.program⟩, fun h => ⟨h.1, h.2⟩⟩

/-- A handle is a signed row on the program's own shard. -/
theorem isHandle_iff :
    IsHandle me row ↔ row.selector = ⟨row.accountId, me⟩ ∧ row.isAuthorized = true := by
  rw [AccountMeta.selector, ProgramShardSelector.mk.injEq]
  exact ⟨fun h => ⟨⟨rfl, h.program⟩, h.signed⟩, fun h => ⟨h.2, h.1.2⟩⟩

theorem checkMember_eq_ok_iff {batchId : Bytes 32} {who : AccountId} {i : ℕ} {u : Unit} :
    checkMember p me batchId ((row, who), i) = .ok u ↔
      IsSchedule p me (batchScheduleId p batchId (BitVec.ofNat 32 i)) row := by
  rw [checkMember, refuseUnless_eq_ok_iff]
  exact ⟨fun h => ⟨h.1, h.2⟩, fun h => ⟨h.account, h.program⟩⟩

/-- The member rows pass when they are the schedules of the batch in order. -/
theorem checkMembers_eq_ok_iff {batchId : Bytes 32} {members : List AccountMeta}
    {beneficiaries : List AccountId} (same : members.length = beneficiaries.length) {u : Unit} :
    forM (members.zip beneficiaries).zipIdx (checkMember p me batchId) = .ok u ↔
      members.map AccountMeta.selector = (List.range beneficiaries.length).map fun i =>
        ⟨scheduleAccount p me (batchScheduleId p batchId (BitVec.ofNat 32 i)), me⟩ := by
  rw [forM_eq_ok_iff]
  constructor
  · intro passed
    apply List.ext_getElem
    · rw [List.length_map, List.length_map, List.length_range, same]
    · intro i within _
      rw [List.length_map] at within
      have member : ((members[i], beneficiaries[i]), i) ∈ (members.zip beneficiaries).zipIdx := by
        rw [List.mem_zipIdx_iff_getElem?, List.getElem?_zip_eq_some]
        exact ⟨List.getElem?_eq_getElem within, List.getElem?_eq_getElem (by omega)⟩
      rw [List.getElem_map, List.getElem_map, List.getElem_range]
      exact isSchedule_iff.mp (checkMember_eq_ok_iff.mp (passed _ member))
  · rintro laid ⟨⟨row, who⟩, i⟩ member
    rw [List.mem_zipIdx_iff_getElem?, List.getElem?_zip_eq_some] at member
    obtain ⟨within, found⟩ := List.getElem?_eq_some_iff.mp member.1
    have at_ := congrArg (·[i]?) laid
    simp only [List.getElem?_map, member.1, Option.map_some] at at_
    rw [List.getElem?_range (by omega), Option.map_some, Option.some.injEq] at at_
    exact checkMember_eq_ok_iff.mpr (isSchedule_iff.mpr at_)

/-! ### One layout at a time -/

theorem exists_rows_two {P : AccountMeta → AccountMeta → Prop} :
    (∃ v : List.Vector AccountMeta 2, rowList = v.toList ∧ P (v.get 0) (v.get 1)) ↔
      ∃ a b, rowList = [a, b] ∧ P a b := by
  constructor
  · rintro ⟨v, rfl, h⟩
    exact ⟨_, _, toList_two v, h⟩
  · rintro ⟨a, b, rfl, h⟩
    exact ⟨⟨[a, b], rfl⟩, rfl, h⟩

theorem exists_rows_three {P : AccountMeta → AccountMeta → AccountMeta → Prop} :
    (∃ v : List.Vector AccountMeta 3, rowList = v.toList ∧ P (v.get 0) (v.get 1) (v.get 2)) ↔
      ∃ a b c, rowList = [a, b, c] ∧ P a b c := by
  constructor
  · rintro ⟨v, rfl, h⟩
    exact ⟨_, _, _, toList_three v, h⟩
  · rintro ⟨a, b, c, rfl, h⟩
    exact ⟨⟨[a, b, c], rfl⟩, rfl, h⟩

theorem exists_rows_four {P : AccountMeta → AccountMeta → AccountMeta → AccountMeta → Prop} :
    (∃ v : List.Vector AccountMeta 4, rowList = v.toList ∧
      P (v.get 0) (v.get 1) (v.get 2) (v.get 3)) ↔
      ∃ a b c d, rowList = [a, b, c, d] ∧ P a b c d := by
  constructor
  · rintro ⟨v, rfl, h⟩
    exact ⟨_, _, _, _, toList_four v, h⟩
  · rintro ⟨a, b, c, d, rfl, h⟩
    exact ⟨⟨[a, b, c, d], rfl⟩, rfl, h⟩

/-- The rows of the instructions that move no money. -/
theorem handle_rows_iff {scheduleId : Bytes 32} :
    (∃ v : List.Vector AccountMeta 2, rowList = v.toList ∧
      IsSchedule p me scheduleId (v.get 0) ∧ IsHandle me (v.get 1)) ↔
      (∃ handle, rowList.map AccountMeta.selector = Rows.handle p me scheduleId handle) ∧
        ∃ row, rowList[1]? = some row ∧ row.isAuthorized = true := by
  rw [@exists_rows_two rowList fun a b => IsSchedule p me scheduleId a ∧ IsHandle me b]
  constructor
  · rintro ⟨a, b, rfl, schedule, signer⟩
    obtain ⟨handle, signed⟩ := isHandle_iff.mp signer
    refine ⟨⟨b.accountId, ?_⟩, b, rfl, signed⟩
    rw [Rows.handle, ← isSchedule_iff.mp schedule, ← handle]
    rfl
  · rintro ⟨⟨handle, laid⟩, row, at_, signed⟩
    simp only [Rows.handle, List.map_eq_cons_iff, List.map_eq_nil_iff] at laid
    obtain ⟨a, _, rfl, schedule, b, _, rfl, signer, rfl⟩ := laid
    obtain rfl := Option.some.inj at_
    exact ⟨a, b, rfl, isSchedule_iff.mpr schedule,
      ⟨signed, congrArg ProgramShardSelector.program signer⟩⟩

/-- The rows of a single creation. -/
theorem create_rows_iff {scheduleId : Bytes 32} {asset : Asset} :
    (∃ v : List.Vector AccountMeta 3, rowList = v.toList ∧
      IsSchedule p me scheduleId (v.get 0) ∧ IsHolding p me scheduleId asset (v.get 1) ∧
        (v.get 2).programAccountId = asset.shardProgram p ∧ (v.get 2).isAuthorized = true) ↔
      (∃ handle, rowList.map AccountMeta.selector = Rows.create p me scheduleId asset handle) ∧
        ∃ row, rowList[2]? = some row ∧ row.isAuthorized = true := by
  rw [@exists_rows_three rowList fun a b c => IsSchedule p me scheduleId a ∧
    IsHolding p me scheduleId asset b ∧ c.programAccountId = asset.shardProgram p ∧
      c.isAuthorized = true]
  constructor
  · rintro ⟨a, b, c, rfl, schedule, holding, shard, signed⟩
    refine ⟨⟨c.accountId, ?_⟩, c, rfl, signed⟩
    rw [Rows.create, ← isSchedule_iff.mp schedule, ← isHolding_iff.mp holding, ← shard]
    rfl
  · rintro ⟨⟨handle, laid⟩, row, at_, signed⟩
    simp only [Rows.create, List.map_eq_cons_iff, List.map_eq_nil_iff] at laid
    obtain ⟨a, _, rfl, schedule, b, _, rfl, holding, c, _, rfl, creator, rfl⟩ := laid
    obtain rfl := Option.some.inj at_
    exact ⟨a, b, c, rfl, isSchedule_iff.mpr schedule, isHolding_iff.mpr holding,
      congrArg ProgramShardSelector.program creator, signed⟩

/-- The rows of a payout. -/
theorem claim_rows_iff {scheduleId : Bytes 32} {batchId : Option (Bytes 32)} {asset : Asset} :
    (∃ v : List.Vector AccountMeta 4, rowList = v.toList ∧
      IsSchedule p me scheduleId (v.get 0) ∧
        IsHolding p me (batchId.getD scheduleId) asset (v.get 1) ∧
          (v.get 2).programAccountId = asset.shardProgram p ∧ IsHandle me (v.get 3)) ↔
      (∃ target handle, rowList.map AccountMeta.selector =
        Rows.claim p me scheduleId batchId asset target handle) ∧
        ∃ row, rowList[3]? = some row ∧ row.isAuthorized = true := by
  rw [@exists_rows_four rowList fun a b c d => IsSchedule p me scheduleId a ∧
    IsHolding p me (batchId.getD scheduleId) asset b ∧
      c.programAccountId = asset.shardProgram p ∧ IsHandle me d]
  constructor
  · rintro ⟨a, b, c, d, rfl, schedule, holding, shard, signer⟩
    obtain ⟨handle, signed⟩ := isHandle_iff.mp signer
    refine ⟨⟨c.accountId, d.accountId, ?_⟩, d, rfl, signed⟩
    rw [Rows.claim, ← isSchedule_iff.mp schedule, ← isHolding_iff.mp holding, ← shard, ← handle]
    rfl
  · rintro ⟨⟨target, handle, laid⟩, row, at_, signed⟩
    simp only [Rows.claim, List.map_eq_cons_iff, List.map_eq_nil_iff] at laid
    obtain ⟨a, _, rfl, schedule, b, _, rfl, holding, c, _, rfl, paid, d, _, rfl, signer, rfl⟩ :=
      laid
    obtain rfl := Option.some.inj at_
    exact ⟨a, b, c, d, rfl, isSchedule_iff.mpr schedule, isHolding_iff.mpr holding,
      congrArg ProgramShardSelector.program paid,
      ⟨signed, congrArg ProgramShardSelector.program signer⟩⟩

/-- The rows of a batch of somebody. -/
theorem checkRows_batch_iff {batchId : Bytes 32} {beneficiaries : List AccountId} {asset : Asset}
    {terms : Terms} :
    checkRows p input (.createScheduleBatch batchId beneficiaries asset terms) = .ok () ↔
      (∃ handle, Laid p input.selfAccountId target handle
        (.createScheduleBatch batchId beneficiaries asset terms)
        (input.accounts.map AccountMeta.selector)) ∧
        (∃ row, input.accounts[1]? = some row ∧ row.isAuthorized = true) ∧ beneficiaries ≠ [] := by
  obtain ⟨me, rowList⟩ := input
  dsimp only [checkRows, Laid]
  constructor
  · intro passed
    split at passed
    · next holding creator members =>
      simp only [bind_eq_ok_iff, expectHolding_eq_ok_iff, expectAssetRow_eq_ok_iff,
        refuseUnless_eq_ok_iff, exists_const] at passed
      obtain ⟨⟨some', same⟩, hholding, shard, signed, few, rest⟩ := passed
      refine ⟨⟨creator.accountId, BitVec.ofNat 32 beneficiaries.length, ?_, ?_⟩,
        ⟨creator, rfl, signed⟩, List.ne_nil_of_length_pos some'⟩
      · rw [BitVec.toNat_ofNat, Nat.mod_eq_of_lt few]
      · rw [List.map_cons, List.map_cons, (checkMembers_eq_ok_iff same).mp rest, Rows.batch,
          ← isHolding_iff.mp hholding, ← shard, BitVec.toNat_ofNat, Nat.mod_eq_of_lt few]
        rfl
    · cases passed
  · rintro ⟨⟨handle, n, count, laid⟩, ⟨row, at_, signed⟩, some'⟩
    rw [Rows.batch, List.cons_append, List.cons_append, List.nil_append] at laid
    obtain ⟨holding, _, rfl, hholding, rest⟩ := List.map_eq_cons_iff.mp laid
    obtain ⟨creator, members, rfl, hcreator, members_laid⟩ := List.map_eq_cons_iff.mp rest
    obtain rfl := Option.some.inj at_
    have same : members.length = beneficiaries.length := by
      rw [← List.length_map AccountMeta.selector, members_laid, List.length_map,
        List.length_range, count]
    rw [count] at members_laid
    simp only [bind_eq_ok_iff, expectHolding_eq_ok_iff, expectAssetRow_eq_ok_iff,
      refuseUnless_eq_ok_iff, exists_const]
    exact ⟨⟨List.length_pos_iff.mpr some', same⟩, isHolding_iff.mpr hholding,
      congrArg ProgramShardSelector.program hcreator, signed, count ▸ n.isLt,
      (checkMembers_eq_ok_iff same).mpr members_laid⟩

/-- Where nothing is paid out the target is free. -/
theorem exists_target_iff {laid signed : Prop} :
    (∃ _ : AccountId, laid) ∧ signed ∧ True ↔ laid ∧ signed := by
  constructor
  · rintro ⟨⟨_, laid⟩, signed, -⟩
    exact ⟨laid, signed⟩
  · rintro ⟨laid, signed⟩
    exact ⟨⟨AccountId.default, laid⟩, signed, trivial⟩

/-- The checks of the instructions that move no money. -/
theorem handleChecks_eq_ok_iff {scheduleId : Bytes 32} :
    (do
      let v ← rows 2 input
      expectSchedule p (v.get 0) input.selfAccountId scheduleId
      expectSignerHandle (v.get 1) input.selfAccountId) = .ok () ↔
      (∃ handle, input.accounts.map AccountMeta.selector =
        Rows.handle p input.selfAccountId scheduleId handle) ∧
        ∃ row, input.accounts[1]? = some row ∧ row.isAuthorized = true := by
  simp only [bind_eq_ok_iff, rows_eq_ok_iff, expectSchedule_eq_ok_iff,
    expectSignerHandle_eq_ok_iff, exists_const]
  exact handle_rows_iff

/-- The checks pass on what the builders lay out, with the signing row authorised, and on
nothing else, except that no batch of nobody passes. -/
theorem checkRows_eq_ok_iff :
    checkRows p input ix = .ok () ↔
      (∃ target handle, Laid p input.selfAccountId target handle ix
        (input.accounts.map AccountMeta.selector)) ∧
        ix.Signed input.accounts ∧ ix.NamesSomebody := by
  cases ix with
  | createSchedule scheduleId beneficiary asset terms =>
    simp only [checkRows, bind_eq_ok_iff, rows_eq_ok_iff, expectSchedule_eq_ok_iff,
      expectHolding_eq_ok_iff, expectAssetRow_eq_ok_iff, refuseUnless_eq_ok_iff, exists_const]
    rw [create_rows_iff]
    exact exists_target_iff.symm
  | createScheduleBatch batchId beneficiaries asset terms =>
    rw [@checkRows_batch_iff p AccountId.default]
    constructor
    · rintro ⟨laid, rest⟩
      exact ⟨⟨AccountId.default, laid⟩, rest⟩
    · rintro ⟨⟨_, laid⟩, rest⟩
      exact ⟨laid, rest⟩
  | claim scheduleId batchId asset amount at_ =>
    simp only [checkRows, bind_eq_ok_iff, rows_eq_ok_iff, expectSchedule_eq_ok_iff,
      expectHolding_eq_ok_iff, expectAssetRow_eq_ok_iff, expectSignerHandle_eq_ok_iff,
      exists_const]
    rw [claim_rows_iff]
    constructor
    · rintro ⟨laid, signed⟩
      exact ⟨laid, signed, trivial⟩
    · rintro ⟨laid, signed, -⟩
      exact ⟨laid, signed⟩
  | cancel scheduleId batchId asset at_ refund =>
    simp only [checkRows, bind_eq_ok_iff, rows_eq_ok_iff, expectSchedule_eq_ok_iff,
      expectHolding_eq_ok_iff, expectAssetRow_eq_ok_iff, expectSignerHandle_eq_ok_iff,
      exists_const]
    rw [claim_rows_iff]
    constructor
    · rintro ⟨laid, signed⟩
      exact ⟨laid, signed, trivial⟩
    · rintro ⟨laid, signed, -⟩
      exact ⟨laid, signed⟩
  | makeNonCancelable scheduleId =>
    exact handleChecks_eq_ok_iff.trans exists_target_iff.symm
  | transferBeneficiary scheduleId newBeneficiary =>
    exact handleChecks_eq_ok_iff.trans exists_target_iff.symm
  | signalMilestone scheduleId index =>
    exact handleChecks_eq_ok_iff.trans exists_target_iff.symm

/-! ### The plan stops at the same checks -/

theorem milestoneVested_ne_row {s : VestingSchedule} (row : e ∈ rowRefusals) :
    milestoneVested s ≠ .error e := by
  intro refused
  obtain ⟨-, rfl⟩ | ⟨-, rest⟩ := ensure_bind_eq_error_iff.mp refused
  · exact absurd row (by decide)
  · dsimp only at rest
    split at rest
    · cases rest
    · cases rest
      exact absurd row (by decide)

theorem rebuild_ne_row {s : VestingSchedule} (row : e ∈ rowRefusals) : rebuild s ≠ .error e := by
  intro refused
  rw [rebuild, bind_eq_error_iff] at refused
  obtain kind | ⟨built, -, rest⟩ := refused
  · unfold builtByKind at kind
    split_ifs at kind
    cases kind
    exact absurd row (by decide)
  · split at rest
    · cases rest
    · cases rest
      exact absurd row (by decide)

theorem checkKind_ne_row {s : VestingSchedule} (row : e ∈ rowRefusals) :
    checkKind s ≠ .error e := by
  intro refused
  unfold checkKind at refused
  split at refused
  · obtain vested | ⟨_, -, positive⟩ := bind_eq_error_iff.mp refused
    · exact milestoneVested_ne_row row vested
    · obtain ⟨-, rfl⟩ := ensure_eq_error_iff.mp positive
      exact absurd row (by decide)
  · obtain ⟨-, rfl⟩ | ⟨-, rest⟩ := ensure_bind_eq_error_iff.mp refused
    · exact absurd row (by decide)
    · obtain rebuilt | ⟨_, -, last⟩ := bind_eq_error_iff.mp rest
      · exact rebuild_ne_row row rebuilt
      · cases last

/-- What a creation refuses of its terms is not what a row check refuses. -/
theorem newState_ne_row {creator escrow who : AccountId} {asset : Asset} {terms : Terms}
    (row : e ∈ rowRefusals) : newState creator escrow who asset terms ≠ .error e := by
  intro refused
  obtain kind | ⟨_, -, rest⟩ := bind_eq_error_iff.mp refused
  · exact checkKind_ne_row row kind
  · obtain ⟨-, rfl⟩ | ⟨-, last⟩ := ensure_bind_eq_error_iff.mp rest
    · exact absurd row (by decide)
    · cases last

theorem planMember_eq_error {batchId : Bytes 32} {holding creator : AccountMeta} {asset : Asset}
    {terms : Terms} {member : (AccountMeta × AccountId) × ℕ} (row : e ∈ rowRefusals)
    (h : planMember p me batchId holding creator asset terms member = .error e) :
    checkMember p me batchId member = .error e :=
  error_of_bind h fun _ => fun rest =>
    newState_ne_row row (error_of_bind rest fun _ last => by cases last)

theorem checkMember_of_planMember {batchId : Bytes 32} {holding creator : AccountMeta}
    {asset : Asset} {terms : Terms} {member : (AccountMeta × AccountId) × ℕ}
    {planned : AccountMeta × Effect}
    (h : planMember p me batchId holding creator asset terms member = .ok planned) :
    checkMember p me batchId member = .ok () := by
  obtain ⟨_, checked, -⟩ := bind_eq_ok_iff.mp h
  exact checked

/-- Where the plan refuses for a row, its row checks do. -/
theorem checkRows_eq_error (h : plan p input ix = .error e) (row : e ∈ rowRefusals) :
    checkRows p input ix = .error e := by
  cases ix with
  | createSchedule scheduleId beneficiary asset terms =>
    refine bind_error_mono h fun v h => bind_error_mono h fun _ h => bind_error_mono h fun _ h =>
      bind_error_mono h fun _ h => error_of_bind h fun _ rest => ?_
    exact newState_ne_row row (error_of_bind rest fun _ last => by cases last)
  | createScheduleBatch batchId beneficiaries asset terms =>
    obtain ⟨me, _ | ⟨holding, _ | ⟨creator, members⟩⟩⟩ := input
    · obtain rfl := Except.error.inj h
      rfl
    · obtain rfl := Except.error.inj h
      rfl
    · refine bind_error_mono h fun _ h => bind_error_mono h fun _ h => bind_error_mono h fun _ h =>
        bind_error_mono h fun _ h => bind_error_mono h fun _ h => ?_
      obtain sum | ⟨sum, -, members⟩ := bind_eq_error_iff.mp h
      · obtain ⟨-, rfl⟩ := okOr_eq_error_iff.mp sum
        exact absurd row (by decide)
      · exact forM_eq_error_of_mapM (fun _ _ => checkMember_of_planMember)
          (fun _ => planMember_eq_error row) (error_of_bind members fun _ last => by cases last)
  | claim scheduleId batchId asset amount at_ =>
    refine bind_error_mono h fun v h => bind_error_mono h fun _ h => bind_error_mono h fun _ h =>
      bind_error_mono h fun _ h => error_of_bind h fun _ rest => ?_
    obtain ⟨-, rfl⟩ | ⟨-, last⟩ := ensure_bind_eq_error_iff.mp rest
    · exact absurd row (by decide)
    · cases last
  | cancel scheduleId batchId asset at_ refund =>
    refine bind_error_mono h fun v h => bind_error_mono h fun _ h => bind_error_mono h fun _ h =>
      bind_error_mono h fun _ h => error_of_bind h fun _ rest => ?_
    obtain until_ | ⟨_, -, last⟩ := bind_eq_error_iff.mp rest
    · obtain ⟨-, rfl⟩ := okOr_eq_error_iff.mp until_
      exact absurd row (by decide)
    · cases last
  | makeNonCancelable scheduleId =>
    exact bind_error_mono h fun v h => bind_error_mono h fun _ h =>
      error_of_bind h fun _ last => by cases last
  | transferBeneficiary scheduleId newBeneficiary =>
    exact bind_error_mono h fun v h => bind_error_mono h fun _ h =>
      error_of_bind h fun _ last => by cases last
  | signalMilestone scheduleId index =>
    exact bind_error_mono h fun v h => bind_error_mono h fun _ h =>
      error_of_bind h fun _ last => by cases last

/-- What is planned has passed the row checks. -/
theorem checkRows_of_planned (h : Planned p me rowList ix pl) :
    checkRows p ⟨me, rowList⟩ ix = .ok () := by
  cases h with
  | createSchedule hschedule hholding hcreator signed hstate =>
    simp only [checkRows, bind_eq_ok_iff, rows_eq_ok_iff, expectSchedule_eq_ok_iff,
      expectHolding_eq_ok_iff, expectAssetRow_eq_ok_iff, refuseUnless_eq_ok_iff, exists_const]
    exact ⟨⟨[_, _, _], rfl⟩, rfl, hschedule, hholding, hcreator, signed⟩
  | createScheduleBatch hlength hholding hcreator signed few hsum heffects =>
    simp only [checkRows, bind_eq_ok_iff, expectHolding_eq_ok_iff, expectAssetRow_eq_ok_iff,
      refuseUnless_eq_ok_iff, exists_const]
    refine ⟨hlength, hholding, hcreator, signed, few, forM_eq_ok_iff.mpr fun member mem => ?_⟩
    obtain ⟨planned, -, answer⟩ := exists_mem_of_mapM heffects mem
    exact checkMember_of_planMember answer
  | claim custody positive =>
    simp only [checkRows, bind_eq_ok_iff, rows_eq_ok_iff, expectSchedule_eq_ok_iff,
      expectHolding_eq_ok_iff, expectAssetRow_eq_ok_iff, expectSignerHandle_eq_ok_iff,
      exists_const]
    exact ⟨⟨[_, _, _, _], rfl⟩, rfl, custody.schedule, custody.holding, custody.target,
      custody.signer⟩
  | cancel custody fits =>
    simp only [checkRows, bind_eq_ok_iff, rows_eq_ok_iff, expectSchedule_eq_ok_iff,
      expectHolding_eq_ok_iff, expectAssetRow_eq_ok_iff, expectSignerHandle_eq_ok_iff,
      exists_const]
    exact ⟨⟨[_, _, _, _], rfl⟩, rfl, custody.schedule, custody.holding, custody.target,
      custody.signer⟩
  | makeNonCancelable hschedule handle =>
    simp only [checkRows, bind_eq_ok_iff, rows_eq_ok_iff, expectSchedule_eq_ok_iff,
      expectSignerHandle_eq_ok_iff, exists_const]
    exact ⟨⟨[_, _], rfl⟩, rfl, hschedule, handle⟩
  | transferBeneficiary hschedule handle =>
    simp only [checkRows, bind_eq_ok_iff, rows_eq_ok_iff, expectSchedule_eq_ok_iff,
      expectSignerHandle_eq_ok_iff, exists_const]
    exact ⟨⟨[_, _], rfl⟩, rfl, hschedule, handle⟩
  | signalMilestone hschedule handle =>
    simp only [checkRows, bind_eq_ok_iff, rows_eq_ok_iff, expectSchedule_eq_ok_iff,
      expectSignerHandle_eq_ok_iff, exists_const]
    exact ⟨⟨[_, _], rfl⟩, rfl, hschedule, handle⟩

/-- What is planned has passed the other checks. -/
theorem sound_of_planned (h : Planned p me rowList ix pl) : ix.Sound := by
  cases h with
  | createSchedule hschedule hholding hcreator signed hstate =>
    exact (newState_eq_ok_iff.mp hstate).1
  | @createScheduleBatch holding creator members batchId beneficiaries asset terms sum effects
      hlength hholding hcreator signed few hsum heffects =>
    -- the first member is checked on the terms that all of them share
    have member : ((members[0], beneficiaries[0]), 0) ∈ (members.zip beneficiaries).zipIdx := by
      rw [List.mem_zipIdx_iff_getElem?, List.getElem?_zip_eq_some]
      exact ⟨List.getElem?_eq_getElem (by omega), List.getElem?_eq_getElem (by omega)⟩
    obtain ⟨planned, -, answer⟩ := exists_mem_of_mapM heffects member
    obtain ⟨_, -, rest⟩ := bind_eq_ok_iff.mp answer
    obtain ⟨state, built, -⟩ := bind_eq_ok_iff.mp rest
    exact ⟨(newState_eq_ok_iff.mp built).1, hsum ▸ sum.isLt⟩
  | claim custody positive => exact positive
  | cancel custody fits => exact fits
  | makeNonCancelable hschedule handle => trivial
  | transferBeneficiary hschedule handle => trivial
  | signalMilestone hschedule handle => trivial

/-- The members of a batch with sound terms are planned once their rows pass. -/
theorem exists_planMembers {batchId : Bytes 32} {holding creator : AccountMeta} {asset : Asset}
    {terms : Terms} {members : List ((AccountMeta × AccountId) × ℕ)} (sound : terms.Sound)
    (passed : forM members (checkMember p me batchId) = .ok ()) :
    ∃ effects, members.mapM (planMember p me batchId holding creator asset terms) =
      .ok effects := by
  refine exists_mapM_eq_ok fun ⟨⟨row, who⟩, i⟩ mem => ?_
  have hrow := checkMember_eq_ok_iff.mp (forM_eq_ok_iff.mp passed _ mem)
  refine ⟨(row, .create (initialState creator.accountId holding.accountId who asset terms)), ?_⟩
  simp only [planMember, bind_eq_ok_iff, refuseUnless_eq_ok_iff]
  exact ⟨(), ⟨hrow.account, hrow.program⟩, _, newState_eq_ok_iff.mpr ⟨sound, rfl⟩, rfl⟩

/-- Rows that pass are planned when the other checks pass. -/
theorem exists_planned (passed : checkRows p ⟨me, rowList⟩ ix = .ok ()) (sound : ix.Sound) :
    ∃ pl, Planned p me rowList ix pl := by
  cases ix with
  | createSchedule scheduleId beneficiary asset terms =>
    simp only [checkRows, bind_eq_ok_iff, rows_eq_ok_iff, expectSchedule_eq_ok_iff,
      expectHolding_eq_ok_iff, expectAssetRow_eq_ok_iff, refuseUnless_eq_ok_iff,
      exists_const] at passed
    obtain ⟨v, rfl, hschedule, hholding, hcreator, signed⟩ := passed
    rw [toList_three]
    exact ⟨_, .createSchedule hschedule hholding hcreator signed
      (newState_eq_ok_iff.mpr ⟨sound, rfl⟩)⟩
  | createScheduleBatch batchId beneficiaries asset terms =>
    obtain _ | ⟨holding, _ | ⟨creator, members⟩⟩ := rowList
    · cases passed
    · cases passed
    · simp only [checkRows, bind_eq_ok_iff, expectHolding_eq_ok_iff, expectAssetRow_eq_ok_iff,
        refuseUnless_eq_ok_iff, exists_const] at passed
      obtain ⟨hlength, hholding, hcreator, signed, few, checked⟩ := passed
      obtain ⟨terms_sound, fits⟩ := sound
      obtain ⟨effects, heffects⟩ := exists_planMembers terms_sound checked
      have hsum : terms.total.toNat * beneficiaries.length =
          (BitVec.ofNat 128 (terms.total.toNat * beneficiaries.length)).toNat := by
        rw [BitVec.toNat_ofNat, Nat.mod_eq_of_lt fits]
      exact ⟨_, .createScheduleBatch hlength hholding hcreator signed few hsum heffects⟩
  | claim scheduleId batchId asset amount at_ =>
    simp only [checkRows, bind_eq_ok_iff, rows_eq_ok_iff, expectSchedule_eq_ok_iff,
      expectHolding_eq_ok_iff, expectAssetRow_eq_ok_iff, expectSignerHandle_eq_ok_iff,
      exists_const] at passed
    obtain ⟨v, rfl, hschedule, hholding, htarget, hsigner⟩ := passed
    rw [toList_four]
    exact ⟨_, .claim ⟨hschedule, hholding, htarget, hsigner⟩ sound⟩
  | cancel scheduleId batchId asset at_ refund =>
    simp only [checkRows, bind_eq_ok_iff, rows_eq_ok_iff, expectSchedule_eq_ok_iff,
      expectHolding_eq_ok_iff, expectAssetRow_eq_ok_iff, expectSignerHandle_eq_ok_iff,
      exists_const] at passed
    obtain ⟨v, rfl, hschedule, hholding, htarget, hsigner⟩ := passed
    rw [toList_four]
    exact ⟨_, .cancel ⟨hschedule, hholding, htarget, hsigner⟩ sound⟩
  | makeNonCancelable scheduleId =>
    simp only [checkRows, bind_eq_ok_iff, rows_eq_ok_iff, expectSchedule_eq_ok_iff,
      expectSignerHandle_eq_ok_iff, exists_const] at passed
    obtain ⟨v, rfl, hschedule, hsigner⟩ := passed
    rw [toList_two]
    exact ⟨_, .makeNonCancelable hschedule hsigner⟩
  | transferBeneficiary scheduleId newBeneficiary =>
    simp only [checkRows, bind_eq_ok_iff, rows_eq_ok_iff, expectSchedule_eq_ok_iff,
      expectSignerHandle_eq_ok_iff, exists_const] at passed
    obtain ⟨v, rfl, hschedule, hsigner⟩ := passed
    rw [toList_two]
    exact ⟨_, .transferBeneficiary hschedule hsigner⟩
  | signalMilestone scheduleId index =>
    simp only [checkRows, bind_eq_ok_iff, rows_eq_ok_iff, expectSchedule_eq_ok_iff,
      expectSignerHandle_eq_ok_iff, exists_const] at passed
    obtain ⟨v, rfl, hschedule, hsigner⟩ := passed
    rw [toList_two]
    exact ⟨_, .signalMilestone hschedule hsigner⟩

/-- The plan goes on exactly where its row checks and its other checks pass. -/
theorem exists_plan_iff :
    (∃ pl, plan p input ix = .ok pl) ↔ checkRows p input ix = .ok () ∧ ix.Sound := by
  constructor
  · rintro ⟨pl, accepted⟩
    have planned := planned_of_plan_eq_ok accepted
    exact ⟨checkRows_of_planned planned, sound_of_planned planned⟩
  · rintro ⟨passed, sound⟩
    obtain ⟨pl, planned⟩ := exists_planned passed sound
    exact ⟨pl, plan_eq_ok_of_planned planned⟩

/-! ### What a plan does with the rows -/

theorem transferCall_eq {asset : Asset} {source target : AccountMeta} {amount : U128}
    (hsource : source.programAccountId = asset.shardProgram p)
    (htarget : target.programAccountId = asset.shardProgram p) :
    transferCall p asset source target amount =
      between p asset source.accountId target.accountId amount [] := by
  cases asset with
  | native =>
    simp only [transferCall, between, AccountMeta.selector, hsource, htarget]
    rfl
  | token definitionId =>
    simp only [transferCall, between, AccountMeta.selector, hsource, htarget]
    rfl

theorem payout_eq {asset : Asset} {holding target : AccountMeta} {seedId : Bytes 32}
    {amount : U128} (hholding : holding.programAccountId = asset.shardProgram p)
    (htarget : target.programAccountId = asset.shardProgram p) :
    payout p asset holding seedId target amount =
      between p asset holding.accountId target.accountId amount [holdingSeed p seedId] := by
  cases asset with
  | native => rfl
  | token definitionId =>
    rw [payout, transferCall_eq hholding htarget]
    rfl

/-- A payout, as the rows have it. -/
theorem Custody.payout_eq {scheduleId seedId : Bytes 32} {asset : Asset}
    {schedule holding target signer : AccountMeta} {amount : U128}
    (custody : Custody p me scheduleId seedId asset schedule holding target signer) :
    payout p asset holding seedId target amount =
      between p asset (holdingAccount p me seedId) target.accountId amount
        [holdingSeed p seedId] := by
  rw [Vesting.payout_eq custody.holding.program custody.target, custody.holding.account]

theorem planMember_eq_ok {batchId : Bytes 32} {holding creator : AccountMeta} {asset : Asset}
    {terms : Terms} {member : (AccountMeta × AccountId) × ℕ} {planned : AccountMeta × Effect}
    (h : planMember p me batchId holding creator asset terms member = .ok planned) :
    planned = (member.1.1,
      .create (initialState creator.accountId holding.accountId member.1.2 asset terms)) := by
  obtain ⟨⟨row, who⟩, i⟩ := member
  obtain ⟨_, -, rest⟩ := bind_eq_ok_iff.mp h
  obtain ⟨state, built, last⟩ := bind_eq_ok_iff.mp rest
  rw [← Except.ok.inj last, (newState_eq_ok built).1]

/-- The effects of a planned batch. -/
theorem effects_of_members {batchId : Bytes 32} {holding creator : AccountMeta} {asset : Asset}
    {terms : Terms} {members : List AccountMeta} {beneficiaries : List AccountId}
    {effects : List (AccountMeta × Effect)} (same : members.length = beneficiaries.length)
    (hholding : IsHolding p me batchId asset holding)
    (h : (members.zip beneficiaries).zipIdx.mapM
      (planMember p me batchId holding creator asset terms) = .ok effects) :
    effects.map (fun planned => (planned.1.selector, planned.2)) =
      carried p me target creator.accountId
        (.createScheduleBatch batchId beneficiaries asset terms) := by
  have passed : forM (members.zip beneficiaries).zipIdx (checkMember p me batchId) = .ok () :=
    forM_eq_ok_iff.mpr fun member mem => by
      obtain ⟨planned, -, answer⟩ := exists_mem_of_mapM h mem
      exact checkMember_of_planMember answer
  have laid := (checkMembers_eq_ok_iff same).mp passed
  rw [eq_map_of_mapM h fun _ _ _ answer => planMember_eq_ok answer, carried, List.map_map]
  apply List.ext_getElem
  · simp [same]
  · intro i within _
    simp only [List.length_map, List.length_zipIdx, List.length_zip, lt_min_iff] at within
    have row : members[i].selector =
        ⟨scheduleAccount p me (batchScheduleId p batchId (BitVec.ofNat 32 i)), me⟩ := by
      rw [← List.getElem_map AccountMeta.selector, List.getElem_of_eq laid, List.getElem_map,
        List.getElem_range]
      rw [List.length_map]
      omega
    simp only [List.getElem_map, List.getElem_zipIdx, List.getElem_zip, Function.comp, row,
      hholding.account, Nat.zero_add]

theorem second_eq {α : Type} {a b a' b' : α} {l l' : List α}
    (h : a :: b :: l = a' :: b' :: l') : b = b' :=
  (List.cons.inj (List.cons.inj h).2).1

theorem third_eq {α : Type} {a b c a' b' c' : α} {l l' : List α}
    (h : a :: b :: c :: l = a' :: b' :: c' :: l') : c = c' :=
  second_eq (List.cons.inj h).2

theorem fourth_eq {α : Type} {a b c d a' b' c' d' : α} {l l' : List α}
    (h : a :: b :: c :: d :: l = a' :: b' :: c' :: d' :: l') : d = d' :=
  third_eq (List.cons.inj h).2

/-- What a builder laid out is planned to act on those rows, with those accounts, and to move
the amount of the instruction between them. -/
theorem planned_laid (planned : Planned p me rowList ix pl)
    (laid : Laid p me target handle ix (rowList.map AccountMeta.selector)) :
    pl.effects.map (fun planned => (planned.1.selector, planned.2)) =
        carried p me target handle ix ∧
      pl.calls = moved p me target handle ix ∧ ix.Movable := by
  cases planned with
  | @createSchedule schedule holding creator scheduleId beneficiary asset terms state hschedule
      hholding hcreator signed hstate =>
    obtain rfl : creator.accountId = handle :=
      congrArg ProgramShardSelector.account (third_eq laid)
    refine ⟨?_, ?_, trivial⟩
    · rw [carried, (newState_eq_ok hstate).1, hholding.account, ← isSchedule_iff.mp hschedule]
      rfl
    · rw [moved, transferCall_eq hcreator hholding.program, hholding.account]
  | @createScheduleBatch holding creator members batchId beneficiaries asset terms sum effects
      hlength hholding hcreator signed few hsum heffects =>
    obtain ⟨n, -, laid⟩ := laid
    obtain rfl : creator.accountId = handle :=
      congrArg ProgramShardSelector.account (second_eq laid)
    refine ⟨effects_of_members hlength.2 hholding heffects, ?_, ?_⟩
    · rw [moved, transferCall_eq hcreator hholding.program, hholding.account, hsum,
        BitVec.ofNat_toNat, BitVec.setWidth_eq]
    · rw [Instruction.Movable, hsum]
      exact sum.isLt
  | @claim schedule holding destination beneficiary scheduleId batchId asset amount at_ custody
      positive =>
    obtain rfl : destination.accountId = target :=
      congrArg ProgramShardSelector.account (third_eq laid)
    obtain rfl : beneficiary.accountId = handle :=
      congrArg ProgramShardSelector.account (fourth_eq laid)
    refine ⟨?_, ?_, trivial⟩
    · rw [carried, ← custody.holding.account, ← isSchedule_iff.mp custody.schedule]
      rfl
    · rw [moved, custody.payout_eq]
  | @cancel schedule holding refundRow authority scheduleId batchId asset at_ refund custody
      fits =>
    obtain rfl : refundRow.accountId = target :=
      congrArg ProgramShardSelector.account (third_eq laid)
    obtain rfl : authority.accountId = handle :=
      congrArg ProgramShardSelector.account (fourth_eq laid)
    refine ⟨?_, ?_, trivial⟩
    · rw [carried, ← custody.holding.account, ← isSchedule_iff.mp custody.schedule]
      rfl
    · rw [moved, custody.payout_eq]
  | @makeNonCancelable schedule creator scheduleId hschedule hhandle =>
    obtain rfl : creator.accountId = handle :=
      congrArg ProgramShardSelector.account (second_eq laid)
    refine ⟨?_, rfl, trivial⟩
    rw [carried, ← isSchedule_iff.mp hschedule]
    rfl
  | @transferBeneficiary schedule beneficiary scheduleId newBeneficiary hschedule hhandle =>
    obtain rfl : beneficiary.accountId = handle :=
      congrArg ProgramShardSelector.account (second_eq laid)
    refine ⟨?_, rfl, trivial⟩
    rw [carried, ← isSchedule_iff.mp hschedule]
    rfl
  | @signalMilestone schedule authority scheduleId index hschedule hhandle =>
    obtain rfl : authority.accountId = handle :=
      congrArg ProgramShardSelector.account (second_eq laid)
    refine ⟨?_, rfl, trivial⟩
    rw [carried, ← isSchedule_iff.mp hschedule]
    rfl

/-! ### The result -/

/-- For every instruction and every list of rows: the plan goes on exactly where the rows are
what the matching builder returns for the ids and the asset, for some choice of the free
accounts and with the signing row authorised, a batch names somebody, and the checks that do not
look at rows pass. Its row checks alone pass on these rows and on nothing else; it refuses for a
row only where they do, with their refusal, and always refuses where they do. And where it plans,
its effects and its calls are those of the rows laid out. -/
theorem rows_agree (p : Platform) (input : PlanInput) (ix : Instruction) :
    ((∃ pl, plan p input ix = .ok pl) ↔
        (∃ target handle, Laid p input.selfAccountId target handle ix
          (input.accounts.map AccountMeta.selector)) ∧
          ix.Signed input.accounts ∧ ix.NamesSomebody ∧ ix.Sound) ∧
      (checkRows p input ix = .ok () ↔
        (∃ target handle, Laid p input.selfAccountId target handle ix
          (input.accounts.map AccountMeta.selector)) ∧
          ix.Signed input.accounts ∧ ix.NamesSomebody) ∧
      (∀ e ∈ rowRefusals, plan p input ix = .error e → checkRows p input ix = .error e) ∧
      (∀ e, checkRows p input ix = .error e → ∃ why, plan p input ix = .error why) ∧
      ∀ pl, plan p input ix = .ok pl → ∀ target handle,
        Laid p input.selfAccountId target handle ix (input.accounts.map AccountMeta.selector) →
          pl.effects.map (fun planned => (planned.1.selector, planned.2)) =
              carried p input.selfAccountId target handle ix ∧
            pl.calls = moved p input.selfAccountId target handle ix ∧ ix.Movable := by
  refine ⟨?_, checkRows_eq_ok_iff, fun e row refused => checkRows_eq_error refused row,
    fun e refused => exists_error_of_ne_ok fun pl accepted => ?_,
    fun pl accepted target handle laid => planned_laid (planned_of_plan_eq_ok accepted) laid⟩
  · rw [exists_plan_iff, checkRows_eq_ok_iff, and_assoc, and_assoc]
  · have passed := checkRows_of_planned (planned_of_plan_eq_ok accepted)
    rw [refused] at passed
    cases passed

/-- The one layout the plan does not take: a batch of nobody, as its builder returns it and
signed by its creator, is refused for its rows. -/
theorem empty_batch_refused :
    let ix := Instruction.createScheduleBatch Sample.batchId [] .native Sample.terms
    let input : PlanInput := ⟨Sample.deployment.me, signedBy [Sample.account 1]
      (Rows.batch Sample.deployment.toPlatform Sample.deployment.me Sample.batchId 0 .native
        (Sample.account 1))⟩
    (plan Sample.deployment.toPlatform input ix =
        .error (.refused E_BATCH "one schedule row per beneficiary, at least one") ∧
      ¬ (checkRows Sample.deployment.toPlatform input ix = .ok () ↔
        (∃ target handle, Laid Sample.deployment.toPlatform input.selfAccountId target handle ix
          (input.accounts.map AccountMeta.selector)) ∧ ix.Signed input.accounts)) := by
  refine ⟨rfl, fun agree => ?_⟩
  have passed := agree.mpr
    ⟨⟨Sample.account 1, Sample.account 1, 0, rfl, rfl⟩, _, rfl, by decide⟩
  cases passed

end Vesting

end Antumbra
