/-
# When a planned transaction lands

The rows a client lays out, read back from the list; what each act asks of the record, in
numbers; and the two shapes of a plan: an act with a payment out of an escrow, which never
fails for lack of funds, and creations with their funding. For each shape, exactly when it
lands and what it leaves.
-/

import Antumbra.Vesting.Acceptance
import Antumbra.Vesting.Rows

namespace Antumbra

open Antumbra.Math

namespace Vesting

variable {d : Deployment} {w w' : World}
  {s s' : VestingSchedule} {rowList : List AccountMeta} {ix : Instruction} {pl : Plan}
  {row : AccountMeta} {effect : Effect} {source target handle : AccountId} {asset : Asset}
  {scheduleId batchId : Bytes 32} {seed : Option (Bytes 32)}
  {shard shard' : AccountId → List U8} {news : List (AccountId × VestingSchedule)}

/-! ### Rows laid out and signed -/

/-- The rows of a single creation. -/
theorem create_laid_iff :
    (rowList.map AccountMeta.selector = Rows.create d.toPlatform d.me scheduleId asset handle ∧
        ∃ row, rowList[2]? = some row ∧ row.isAuthorized = true) ↔
      ∃ schedule holding creator, rowList = [schedule, holding, creator] ∧
        IsSchedule d.toPlatform d.me scheduleId schedule ∧
          IsHolding d.toPlatform d.me scheduleId asset holding ∧
            creator.programAccountId = asset.shardProgram d.toPlatform ∧
              creator.isAuthorized = true ∧ creator.accountId = handle := by
  constructor
  · rintro ⟨laid, row, at_, signed⟩
    simp only [Rows.create, List.map_eq_cons_iff, List.map_eq_nil_iff] at laid
    obtain ⟨a, _, rfl, schedule, b, _, rfl, holding, c, _, rfl, creator, rfl⟩ := laid
    obtain rfl := Option.some.inj at_
    exact ⟨a, b, c, rfl, isSchedule_iff.mpr schedule, isHolding_iff.mpr holding,
      congrArg ProgramShardSelector.program creator, signed,
      congrArg ProgramShardSelector.account creator⟩
  · rintro ⟨a, b, c, rfl, schedule, holding, shard, signed, rfl⟩
    refine ⟨?_, c, rfl, signed⟩
    rw [Rows.create, ← isSchedule_iff.mp schedule, ← isHolding_iff.mp holding, ← shard]
    rfl

/-- The rows of a batch. -/
theorem batch_laid_iff {beneficiaries : List AccountId} :
    ((∃ n : U32, n.toNat = beneficiaries.length ∧
        rowList.map AccountMeta.selector = Rows.batch d.toPlatform d.me batchId n asset handle) ∧
        ∃ row, rowList[1]? = some row ∧ row.isAuthorized = true) ↔
      ∃ holding creator members, rowList = holding :: creator :: members ∧
        IsHolding d.toPlatform d.me batchId asset holding ∧
          creator.programAccountId = asset.shardProgram d.toPlatform ∧
            creator.isAuthorized = true ∧ creator.accountId = handle ∧
              beneficiaries.length < 2 ^ 32 ∧ members.length = beneficiaries.length ∧
                forM (members.zip beneficiaries).zipIdx
                  (checkMember d.toPlatform d.me batchId) = .ok () := by
  constructor
  · rintro ⟨⟨n, count, laid⟩, row, at_, signed⟩
    rw [Rows.batch, List.cons_append, List.cons_append, List.nil_append] at laid
    obtain ⟨holding, _, rfl, hholding, rest⟩ := List.map_eq_cons_iff.mp laid
    obtain ⟨creator, members, rfl, hcreator, members_laid⟩ := List.map_eq_cons_iff.mp rest
    obtain rfl := Option.some.inj at_
    have same : members.length = beneficiaries.length := by
      rw [← List.length_map AccountMeta.selector, members_laid, List.length_map,
        List.length_range, count]
    rw [count] at members_laid
    exact ⟨holding, creator, members, rfl, isHolding_iff.mpr hholding,
      congrArg ProgramShardSelector.program hcreator, signed,
      congrArg ProgramShardSelector.account hcreator, count ▸ n.isLt, same,
      (checkMembers_eq_ok_iff same).mpr members_laid⟩
  · rintro ⟨holding, creator, members, rfl, hholding, shard, signed, rfl, few, same, passed⟩
    have count : (BitVec.ofNat 32 beneficiaries.length).toNat = beneficiaries.length := by
      rw [BitVec.toNat_ofNat, Nat.mod_eq_of_lt few]
    refine ⟨⟨BitVec.ofNat 32 beneficiaries.length, count, ?_⟩, creator, rfl, signed⟩
    rw [List.map_cons, List.map_cons, (checkMembers_eq_ok_iff same).mp passed, Rows.batch,
      ← isHolding_iff.mp hholding, ← shard, count]
    rfl

/-- The rows of a payout. -/
theorem claim_laid_iff :
    (rowList.map AccountMeta.selector =
        Rows.claim d.toPlatform d.me scheduleId seed asset target handle ∧
        ∃ row, rowList[3]? = some row ∧ row.isAuthorized = true) ↔
      ∃ schedule holding paid signer, rowList = [schedule, holding, paid, signer] ∧
        Custody d.toPlatform d.me scheduleId (seed.getD scheduleId) asset schedule holding paid
            signer ∧
          paid.accountId = target ∧ signer.accountId = handle := by
  constructor
  · rintro ⟨laid, row, at_, signed⟩
    simp only [Rows.claim, List.map_eq_cons_iff, List.map_eq_nil_iff] at laid
    obtain ⟨a, _, rfl, schedule, b, _, rfl, holding, c, _, rfl, paid, e, _, rfl, signer, rfl⟩ :=
      laid
    obtain rfl := Option.some.inj at_
    exact ⟨a, b, c, e, rfl, ⟨isSchedule_iff.mpr schedule, isHolding_iff.mpr holding,
      congrArg ProgramShardSelector.program paid,
      ⟨signed, congrArg ProgramShardSelector.program signer⟩⟩,
      congrArg ProgramShardSelector.account paid, congrArg ProgramShardSelector.account signer⟩
  · rintro ⟨a, b, c, e, rfl, custody, rfl, rfl⟩
    refine ⟨?_, e, rfl, custody.signer.signed⟩
    rw [Rows.claim, ← isSchedule_iff.mp custody.schedule, ← isHolding_iff.mp custody.holding,
      ← custody.target, ← (isHandle_iff.mp custody.signer).1]
    rfl

/-- The rows of the instructions that move no money. -/
theorem handle_laid_iff :
    (rowList.map AccountMeta.selector = Rows.handle d.toPlatform d.me scheduleId handle ∧
        ∃ row, rowList[1]? = some row ∧ row.isAuthorized = true) ↔
      ∃ schedule signer, rowList = [schedule, signer] ∧
        IsSchedule d.toPlatform d.me scheduleId schedule ∧ IsHandle d.me signer ∧
          signer.accountId = handle := by
  constructor
  · rintro ⟨laid, row, at_, signed⟩
    simp only [Rows.handle, List.map_eq_cons_iff, List.map_eq_nil_iff] at laid
    obtain ⟨a, _, rfl, schedule, b, _, rfl, signer, rfl⟩ := laid
    obtain rfl := Option.some.inj at_
    exact ⟨a, b, rfl, isSchedule_iff.mpr schedule,
      ⟨signed, congrArg ProgramShardSelector.program signer⟩,
      congrArg ProgramShardSelector.account signer⟩
  · rintro ⟨a, b, rfl, schedule, signer, rfl⟩
    refine ⟨?_, b, rfl, signer.signed⟩
    rw [Rows.handle, ← isSchedule_iff.mp schedule, ← (isHandle_iff.mp signer).1]
    rfl

/-! ### Acts -/

theorem acts_claim_rule (valid : Valid s) {holding : AccountId} {amount : U128} {at_ : U64}
    (positive : 0 < amount) :
    Acts (.claim handle holding asset amount at_) s s' ↔ s.beneficiary = handle ∧
      s.escrow = holding ∧ asset.code = (s.asset, s.tokenDefinition) ∧
        s.claimed.toNat + amount.toNat ≤ s.accrued at_.toNat ∧
          s' = { s with claimed := s.claimed + amount, lastSeen := max s.lastSeen at_ } := by
  rw [BitVec.lt_def, toNat_zero] at positive
  constructor
  · intro acts
    cases acts with
    | claim hbeneficiary hescrow hasset howed hamount fits =>
      rw [claimable_eq_ok_iff valid.wellFormed] at howed
      rw [BitVec.le_def] at hamount
      exact ⟨hbeneficiary, hescrow, hasset, by omega, rfl⟩
  · rintro ⟨hbeneficiary, hescrow, hasset, earned, rfl⟩
    obtain ⟨owed, howed⟩ := exists_claimable valid.wellFormed at_
    have value := (claimable_eq_ok_iff valid.wellFormed).mp howed
    have most := valid.wellFormed.accrued_le at_.toNat
    have total := s.total.isLt
    exact .claim hbeneficiary hescrow hasset howed (by rw [BitVec.le_def]; omega) (by omega)

theorem acts_cancel_rule (valid : Valid s) {holding : AccountId} {refund : U128} {at_ : U64} :
    Acts (.cancel handle holding target asset at_ refund) s s' ↔ s.cancelAuthority = handle ∧
      s.cancelable ≠ 0 ∧ s.cancelledAt = 0 ∧ s.refundTo = target ∧ s.escrow = holding ∧
        asset.code = (s.asset, s.tokenDefinition) ∧ s.lastSeen ≤ at_ ∧
          refund.toNat = s.total.toNat - s.accrued at_.toNat ∧
            s' = { s with cancelledAt := max at_ 1, lastSeen := at_ } := by
  constructor
  · intro acts
    cases acts with
    | cancel hauthority hcancelable live hrefundTo hescrow hasset forward hrefund =>
      rw [unvested_eq_ok_iff valid.wellFormed live] at hrefund
      exact ⟨hauthority, hcancelable, live, hrefundTo, hescrow, hasset, forward, hrefund, rfl⟩
  · rintro ⟨hauthority, hcancelable, live, hrefundTo, hescrow, hasset, forward, rest, rfl⟩
    exact .cancel hauthority hcancelable live hrefundTo hescrow hasset forward
      ((unvested_eq_ok_iff valid.wellFormed live).mpr rest)

/-- A milestone record has no more tranches than its word has bits. -/
theorem acts_signal_rule (valid : Valid s) {index : U32} :
    Acts (.signalMilestone handle index) s s' ↔ s.milestoneAuthority = handle ∧ s.kind = 2 ∧
      s.cancelledAt = 0 ∧ index.toNat < s.tranches.toNat ∧
        s.signalled.getLsbD index.toNat = false ∧
          s' = { s with signalled := s.signalled ||| bitAt 64 index.toNat } := by
  constructor
  · intro acts
    cases acts with
    | signalMilestone hauthority hkind live index_lt clear =>
      exact ⟨hauthority, hkind, live, (index_lt_64 index_lt).2, clear, rfl⟩
  · rintro ⟨hauthority, hkind, live, below, clear, rfl⟩
    refine .signalMilestone hauthority hkind live ?_ clear
    cases valid.wellFormed with
    | cliffLinear kind => exact absurd (kind.symm.trans hkind) (by decide)
    | linear kind => exact absurd (kind.symm.trans hkind) (by decide)
    | milestones _ _ _ tranches_le =>
      rw [BitVec.le_def] at tranches_le
      rw [BitVec.lt_def, toNat_min]
      omega

/-- A planned act lands exactly in its window, on a stored record it acts on, and does this. -/
theorem PlansAct.execute_iff (view : PlansAct d rowList pl row effect source target asset)
    (planned : Planned d.toPlatform d.me rowList ix pl) (sound : Sound d w) :
    d.execute w ⟨rowList, ix⟩ = .ok w' ↔ pl.window.all (·.contains w.now) = true ∧
      ∃ s s', w.shard row.accountId = store s ∧ Acts effect s s' ∧
        w' =
          { w with
            shard := Function.update w.shard row.accountId (store s')
            balance := move w.balance (source, asset) (target, asset) effect.paid } := by
  have planned : plan d.toPlatform ⟨d.me, rowList⟩ ix = .ok pl := plan_eq_ok_of_planned planned
  replace view : PlansAct d (Transaction.rows ⟨rowList, ix⟩) pl row effect source target asset :=
    view
  have lands : ∀ {s s'}, pl.window.all (·.contains w.now) = true →
      w.shard row.accountId = store s → Acts effect s s' → d.execute w ⟨rowList, ix⟩ = .ok
        { w with
          shard := Function.update w.shard row.accountId (store s')
          balance := move w.balance (source, asset) (target, asset) effect.paid } := by
    intro s s' window stored acts
    obtain ⟨seed, rfl⟩ := view.escrow
    -- what the act pays is owed by its own record, and the escrow covers that
    have owed := view.paid_le_owedTo acts (sound.valid _ s stored)
    have covered := (sound.solvent seed asset).le row.accountId
    rw [stored] at covered
    exact view.execute_eq_ok planned window stored acts (Nat.le_trans owed covered)
  constructor
  · intro accepted
    have landed := accepted
    rw [view.execute planned] at landed
    simp only [bind_eq_ok_iff, ensure_eq_ok_iff, exists_const] at landed
    obtain ⟨window, shard, run, -⟩ := landed
    obtain ⟨-, ⟨s₀, create, -⟩ | ⟨s, s', stored, acts, -⟩⟩ := Deployment.runEffect_eq_ok_iff.mp run
    · exact absurd create (view.act s₀)
    · exact ⟨window, s, s', stored, acts,
        Except.ok.inj (accepted.symm.trans (lands window stored acts))⟩
  · rintro ⟨window, s, s', stored, acts, rfl⟩
    exact lands window stored acts

/-! ### Creations -/

/-- Creations take effect exactly on free places, no two the same. -/
theorem creations_eq_ok_iff {effects : List (AccountMeta × Effect)}
    (laid : effects.map (fun planned => (planned.1.selector, planned.2)) =
      news.map fun new => (⟨new.1, d.me⟩, .create new.2)) :
    effects.foldlM d.runEffect shard = .ok shard' ↔ (∀ new ∈ news, shard new.1 = []) ∧
      (news.map Prod.fst).Nodup ∧
        shard' =
          news.foldl (fun shard new => Function.update shard new.1 (store new.2)) shard := by
  induction news generalizing effects shard with
  | nil =>
    obtain rfl := List.map_eq_nil_iff.mp laid
    rw [List.foldlM_nil, pure_eq_ok, Except.ok.injEq, @eq_comm _ shard]
    exact ⟨fun same => ⟨fun _ mem => absurd mem List.not_mem_nil, List.nodup_nil, same⟩,
      fun h => h.2.2⟩
  | cons new news ih =>
    obtain ⟨⟨row, effect⟩, rest, rfl, here, later⟩ := List.map_eq_cons_iff.mp laid
    obtain ⟨selector, rfl⟩ := Prod.mk.inj here
    obtain ⟨account, program⟩ := ProgramShardSelector.mk.inj selector
    have first : ∀ {mid}, d.runEffect shard (row, .create new.2) = .ok mid ↔
        shard new.1 = [] ∧ mid = Function.update shard new.1 (store new.2) := by
      intro mid
      rw [Deployment.runEffect_eq_ok_iff, account]
      constructor
      · rintro ⟨-, ⟨s, create, empty, rfl⟩ | ⟨_, _, -, acts, -⟩⟩
        · obtain rfl := Effect.create.inj create
          exact ⟨empty, rfl⟩
        · cases acts
      · rintro ⟨empty, rfl⟩
        exact ⟨program, .inl ⟨new.2, rfl, empty, rfl⟩⟩
    -- after the first creation its own place is taken and the others are as they were
    have others : (∀ n ∈ news, Function.update shard new.1 (store new.2) n.1 = []) ↔
        (∀ n ∈ news, shard n.1 = []) ∧ new.1 ∉ news.map Prod.fst := by
      constructor
      · intro free
        have apart : new.1 ∉ news.map Prod.fst := fun mem => by
          obtain ⟨n, hn, same⟩ := List.mem_map.mp mem
          have empty := free n hn
          rw [same, Function.update_self] at empty
          exact store_ne_nil _ empty
        refine ⟨fun n hn => ?_, apart⟩
        have other : n.1 ≠ new.1 := fun same => apart (same ▸ List.mem_map_of_mem hn)
        rw [← Function.update_of_ne other (store new.2) shard]
        exact free n hn
      · rintro ⟨free, apart⟩ n hn
        have other : n.1 ≠ new.1 := fun same => apart (same ▸ List.mem_map_of_mem hn)
        rw [Function.update_of_ne other]
        exact free n hn
    rw [List.foldlM_cons, bind_eq_ok_iff]
    constructor
    · rintro ⟨mid, run, tail⟩
      obtain ⟨empty, rfl⟩ := first.mp run
      obtain ⟨free, nodup, same⟩ := (ih later).mp tail
      obtain ⟨free, apart⟩ := others.mp free
      exact ⟨List.forall_mem_cons.mpr ⟨empty, free⟩, List.nodup_cons.mpr ⟨apart, nodup⟩, same⟩
    · rintro ⟨free, nodup, same⟩
      obtain ⟨empty, free⟩ := List.forall_mem_cons.mp free
      obtain ⟨apart, nodup⟩ := List.nodup_cons.mp nodup
      exact ⟨_, first.mpr ⟨empty, rfl⟩, (ih later).mpr ⟨others.mpr ⟨free, apart⟩, nodup, same⟩⟩

/-- The funding of a creation is paid exactly by a key whose row is signed and that has the
amount. -/
theorem runCall_transferCall_iff {b b' : Balances} {creator holding : AccountMeta} {amount : U128}
    (mem : creator ∈ rowList) (signed : creator.isAuthorized = true)
    (hcreator : creator.programAccountId = asset.shardProgram d.toPlatform)
    (hholding : holding.programAccountId = asset.shardProgram d.toPlatform) :
    d.runCall rowList b (transferCall d.toPlatform asset creator holding amount) = .ok b' ↔
      d.derived creator.accountId = false ∧ amount.toNat ≤ b (creator.accountId, asset) ∧
        b' = move b (creator.accountId, asset) (holding.accountId, asset) amount.toNat := by
  constructor
  · intro run
    obtain ⟨key, paid⟩ := Deployment.runCall_transferCall run
    exact ⟨key, Deployment.pay_eq_ok_iff.mp paid⟩
  · rintro ⟨key, paid⟩
    have pair : (transferCall d.toPlatform asset creator holding amount).accounts =
        [⟨creator.accountId, asset.shardProgram d.toPlatform⟩,
          ⟨holding.accountId, asset.shardProgram d.toPlatform⟩] := by
      rw [transferCall_eq hcreator hholding]
      rfl
    have debit : d.mayDebit rowList (transferCall d.toPlatform asset creator holding amount)
        creator.accountId = true := by
      unfold Deployment.mayDebit
      rw [key, if_neg (by decide), List.any_eq_true]
      exact ⟨creator, mem, by simp [signed]⟩
    rw [Deployment.runCall_eq_pay pair (by cases asset <;> rfl) (by cases asset <;> rfl) debit]
    cases asset <;> exact Deployment.pay_eq_ok_iff.mpr paid

/-- A plan that only creates records and funds them. -/
structure PlansCreation (d : Deployment) (rowList : List AccountMeta) (pl : Plan)
    (news : List (AccountId × VestingSchedule)) (creator holding : AccountId) (asset : Asset)
    (amount : ℕ) : Prop where
  effects : pl.effects.map (fun planned => (planned.1.selector, planned.2)) =
    news.map fun new => (⟨new.1, d.me⟩, .create new.2)
  calls : ∀ b b', pl.calls.foldlM (d.runCall rowList) b = .ok b' ↔
    d.derived creator = false ∧ amount ≤ b (creator, asset) ∧
      b' = move b (creator, asset) (holding, asset) amount
  window : pl.window = none

/-- A planned creation lands exactly on free places, no two the same, paid by a key that has the
amount, and does this. -/
theorem PlansCreation.execute_iff {creator holding : AccountId} {amount : ℕ}
    (view : PlansCreation d rowList pl news creator holding asset amount)
    (planned : Planned d.toPlatform d.me rowList ix pl) :
    d.execute w ⟨rowList, ix⟩ = .ok w' ↔
      ((∀ new ∈ news, w.shard new.1 = []) ∧ (news.map Prod.fst).Nodup) ∧
      (d.derived creator = false ∧ amount ≤ w.balance (creator, asset)) ∧
        w' =
          { w with
            shard := news.foldl (fun shard new => Function.update shard new.1 (store new.2)) w.shard
            balance := move w.balance (creator, asset) (holding, asset) amount } := by
  rw [Deployment.execute_eq_ok_iff]
  constructor
  · rintro ⟨pl', planned', -, shard, effects, balance, calls, rfl⟩
    obtain rfl : pl' = pl := Except.ok.inj
      ((plan_eq_ok_of_planned planned').symm.trans (plan_eq_ok_of_planned planned))
    obtain ⟨free, apart, rfl⟩ := (creations_eq_ok_iff view.effects).mp effects
    obtain ⟨key, funds, rfl⟩ := (view.calls _ _).mp calls
    exact ⟨⟨free, apart⟩, ⟨key, funds⟩, rfl⟩
  · rintro ⟨⟨free, apart⟩, ⟨key, funds⟩, rfl⟩
    exact ⟨pl, planned, by rw [view.window]; rfl, _,
      (creations_eq_ok_iff view.effects).mpr ⟨free, apart, rfl⟩, _,
      (view.calls _ _).mpr ⟨key, funds, rfl⟩, rfl⟩

end Vesting

end Antumbra
