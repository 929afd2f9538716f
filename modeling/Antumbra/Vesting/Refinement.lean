/-
# The program keeps the rule book

In every reachable chain a transaction takes effect exactly when its rows are those a client
lays out, the signing row is authorised and the rule book allows its instruction; and then the
chain is the one the rule book says. No other rows, amounts or times get through, and no
allowed instruction is refused.
-/

import Antumbra.Vesting.Landing
import Antumbra.Vesting.Log
import Antumbra.Vesting.Rules

namespace Antumbra

open Antumbra.Math

namespace Vesting

variable {d : Deployment} {w w' : World} {l l' : Register} {k : AccountId}
  {s : VestingSchedule} {rowList : List AccountMeta} {pl : Plan} {ix : Instruction}
  {effect : Effect} {target handle : AccountId} {asset : Asset} {terms : Terms}
  {scheduleId batchId : Bytes 32}
  {shard : AccountId → List U8} {news : List (AccountId × VestingSchedule)}

/-! ### Chains and registers -/

/-- The time, the balances and the bytes of every shard are those of the register. -/
structure Represents (w : World) (l : Register) : Prop where
  now : w.now = l.now
  balance : w.balance = l.balance
  shard : ∀ k, w.shard k = slotBytes (l.record k)

theorem slotBytes_eq_store_iff {slot : Option VestingSchedule} :
    slotBytes slot = store s ↔ slot = some s := by
  cases slot with
  | none => exact ⟨fun empty => absurd empty.symm (store_ne_nil s), fun none => by cases none⟩
  | some s₀ =>
    rw [Option.some.injEq]
    exact store_injective.eq_iff

theorem slotBytes_eq_nil_iff {slot : Option VestingSchedule} :
    slotBytes slot = [] ↔ slot = none := by
  cases slot with
  | none => exact ⟨fun _ => rfl, fun _ => rfl⟩
  | some s => exact ⟨fun empty => absurd empty (store_ne_nil s), fun none => by cases none⟩

theorem Represents.stored_iff (h : Represents w l) : w.shard k = store s ↔ l.record k = some s := by
  rw [h.shard, slotBytes_eq_store_iff]

theorem Represents.empty_iff (h : Represents w l) : w.shard k = [] ↔ l.record k = none := by
  rw [h.shard, slotBytes_eq_nil_iff]

/-- A register stands for one chain. -/
theorem Represents.chain_unique (h : Represents w l) (h' : Represents w' l) : w = w' := by
  obtain ⟨now, shard, balance⟩ := w
  obtain ⟨now', shard', balance'⟩ := w'
  obtain rfl : now = now' := h.now.trans h'.now.symm
  obtain rfl : balance = balance' := h.balance.trans h'.balance.symm
  obtain rfl : shard = shard' := funext fun k => (h.shard k).trans (h'.shard k).symm
  rfl

/-- Every kept chain is that of a register. -/
theorem exists_represents (kept : Kept d w) : ∃ l, Represents w l := by
  have slot : ∀ k, ∃ slot, w.shard k = slotBytes slot := fun k => by
    rcases kept.recorded k with empty | ⟨s, stored, -⟩
    · exact ⟨none, empty⟩
    · exact ⟨some s, stored⟩
  choose record shard using slot
  exact ⟨⟨w.now, record, w.balance⟩, rfl, rfl, shard⟩

theorem slotBytes_recorded {record : AccountId → Option VestingSchedule}
    (h : ∀ k, shard k = slotBytes (record k)) (news : List (AccountId × VestingSchedule))
    (k : AccountId) :
    news.foldl (fun shard new => Function.update shard new.1 (store new.2)) shard k =
      slotBytes (recorded record news k) := by
  unfold recorded
  induction news generalizing shard record with
  | nil => exact h k
  | cons new news ih =>
    refine ih fun j => ?_
    beta_reduce
    by_cases here : j = new.1
    · subst here
      rw [Function.update_self, Function.update_self]
      rfl
    · rw [Function.update_of_ne here, Function.update_of_ne here]
      exact h j

/-- Records written and an amount moved, on both sides. -/
theorem Represents.recorded (h : Represents w l) (news : List (AccountId × VestingSchedule))
    (source target : AccountId × Asset) (amount : ℕ) :
    Represents
      { w with
        shard := news.foldl (fun shard new => Function.update shard new.1 (store new.2)) w.shard
        balance := move w.balance source target amount }
      { l with
        record := Vesting.recorded l.record news
        balance := move l.balance source target amount } :=
  ⟨h.now, by rw [h.balance], slotBytes_recorded h.shard news⟩

/-- What the program takes: rows as a client lays them out, the signing row authorised, and an
instruction the rule book allows; and the register it leads to. -/
def Allowed (d : Deployment) (l : Register) (tx : Transaction) (l' : Register) : Prop :=
  ∃ target handle, Laid d.toPlatform d.me target handle tx.ix (tx.rows.map AccountMeta.selector) ∧
    tx.ix.Signed tx.rows ∧ Rule d target handle l tx.ix l'

/-- Rows laid out for a target and a signer are allowed exactly when the rule for these allows the
instruction. -/
theorem allowed_iff_rule
    (laid : Laid d.toPlatform d.me target handle ix (rowList.map AccountMeta.selector))
    (signed : ix.Signed rowList) : Allowed d l ⟨rowList, ix⟩ l' ↔ Rule d target handle l ix l' := by
  refine ⟨?_, fun rule => ⟨target, handle, laid, signed, rule⟩⟩
  rintro ⟨target', handle', laid', -, rule⟩
  -- the same rows are laid out for one signer, and for one target where there is one
  cases ix with
  | createSchedule scheduleId who asset terms =>
    have same := laid.symm.trans laid'
    simp only [Rows.create, List.cons.injEq, ProgramShardSelector.mk.injEq, and_true,
      true_and] at same
    obtain rfl := same
    cases rule with
    | createSchedule sound free key funds => exact .createSchedule sound free key funds
  | createScheduleBatch batchId beneficiaries asset terms =>
    obtain ⟨n, -, laid⟩ := laid
    obtain ⟨n', -, laid'⟩ := laid'
    have same := laid.symm.trans laid'
    simp only [Rows.batch, List.cons_append, List.cons.injEq, ProgramShardSelector.mk.injEq,
      and_true, true_and] at same
    obtain ⟨rfl, -⟩ := same
    cases rule with
    | createScheduleBatch somebody sound few fits free apart key funds =>
      exact .createScheduleBatch somebody sound few fits free apart key funds
  | claim scheduleId batchId asset amount at_ =>
    have same := laid.symm.trans laid'
    simp only [Rows.claim, List.cons.injEq, ProgramShardSelector.mk.injEq, and_true,
      true_and] at same
    obtain ⟨rfl, rfl⟩ := same
    exact rule
  | cancel scheduleId batchId asset at_ refund =>
    have same := laid.symm.trans laid'
    simp only [Rows.cancel, Rows.claim, List.cons.injEq, ProgramShardSelector.mk.injEq, and_true,
      true_and] at same
    obtain ⟨rfl, rfl⟩ := same
    exact rule
  | makeNonCancelable scheduleId =>
    have same := laid.symm.trans laid'
    simp only [Rows.handle, List.cons.injEq, ProgramShardSelector.mk.injEq, and_true,
      true_and] at same
    obtain rfl := same
    cases rule with
    | makeNonCancelable stored creator cancelable =>
      exact .makeNonCancelable stored creator cancelable
  | transferBeneficiary scheduleId newBeneficiary =>
    have same := laid.symm.trans laid'
    simp only [Rows.handle, List.cons.injEq, ProgramShardSelector.mk.injEq, and_true,
      true_and] at same
    obtain rfl := same
    cases rule with
    | transferBeneficiary stored transferable beneficiary =>
      exact .transferBeneficiary stored transferable beneficiary
  | signalMilestone scheduleId index =>
    have same := laid.symm.trans laid'
    simp only [Rows.handle, List.cons.injEq, ProgramShardSelector.mk.injEq, and_true,
      true_and] at same
    obtain rfl := same
    cases rule with
    | signalMilestone stored authority kind live below clear =>
      exact .signalMilestone stored authority kind live below clear

/-! ### Creations -/

theorem plansCreation_single {schedule holding creator : AccountMeta} {who : AccountId}
    (hschedule : IsSchedule d.toPlatform d.me scheduleId schedule)
    (hholding : IsHolding d.toPlatform d.me scheduleId asset holding)
    (hcreator : creator.programAccountId = asset.shardProgram d.toPlatform)
    (signed : creator.isAuthorized = true) {event : Event} :
    PlansCreation d [schedule, holding, creator]
      { effects := [(schedule, .create
          (initialState creator.accountId holding.accountId who asset terms))]
        calls := [transferCall d.toPlatform asset creator holding terms.total]
        window := none
        events := [event] }
      [(scheduleAccount d.toPlatform d.me scheduleId, initialState creator.accountId
        (holdingAccount d.toPlatform d.me scheduleId) who asset terms)]
      creator.accountId (holdingAccount d.toPlatform d.me scheduleId) asset
      terms.total.toNat where
  effects := by
    rw [List.map_cons, List.map_cons, ← isSchedule_iff.mp hschedule, ← hholding.account]
    rfl
  calls b b' := by
    rw [List.foldlM_cons, ← hholding.account]
    simp only [List.foldlM_nil, bind_pure]
    exact runCall_transferCall_iff (by simp) signed hcreator hholding.program
  window := rfl

theorem plansCreation_batch {holding creator : AccountMeta} {members : List AccountMeta}
    {beneficiaries : List AccountId} {sum : U128} {effects : List (AccountMeta × Effect)}
    (same : members.length = beneficiaries.length)
    (hholding : IsHolding d.toPlatform d.me batchId asset holding)
    (hcreator : creator.programAccountId = asset.shardProgram d.toPlatform)
    (signed : creator.isAuthorized = true)
    (hsum : terms.total.toNat * beneficiaries.length = sum.toNat)
    (heffects : (members.zip beneficiaries).zipIdx.mapM
      (planMember d.toPlatform d.me batchId holding creator asset terms) = .ok effects)
    {event : Event} :
    PlansCreation d (holding :: creator :: members)
      { effects
        calls := [transferCall d.toPlatform asset creator holding sum]
        window := none
        events := [event] }
      (batchRecords d creator.accountId batchId beneficiaries asset terms)
      creator.accountId (holdingAccount d.toPlatform d.me batchId) asset
      (terms.total.toNat * beneficiaries.length) where
  effects := by
    rw [@effects_of_members d.toPlatform d.me creator.accountId _ _ _ _ _ _ _ _ same hholding
      heffects, carried, batchRecords, List.map_map]
    rfl
  calls b b' := by
    rw [List.foldlM_cons, ← hholding.account, hsum]
    simp only [List.foldlM_nil, bind_pure]
    exact runCall_transferCall_iff (by simp) signed hcreator hholding.program
  window := rfl

theorem batchRecords_places {beneficiaries : List AccountId} :
    (batchRecords d handle batchId beneficiaries asset terms).map Prod.fst =
      (List.range beneficiaries.length).map (d.slot batchId) := by
  rw [batchRecords, List.map_map]
  apply List.ext_getElem
  · simp
  · intro i within _
    simp

/-- The places of a batch are free when each slot is. -/
theorem batch_free_iff (h : Represents w l) {beneficiaries : List AccountId} :
    (∀ new ∈ batchRecords d handle batchId beneficiaries asset terms, w.shard new.1 = []) ↔
      ∀ i < beneficiaries.length, l.record (d.slot batchId i) = none := by
  have places : ∀ k, (∃ new ∈ batchRecords d handle batchId beneficiaries asset terms,
      new.1 = k) ↔ ∃ i < beneficiaries.length, d.slot batchId i = k := by
    intro k
    rw [← List.mem_map, batchRecords_places]
    simp
  constructor
  · intro free i hi
    obtain ⟨new, mem, same⟩ := (places _).mpr ⟨i, hi, rfl⟩
    exact h.empty_iff.mp (same ▸ free new mem)
  · intro free new mem
    obtain ⟨i, hi, same⟩ := (places _).mp ⟨new, mem, rfl⟩
    exact h.empty_iff.mpr (same ▸ free i hi)

theorem create_allowed_iff (h : Represents w l) {who : AccountId} :
    d.execute w ⟨rowList, .createSchedule scheduleId who asset terms⟩ = .ok w' ↔
      ∃ l', Allowed d l ⟨rowList, .createSchedule scheduleId who asset terms⟩ l' ∧
        Represents w' l' := by
  constructor
  · intro accepted
    obtain ⟨pl, planned, -⟩ := Deployment.execute_eq_ok_iff.mp accepted
    have again := planned
    cases planned with
    | @createSchedule schedule holding creator _ _ _ _ state hschedule hholding hcreator signed
        hstate =>
      obtain ⟨sound, rfl⟩ := newState_eq_ok_iff.mp hstate
      obtain ⟨⟨free, -⟩, ⟨key, funds⟩, rfl⟩ :=
        ((plansCreation_single hschedule hholding hcreator signed).execute_iff again).mp accepted
      obtain ⟨laid, hsigned⟩ := create_laid_iff.mpr
        ⟨schedule, holding, creator, rfl, hschedule, hholding, hcreator, signed, rfl⟩
      have empty := h.empty_iff.mp (free _ (List.mem_singleton_self _))
      exact ⟨_, ⟨AccountId.default, creator.accountId, laid, hsigned,
        .createSchedule sound empty key (h.balance ▸ funds)⟩, h.recorded _ _ _ _⟩
  · rintro ⟨l', ⟨target, handle, laid, hsigned, rule⟩, represents⟩
    obtain ⟨schedule, holding, creator, rfl, hschedule, hholding, hcreator, signed, rfl⟩ :=
      create_laid_iff.mp ⟨laid, hsigned⟩
    cases rule with
    | createSchedule sound free key funds =>
      have planned : Planned d.toPlatform d.me _ (.createSchedule scheduleId who asset terms) _ :=
        .createSchedule hschedule hholding hcreator signed (newState_eq_ok_iff.mpr ⟨sound, rfl⟩)
      refine ((plansCreation_single hschedule hholding hcreator signed).execute_iff planned).mpr
        ⟨⟨?_, List.nodup_singleton _⟩, ⟨key, h.balance ▸ funds⟩,
          represents.chain_unique (h.recorded _ _ _ _)⟩
      intro new mem
      rw [List.mem_singleton.mp mem]
      exact h.empty_iff.mpr free

theorem batch_allowed_iff (h : Represents w l) {beneficiaries : List AccountId} :
    d.execute w ⟨rowList, .createScheduleBatch batchId beneficiaries asset terms⟩ = .ok w' ↔
      ∃ l', Allowed d l ⟨rowList, .createScheduleBatch batchId beneficiaries asset terms⟩ l' ∧
        Represents w' l' := by
  constructor
  · intro accepted
    obtain ⟨pl, planned, -⟩ := Deployment.execute_eq_ok_iff.mp accepted
    have again := planned
    cases planned with
    | @createScheduleBatch holding creator members _ _ _ _ sum effects hlength hholding hcreator
        signed few hsum heffects =>
      obtain ⟨⟨free, apart⟩, ⟨key, funds⟩, rfl⟩ := ((plansCreation_batch hlength.2 hholding
        hcreator signed hsum heffects).execute_iff again).mp accepted
      -- the terms of the first member are those of all
      obtain ⟨_, _, _, _, hstate⟩ := member_created hlength.2 heffects hlength.1
      obtain ⟨sound, -⟩ := newState_eq_ok_iff.mp hstate
      have passed : forM (members.zip beneficiaries).zipIdx
          (checkMember d.toPlatform d.me batchId) = .ok () :=
        forM_eq_ok_iff.mpr fun member mem => by
          obtain ⟨planned, -, answer⟩ := exists_mem_of_mapM heffects mem
          exact checkMember_of_planMember answer
      obtain ⟨laid, hsigned⟩ := batch_laid_iff.mpr
        ⟨holding, creator, members, rfl, hholding, hcreator, signed, rfl, few, hlength.2, passed⟩
      exact ⟨_, ⟨AccountId.default, creator.accountId, laid, hsigned,
        .createScheduleBatch (List.ne_nil_of_length_pos hlength.1) sound few (hsum ▸ sum.isLt)
          ((batch_free_iff h).mp free) (batchRecords_places ▸ apart) key (h.balance ▸ funds)⟩,
        h.recorded _ _ _ _⟩
  · rintro ⟨l', ⟨target, handle, laid, hsigned, rule⟩, represents⟩
    obtain ⟨holding, creator, members, rfl, hholding, hcreator, signed, rfl, few, same, passed⟩ :=
      batch_laid_iff.mp ⟨laid, hsigned⟩
    cases rule with
    | createScheduleBatch somebody sound _ fits free apart key funds =>
      obtain ⟨effects, heffects⟩ := exists_planMembers sound passed
      have hsum : terms.total.toNat * beneficiaries.length =
          (BitVec.ofNat 128 (terms.total.toNat * beneficiaries.length)).toNat := by
        rw [BitVec.toNat_ofNat, Nat.mod_eq_of_lt fits]
      have planned : Planned d.toPlatform d.me _
          (.createScheduleBatch batchId beneficiaries asset terms) _ :=
        .createScheduleBatch ⟨List.length_pos_iff.mpr somebody, same⟩ hholding hcreator signed few
          hsum heffects
      exact ((plansCreation_batch same hholding hcreator signed hsum heffects).execute_iff
        planned).mpr ⟨⟨(batch_free_iff h).mpr free, batchRecords_places ▸ apart⟩,
          ⟨key, h.balance ▸ funds⟩, represents.chain_unique (h.recorded _ _ _ _)⟩

/-! ### Acts -/

/-- A planned act lands exactly in its window on a record it acts on, with its result. -/
theorem PlansAct.represents_iff {row : AccountMeta} {source target : AccountId}
    (view : PlansAct d rowList pl row effect source target asset)
    (planned : Planned d.toPlatform d.me rowList ix pl) (sound : Sound d w)
    (h : Represents w l) : d.execute w ⟨rowList, ix⟩ = .ok w' ↔
      pl.window.all (·.contains l.now) = true ∧ ∃ s s', l.record row.accountId = some s ∧
        Valid s ∧ Acts effect s s' ∧ Represents w'
          { l with
            record := recorded l.record [(row.accountId, s')]
            balance := move l.balance (source, asset) (target, asset) effect.paid } := by
  rw [view.execute_iff planned sound]
  refine and_congr (by rw [h.now]) ?_
  constructor
  · rintro ⟨s, s', stored, acts, rfl⟩
    exact ⟨s, s', h.stored_iff.mp stored, sound.valid _ s stored, acts,
      h.recorded [(row.accountId, s')] _ _ _⟩
  · rintro ⟨s, s', stored, -, acts, represents⟩
    exact ⟨s, s', h.stored_iff.mpr stored, acts,
      represents.chain_unique (h.recorded [(row.accountId, s')] _ _ _)⟩

section Payouts

variable {optional : Option (Bytes 32)} {amount refund : U128} {at_ : U64}

theorem claim_allowed_iff (h : Represents w l) (sound : Sound d w) :
    d.execute w ⟨rowList, .claim scheduleId optional asset amount at_⟩ = .ok w' ↔
      ∃ l', Allowed d l ⟨rowList, .claim scheduleId optional asset amount at_⟩ l' ∧
        Represents w' l' := by
  constructor
  · intro accepted
    obtain ⟨pl, planned, -⟩ := Deployment.execute_eq_ok_iff.mp accepted
    have again := planned
    cases planned with
    | @claim schedule holding destination beneficiary _ _ _ _ _ custody positive =>
      obtain ⟨view, window⟩ := again.claim_view
      obtain ⟨inTime, s, s', stored, valid, acts, represents⟩ :=
        (view.represents_iff again sound h).mp accepted
      obtain ⟨hbeneficiary, hescrow, hasset, earned, rfl⟩ :=
        (acts_claim_rule valid positive).mp acts
      obtain ⟨laid, signed⟩ := claim_laid_iff.mpr
        ⟨schedule, holding, destination, beneficiary, rfl, custody, rfl, rfl⟩
      rw [custody.schedule.account] at stored represents
      rw [← hescrow] at represents
      refine ⟨_, ⟨destination.accountId, beneficiary.accountId, laid, signed, .claim stored
        hbeneficiary (hescrow.trans custody.holding.account) hasset positive
          ((window l.now).mp inTime) earned⟩, represents⟩
  · rintro ⟨l', ⟨target, handle, laid, signed, rule⟩, represents⟩
    obtain ⟨schedule, holding, destination, beneficiary, rfl, custody, rfl, rfl⟩ :=
      claim_laid_iff.mp ⟨laid, signed⟩
    cases rule with
    | @claim _ _ _ _ _ s stored hbeneficiary hescrow hasset positive inTime earned =>
      have planned : Planned d.toPlatform d.me _ (.claim scheduleId optional asset amount at_) _ :=
        .claim custody positive
      obtain ⟨view, window⟩ := planned.claim_view
      have valid := sound.valid _ s (h.stored_iff.mpr stored)
      have drawn : s.escrow = holding.accountId := hescrow.trans custody.holding.account.symm
      rw [← custody.schedule.account] at stored represents
      refine (view.represents_iff planned sound h).mpr ⟨(window l.now).mpr inTime, s, _, stored,
        valid, (acts_claim_rule valid positive).mpr ⟨hbeneficiary, drawn, hasset, earned, rfl⟩, ?_⟩
      rw [← drawn]
      exact represents

theorem cancel_allowed_iff (h : Represents w l) (sound : Sound d w) :
    d.execute w ⟨rowList, .cancel scheduleId optional asset at_ refund⟩ = .ok w' ↔
      ∃ l', Allowed d l ⟨rowList, .cancel scheduleId optional asset at_ refund⟩ l' ∧
        Represents w' l' := by
  constructor
  · intro accepted
    obtain ⟨pl, planned, -⟩ := Deployment.execute_eq_ok_iff.mp accepted
    have again := planned
    cases planned with
    | @cancel schedule holding refundRow authority _ _ _ _ _ custody fits =>
      obtain ⟨view, window⟩ := again.cancel_view
      obtain ⟨inTime, s, s', stored, valid, acts, represents⟩ :=
        (view.represents_iff again sound h).mp accepted
      obtain ⟨hauthority, cancelable, live, hrefundTo, hescrow, hasset, forward, rest, rfl⟩ :=
        (acts_cancel_rule valid).mp acts
      obtain ⟨laid, signed⟩ := claim_laid_iff.mpr
        ⟨schedule, holding, refundRow, authority, rfl, custody, rfl, rfl⟩
      rw [custody.schedule.account] at stored represents
      rw [← hescrow] at represents
      refine ⟨_, ⟨refundRow.accountId, authority.accountId, laid, signed, .cancel stored
        hauthority cancelable live hrefundTo (hescrow.trans custody.holding.account) hasset fits
          ((window l.now).mp inTime) forward rest⟩, represents⟩
  · rintro ⟨l', ⟨target, handle, laid, signed, rule⟩, represents⟩
    obtain ⟨schedule, holding, refundRow, authority, rfl, custody, rfl, rfl⟩ :=
      claim_laid_iff.mp ⟨laid, signed⟩
    cases rule with
    | @cancel _ _ _ _ _ s stored hauthority cancelable live hrefundTo hescrow hasset fits inTime
        forward rest =>
      have planned : Planned d.toPlatform d.me _ (.cancel scheduleId optional asset at_ refund) _ :=
        .cancel custody fits
      obtain ⟨view, window⟩ := planned.cancel_view
      have valid := sound.valid _ s (h.stored_iff.mpr stored)
      have drawn : s.escrow = holding.accountId := hescrow.trans custody.holding.account.symm
      rw [← custody.schedule.account] at stored represents
      refine (view.represents_iff planned sound h).mpr ⟨(window l.now).mpr inTime, s, _, stored,
        valid, (acts_cancel_rule valid).mpr
          ⟨hauthority, cancelable, live, hrefundTo, drawn, hasset, forward, rest, rfl⟩, ?_⟩
      rw [← drawn]
      exact represents

end Payouts

/-- An instruction planned as one effect that pays nothing, on the record, by its handle. -/
structure ByHandle (d : Deployment) (ix : Instruction) (scheduleId : Bytes 32)
    (effect : AccountId → Effect) (event : AccountId → Event) : Prop where
  laid : ∀ target handle selectors, Laid d.toPlatform d.me target handle ix selectors ↔
    selectors = Rows.handle d.toPlatform d.me scheduleId handle
  signerRow : ix.signerRow = 1
  planned : ∀ rowList pl, Planned d.toPlatform d.me rowList ix pl ↔ ∃ schedule signer,
    rowList = [schedule, signer] ∧ IsSchedule d.toPlatform d.me scheduleId schedule ∧
      IsHandle d.me signer ∧
        pl = ⟨[(schedule, effect signer.accountId)], [], none, [event signer.accountId]⟩
  act : ∀ who s, effect who ≠ .create s
  paid : ∀ who, (effect who).paid = 0
  drawn : ∀ who purse, (effect who).drawn purse = 0

/-- Such an instruction is allowed where the rule asks what its effect does. -/
theorem ByHandle.allowed_iff {effect : AccountId → Effect} {event : AccountId → Event}
    (by_ : ByHandle d ix scheduleId effect event) (h : Represents w l) (sound : Sound d w)
    (rule : ∀ target handle l', Rule d target handle l ix l' ↔ ∃ s s',
      l.record (scheduleAccount d.toPlatform d.me scheduleId) = some s ∧
        Acts (effect handle) s s' ∧
          l' = { l with record := recorded l.record [(scheduleAccount d.toPlatform d.me scheduleId,
            s')] }) :
    d.execute w ⟨rowList, ix⟩ = .ok w' ↔ ∃ l', Allowed d l ⟨rowList, ix⟩ l' ∧ Represents w' l' := by
  have lands : ∀ {schedule signer}, IsSchedule d.toPlatform d.me scheduleId schedule →
      IsHandle d.me signer → (d.execute w ⟨[schedule, signer], ix⟩ = .ok w' ↔ ∃ s s',
        l.record (scheduleAccount d.toPlatform d.me scheduleId) = some s ∧
          Acts (effect signer.accountId) s s' ∧
            Represents w' { l with record := recorded l.record [(scheduleAccount d.toPlatform d.me
              scheduleId, s')] }) := by
    intro schedule signer hschedule handle
    have planned := (by_.planned _ _).mpr ⟨schedule, signer, rfl, hschedule, handle, rfl⟩
    rw [(hschedule.plansAct rfl rfl (by_.act _) (by_.paid _) (by_.drawn _)).represents_iff planned
      sound h, by_.paid, move_zero, hschedule.account]
    constructor
    · rintro ⟨-, s, s', stored, -, acts, represents⟩
      exact ⟨s, s', stored, acts, represents⟩
    · rintro ⟨s, s', stored, acts, represents⟩
      exact ⟨rfl, s, s', stored, sound.valid _ s (h.stored_iff.mpr stored), acts, represents⟩
  constructor
  · intro accepted
    obtain ⟨pl, planned, -⟩ := Deployment.execute_eq_ok_iff.mp accepted
    obtain ⟨schedule, signer, rfl, hschedule, handle, -⟩ := (by_.planned _ _).mp planned
    obtain ⟨s, s', stored, acts, represents⟩ := (lands hschedule handle).mp accepted
    obtain ⟨laid, signed⟩ := handle_laid_iff.mpr ⟨schedule, signer, rfl, hschedule, handle, rfl⟩
    refine ⟨_, ⟨AccountId.default, signer.accountId, (by_.laid _ _ _).mpr laid, ?_,
      (rule _ _ _).mpr ⟨s, s', stored, acts, rfl⟩⟩, represents⟩
    unfold Instruction.Signed
    rwa [by_.signerRow]
  · rintro ⟨l', ⟨target, handle, laid, signed, allowed⟩, represents⟩
    unfold Instruction.Signed at signed
    rw [by_.signerRow] at signed
    obtain ⟨schedule, signer, rfl, hschedule, hhandle, rfl⟩ :=
      handle_laid_iff.mp ⟨(by_.laid _ _ _).mp laid, signed⟩
    obtain ⟨s, s', stored, acts, rfl⟩ := (rule _ _ _).mp allowed
    exact (lands hschedule hhandle).mpr ⟨s, s', stored, acts, represents⟩

theorem makeNonCancelable_allowed_iff (h : Represents w l) (sound : Sound d w) :
    d.execute w ⟨rowList, .makeNonCancelable scheduleId⟩ = .ok w' ↔
      ∃ l', Allowed d l ⟨rowList, .makeNonCancelable scheduleId⟩ l' ∧ Represents w' l' := by
  have by_ : ByHandle d (.makeNonCancelable scheduleId) scheduleId .makeNonCancelable
      fun _ => .madeNonCancelable scheduleId := by
    refine ⟨fun _ _ _ => Iff.rfl, rfl, fun _ _ => ⟨fun planned => ?_, ?_⟩, by simp, fun _ => rfl,
      fun _ _ => rfl⟩
    · cases planned with
      | makeNonCancelable hschedule handle => exact ⟨_, _, rfl, hschedule, handle, rfl⟩
    · rintro ⟨schedule, signer, rfl, hschedule, handle, rfl⟩
      exact .makeNonCancelable hschedule handle
  refine by_.allowed_iff h sound fun target handle l' => ⟨fun rule => ?_, ?_⟩
  · cases rule with
    | makeNonCancelable stored creator cancelable =>
      exact ⟨_, _, stored, .makeNonCancelable creator cancelable, rfl⟩
  · rintro ⟨s, s', stored, acts, rfl⟩
    cases acts with
    | makeNonCancelable creator cancelable => exact .makeNonCancelable stored creator cancelable

theorem transferBeneficiary_allowed_iff (h : Represents w l) (sound : Sound d w)
    {newBeneficiary : AccountId} :
    d.execute w ⟨rowList, .transferBeneficiary scheduleId newBeneficiary⟩ = .ok w' ↔
      ∃ l', Allowed d l ⟨rowList, .transferBeneficiary scheduleId newBeneficiary⟩ l' ∧
        Represents w' l' := by
  have by_ : ByHandle d (.transferBeneficiary scheduleId newBeneficiary) scheduleId
      (.transferBeneficiary · newBeneficiary)
      (.beneficiaryTransferred scheduleId · newBeneficiary) := by
    refine ⟨fun _ _ _ => Iff.rfl, rfl, fun _ _ => ⟨fun planned => ?_, ?_⟩, by simp, fun _ => rfl,
      fun _ _ => rfl⟩
    · cases planned with
      | transferBeneficiary hschedule handle => exact ⟨_, _, rfl, hschedule, handle, rfl⟩
    · rintro ⟨schedule, signer, rfl, hschedule, handle, rfl⟩
      exact .transferBeneficiary hschedule handle
  refine by_.allowed_iff h sound fun target handle l' => ⟨fun rule => ?_, ?_⟩
  · cases rule with
    | transferBeneficiary stored transferable beneficiary =>
      exact ⟨_, _, stored, .transferBeneficiary transferable beneficiary, rfl⟩
  · rintro ⟨s, s', stored, acts, rfl⟩
    cases acts with
    | transferBeneficiary transferable beneficiary =>
      exact .transferBeneficiary stored transferable beneficiary

theorem signalMilestone_allowed_iff (h : Represents w l) (sound : Sound d w) {index : U32} :
    d.execute w ⟨rowList, .signalMilestone scheduleId index⟩ = .ok w' ↔
      ∃ l', Allowed d l ⟨rowList, .signalMilestone scheduleId index⟩ l' ∧ Represents w' l' := by
  have by_ : ByHandle d (.signalMilestone scheduleId index) scheduleId
      (.signalMilestone · index) fun _ => .milestoneSignalled scheduleId index := by
    refine ⟨fun _ _ _ => Iff.rfl, rfl, fun _ _ => ⟨fun planned => ?_, ?_⟩, by simp, fun _ => rfl,
      fun _ _ => rfl⟩
    · cases planned with
      | signalMilestone hschedule handle => exact ⟨_, _, rfl, hschedule, handle, rfl⟩
    · rintro ⟨schedule, signer, rfl, hschedule, handle, rfl⟩
      exact .signalMilestone hschedule handle
  refine by_.allowed_iff h sound fun target handle l' => ⟨fun rule => ?_, ?_⟩
  · cases rule with
    | signalMilestone stored authority kind live below clear =>
      have valid := sound.valid _ _ (h.stored_iff.mpr stored)
      exact ⟨_, _, stored, (acts_signal_rule valid).mpr ⟨authority, kind, live, below, clear, rfl⟩,
        rfl⟩
  · rintro ⟨s, s', stored, acts, rfl⟩
    have valid := sound.valid _ s (h.stored_iff.mpr stored)
    obtain ⟨authority, kind, live, below, clear, rfl⟩ := (acts_signal_rule valid).mp acts
    exact .signalMilestone stored authority kind live below clear

/-! ### Transactions and runs -/

/-- A transaction lands exactly as the rule book allows it. -/
theorem execute_allowed_iff (h : Represents w l) (sound : Sound d w) (tx : Transaction) :
    d.execute w tx = .ok w' ↔ ∃ l', Allowed d l tx l' ∧ Represents w' l' := by
  obtain ⟨rowList, ix⟩ := tx
  cases ix with
  | createSchedule => exact create_allowed_iff h
  | createScheduleBatch => exact batch_allowed_iff h
  | claim => exact claim_allowed_iff h sound
  | cancel => exact cancel_allowed_iff h sound
  | makeNonCancelable => exact makeNonCancelable_allowed_iff h sound
  | transferBeneficiary => exact transferBeneficiary_allowed_iff h sound
  | signalMilestone => exact signalMilestone_allowed_iff h sound

/-- What can happen to a register: time passes, the rule book allows a transaction, or others
pay, who cannot debit the program's accounts. -/
inductive Ruled (d : Deployment) : Register → Register → Prop
  | tick (l : Register) (later : U64) (forward : l.now ≤ later) : Ruled d l { l with now := later }
  | allowed {l l' : Register} {tx : Transaction} (allowed : Allowed d l tx l') : Ruled d l l'
  | elsewhere (l : Register) (balance : Balances)
      (kept : ∀ seed asset, l.balance (d.forPublicPda d.me seed, asset) ≤
        balance (d.forPublicPda d.me seed, asset)) : Ruled d l { l with balance }

/-- The registers the rules lead to from no schedules, not before the end of the first window. -/
def RuledFrom (d : Deployment) : Register → Prop :=
  Math.Reachable (fun l => (∀ k, l.record k = none) ∧ CANCEL_WINDOW_MS ≤ l.now) (Ruled d)

/-- A step of the chain is none or one of the rules. -/
theorem Represents.step (h : Represents w l) (sound : Sound d w) (step : d.Step w w') :
    ∃ l', Relation.ReflTransGen (Ruled d) l l' ∧ Represents w' l' := by
  cases step with
  | tick later forward =>
    exact ⟨{ l with now := later }, .single (.tick l later (h.now ▸ forward)), rfl, h.balance,
      h.shard⟩
  | transaction tx =>
    unfold Deployment.land
    split
    · next accepted =>
      obtain ⟨l', allowed, represents⟩ := (execute_allowed_iff h sound tx).mp accepted
      exact ⟨l', .single (.allowed allowed), represents⟩
    · exact ⟨l, .refl, h⟩
  | elsewhere balance kept =>
    exact ⟨{ l with balance }, .single (.elsewhere l balance (h.balance ▸ kept)), h.now, rfl,
      h.shard⟩

/-- A register is that of some chain. -/
theorem exists_represented (l : Register) : ∃ w, Represents w l :=
  ⟨⟨l.now, fun k => slotBytes (l.record k), l.balance⟩, rfl, rfl, fun _ => rfl⟩

/-- A rule is a step of the chain. -/
theorem Represents.ruled (h : Represents w l) (sound : Sound d w) (ruled : Ruled d l l') :
    ∃ w', d.Step w w' ∧ Represents w' l' := by
  cases ruled with
  | tick later forward =>
    exact ⟨_, .tick w later (h.now ▸ forward), rfl, h.balance, h.shard⟩
  | @allowed _ tx allowed =>
    obtain ⟨w', represents⟩ := exists_represented l'
    have accepted := (execute_allowed_iff h sound tx).mpr ⟨l', allowed, represents⟩
    exact ⟨w', Deployment.land_of_ok accepted ▸ .transaction w tx, represents⟩
  | elsewhere balance kept =>
    exact ⟨_, .elsewhere w balance (h.balance ▸ kept), h.now, rfl, h.shard⟩

/-- The program keeps the rule book, and nothing else. The reachable chains are exactly those of
the registers its rules lead to; and in each of them a transaction lands exactly when its rows
are those a client lays out, the signing row is authorised and the rule book allows its
instruction, and the chain is then the one of the register the rule leads to. -/
theorem chain_keeps_rules (d : Deployment) :
    (∀ w, d.Reachable CANCEL_WINDOW_MS w ↔ ∃ l, RuledFrom d l ∧ Represents w l) ∧
      ∀ w l, RuledFrom d l → Represents w l → ∀ tx w',
        d.execute w tx = .ok w' ↔ ∃ l', Allowed d l tx l' ∧ Represents w' l' := by
  have forward : ∀ w, d.Reachable CANCEL_WINDOW_MS w → ∃ l, RuledFrom d l ∧ Represents w l := by
    intro w reached
    suffices found : ∃ l, RuledFrom d l ∧ d.Reachable CANCEL_WINDOW_MS w ∧ Represents w l by
      obtain ⟨l, ruled, -, represents⟩ := found
      exact ⟨l, ruled, represents⟩
    refine Math.Reachable.simulate
      (R := fun w l => d.Reachable CANCEL_WINDOW_MS w ∧ Represents w l) ?_ ?_ reached
    · rintro w start
      refine ⟨⟨w.now, fun _ => none, w.balance⟩, ⟨fun _ => rfl, start.2⟩, .start start, rfl, rfl,
        start.1⟩
    · rintro w w' l step ⟨reached, represents⟩
      obtain ⟨l', rules, represents'⟩ := represents.step (sound_of_reachable reached) step
      exact ⟨l', rules, reached.next step, represents'⟩
  have backward : ∀ l, RuledFrom d l → ∃ w, d.Reachable CANCEL_WINDOW_MS w ∧ Represents w l := by
    intro l ruled
    suffices found : ∃ w, d.Reachable CANCEL_WINDOW_MS w ∧
        d.Reachable CANCEL_WINDOW_MS w ∧ Represents w l by
      obtain ⟨w, -, both⟩ := found
      exact ⟨w, both⟩
    refine Math.Reachable.simulate
      (R := fun l w => d.Reachable CANCEL_WINDOW_MS w ∧ Represents w l) ?_ ?_ ruled
    · rintro l ⟨empty, late⟩
      obtain ⟨w, represents⟩ := exists_represented l
      have start : (∀ k, w.shard k = []) ∧ CANCEL_WINDOW_MS ≤ w.now :=
        ⟨fun k => represents.empty_iff.mpr (empty k), represents.now ▸ late⟩
      exact ⟨w, start, .start start, represents⟩
    · rintro l l' w rule ⟨reached, represents⟩
      obtain ⟨w', step, represents'⟩ := represents.ruled (sound_of_reachable reached) rule
      exact ⟨w', .single step, reached.next step, represents'⟩
  have same : ∀ w l, RuledFrom d l → Represents w l → d.Reachable CANCEL_WINDOW_MS w := by
    intro w l ruled represents
    obtain ⟨w₀, reached, represents₀⟩ := backward l ruled
    exact represents₀.chain_unique represents ▸ reached
  refine ⟨fun w => ⟨forward w, fun ⟨l, ruled, represents⟩ => same w l ruled represents⟩, ?_⟩
  intro w l ruled represents tx w'
  exact execute_allowed_iff represents (sound_of_reachable (same w l ruled represents)) tx

/-- The sample's claim is allowed in the register of the sample chain, which the rules lead to,
and the register after it is that of the chain after it. -/
theorem chain_keeps_rules_sample : ∃ l l', RuledFrom Sample.deployment l ∧
    Represents Sample.chain l ∧ Allowed Sample.deployment l Sample.claim l' ∧
      Represents (Sample.deployment.land Sample.chain Sample.claim) l' := by
  obtain ⟨chains, lands⟩ := chain_keeps_rules Sample.deployment
  obtain ⟨l, ruled, represents⟩ := (chains _).mp Sample.reachable_chain
  obtain ⟨l', allowed, represents'⟩ := (lands _ l ruled represents Sample.claim _).mp
    (Deployment.execute_of_isOk (by decide +kernel))
  exact ⟨l, l', ruled, represents, allowed, represents'⟩

end Vesting

end Antumbra
