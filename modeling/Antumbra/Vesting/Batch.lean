/-
# The schedules of a batch

An accepted batch creation stores one schedule for each beneficiary, each at the
address of its index. From then on nothing erases them: whatever happens on the chain,
each slot of the batch holds a later record of the schedule created there.
-/

import Antumbra.Vesting.Authority

namespace Antumbra

open Antumbra.Math

namespace Vesting

/-- Where schedule `i` of a batch stands. -/
def Deployment.slot (d : Deployment) (batchId : Bytes 32) (i : ℕ) : AccountId :=
  scheduleAccount d.toPlatform d.me (batchScheduleId d.toPlatform batchId (BitVec.ofNat 32 i))

variable {d : Deployment} {w w' : World} {tx : Transaction} {s : VestingSchedule} {k : AccountId}
  {batchId : Bytes 32} {beneficiaries : List AccountId} {asset : Asset} {terms : Terms}

/-! ### Creation -/

/-- A run of creations leaves each of its records where it was created. -/
theorem creations_stored {effects : List (AccountMeta × Effect)}
    {shard shard' : AccountId → List U8}
    (creations : ∀ planned ∈ effects, ∃ s, planned.2 = .create s)
    (run : effects.foldlM d.runEffect shard = .ok shard') {row : AccountMeta}
    (mem : (row, Effect.create s) ∈ effects) : shard' row.accountId = store s := by
  induction effects generalizing shard with
  | nil => exact absurd mem List.not_mem_nil
  | cons planned effects ih =>
    rw [List.foldlM_cons, bind_eq_ok_iff] at run
    obtain ⟨mid, first, rest⟩ := run
    have later : ∀ p ∈ effects, ∃ s, p.2 = .create s :=
      fun p hp => creations p (List.mem_cons_of_mem _ hp)
    rcases List.mem_cons.mp mem with rfl | mem
    · obtain ⟨-, ⟨s', create, -, rfl⟩ | ⟨_, _, -, acts, -⟩⟩ :=
        Deployment.runEffect_eq_ok_iff.mp first
      · obtain rfl := Effect.create.inj create
        -- a later creation would have found the record
        rcases creations_change later rest row.accountId with same | ⟨planned, hp, -, change⟩
        · rw [same, Function.update_self]
        · obtain ⟨s', create⟩ := later planned hp
          rw [create, Function.update_self] at change
          exact absurd change.pre_of_create (store_ne_nil s)
      · cases acts
    · exact ih later rest mem

/-- A run of creations finds the place of each of its records empty. -/
theorem creations_fresh {effects : List (AccountMeta × Effect)} {shard shard' : AccountId → List U8}
    (run : effects.foldlM d.runEffect shard = .ok shard') {row : AccountMeta}
    (mem : (row, Effect.create s) ∈ effects) : shard row.accountId = [] := by
  induction effects generalizing shard with
  | nil => exact absurd mem List.not_mem_nil
  | cons planned effects ih =>
    rw [List.foldlM_cons, bind_eq_ok_iff] at run
    obtain ⟨mid, first, rest⟩ := run
    rcases List.mem_cons.mp mem with rfl | mem
    · rcases runEffect_changes first row.accountId with ⟨other, -⟩ | ⟨-, change⟩
      · exact absurd rfl other
      · exact change.pre_of_create
    · have empty := ih rest mem
      rcases runEffect_changes first row.accountId with ⟨-, same⟩ | ⟨-, change⟩
      · exact same.symm.trans empty
      · exact absurd empty change.post_ne_nil

/-- Effect `i` of a batch's plan creates a record at the address of id `i`. -/
theorem member_created {holding creator : AccountMeta} {members : List AccountMeta}
    {effects : List (AccountMeta × Effect)} (lengths : members.length = beneficiaries.length)
    (heffects : (members.zip beneficiaries).zipIdx.mapM
      (planMember d.toPlatform d.me batchId holding creator asset terms) = .ok effects)
    {i : ℕ} (hi : i < beneficiaries.length) :
    ∃ row s, (row, Effect.create s) ∈ effects ∧ row.accountId = d.slot batchId i ∧
      newState creator.accountId holding.accountId beneficiaries[i] asset terms = .ok s := by
  have member : ((members[i], beneficiaries[i]), i) ∈ (members.zip beneficiaries).zipIdx := by
    rw [List.mk_mem_zipIdx_iff_getElem?, List.getElem?_zip_eq_some]
    exact ⟨List.getElem?_eq_getElem _, List.getElem?_eq_getElem _⟩
  obtain ⟨⟨row, effect⟩, mem, answer⟩ := exists_mem_of_mapM heffects member
  simp only [planMember, bind_eq_ok_iff, refuseUnless_eq_ok_iff, exists_const, pure_eq_ok,
    Except.ok.injEq, Prod.mk.injEq] at answer
  obtain ⟨⟨account, -⟩, state, hstate, rfl, rfl⟩ := answer
  exact ⟨_, state, mem, account, hstate⟩

/-- What a batch creation stores where the program accepts it. -/
theorem batch_settled {shard shard' : AccountId → List U8}
    (settled : d.settle shard tx = .ok shard')
    (batch : tx.ix = .createScheduleBatch batchId beneficiaries asset terms) :
    1 ≤ beneficiaries.length ∧ terms.total.toNat * beneficiaries.length < 2 ^ 128 ∧
      ∃ creator, tx.rows[1]?.map AccountMeta.accountId = some creator ∧
        ∀ i (hi : i < beneficiaries.length), ∃ s,
          newState creator (holdingAccount d.toPlatform d.me batchId) beneficiaries[i] asset
              terms = .ok s ∧
            shard' (d.slot batchId i) = store s := by
  obtain ⟨rowList, ix⟩ := tx
  obtain rfl : ix = _ := batch
  obtain ⟨pl, planned, run⟩ := Deployment.settle_eq_ok_iff.mp settled
  cases planned with
  | @createScheduleBatch holding creator members _ _ _ _ sum effects hlength hholding _ _ _ hsum
      heffects =>
    refine ⟨hlength.1, hsum ▸ sum.isLt, creator.accountId, rfl, fun i hi => ?_⟩
    obtain ⟨row, state, mem, account, hstate⟩ := member_created hlength.2 heffects hi
    have creations : ∀ planned ∈ effects, ∃ s, planned.2 = .create s := by
      intro planned hp
      obtain ⟨_, _, state, -, -, -, create⟩ := (planMembers_eq_ok hlength.2 heffects).2 planned hp
      exact ⟨state, create⟩
    refine ⟨state, hholding.account ▸ hstate, ?_⟩
    rw [← account]
    exact creations_stored creations run mem

/-! ### Later -/

/-- A step keeps every record, as a later record of its schedule. -/
theorem record_step (kept : Kept d w) (step : d.Step w w') (stored : w.shard k = store s) :
    ∃ s', w'.shard k = store s' ∧ OneWay s s' := by
  cases step with
  | tick => exact ⟨s, stored, OneWay.refl s⟩
  | elsewhere => exact ⟨s, stored, OneWay.refl s⟩
  | transaction tx =>
    unfold Deployment.land
    split
    · next accepted =>
      -- an accepted transaction changes a record only by an act on it
      rcases execute_changes accepted k with same | ⟨row, effect, -, -, change⟩
      · exact ⟨s, same.trans stored, OneWay.refl s⟩
      · rcases change with ⟨_, -, empty, -⟩ | ⟨s₀, s', stored', acts, post⟩
        · exact absurd (stored.symm.trans empty) (store_ne_nil s)
        · obtain rfl := store_injective (stored.symm.trans stored')
          exact ⟨s', post, acts.oneWay (kept.record stored).1⟩
    · exact ⟨s, stored, OneWay.refl s⟩

/-- A run keeps every record, as a later record of its schedule. -/
theorem record_run {since : U64} (reachable : d.Reachable since w)
    (run : Relation.ReflTransGen d.Step w w') (stored : w.shard k = store s) :
    d.Reachable since w' ∧ ∃ s', w'.shard k = store s' ∧ OneWay s s' := by
  induction run with
  | refl => exact ⟨reachable, s, stored, OneWay.refl s⟩
  | tail _ step ih =>
    obtain ⟨reached, s', stored', oneWay⟩ := ih
    obtain ⟨s'', stored'', oneWay'⟩ := record_step (kept_of_reachable reached) step stored'
    exact ⟨reached.next step, s'', stored'', oneWay.trans oneWay'⟩

/-- A batch as its creation named it, and who created it. -/
structure Batch where
  batchId : Bytes 32
  beneficiaries : List AccountId
  asset : Asset
  terms : Terms
  creator : AccountId

/-- Slot `i` holds a record of the schedule that the batch's creation stored there: for its
beneficiary, on the batch's escrow. -/
structure Batch.Member (b : Batch) (d : Deployment) (shard : AccountId → List U8) (i : ℕ)
    (s : VestingSchedule) : Prop where
  stored : shard (d.slot b.batchId i) = store s
  created : ∃ who s₀, b.beneficiaries[i]? = some who ∧
    newState b.creator (holdingAccount d.toPlatform d.me b.batchId) who b.asset b.terms = .ok s₀ ∧
      OneWay s₀ s

theorem Batch.Member.fixed {b : Batch} {shard : AccountId → List U8} {i : ℕ}
    (h : b.Member d shard i s) :
    s.escrow = holdingAccount d.toPlatform d.me b.batchId ∧ s.total = b.terms.total := by
  obtain ⟨who, s₀, -, built, oneWay⟩ := h.created
  obtain ⟨rfl, -⟩ := newState_eq_ok built
  have fixed := oneWay.fixed
  simp only [VestingSchedule.fixed, initialState, Prod.mk.injEq] at fixed
  obtain ⟨-, -, -, -, total, escrow, -⟩ := fixed
  exact ⟨escrow, total⟩

/-- In every later state each slot of an accepted batch holds its member. -/
theorem batch_later {since : U64} {w₀ : World} (reachable : d.Reachable since w₀)
    (accepted : d.execute w₀ tx = .ok w)
    (batch : tx.ix = .createScheduleBatch batchId beneficiaries asset terms)
    (run : Relation.ReflTransGen d.Step w w') :
    d.Reachable since w' ∧ ∃ creator, tx.rows[1]?.map AccountMeta.accountId = some creator ∧
      ∀ i < beneficiaries.length, ∃ s,
        Batch.Member ⟨batchId, beneficiaries, asset, terms, creator⟩ d w'.shard i s := by
  -- the acceptance is itself a step
  have landed : d.Reachable since w := by
    have step := reachable.next (Deployment.Step.transaction w₀ tx)
    rwa [Deployment.land_of_ok accepted] at step
  obtain ⟨some, -, creator, named, stored⟩ :=
    batch_settled (Deployment.settle_of_execute accepted) batch
  have later : ∀ i < beneficiaries.length, d.Reachable since w' ∧ ∃ s,
      Batch.Member ⟨batchId, beneficiaries, asset, terms, creator⟩ d w'.shard i s := by
    intro i hi
    obtain ⟨s₀, built, stored⟩ := stored i hi
    obtain ⟨reached, s, stored', oneWay⟩ := record_run landed run stored
    exact ⟨reached, s, stored', _, s₀, List.getElem?_eq_getElem hi, built, oneWay⟩
  exact ⟨(later 0 some).1, creator, named, fun i hi => (later i hi).2⟩

end Vesting

end Antumbra
