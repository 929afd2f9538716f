/-
# Who can change a schedule

A transaction may carry any rows, but what it changes is a schedule its instruction
names, each field only on the signature of the account the record gives it to. A
beneficiary who did not sign keeps the schedule, its claims and all that had vested
one window ago.
-/

import Antumbra.Vesting.Life
import Antumbra.Vesting.Single

namespace Antumbra

open Antumbra.Math

namespace Vesting

variable {d : Deployment} {w w' : World} {tx : Transaction} {rowList : List AccountMeta}
  {ix : Instruction} {pl : Plan} {s s' : VestingSchedule} {effect : Effect} {k : AccountId}

/-! ### What a transaction does to one shard -/

/-- A plan has one effect, or only creations. -/
theorem Planned.effects_shape (h : Planned d.toPlatform d.me rowList ix pl) :
    (∃ planned, pl.effects = [planned]) ∨ ∀ planned ∈ pl.effects, ∃ s, planned.2 = .create s := by
  cases h with
  | createScheduleBatch hlength _ _ _ _ _ heffects =>
    refine .inr fun planned mem => ?_
    obtain ⟨_, _, state, -, -, -, create⟩ := (planMembers_eq_ok hlength.2 heffects).2 planned mem
    exact ⟨state, create⟩
  | createSchedule => exact .inl ⟨_, rfl⟩
  | claim => exact .inl ⟨_, rfl⟩
  | cancel => exact .inl ⟨_, rfl⟩
  | makeNonCancelable => exact .inl ⟨_, rfl⟩
  | transferBeneficiary => exact .inl ⟨_, rfl⟩
  | signalMilestone => exact .inl ⟨_, rfl⟩

/-- How an effect on a shard changes its bytes. -/
def Changes (effect : Effect) (pre post : List U8) : Prop :=
  (∃ s, effect = .create s ∧ pre = [] ∧ post = store s) ∨
    ∃ s s', pre = store s ∧ Acts effect s s' ∧ post = store s'

theorem Changes.post_ne_nil {pre post : List U8} (h : Changes effect pre post) : post ≠ [] := by
  rcases h with ⟨s, -, -, rfl⟩ | ⟨-, s, -, -, rfl⟩
  · exact store_ne_nil s
  · exact store_ne_nil s

/-- A creation finds the shard empty. -/
theorem Changes.pre_of_create {pre post : List U8} (h : Changes (.create s) pre post) :
    pre = [] := by
  rcases h with ⟨_, -, empty, -⟩ | ⟨_, _, -, acts, -⟩
  · exact empty
  · cases acts

theorem runEffect_changes {shard shard' : AccountId → List U8} {row : AccountMeta}
    (run : d.runEffect shard (row, effect) = .ok shard') (k : AccountId) :
    k ≠ row.accountId ∧ shard' k = shard k ∨
      k = row.accountId ∧ Changes effect (shard k) (shard' k) := by
  by_cases here : k = row.accountId
  · subst here
    refine .inr ⟨rfl, ?_⟩
    obtain ⟨-, ⟨s, create, empty, rfl⟩ | ⟨s, s', stored, acts, rfl⟩⟩ :=
      Deployment.runEffect_eq_ok_iff.mp run
    · exact .inl ⟨s, create, empty, Function.update_self _ _ _⟩
    · exact .inr ⟨s, s', stored, acts, Function.update_self _ _ _⟩
  · obtain ⟨s, rfl⟩ := Deployment.exists_update_of_runEffect run
    exact .inl ⟨here, Function.update_of_ne here _ _⟩

/-- A run of creations changes each shard at most once. -/
theorem creations_change {effects : List (AccountMeta × Effect)}
    {shard shard' : AccountId → List U8}
    (creations : ∀ planned ∈ effects, ∃ s, planned.2 = .create s)
    (run : effects.foldlM d.runEffect shard = .ok shard') (k : AccountId) :
    shard' k = shard k ∨
      ∃ planned ∈ effects, k = planned.1.accountId ∧ Changes planned.2 (shard k) (shard' k) := by
  induction effects generalizing shard with
  | nil =>
    rw [List.foldlM_nil, pure_eq_ok, Except.ok.injEq] at run
    exact .inl (congrFun run.symm k)
  | cons planned effects ih =>
    rw [List.foldlM_cons, bind_eq_ok_iff] at run
    obtain ⟨mid, first, rest⟩ := run
    have later := ih (fun p mem => creations p (List.mem_cons_of_mem _ mem)) rest
    rcases runEffect_changes first k with ⟨-, same⟩ | ⟨here, change⟩
    · rw [← same]
      rcases later with same' | ⟨planned', mem, here, change⟩
      · exact .inl same'
      · exact .inr ⟨planned', List.mem_cons_of_mem _ mem, here, change⟩
    · refine .inr ⟨planned, List.mem_cons_self, here, ?_⟩
      rcases later with same | ⟨planned', mem, -, change'⟩
      · rw [same]
        exact change
      · -- a later creation would have found the first one's record
        obtain ⟨s, create⟩ := creations planned' (List.mem_cons_of_mem _ mem)
        rw [create] at change'
        exact absurd change'.pre_of_create change.post_ne_nil

/-- An accepted transaction changes a shard by one intended effect, or leaves it alone. -/
theorem execute_changes (accepted : d.execute w tx = .ok w') (k : AccountId) :
    w'.shard k = w.shard k ∨ ∃ row effect, k = row.accountId ∧
      Intended d w.now tx.rows tx.ix row effect ∧ Changes effect (w.shard k) (w'.shard k) := by
  obtain ⟨pl, planned, window, shard, run, balance, -, rfl⟩ :=
    Deployment.execute_eq_ok_iff.mp accepted
  have intended := planned.intended window
  rcases planned.effects_shape with ⟨⟨row, effect⟩, single⟩ | creations
  · rw [single] at run intended
    simp only [List.foldlM_cons, List.foldlM_nil, bind_eq_ok_iff, pure_eq_ok, Except.ok.injEq,
      exists_eq_right] at run
    rcases runEffect_changes run k with ⟨-, same⟩ | ⟨here, change⟩
    · exact .inl same
    · exact .inr ⟨row, effect, here, intended _ (List.mem_singleton_self _), change⟩
  · rcases creations_change creations run k with same | ⟨⟨row, effect⟩, mem, here, change⟩
    · exact .inl same
    · exact .inr ⟨row, effect, here, intended _ mem, change⟩

/-! ### Only the right signer -/

/-- What may change in a record, and on whose signature. -/
structure SignedChange (signed : List AccountId) (s s' : VestingSchedule) : Prop where
  fixed : s'.fixed = s.fixed
  claimed : s'.claimed ≠ s.claimed → s.beneficiary ∈ signed
  lastSeen : s'.lastSeen ≠ s.lastSeen → s.beneficiary ∈ signed ∨ s.cancelAuthority ∈ signed
  beneficiary : s'.beneficiary ≠ s.beneficiary → s.beneficiary ∈ signed ∧ s.transferable ≠ 0
  cancelledAt : s'.cancelledAt ≠ s.cancelledAt → s.cancelAuthority ∈ signed ∧ s.cancelable ≠ 0
  cancelable : s'.cancelable ≠ s.cancelable → s.creator ∈ signed
  signalled : s'.signalled ≠ s.signalled → s.milestoneAuthority ∈ signed

theorem Acts.signedChange {signed : List AccountId} (acts : Acts effect s s')
    (signer : effect.signer ∈ signed) : SignedChange signed s s' := by
  have same : ∀ {α : Type} {P : Prop} (a : α), a ≠ a → P := fun _ h => absurd rfl h
  cases acts with
  | claim hbeneficiary =>
    obtain rfl := hbeneficiary
    exact ⟨rfl, fun _ => signer, fun _ => .inl signer, same _, same _, same _, same _⟩
  | cancel hauthority hcancelable =>
    obtain rfl := hauthority
    exact ⟨rfl, same _, fun _ => .inr signer, same _, fun _ => ⟨signer, hcancelable⟩, same _,
      same _⟩
  | makeNonCancelable hcreator =>
    obtain rfl := hcreator
    exact ⟨rfl, same _, same _, same _, same _, fun _ => signer, same _⟩
  | transferBeneficiary htransferable hbeneficiary =>
    obtain rfl := hbeneficiary
    exact ⟨rfl, same _, same _, fun _ => ⟨signer, htransferable⟩, same _, same _, same _⟩
  | signalMilestone hauthority =>
    obtain rfl := hauthority
    exact ⟨rfl, same _, same _, same _, same _, same _, fun _ => signer⟩

/-- The stored record that an accepted plan with one effect other than a creation acts on. -/
theorem acts_of_single {row : AccountMeta} {shard shard' : AccountId → List U8}
    (act : ∀ s, effect ≠ .create s)
    (run : [(row, effect)].foldlM d.runEffect shard = .ok shard') :
    ∃ s s', shard row.accountId = store s ∧ Acts effect s s' := by
  simp only [List.foldlM_cons, List.foldlM_nil, bind_eq_ok_iff, pure_eq_ok, Except.ok.injEq,
    exists_eq_right] at run
  obtain ⟨-, ⟨s, create, -⟩ | ⟨s, s', stored, acts, -⟩⟩ := Deployment.runEffect_eq_ok_iff.mp run
  · exact absurd create (act s)
  · exact ⟨s, s', stored, acts⟩

/-- Every call that carries a seed pays out of the escrow of a named schedule, and a refund
goes to the account fixed at its creation. -/
theorem Planned.payouts (h : Planned d.toPlatform d.me rowList ix pl)
    {shard shard' : AccountId → List U8} (run : pl.effects.foldlM d.runEffect shard = .ok shard')
    {call : ChainedCall} (mem : call ∈ pl.calls) (seeded : call.pdaSeeds ≠ []) :
    ∃ id ∈ ix.scheduleIds d.toPlatform, ∃ s target,
      shard (scheduleAccount d.toPlatform d.me id) = store s ∧
      call.accounts = [⟨s.escrow, call.programAccountId⟩, ⟨target, call.programAccountId⟩] ∧
      ∀ id batchId asset at_ refund, ix = .cancel id batchId asset at_ refund →
        target = s.refundTo := by
  have unseeded : ∀ asset source target amount,
      (transferCall d.toPlatform asset source target amount).pdaSeeds = [] := by
    intro asset source target amount
    cases asset <;> rfl
  have program : ∀ asset holding seedId target amount,
      (payout d.toPlatform asset holding seedId target amount).programAccountId =
        asset.shardProgram d.toPlatform := by
    intro asset holding seedId target amount
    cases asset <;> rfl
  -- creations are funded by signature; only the two payouts carry a seed
  cases h with
  | createSchedule =>
    obtain rfl := List.mem_singleton.mp mem
    exact absurd (unseeded _ _ _ _) seeded
  | createScheduleBatch =>
    obtain rfl := List.mem_singleton.mp mem
    exact absurd (unseeded _ _ _ _) seeded
  | @claim _ _ destination _ _ _ _ _ _ custody positive =>
    obtain rfl := List.mem_singleton.mp mem
    obtain ⟨s, s', stored, acts⟩ := acts_of_single (by simp) run
    refine ⟨_, List.mem_singleton_self _, s, destination.accountId,
      custody.schedule.account ▸ stored, ?_, by simp⟩
    cases acts with
    | claim _ hescrow =>
      rw [Deployment.payout_accounts _ custody.holding custody.target, program, hescrow]
  | @cancel _ _ refundRow _ _ _ _ _ _ custody fits =>
    obtain ⟨s, s', stored, acts⟩ := acts_of_single (by simp) run
    split at mem
    · obtain rfl := List.mem_singleton.mp mem
      cases acts with
      | cancel _ _ _ hrefundTo hescrow =>
        refine ⟨_, List.mem_singleton_self _, s, refundRow.accountId,
          custody.schedule.account ▸ stored, ?_, fun _ _ _ _ _ _ => hrefundTo.symm⟩
        rw [Deployment.payout_accounts _ custody.holding custody.target, program, hescrow]
    · exact absurd mem List.not_mem_nil
  | makeNonCancelable => exact absurd mem List.not_mem_nil
  | transferBeneficiary => exact absurd mem List.not_mem_nil
  | signalMilestone => exact absurd mem List.not_mem_nil

/-- Only the right signer moves a schedule. Whatever rows a transaction carries, if it is
accepted then every shard that changed is that of an id the instruction names: it was empty
and now holds a record whose creator signed, or it holds the same record with each change
signed for by the account the record gives it to. Every payout of its plan is out of the
escrow of such a schedule, and a refund goes to the account recorded for it. -/
theorem only_signers_move (d : Deployment) (w w' : World) (tx : Transaction)
    (accepted : d.execute w tx = .ok w') :
    (∀ k, w'.shard k ≠ w.shard k →
      (∃ id ∈ tx.ix.scheduleIds d.toPlatform, k = scheduleAccount d.toPlatform d.me id) ∧
        ((w.shard k = [] ∧ ∃ s', w'.shard k = store s' ∧ s'.creator ∈ signers tx.rows) ∨
          ∃ s s', w.shard k = store s ∧ w'.shard k = store s' ∧
            SignedChange (signers tx.rows) s s')) ∧
      ∀ pl, plan d.toPlatform ⟨d.me, tx.rows⟩ tx.ix = .ok pl → ∀ call ∈ pl.calls,
        call.pdaSeeds ≠ [] → ∃ id ∈ tx.ix.scheduleIds d.toPlatform, ∃ s target,
          w.shard (scheduleAccount d.toPlatform d.me id) = store s ∧
          call.accounts = [⟨s.escrow, call.programAccountId⟩, ⟨target, call.programAccountId⟩] ∧
          ∀ id batchId asset at_ refund, tx.ix = .cancel id batchId asset at_ refund →
            target = s.refundTo := by
  constructor
  · intro k changed
    rcases execute_changes accepted k with same | ⟨row, effect, rfl, intended, change⟩
    · exact absurd same changed
    · refine ⟨intended.named, ?_⟩
      rcases change with ⟨s, rfl, empty, created⟩ | ⟨s, s', stored, acts, stored'⟩
      · exact .inl ⟨empty, s, created, intended.signed⟩
      · exact .inr ⟨s, s', stored, stored', acts.signedChange intended.signed⟩
  · intro pl hplan call mem seeded
    obtain ⟨pl', planned, -, shard, run, -⟩ := Deployment.execute_eq_ok_iff.mp accepted
    obtain rfl := Except.ok.inj ((plan_eq_ok_of_planned planned).symm.trans hplan)
    exact planned.payouts run mem seeded

/-- The first beneficiary's claim changes its schedule as its signature allows. -/
theorem only_signers_move_sample :
    ∃ s s', Sample.chain.shard Sample.first = store s ∧
      (Sample.deployment.land Sample.chain Sample.claim).shard Sample.first = store s' ∧
      SignedChange [Sample.account 2] s s' := by
  obtain ⟨-, ⟨empty, -⟩ | change⟩ :=
    (only_signers_move Sample.deployment Sample.chain _ Sample.claim
      (Deployment.execute_of_isOk (by decide +kernel))).1 Sample.first (by decide +kernel)
  · exact absurd (Sample.stored_first.symm.trans empty) (store_ne_nil _)
  · exact change

/-! ### What a beneficiary keeps -/

/-- What an act not signed by the beneficiary leaves of the accrual. -/
theorem Acts.accrued_kept (acts : Acts effect s s') {now : U64} (inTime : effect.InTime now)
    (other : effect.signer ≠ s.beneficiary) :
    s'.beneficiary = s.beneficiary ∧ s'.claimed = s.claimed ∧
      (∀ t : U64, t.toNat + CANCEL_WINDOW_MS.toNat ≤ now.toNat →
        s.accrued t.toNat ≤ s'.accrued t.toNat) ∧
      (s.cancelable = 0 → ∀ t : U64, s.accrued t.toNat ≤ s'.accrued t.toNat) := by
  cases acts with
  | claim hbeneficiary => exact absurd hbeneficiary.symm other
  | @cancel _ _ _ _ _ at_ _ _ hcancelable live =>
    refine ⟨rfl, rfl, fun t before => ?_, fun fixed => absurd fixed hcancelable⟩
    -- the window puts the freeze after every such time
    have early : t ≤ max at_ 1 := by
      refine BitVec.le_trans ?_ (le_max_one at_)
      have := inTime.2.1
      rw [BitVec.le_def]
      omega
    exact Nat.le_of_eq (accrued_frozen_at live (max_one_ne_zero at_) early).symm
  | makeNonCancelable => exact ⟨rfl, rfl, fun _ _ => Nat.le_refl _, fun _ _ => Nat.le_refl _⟩
  | transferBeneficiary _ hbeneficiary => exact absurd hbeneficiary.symm other
  | signalMilestone =>
    exact ⟨rfl, rfl, fun t _ => accrued_or_le s _ t.toNat, fun _ t => accrued_or_le s _ t.toNat⟩

/-- A schedule the transaction's signers do not hold is still there, with no less accrued. -/
theorem execute_keeps (accepted : d.execute w tx = .ok w') (stored : w.shard k = store s)
    (valid : Valid s) (unsigned : s.beneficiary ∉ signers tx.rows) :
    ∃ s', w'.shard k = store s' ∧ Valid s' ∧ s'.beneficiary = s.beneficiary ∧
      s'.claimed = s.claimed ∧
      (∀ t : U64, t.toNat + CANCEL_WINDOW_MS.toNat ≤ w.now.toNat →
        s.accrued t.toNat ≤ s'.accrued t.toNat) ∧
      (s.cancelable = 0 → ∀ t : U64, s.accrued t.toNat ≤ s'.accrued t.toNat) := by
  rcases execute_changes accepted k with same | ⟨row, effect, rfl, intended, change⟩
  · exact ⟨s, same.trans stored, valid, rfl, rfl, fun _ _ => Nat.le_refl _,
      fun _ _ => Nat.le_refl _⟩
  · rcases change with ⟨_, -, empty, -⟩ | ⟨s₀, s', stored₀, acts, stored'⟩
    · exact absurd (stored.symm.trans empty) (store_ne_nil s)
    · obtain rfl := store_injective (stored.symm.trans stored₀)
      have other : effect.signer ≠ s.beneficiary := fun same => unsigned (same ▸ intended.signed)
      exact ⟨s', stored', acts.valid valid, acts.accrued_kept intended.inTime other⟩

/-- More accrued and the same claimed: more vested, and more claimable at every later time. -/
theorem claimable_mono (valid : Valid s) (valid' : Valid s') (claimed : s'.claimed = s.claimed)
    {t : U64} (more : s.accrued t.toNat ≤ s'.accrued t.toNat) :
    (∃ v v', vested s t = .ok v ∧ vested s' t = .ok v' ∧ v ≤ v') ∧
      ∀ u, t ≤ u → ∃ c c', claimable s t = .ok c ∧ claimable s' u = .ok c' ∧ c ≤ c' := by
  constructor
  · obtain ⟨v, computed, value⟩ := exists_vested valid.wellFormed t
    obtain ⟨v', computed', value'⟩ := exists_vested valid'.wellFormed t
    refine ⟨v, v', computed, computed', ?_⟩
    rw [BitVec.le_def, value, value']
    exact more
  · intro u later
    obtain ⟨c, computed⟩ := exists_claimable valid.wellFormed t
    obtain ⟨c', computed'⟩ := exists_claimable valid'.wellFormed u
    have value := (claimable_eq_ok_iff valid.wellFormed).mp computed
    have value' := (claimable_eq_ok_iff valid'.wellFormed).mp computed'
    have grown := s'.accrued_mono (BitVec.le_def.mp later)
    refine ⟨c, c', computed, computed', ?_⟩
    rw [BitVec.le_def, value, value', claimed]
    omega

/-- A beneficiary loses at most the last window of accrual to anybody else. In every reachable
chain, after any accepted transaction the beneficiary did not sign, the schedule is still there
with the same beneficiary and claims; all that had vested by any time a window ago is still
vested, and claimable from then on; and of a schedule that was not cancelable nothing that
vests at any time is lost. -/
theorem loses_at_most_window (d : Deployment) (since : U64) (w w' : World) (tx : Transaction)
    (k : AccountId) (s : VestingSchedule) (reachable : d.Reachable since w)
    (stored : w.shard k = store s) (accepted : d.execute w tx = .ok w')
    (unsigned : s.beneficiary ∉ signers tx.rows) :
    ∃ s', w'.shard k = store s' ∧ s'.beneficiary = s.beneficiary ∧ s'.claimed = s.claimed ∧
      (∀ t : U64, t.toNat + CANCEL_WINDOW_MS.toNat ≤ w.now.toNat →
        (∃ v v', vested s t = .ok v ∧ vested s' t = .ok v' ∧ v ≤ v') ∧
        ∀ u, t ≤ u → ∃ c c', claimable s t = .ok c ∧ claimable s' u = .ok c' ∧ c ≤ c') ∧
      (s.cancelable = 0 →
        ∀ t, ∃ v v', vested s t = .ok v ∧ vested s' t = .ok v' ∧ v ≤ v') := by
  have valid := ((kept_of_reachable reachable).record stored).1
  obtain ⟨s', stored', valid', beneficiary, claimed, before, always⟩ :=
    execute_keeps accepted stored valid unsigned
  refine ⟨s', stored', beneficiary, claimed, fun t early => ?_, fun fixed t => ?_⟩
  · exact claimable_mono valid valid' claimed (before t early)
  · exact (claimable_mono valid valid' claimed (always fixed t)).1

/-- The creator's cancellation of the other schedule leaves the first beneficiary's alone. -/
theorem loses_at_most_window_sample :
    ∃ s', (Sample.deployment.land Sample.chain Sample.cancel).shard Sample.first = store s' ∧
      s'.beneficiary = Sample.account 2 ∧ s'.claimed = 0 := by
  obtain ⟨s', stored, beneficiary, claimed, -⟩ := loses_at_most_window Sample.deployment
    CANCEL_WINDOW_MS Sample.chain _ Sample.cancel Sample.first _ Sample.reachable_chain
    Sample.stored_first (Deployment.execute_of_isOk (by decide +kernel)) (by decide +kernel)
  exact ⟨s', stored, beneficiary, claimed⟩

end Vesting

end Antumbra
