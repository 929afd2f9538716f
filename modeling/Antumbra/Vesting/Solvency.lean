/-
# Escrows can pay what they owe

Many schedules, singles and the members of a batch, draw on one escrow. An effect
changes what its schedule owes by what it pays in and pays out, the transfers of the
same plan change the escrow by at least as much, and so in every reachable chain the
escrow covers all its schedules together.
-/

import Antumbra.Math.Reserve
import Antumbra.Vesting.Records

namespace Antumbra

open Antumbra.Math

namespace Vesting

/-! ### What a shard owes -/

/-- What a record still owes: all that is unclaimed while it is live, the unclaimed part of
what had vested once it is cancelled. -/
def stillOwed (s : VestingSchedule) : ℕ :=
  if s.cancelledAt = 0 then
    s.total.toNat - s.claimed.toNat
  else
    match vested s s.cancelledAt with
    | .ok amount => amount.toNat - s.claimed.toNat
    | .error _ => 0

/-- The record pays out of this balance. -/
def VestingSchedule.DrawsOn (s : VestingSchedule) (purse : AccountId × Asset) : Prop :=
  s.escrow = purse.1 ∧ purse.2.code = (s.asset, s.tokenDefinition)

instance (s : VestingSchedule) (purse : AccountId × Asset) : Decidable (s.DrawsOn purse) :=
  inferInstanceAs (Decidable (_ ∧ _))

/-- What the record in a shard owes out of a balance. -/
def owedTo (purse : AccountId × Asset) (bytes : List U8) : ℕ :=
  match load bytes with
  | .ok s => if s.DrawsOn purse then stillOwed s else 0
  | .error _ => 0

variable {d : Deployment} {now : U64} {rowList : List AccountMeta} {ix : Instruction} {pl : Plan}
  {k : AccountId} {s s' : VestingSchedule} {effect : Effect} {purse : AccountId × Asset}

theorem stillOwed_eq (h : Valid s) : stillOwed s = s.owed := by
  unfold stillOwed VestingSchedule.owed VestingSchedule.most
  split
  · rfl
  · obtain ⟨v, computed, value⟩ := exists_vested h.wellFormed s.cancelledAt
    rw [computed, ← value]

@[simp] theorem owedTo_nil : owedTo purse [] = 0 := rfl

theorem owedTo_store (h : Valid s) :
    owedTo purse (store s) = if s.DrawsOn purse then s.owed else 0 := by
  rw [owedTo, load_eq_ok_iff.mpr rfl, ← stillOwed_eq h]

/-- A record draws on exactly one balance. -/
theorem drawsOn_iff {holding : AccountId} {asset : Asset} (hescrow : s.escrow = holding)
    (hasset : asset.code = (s.asset, s.tokenDefinition)) :
    s.DrawsOn purse ↔ purse = (holding, asset) := by
  unfold VestingSchedule.DrawsOn
  constructor
  · rintro ⟨escrow, code⟩
    exact Prod.ext (escrow.symm.trans hescrow) (Asset.code_injective (code.trans hasset.symm))
  · rintro rfl
    exact ⟨hescrow, hasset⟩

/-! ### What an effect moves -/

/-- What an effect takes out of a balance. -/
def Effect.drawn (purse : AccountId × Asset) : Effect → ℕ
  | .claim _ holding asset amount _ => if purse = (holding, asset) then amount.toNat else 0
  | .cancel _ holding _ asset _ refund => if purse = (holding, asset) then refund.toNat else 0
  | _ => 0

/-- What a creation puts into a balance. -/
def Effect.deposited (purse : AccountId × Asset) : Effect → ℕ
  | .create state => if state.DrawsOn purse then state.total.toNat else 0
  | _ => 0

theorem Acts.drawn_eq (acts : Acts effect s s') (purse : AccountId × Asset) :
    effect.drawn purse = if s.DrawsOn purse then effect.paid else 0 := by
  cases acts with
  | claim _ hescrow hasset =>
    simp only [drawsOn_iff hescrow hasset]
    rfl
  | cancel _ _ _ _ hescrow hasset =>
    simp only [drawsOn_iff hescrow hasset]
    rfl
  | makeNonCancelable => exact (ite_self 0).symm
  | transferBeneficiary => exact (ite_self 0).symm
  | signalMilestone => exact (ite_self 0).symm

theorem Acts.deposited_eq (acts : Acts effect s s') : effect.deposited purse = 0 := by
  cases acts <;> rfl

theorem Acts.drawsOn_iff (acts : Acts effect s s') : s'.DrawsOn purse ↔ s.DrawsOn purse := by
  cases acts <;> exact Iff.rfl

/-- From the end of the first window on, a cancellation names a time that can be stored. -/
theorem Effect.InTime.timely (h : effect.InTime now) (late : CANCEL_WINDOW_MS ≤ now) :
    effect.Timely := by
  cases effect with
  | cancel authority holding refundTo asset at_ refund =>
    rintro rfl
    have before := h.2.1
    rw [BitVec.le_def] at late
    rw [toNat_zero] at before
    omega
  | create => trivial
  | claim => trivial
  | makeNonCancelable => trivial
  | transferBeneficiary => trivial
  | signalMilestone => trivial

/-- An effect touches one shard, and what that shard owes follows what moves. -/
theorem runEffect_owed (purse : AccountId × Asset) {shard shard' : AccountId → List U8}
    {row : AccountMeta} (recorded : ∀ k, Recorded d now k (shard k))
    (intended : Intended d now rowList ix row effect) (timely : effect.Timely)
    (run : d.runEffect shard (row, effect) = .ok shard') :
    (∀ k, k ≠ row.accountId → shard' k = shard k) ∧
      effect.drawn purse ≤ owedTo purse (shard row.accountId) ∧
        owedTo purse (shard' row.accountId) + effect.drawn purse ≤
          owedTo purse (shard row.accountId) + effect.deposited purse := by
  obtain ⟨-, ⟨s, rfl, empty, rfl⟩ | ⟨s, s', stored, acts, rfl⟩⟩ :=
    Deployment.runEffect_eq_ok_iff.mp run
  · -- a creation puts in the most it will ever owe
    refine ⟨fun k other => Function.update_of_ne other _ _, Nat.zero_le _, ?_⟩
    rw [Function.update_self, empty, owedTo_nil, owedTo_store (intended.genuine s rfl).1]
    dsimp only [Effect.drawn, Effect.deposited]
    split
    · have owed : s.owed ≤ s.most := Nat.sub_le _ _
      have most := (intended.genuine s rfl).1.most_le
      omega
    · exact Nat.le_refl _
  · obtain ⟨valid, -, -⟩ := (recorded row.accountId).record stored
    have covered := acts.paid_le_owed valid
    have change := acts.owed_add_paid valid timely
    rw [stored, acts.drawn_eq, acts.deposited_eq, owedTo_store valid, Function.update_self,
      owedTo_store (acts.valid valid)]
    simp only [acts.drawsOn_iff]
    refine ⟨fun k other => Function.update_of_ne other _ _, ?_, ?_⟩
    · split
      · exact covered
      · exact Nat.le_refl 0
    · split
      · omega
      · exact Nat.le_refl 0

/-- One effect keeps an escrow good when the escrow gains what is put in and loses what is
taken out. -/
theorem runEffect_covered {shard shard' : AccountId → List U8} {row : AccountMeta} {funds : ℕ}
    (recorded : ∀ k, Recorded d now k (shard k)) (intended : Intended d now rowList ix row effect)
    (timely : effect.Timely) (run : d.runEffect shard (row, effect) = .ok shard')
    (covered : Covered (fun k => owedTo purse (shard k)) funds) :
    effect.drawn purse ≤ funds ∧
      Covered (fun k => owedTo purse (shard' k))
        (funds + effect.deposited purse - effect.drawn purse) := by
  obtain ⟨others, drawn, here⟩ := runEffect_owed purse recorded intended timely run
  have paid : effect.drawn purse ≤ funds := Nat.le_trans drawn (covered.le row.accountId)
  refine ⟨paid, covered.change row.accountId (fun j other => ?_) ?_⟩
  · rw [others j other]
  · omega

/-- The effects of a plan keep an escrow good when the escrow gains what they put in and loses
what they take out. -/
theorem effects_covered {effects : List (AccountMeta × Effect)} {shard shard' : AccountId → List U8}
    {funds funds' : ℕ} (recorded : ∀ k, Recorded d now k (shard k))
    (intended : ∀ planned ∈ effects, Intended d now rowList ix planned.1 planned.2)
    (late : CANCEL_WINDOW_MS ≤ now) (run : effects.foldlM d.runEffect shard = .ok shard')
    (covered : Covered (fun k => owedTo purse (shard k)) funds)
    (moved : funds + (effects.map fun planned => planned.2.deposited purse).sum ≤
      funds' + (effects.map fun planned => planned.2.drawn purse).sum) :
    Covered (fun k => owedTo purse (shard' k)) funds' := by
  induction effects generalizing shard funds with
  | nil =>
    rw [List.foldlM_nil, pure_eq_ok, Except.ok.injEq] at run
    subst run
    exact covered.mono (by simpa using moved) fun _ => Nat.le_refl _
  | cons planned effects ih =>
    obtain ⟨row, effect⟩ := planned
    rw [List.foldlM_cons, bind_eq_ok_iff] at run
    obtain ⟨mid, first, rest⟩ := run
    have head : Intended d now rowList ix row effect := intended _ List.mem_cons_self
    obtain ⟨paid, between⟩ :=
      runEffect_covered recorded head (head.inTime.timely late) first covered
    -- between two effects the funds are only counted, not yet transferred
    refine ih (runEffect_recorded head recorded first)
      (fun p mem => intended p (List.mem_cons_of_mem _ mem)) rest between ?_
    simp only [List.map_cons, List.sum_cons] at moved
    omega

/-! ### What the transfers move -/

/-- A payment takes from its source only. -/
theorem le_of_pay {b b' : Balances} {source target : AccountId} {asset : Asset} {amount : ℕ}
    (paid : pay b source target asset amount = .ok b') (purse : AccountId × Asset) :
    b purse ≤ b' purse + (if purse = (source, asset) then amount else 0) := by
  obtain ⟨enough, rfl⟩ := Deployment.pay_eq_ok_iff.mp paid
  have after := move_add (target, asset) enough purse
  omega

/-- A creation puts its total into its escrow and nothing anywhere else. -/
theorem deposited_create_le (purse : AccountId × Asset) {creator escrow beneficiary : AccountId}
    {asset : Asset} {terms : Terms} (h : newState creator escrow beneficiary asset terms = .ok s) :
    (Effect.create s).deposited purse ≤
      if purse = (escrow, asset) then terms.total.toNat else 0 := by
  obtain ⟨rfl, -⟩ := newState_eq_ok h
  dsimp only [Effect.deposited]
  simp only [drawsOn_iff (s := initialState creator escrow beneficiary asset terms) rfl rfl]
  exact Nat.le_refl _

/-- The funding of a creation puts its amount into the escrow and takes nothing out of a
program's account. -/
theorem le_of_transferCall {b b' : Balances} {asset : Asset} {creator holding : AccountMeta}
    {amount : U128}
    (paid : d.runCall rowList b (transferCall d.toPlatform asset creator holding amount) = .ok b')
    (mine : d.derived purse.1 = true) :
    b purse + (if purse = (holding.accountId, asset) then amount.toNat else 0) ≤ b' purse := by
  obtain ⟨plain, paid⟩ := Deployment.runCall_transferCall paid
  obtain ⟨enough, rfl⟩ := Deployment.pay_eq_ok_iff.mp paid
  -- whoever pays by signature is no program's account
  have other : purse ≠ (creator.accountId, asset) := by
    rintro rfl
    rw [plain] at mine
    exact absurd mine (by decide)
  have after := move_add (holding.accountId, asset) enough purse
  rw [if_neg other] at after
  omega

theorem sum_le_of_forall_le {α : Type} {f : α → ℕ} {c : ℕ} {xs : List α} (h : ∀ x ∈ xs, f x ≤ c) :
    (xs.map f).sum ≤ xs.length * c := by
  have := List.sum_le_card_nsmul (xs.map f) c (by simpa using h)
  rwa [List.length_map, smul_eq_mul] at this

/-- The transfers of a plan leave each of a program's accounts what its effects put in, and
take no more than its effects take out. -/
theorem Planned.funded (h : Planned d.toPlatform d.me rowList ix pl) {b b' : Balances}
    (run : pl.calls.foldlM (d.runCall rowList) b = .ok b')
    (mine : d.derived purse.1 = true) :
    b purse + (pl.effects.map fun planned => planned.2.deposited purse).sum ≤
      b' purse + (pl.effects.map fun planned => planned.2.drawn purse).sum := by
  -- a plan that puts nothing in and transfers nothing leaves the balance as it was
  have idle : ∀ effects : List (AccountMeta × Effect),
      [].foldlM (d.runCall rowList) b = .ok b' →
      (effects.map fun planned => planned.2.deposited purse).sum = 0 →
      b purse + (effects.map fun planned => planned.2.deposited purse).sum ≤
        b' purse + (effects.map fun planned => planned.2.drawn purse).sum := by
    intro effects run nothing
    rw [List.foldlM_nil, pure_eq_ok, Except.ok.injEq] at run
    rw [nothing, run]
    exact Nat.le_add_right _ _
  cases h with
  | createSchedule hschedule hholding hcreator signed hstate =>
    simp only [List.foldlM_cons, List.foldlM_nil, bind_eq_ok_iff, pure_eq_ok, Except.ok.injEq,
      exists_eq_right] at run
    have funds := le_of_transferCall run mine
    have deposit := deposited_create_le purse hstate
    simp only [List.map_cons, List.map_nil, List.sum_cons, List.sum_nil]
    omega
  | @createScheduleBatch holding creator members batchId beneficiaries asset terms sum effects
      hlength hholding hcreator signed few hsum heffects =>
    simp only [List.foldlM_cons, List.foldlM_nil, bind_eq_ok_iff, pure_eq_ok, Except.ok.injEq,
      exists_eq_right] at run
    have funds := le_of_transferCall run mine
    obtain ⟨count, members⟩ := planMembers_eq_ok hlength.2 heffects
    -- each member puts in at most its own total
    have deposits := sum_le_of_forall_le fun planned mem => by
      obtain ⟨_, _, state, -, -, hstate, create⟩ := members planned mem
      exact create ▸ deposited_create_le purse hstate
    rw [count] at deposits
    dsimp only
    split at funds
    · next here =>
      rw [if_pos here] at deposits
      rw [← hsum, Nat.mul_comm] at funds
      omega
    · next elsewhere =>
      rw [if_neg elsewhere] at deposits
      omega
  | claim custody positive =>
    simp only [List.foldlM_cons, List.foldlM_nil, bind_eq_ok_iff, pure_eq_ok, Except.ok.injEq,
      exists_eq_right, Deployment.runCall_payout custody.holding custody.target] at run
    have funds := le_of_pay run purse
    simpa [Effect.deposited, Effect.drawn] using funds
  | cancel custody fits =>
    split at run
    · simp only [List.foldlM_cons, List.foldlM_nil, bind_eq_ok_iff, pure_eq_ok, Except.ok.injEq,
        exists_eq_right, Deployment.runCall_payout custody.holding custody.target] at run
      have funds := le_of_pay run purse
      simpa [Effect.deposited, Effect.drawn] using funds
    · exact idle _ run rfl
  | makeNonCancelable => exact idle _ run rfl
  | transferBeneficiary => exact idle _ run rfl
  | signalMilestone => exact idle _ run rfl

/-! ### Solvency -/

/-- Every escrow covers all that is owed out of it. -/
def Solvent (d : Deployment) (w : World) : Prop :=
  ∀ seed asset, Covered (fun k => owedTo (d.forPublicPda d.me seed, asset) (w.shard k))
    (w.balance (d.forPublicPda d.me seed, asset))

theorem Solvent.land {w : World} (kept : Kept d w) (late : CANCEL_WINDOW_MS ≤ w.now)
    (h : Solvent d w) (tx : Transaction) : Solvent d (d.land w tx) := by
  unfold Deployment.land
  split
  · next w' accepted =>
    obtain ⟨pl, planned, window, shard, effects, balance, calls, rfl⟩ :=
      Deployment.execute_eq_ok_iff.mp accepted
    intro seed asset
    exact effects_covered kept.recorded (planned.intended window) late effects (h seed asset)
      (planned.funded calls (d.derived_forPublicPda d.me seed))
  · exact h

/-- Every chain that is reached from the end of the first window on is solvent. -/
theorem solvent_of_reachable {w : World} (h : d.Reachable CANCEL_WINDOW_MS w) :
    Solvent d w ∧ CANCEL_WINDOW_MS ≤ w.now := by
  refine Math.Reachable.invariant (fun w => Solvent d w ∧ CANCEL_WINDOW_MS ≤ w.now) ?_ ?_ h
  · intro w start
    refine ⟨fun seed asset => covered_of_zero fun k => ?_, start.2⟩
    rw [start.1 k, owedTo_nil]
  · intro w w' reachable ⟨solvent, late⟩ step
    cases step with
    | tick later forward => exact ⟨solvent, BitVec.le_trans late forward⟩
    | transaction tx =>
      refine ⟨solvent.land (kept_of_reachable reachable) late tx, ?_⟩
      rw [Deployment.land_now]
      exact late
    | elsewhere balance gained =>
      exact ⟨fun seed asset => (solvent seed asset).mono (gained seed asset) fun _ => Nat.le_refl _,
        late⟩

/-- Escrow solvency. In every chain reached at block times from the end of the first window
on, finitely many schedules are stored, each with no more claimed than it will ever pay, and
the balance of every asset on every account is at least what all the stored schedules with
that escrow and asset still owe together. -/
theorem escrow_solvent (d : Deployment) (w : World) (reachable : d.Reachable CANCEL_WINDOW_MS w) :
    ∃ stored : Finset AccountId, (∀ k, k ∈ stored ↔ w.shard k ≠ []) ∧
      (∀ k ∈ stored, ∃ s, w.shard k = store s ∧ s.claimed ≤ s.total ∧
        (s.cancelledAt ≠ 0 → ∃ v, vested s s.cancelledAt = .ok v ∧ s.claimed ≤ v)) ∧
      ∀ h asset, ∑ k ∈ stored, owedTo (h, asset) (w.shard k) ≤ w.balance (h, asset) := by
  have kept := kept_of_reachable reachable
  refine ⟨kept.finite.toFinset, fun k => kept.finite.mem_toFinset, ?_, ?_⟩
  · intro k used
    rcases kept.recorded k with empty | ⟨s, stored, valid, seen, own⟩
    · exact absurd empty (kept.finite.mem_toFinset.mp used)
    · refine ⟨s, stored, BitVec.le_def.mpr valid.claimed_le, fun cancelled => ?_⟩
      obtain ⟨v, computed, value⟩ := exists_vested valid.wellFormed s.cancelledAt
      have most := valid.claimed_le_most
      rw [VestingSchedule.most, if_neg cancelled, ← value] at most
      exact ⟨v, computed, BitVec.le_def.mpr most⟩
  · intro h asset
    by_cases program : ∃ seed, h = d.forPublicPda d.me seed
    · obtain ⟨seed, rfl⟩ := program
      exact (solvent_of_reachable reachable).1 seed asset kept.finite.toFinset
    · -- an account that is not the program's is no schedule's escrow
      refine covered_of_zero (fun k => ?_) kept.finite.toFinset
      rcases kept.recorded k with empty | ⟨s, stored, valid, seen, _, _, _, -, escrow, -⟩
      · rw [empty, owedTo_nil]
      · rw [stored, owedTo_store valid, if_neg]
        rintro ⟨here, -⟩
        exact program ⟨_, here.symm.trans escrow⟩

/-- After a claim and a cancellation the sample batch owes no more than the half that is left
in its escrow. -/
theorem escrow_solvent_sample :
    ∃ stored : Finset AccountId, (∀ k, k ∈ stored ↔ Sample.settled.shard k ≠ []) ∧
      ∑ k ∈ stored, owedTo (Sample.escrow, .native) (Sample.settled.shard k) ≤ 600 := by
  obtain ⟨stored, used, -, covered⟩ :=
    escrow_solvent Sample.deployment Sample.settled Sample.reachable_settled
  have left : Sample.settled.balance (Sample.escrow, .native) = 600 := by decide +kernel
  exact ⟨stored, used, left ▸ covered Sample.escrow .native⟩

end Vesting

end Antumbra
