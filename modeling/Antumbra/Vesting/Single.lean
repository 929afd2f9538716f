/-
# Transactions on one schedule

Five of the seven instructions act on one stored schedule. Their plan has one effect
and at most one payment, out of an escrow. In a chain whose escrows are good the
verdict on such a transaction is settled by the block's time and by the bytes of that
one schedule: the payment never fails.
-/

import Antumbra.Vesting.Solvency

namespace Antumbra

open Antumbra.Math

namespace Vesting

/-- The instruction acts on a stored schedule. -/
def Instruction.IsAct : Instruction → Prop
  | .createSchedule _ _ _ _ => False
  | .createScheduleBatch _ _ _ _ => False
  | _ => True

/-- A plan with one effect on a stored schedule and one payment, possibly of nothing, out of
an escrow. -/
structure PlansAct (d : Deployment) (rowList : List AccountMeta) (pl : Plan) (row : AccountMeta)
    (effect : Effect) (source target : AccountId) (asset : Asset) : Prop where
  effects : pl.effects = [(row, effect)]
  mine : row.programAccountId = d.me
  act : ∀ s, effect ≠ .create s
  escrow : ∃ seed, source = d.forPublicPda d.me seed
  drawn : effect.drawn (source, asset) = effect.paid
  calls : ∀ b, pl.calls.foldlM (d.runCall rowList) b = pay b source target asset effect.paid

variable {d : Deployment} {rowList : List AccountMeta} {ix : Instruction} {pl : Plan}
  {row : AccountMeta} {effect : Effect} {source target : AccountId} {asset : Asset}
  {w w' : World} {tx : Transaction} {s s' : VestingSchedule} {k : AccountId}

/-! ### The plans of acts -/

section Plans

variable {scheduleId seedId : Bytes 32} {schedule holding targetRow signer : AccountMeta}

/-- A plan with a payout acts and pays. A payout of nothing is no transfer. -/
theorem Custody.plansAct
    (custody : Custody d.toPlatform d.me scheduleId seedId asset schedule holding targetRow signer)
    {amount : U128} (heffects : pl.effects = [(schedule, effect)])
    (hcalls : pl.calls = if 0 < amount then
      [payout d.toPlatform asset holding seedId targetRow amount] else [])
    (act : ∀ s, effect ≠ .create s) (hpaid : effect.paid = amount.toNat)
    (hdrawn : effect.drawn (holding.accountId, asset) = amount.toNat) :
    PlansAct d rowList pl schedule effect holding.accountId targetRow.accountId asset where
  effects := heffects
  mine := custody.schedule.program
  act := act
  escrow := ⟨_, custody.holding.account⟩
  drawn := hdrawn.trans hpaid.symm
  calls b := by
    rw [hcalls, hpaid]
    split
    · rw [List.foldlM_cons, Deployment.runCall_payout custody.holding custody.target]
      exact bind_pure _
    · next nothing =>
      have zero : amount.toNat = 0 := by
        rw [BitVec.lt_def, toNat_zero] at nothing
        omega
      rw [zero, Deployment.pay_zero]
      rfl

/-- A plan without transfers acts and pays nothing. -/
theorem IsSchedule.plansAct (hschedule : IsSchedule d.toPlatform d.me scheduleId schedule)
    (heffects : pl.effects = [(schedule, effect)]) (hcalls : pl.calls = [])
    (act : ∀ s, effect ≠ .create s) (hpaid : effect.paid = 0)
    (hdrawn : ∀ purse, effect.drawn purse = 0) :
    PlansAct d rowList pl schedule effect (holdingAccount d.toPlatform d.me scheduleId) d.me
      .native where
  effects := heffects
  mine := hschedule.program
  act := act
  escrow := ⟨_, rfl⟩
  drawn := (hdrawn _).trans hpaid.symm
  calls b := by
    rw [hcalls, hpaid, Deployment.pay_zero]
    rfl

end Plans

/-- The plan of every instruction on a stored schedule is one of these. -/
theorem Planned.act (h : Planned d.toPlatform d.me rowList ix pl) (act : ix.IsAct) :
    ∃ row effect source target asset, PlansAct d rowList pl row effect source target asset ∧
      ∃ id ∈ ix.scheduleIds d.toPlatform, row.accountId = scheduleAccount d.toPlatform d.me id := by
  cases h with
  | createSchedule => exact absurd act id
  | createScheduleBatch => exact absurd act id
  | claim custody positive =>
    exact ⟨_, _, _, _, _,
      custody.plansAct rfl (if_pos positive).symm (by simp) rfl (if_pos rfl), _,
      List.mem_singleton_self _, custody.schedule.account⟩
  | cancel custody fits =>
    exact ⟨_, _, _, _, _, custody.plansAct rfl rfl (by simp) rfl (if_pos rfl), _,
      List.mem_singleton_self _, custody.schedule.account⟩
  | makeNonCancelable hschedule handle =>
    exact ⟨_, _, _, _, _, hschedule.plansAct rfl rfl (by simp) rfl fun _ => rfl, _,
      List.mem_singleton_self _, hschedule.account⟩
  | transferBeneficiary hschedule handle =>
    exact ⟨_, _, _, _, _, hschedule.plansAct rfl rfl (by simp) rfl fun _ => rfl, _,
      List.mem_singleton_self _, hschedule.account⟩
  | signalMilestone hschedule handle =>
    exact ⟨_, _, _, _, _, hschedule.plansAct rfl rfl (by simp) rfl fun _ => rfl, _,
      List.mem_singleton_self _, hschedule.account⟩

/-! ### The verdict -/

/-- A transaction that acts, link by link. -/
theorem PlansAct.execute (view : PlansAct d tx.rows pl row effect source target asset)
    (planned : plan d.toPlatform ⟨d.me, tx.rows⟩ tx.ix = .ok pl) (w : World) :
    d.execute w tx = (do
      ensure (pl.window.all (·.contains w.now) = true) .outsideWindow
      let shard ← d.runEffect w.shard (row, effect)
      let balance ← pay w.balance source target asset effect.paid
      return { w with shard, balance }) := by
  simp only [Deployment.execute, planned, view.effects, view.calls, Except.mapError, ok_bind,
    List.foldlM_cons, List.foldlM_nil, bind_pure]

/-- An act on a stored schedule lands when its payment is covered. -/
theorem PlansAct.execute_eq_ok (view : PlansAct d tx.rows pl row effect source target asset)
    (planned : plan d.toPlatform ⟨d.me, tx.rows⟩ tx.ix = .ok pl)
    (window : pl.window.all (·.contains w.now) = true) (stored : w.shard row.accountId = store s)
    (acts : Acts effect s s') (enough : effect.paid ≤ w.balance (source, asset)) :
    d.execute w tx = .ok
      { w with
        shard := Function.update w.shard row.accountId (store s')
        balance := move w.balance (source, asset) (target, asset) effect.paid } := by
  have run : d.runEffect w.shard (row, effect) =
      .ok (Function.update w.shard row.accountId (store s')) :=
    Deployment.runEffect_eq_ok_iff.mpr ⟨view.mine, .inr ⟨s, s', stored, acts, rfl⟩⟩
  rw [view.execute planned, ensure_of window, run, Deployment.pay_eq_ok_iff.mpr ⟨enough, rfl⟩]
  rfl

/-- A refused effect is refused the same way wherever its shard is the same. -/
theorem runEffect_error_congr {shard shard' : AccountId → List U8} {why : Failure}
    (refused : d.runEffect shard (row, effect) = .error why)
    (same : shard' row.accountId = shard row.accountId) :
    d.runEffect shard' (row, effect) = .error why := by
  simp only [Deployment.runEffect, same] at refused ⊢
  revert refused
  cases ensure (row.programAccountId = d.me) Failure.foreignShard with
  | error _ => exact id
  | ok _ =>
    cases (apply effect (shard row.accountId)).mapError Failure.panicked with
    | error _ => exact id
    | ok post => cases post <;> exact fun refused => absurd refused (by simp)

/-- The escrows are good and the records valid; the block's time plays no part. -/
structure Sound (d : Deployment) (w : World) : Prop where
  valid : ∀ k s, w.shard k = store s → Valid s
  solvent : Solvent d w

theorem sound_of_reachable (h : d.Reachable CANCEL_WINDOW_MS w) : Sound d w where
  valid _ _ stored := ((kept_of_reachable h).record stored).1
  solvent := (solvent_of_reachable h).1

/-- An act pays no more than its record owes. -/
theorem PlansAct.paid_le_owedTo (view : PlansAct d tx.rows pl row effect source target asset)
    (acts : Acts effect s s') (valid : Valid s) :
    effect.paid ≤ owedTo (source, asset) (store s) := by
  rw [← view.drawn, acts.drawn_eq, owedTo_store valid]
  split
  · exact acts.paid_le_owed valid
  · exact Nat.le_refl 0

/-- In a sound chain an act lands exactly when it is in time and its effect is accepted: its
payment cannot fail. -/
theorem PlansAct.accepted_iff (view : PlansAct d tx.rows pl row effect source target asset)
    (planned : plan d.toPlatform ⟨d.me, tx.rows⟩ tx.ix = .ok pl) (sound : Sound d w)
    (stored : w.shard row.accountId = store s) :
    (∃ w', d.execute w tx = .ok w') ↔
      pl.window.all (·.contains w.now) = true ∧ ∃ s', Acts effect s s' := by
  constructor
  · rintro ⟨w', accepted⟩
    rw [view.execute planned] at accepted
    simp only [bind_eq_ok_iff, ensure_eq_ok_iff, exists_const] at accepted
    obtain ⟨window, shard, run, -⟩ := accepted
    obtain ⟨-, ⟨s₀, create, -⟩ | ⟨s₀, s', stored₀, acts, -⟩⟩ :=
      Deployment.runEffect_eq_ok_iff.mp run
    · exact absurd create (view.act s₀)
    · obtain rfl := store_injective (stored.symm.trans stored₀)
      exact ⟨window, s', acts⟩
  · rintro ⟨window, s', acts⟩
    obtain ⟨seed, rfl⟩ := view.escrow
    -- what the act pays is owed by its own record, and the escrow covers that
    have owed := view.paid_le_owedTo acts (sound.valid _ s stored)
    have covered := (sound.solvent seed asset).le row.accountId
    rw [stored] at covered
    exact ⟨_, view.execute_eq_ok planned window stored acts (Nat.le_trans owed covered)⟩

end Vesting

end Antumbra
