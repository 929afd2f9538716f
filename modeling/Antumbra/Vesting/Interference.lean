/-
# Schedules that share an escrow do not interfere

In a sound chain an act is either refused wherever its own shard is the same, or it
lands wherever its own shard is the same and its escrow has what it pays. Two acts on
different schedules find each other's shards unchanged, and a solvent escrow has what
both pay: they commute, verdicts, bytes and balances.
-/

import Antumbra.Vesting.Single

namespace Antumbra

open Antumbra.Math

namespace Vesting

/-- The verdict on a transaction: accepted, or refused and why. -/
def Deployment.verdict (d : Deployment) (w : World) (tx : Transaction) : Except Failure Unit :=
  (d.execute w tx).map fun _ => ()

variable {d : Deployment} {w w' : World} {tx t₁ t₂ : Transaction} {k k₁ k₂ : AccountId}

/-- Refused wherever the time and one shard are the same. -/
def Inert (d : Deployment) (w : World) (tx : Transaction) (k : AccountId) : Prop :=
  ∃ why, ∀ w' : World, w'.now = w.now → w'.shard k = w.shard k → d.execute w' tx = .error why

/-- Lands wherever the time and one shard are the same and the payment is covered, which it is
by what that shard is owed. -/
structure Active (d : Deployment) (w : World) (tx : Transaction) (k : AccountId)
    (bytes : List U8) (source target : AccountId × Asset) (paid : ℕ) : Prop where
  escrow : ∃ seed, source.1 = d.forPublicPda d.me seed
  owed : paid ≤ owedTo source (w.shard k)
  lands : ∀ w' : World, w'.now = w.now → w'.shard k = w.shard k → paid ≤ w'.balance source →
    d.execute w' tx = .ok
      { w' with
        shard := Function.update w'.shard k bytes
        balance := move w'.balance source target paid }

theorem Instruction.IsAct.scheduleIds {p : Platform} {ix : Instruction} (act : ix.IsAct) :
    ∃ id, ix.scheduleIds p = [id] := by
  cases ix with
  | createSchedule => exact absurd act id
  | createScheduleBatch => exact absurd act id
  | claim scheduleId => exact ⟨scheduleId, rfl⟩
  | cancel scheduleId => exact ⟨scheduleId, rfl⟩
  | makeNonCancelable scheduleId => exact ⟨scheduleId, rfl⟩
  | transferBeneficiary scheduleId => exact ⟨scheduleId, rfl⟩
  | signalMilestone scheduleId => exact ⟨scheduleId, rfl⟩

/-- An act is one or the other, on the schedule it names. -/
theorem inert_or_active (sound : Sound d w) (act : tx.ix.IsAct) :
    ∃ k, (∃ id ∈ tx.ix.scheduleIds d.toPlatform, k = scheduleAccount d.toPlatform d.me id) ∧
      (Inert d w tx k ∨ ∃ bytes source target paid, Active d w tx k bytes source target paid) := by
  cases hplan : plan d.toPlatform ⟨d.me, tx.rows⟩ tx.ix with
  | error panic =>
    obtain ⟨id, ids⟩ := act.scheduleIds (p := d.toPlatform)
    refine ⟨_, ⟨id, ids ▸ List.mem_singleton_self id, rfl⟩, .inl ⟨.panicked panic, ?_⟩⟩
    intro w' _ _
    rw [Deployment.execute, hplan]
    rfl
  | ok pl =>
    obtain ⟨row, effect, source, target, asset, view, named⟩ :=
      (planned_of_plan_eq_ok hplan).act act
    refine ⟨row.accountId, named, ?_⟩
    -- first the time decides, then the one shard; the payment never does
    by_cases window : pl.window.all (·.contains w.now) = true
    · cases run : d.runEffect w.shard (row, effect) with
      | error why =>
        refine .inl ⟨why, fun w' now same => ?_⟩
        rw [view.execute hplan, now, ensure_of window, runEffect_error_congr run same]
        rfl
      | ok shard =>
        obtain ⟨-, ⟨s, create, -⟩ | ⟨s, s', stored, acts, -⟩⟩ :=
          Deployment.runEffect_eq_ok_iff.mp run
        · exact absurd create (view.act s)
        · refine .inr ⟨store s', (source, asset), (target, asset), effect.paid, view.escrow, ?_, ?_⟩
          · rw [stored]
            exact view.paid_le_owedTo acts (sound.valid _ s stored)
          · intro w' now same enough
            exact view.execute_eq_ok hplan (now ▸ window) (same.trans stored) acts enough
    · refine .inl ⟨.outsideWindow, fun w' now _ => ?_⟩
      rw [view.execute hplan, now, ensure_of_not window]
      rfl

/-! ### One transaction -/

theorem Inert.land (h : Inert d w tx k) : d.land w tx = w := by
  obtain ⟨why, refused⟩ := h
  rw [Deployment.land, refused w rfl rfl]

section Payments

variable {bytes bytes₁ bytes₂ : List U8} {source target source₁ target₁ source₂ target₂ :
  AccountId × Asset} {paid paid₁ paid₂ : ℕ}

/-- A solvent escrow has what an act pays. -/
theorem Active.enough (h : Active d w tx k bytes source target paid) (sound : Sound d w) :
    paid ≤ w.balance source := by
  obtain ⟨account, asset⟩ := source
  obtain ⟨seed, rfl⟩ := h.escrow
  exact Nat.le_trans h.owed ((sound.solvent seed asset).le k)

/-- A solvent escrow has what two acts on different schedules pay. -/
theorem Active.enough_for_both (h₁ : Active d w t₁ k₁ bytes₁ source₁ target₁ paid₁)
    (h₂ : Active d w t₂ k₂ bytes₂ source₂ target₂ paid₂) (sound : Sound d w)
    (different : k₁ ≠ k₂) (same : source₁ = source₂) : paid₁ + paid₂ ≤ w.balance source₁ := by
  subst same
  obtain ⟨account, asset⟩ := source₁
  obtain ⟨seed, rfl⟩ := h₁.escrow
  have pair := (sound.solvent seed asset).le_pair different
  exact Nat.le_trans (Nat.add_le_add h₁.owed h₂.owed) pair

theorem Active.land (h : Active d w tx k bytes source target paid) (sound : Sound d w) :
    d.land w tx =
      { w with
        shard := Function.update w.shard k bytes
        balance := move w.balance source target paid } :=
  Deployment.land_of_ok (h.lands w rfl rfl (h.enough sound))

/-- An act lands after another one on a different schedule. -/
theorem Active.execute_after (h₁ : Active d w t₁ k₁ bytes₁ source₁ target₁ paid₁)
    (h₂ : Active d w t₂ k₂ bytes₂ source₂ target₂ paid₂) (sound : Sound d w)
    (different : k₁ ≠ k₂) :
    d.execute (d.land w t₂) t₁ = .ok
      { w with
        shard := Function.update (Function.update w.shard k₂ bytes₂) k₁ bytes₁
        balance := move (move w.balance source₂ target₂ paid₂) source₁ target₁ paid₁ } := by
  rw [h₂.land sound]
  refine h₁.lands _ rfl (Function.update_of_ne different _ _) ?_
  refine le_move_source target₂ (h₂.enough sound) (h₁.enough sound) fun same => ?_
  rw [Nat.add_comm, same]
  exact h₁.enough_for_both h₂ sound different same.symm

end Payments

/-! ### Two transactions -/

/-- Whatever one act does, the shards of the other schedules stay as they were. -/
theorem land_frame (sound : Sound d w)
    (h : Inert d w tx k₁ ∨ ∃ bytes source target paid, Active d w tx k₁ bytes source target paid)
    (other : k ≠ k₁) : (d.land w tx).shard k = w.shard k := by
  rcases h with inert | ⟨bytes, source, target, paid, active⟩
  · rw [inert.land]
  · rw [active.land sound]
    exact Function.update_of_ne other _ _

/-- A refused act is refused after another one on a different schedule, for the same reason,
and leaves it alone. -/
theorem Inert.after (h₁ : Inert d w t₁ k₁) (sound : Sound d w)
    (h₂ : Inert d w t₂ k₂ ∨ ∃ bytes source target paid, Active d w t₂ k₂ bytes source target paid)
    (different : k₁ ≠ k₂) :
    d.execute (d.land w t₂) t₁ = d.execute w t₁ ∧ d.land (d.land w t₂) t₁ = d.land w t₂ := by
  obtain ⟨why, refused⟩ := h₁
  have again := refused (d.land w t₂) (Deployment.land_now w t₂) (land_frame sound h₂ different)
  refine ⟨by rw [again, refused w rfl rfl], ?_⟩
  rw [Deployment.land, again]

/-- Schedules that share an escrow do not interfere. From every reachable chain, in a block at
any time, two acts on different schedules are each accepted or refused, and refused for the
same reason, whichever runs first, and both orders end in the same bytes of every schedule
and the same balances of every account. -/
theorem no_interference (d : Deployment) (w : World) (now : U64) (t₁ t₂ : Transaction)
    (reachable : d.Reachable CANCEL_WINDOW_MS w) (act₁ : t₁.ix.IsAct) (act₂ : t₂.ix.IsAct)
    (different : ∀ i ∈ t₁.ix.scheduleIds d.toPlatform, ∀ j ∈ t₂.ix.scheduleIds d.toPlatform,
      scheduleAccount d.toPlatform d.me i ≠ scheduleAccount d.toPlatform d.me j) :
    let block : World := { w with now }
    d.verdict (d.land block t₂) t₁ = d.verdict block t₁ ∧
      d.verdict (d.land block t₁) t₂ = d.verdict block t₂ ∧
      d.land (d.land block t₁) t₂ = d.land (d.land block t₂) t₁ := by
  intro block
  have sound : Sound d block :=
    ⟨(sound_of_reachable reachable).valid, (sound_of_reachable reachable).solvent⟩
  obtain ⟨k₁, ⟨i, hi, hk₁⟩, outcome₁⟩ := inert_or_active sound act₁
  obtain ⟨k₂, ⟨j, hj, hk₂⟩, outcome₂⟩ := inert_or_active sound act₂
  have apart : k₁ ≠ k₂ := by
    rw [hk₁, hk₂]
    exact different i hi j hj
  unfold Deployment.verdict
  rcases outcome₁ with inert₁ | ⟨bytes₁, source₁, target₁, paid₁, active₁⟩
  · obtain ⟨same, nothing⟩ := inert₁.after sound outcome₂ apart
    rw [same, nothing, inert₁.land]
    exact ⟨rfl, rfl, rfl⟩
  · rcases outcome₂ with inert₂ | ⟨bytes₂, source₂, target₂, paid₂, active₂⟩
    · obtain ⟨same, nothing⟩ :=
        inert₂.after sound (.inr ⟨bytes₁, source₁, target₁, paid₁, active₁⟩) apart.symm
      rw [same, nothing, inert₂.land]
      exact ⟨rfl, rfl, rfl⟩
    · -- both land in either order, and their writes and payments commute
      have first := active₁.execute_after active₂ sound apart
      have second := active₂.execute_after active₁ sound apart.symm
      have alone₁ := active₁.lands block rfl rfl (active₁.enough sound)
      have alone₂ := active₂.lands block rfl rfl (active₂.enough sound)
      refine ⟨by rw [first, alone₁]; rfl, by rw [second, alone₂]; rfl, ?_⟩
      rw [Deployment.land_of_ok first, Deployment.land_of_ok second,
        Function.update_comm apart.symm,
        move_comm (active₁.enough sound) (active₂.enough sound)
          (active₁.enough_for_both active₂ sound apart)]

/-- A claim on one member of the sample batch and a cancellation of the other commute. -/
theorem no_interference_sample :
    Sample.deployment.land (Sample.deployment.land Sample.chain Sample.claim) Sample.cancel =
      Sample.deployment.land (Sample.deployment.land Sample.chain Sample.cancel) Sample.claim := by
  refine (no_interference Sample.deployment Sample.chain Sample.chain.now Sample.claim Sample.cancel
    Sample.reachable_chain trivial trivial ?_).2.2
  intro i hi j hj
  obtain rfl := List.mem_singleton.mp hi
  obtain rfl := List.mem_singleton.mp hj
  decide +kernel

end Vesting

end Antumbra
