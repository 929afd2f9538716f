/-
# What the client says of its transaction

The verdict compares the watched bytes before the first attempt and after the last poll. It
speaks of the client's own transaction as long as the polls tell what was executed and no
other accepted transaction hides or feigns the change that its own acceptance makes. Every
accepted transaction changes the bytes it is watched by, except a transfer of a position to
its present beneficiary.
-/

import Antumbra.Cli.Send
import Antumbra.Vesting.Batch

namespace Antumbra

open Antumbra.Math

namespace Vesting

variable {d : Deployment} {effect : Effect} {s s' : VestingSchedule} {tx : Transaction}
  {shard shard' : AccountId → List U8}

/-- An act that leaves the record as it is: a claim of nothing, or a transfer to the present
beneficiary. -/
def Effect.Idle (s : VestingSchedule) : Effect → Prop
  | .claim _ _ _ amount _ => amount = 0
  | .transferBeneficiary _ newBeneficiary => s.beneficiary = newBeneficiary
  | _ => False

/-- Every other act changes the record. -/
theorem Acts.ne (acts : Acts effect s s') (busy : ¬ effect.Idle s) : s' ≠ s := by
  intro same
  cases acts with
  | claim _ _ _ _ _ fits =>
    refine busy ?_
    have claimed := congrArg (fun s => s.claimed.toNat) same
    dsimp only at claimed
    rw [BitVec.toNat_add, Nat.mod_eq_of_lt fits] at claimed
    exact word_ext (by rw [toNat_zero]; omega)
  | cancel _ _ live =>
    have cancelledAt := congrArg (fun s => s.cancelledAt.toNat) same
    dsimp only at cancelledAt
    rw [live, toNat_max, toNat_zero] at cancelledAt
    have one : (1 : U64).toNat = 1 := rfl
    omega
  | makeNonCancelable _ hcancelable =>
    exact hcancelable (congrArg VestingSchedule.cancelable same).symm
  | transferBeneficiary =>
    exact busy (congrArg VestingSchedule.beneficiary same).symm
  | signalMilestone _ _ _ index_lt clear =>
    have signalled := congrArg (fun s => countOnes s.signalled) same
    dsimp only at signalled
    rw [countOnes_or_bitAt (index_lt_64 index_lt).1 clear] at signalled
    omega

/-- An effect changes the bytes it acts on. -/
theorem single_ne {row : AccountMeta}
    (run : [(row, effect)].foldlM d.runEffect shard = .ok shard')
    (busy : ∀ s, shard row.accountId = store s → ¬ effect.Idle s) :
    shard' row.accountId ≠ shard row.accountId := by
  simp only [List.foldlM_cons, List.foldlM_nil, bind_eq_ok_iff, pure_eq_ok, Except.ok.injEq,
    exists_eq_right] at run
  obtain ⟨-, ⟨s, -, empty, rfl⟩ | ⟨s, s', stored, acts, rfl⟩⟩ :=
    Deployment.runEffect_eq_ok_iff.mp run
  · rw [Function.update_self, empty]
    exact store_ne_nil s
  · rw [Function.update_self, stored]
    exact store_injective.ne (acts.ne (busy s stored))

/-- A transfer of a position to its present beneficiary. -/
def KeepsHolder (d : Deployment) (shard : AccountId → List U8) (ix : Instruction) : Prop :=
  ∃ scheduleId s, ix = .transferBeneficiary scheduleId s.beneficiary ∧
    shard (scheduleAccount d.toPlatform d.me scheduleId) = store s

/-- Any other accepted transaction changes the bytes it is watched by. -/
theorem settle_ne (settled : d.settle shard tx = .ok shard')
    (busy : ¬ KeepsHolder d shard tx.ix) :
    shard' (scheduleAccount d.toPlatform d.me (Cli.watched d.toPlatform tx.ix)) ≠
      shard (scheduleAccount d.toPlatform d.me (Cli.watched d.toPlatform tx.ix)) := by
  obtain ⟨rowList, ix⟩ := tx
  obtain ⟨pl, planned, run⟩ := Deployment.settle_eq_ok_iff.mp settled
  dsimp only at planned busy ⊢
  cases planned with
  | createSchedule hschedule =>
    rw [Cli.watched, ← hschedule.account]
    exact single_ne run fun s _ => id
  | @createScheduleBatch holding creator members batchId _ _ _ _ effects hlength _ _ _ _ _
      heffects =>
    -- the first member is created where there was nothing
    obtain ⟨row, s, mem, account, -⟩ := member_created hlength.2 heffects hlength.1
    have creations : ∀ planned ∈ effects, ∃ s, planned.2 = Effect.create s := fun planned hp => by
      obtain ⟨_, _, state, -, -, -, create⟩ := (planMembers_eq_ok hlength.2 heffects).2 planned hp
      exact ⟨state, create⟩
    change shard' (d.slot batchId 0) ≠ shard (d.slot batchId 0)
    rw [← account, creations_stored creations run mem, creations_fresh run mem]
    exact store_ne_nil s
  | claim custody positive =>
    rw [Cli.watched, ← custody.schedule.account]
    exact single_ne run fun s _ idle => absurd positive (idle ▸ BitVec.lt_irrefl _)
  | cancel custody =>
    rw [Cli.watched, ← custody.schedule.account]
    exact single_ne run fun s _ => id
  | makeNonCancelable hschedule =>
    rw [Cli.watched, ← hschedule.account]
    exact single_ne run fun s _ => id
  | transferBeneficiary hschedule =>
    rw [Cli.watched, ← hschedule.account]
    refine single_ne run fun s stored idle => busy ⟨_, s, ?_, hschedule.account ▸ stored⟩
    rw [show s.beneficiary = _ from idle]
  | signalMilestone hschedule =>
    rw [Cli.watched, ← hschedule.account]
    exact single_ne run fun s _ => id

end Vesting

namespace Cli

open Vesting (Transaction KeepsHolder settle_ne batchScheduleId)

/-- The verdict speaks of the client's own transaction, as far as it was executed by the time of
the last poll. -/
def Truthful (verdict : Verdict) (polled : List Execution) : Prop :=
  (verdict = .applied ↔ ∃ e ∈ polled, e.accepted = true) ∧
    (verdict = .reverted ↔ ∃ e ∈ polled, e.accepted = false) ∧
      (verdict = .notIncluded → polled = [])

/-- The bytes are still to be compared. -/
def Phase.Open : Phase → Prop
  | .reading false _ => False
  | .done _ _ => False
  | _ => True

/-- Nothing hides or feigns the client's own transaction. -/
def Job.Undisturbed (j : Job) (s : Session) : Event → Prop
  | .sent => s.executions = []
  | .missed => ∀ n i, s.phase = .polling n i → ∀ e ∈ s.executions, e.attempt ≠ i
  | .executed i =>
    (∀ n k, s.phase = .polling n k → j.limit ≤ n → k ≤ i) ∧
      (s.phase.Open → (j.chain.settle s.shard j.tx).isOk = true →
        ¬ KeepsHolder j.chain s.shard j.tx.ix)
  | .foreign tx => s.phase.Open →
    j.chain.settled s.shard tx j.account = s.shard j.account ∨
      (∃ e ∈ s.executions, e.accepted = true) ∧
        j.chain.settled s.shard tx j.account ≠ s.before
  | _ => True

variable {j : Job} {s t : Session} {e : Event} {phase : Phase}

/-- The bytes differ exactly when an own attempt was accepted. -/
def Job.Shows (j : Job) (s : Session) : Prop :=
  s.shard j.account ≠ s.before ↔ ∃ e ∈ s.executions, e.accepted = true

/-- What is known in each phase. -/
def Job.Stands (j : Job) (s : Session) : Phase → Prop
  | .sending _ => j.Shows s
  | .polling n i => j.Shows s ∧ (j.limit ≤ n → ∀ e ∈ s.executions, i ≤ e.attempt)
  | .reading true polled => j.Shows s ∧ s.executions = polled ∧ polled ≠ []
  | .reading false polled => polled = []
  | .done verdict polled => Truthful verdict polled

theorem Job.Stands.shows (stands : j.Stands s phase) (opened : phase.Open) : j.Shows s := by
  match phase, stands with
  | .sending _, shows => exact shows
  | .polling _ _, shows => exact shows.1
  | .reading true _, shows => exact shows.1
  | .reading false _, _ => exact absurd opened id
  | .done _ _, _ => exact absurd opened id

/-- Where no attempt is executed only the comparison can change. -/
theorem Job.Stands.frame (stands : j.Stands s phase) (same : t.executions = s.executions)
    (shows : phase.Open → j.Shows t) : j.Stands t phase := by
  match phase, stands with
  | .sending _, _ => exact shows trivial
  | .polling _ _, stands => exact ⟨shows trivial, same ▸ stands.2⟩
  | .reading true _, stands => exact ⟨shows trivial, same ▸ stands.2⟩
  | .reading false _, missed => exact missed
  | .done _ _, said => exact said

/-- The comparison is truthful where the one attempt executed was found. -/
theorem truthful_reportFound {polled : List Execution} (shows : j.Shows s)
    (found : s.executions = polled ∧ polled ≠ []) (once : s.executions.length ≤ 1) :
    Truthful (reportFound true s.before (s.shard j.account)) polled := by
  obtain ⟨rfl, some⟩ := found
  obtain ⟨e, single⟩ := List.length_eq_one_iff.mp
    (Nat.le_antisymm once (List.length_pos_iff.mpr some))
  rw [Job.Shows, single] at shows
  simp only [List.mem_singleton, exists_eq_left] at shows
  rw [single]
  unfold reportFound Truthful
  dsimp only
  split
  · next differ =>
    have accepted := shows.mp differ
    simp [accepted]
  · next same =>
    have refused : e.accepted = false := Bool.eq_false_iff.mpr fun yes => same (shows.mpr yes)
    simp [refused]

/-- An own attempt that is executed shows. -/
theorem Job.Shows.executed {i : ℕ} (shows : j.Shows s) (none : s.executions = [])
    (busy : (j.chain.settle s.shard j.tx).isOk = true →
      ¬ KeepsHolder j.chain s.shard j.tx.ix) :
    j.Shows
      { s with
        nonce := s.nonce + 1
        shard := j.chain.settled s.shard j.tx
        executions := s.executions ++ [⟨i, (j.chain.settle s.shard j.tx).isOk⟩] } := by
  have before : s.shard j.account = s.before := by
    by_contra differ
    obtain ⟨e, mem, -⟩ := shows.mp differ
    exact absurd mem (none ▸ List.not_mem_nil)
  unfold Job.Shows
  dsimp only
  rw [none, List.nil_append]
  simp only [List.mem_singleton, exists_eq_left]
  cases accepted : (j.chain.settle s.shard j.tx).isOk with
  | true =>
    have changed := settle_ne (Vesting.Deployment.settle_of_isOk accepted) (busy accepted)
    exact iff_of_true (before ▸ changed) rfl
  | false =>
    obtain ⟨why, refused⟩ := Vesting.Deployment.settle_of_not_isOk accepted
    refine iff_of_false (fun changed => changed ?_) Bool.false_ne_true
    rw [Vesting.Deployment.settled, refused]
    exact before

/-- One step keeps what is known in each phase. -/
theorem Job.Step.stands (step : j.Step s e t) (undisturbed : j.Undisturbed s e) (sound : s.Sound)
    (stands : j.Stands s s.phase) : j.Stands t t.phase := by
  cases step with
  | sent phase =>
    rw [phase] at stands
    exact ⟨stands, fun _ e _ => Nat.zero_le _⟩
  | rejected phase first =>
    -- nothing was sent, so nothing was executed
    have none : s.executions = [] := List.eq_nil_iff_forall_not_mem.mpr fun e mem => by
      have index := sound.sent e mem
      rw [first] at index
      exact Nat.not_lt_zero _ index
    change Truthful .rejected s.executions
    rw [none]
    simp [Truthful]
  | unsent phase later =>
    rw [phase] at stands
    exact ⟨stands, fun _ e _ => Nat.zero_le _⟩
  | found phase mem here =>
    rw [phase] at stands
    exact ⟨stands.1, rfl, List.ne_nil_of_mem mem⟩
  | @missed n i phase =>
    rw [phase] at stands
    obtain ⟨shows, ahead⟩ := stands
    have next : j.limit ≤ n → ∀ e ∈ s.executions, i + 1 ≤ e.attempt := fun last e mem =>
      Nat.lt_of_le_of_ne (ahead last e mem) (undisturbed n i phase e mem).symm
    change j.Stands s (j.afterMiss s n i)
    unfold Job.afterMiss
    split
    · exact ⟨shows, next⟩
    split
    · exact shows
    · next more last =>
      -- every attempt was polled, so an executed one would lie beyond the last
      refine List.eq_nil_iff_forall_not_mem.mpr fun e mem => ?_
      have beyond := next (not_lt.mp last) e mem
      have index := sound.sent e mem
      omega
  | @read found polled phase =>
    rw [phase] at stands
    cases found with
    | true => exact truthful_reportFound stands.1 stands.2 sound.once
    | false =>
      obtain rfl : polled = [] := stands
      simp [Job.Stands, Truthful, reportFound]
  | @executed i current =>
    have none := sound.executions_eq_nil current
    have shows (opened : s.phase.Open) := (stands.shows opened).executed (i := i) none
      (undisturbed.2 opened)
    dsimp only
    cases here : s.phase with
    | sending n => exact shows (by rw [here]; trivial)
    | polling n k =>
      refine ⟨shows (by rw [here]; trivial), fun last e mem => ?_⟩
      rw [none, List.nil_append, List.mem_singleton] at mem
      rw [mem]
      exact undisturbed.1 n k here last
    | reading found polled =>
      rw [here] at stands
      cases found with
      | true => exact absurd (stands.2.1.symm.trans none) stands.2.2
      | false => exact stands
    | done verdict polled =>
      rw [here] at stands
      exact stands
  | foreign tx =>
    refine stands.frame rfl fun opened => ?_
    have shows := stands.shows opened
    rcases undisturbed opened with same | ⟨accepted, differ⟩
    · unfold Job.Shows at shows ⊢
      rw [← shows]
      dsimp only
      rw [same]
    · exact iff_of_true differ accepted
  | other => exact stands.frame rfl fun opened => stands.shows opened

/-- In an undisturbed run the client says what became of its own transaction. -/
theorem Job.truthful (j : Job) {verdict : Verdict} {polled : List Execution}
    (run : Reachable j.Starts (j.Next j.Undisturbed) s) (said : s.phase = .done verdict polled) :
    Truthful verdict polled := by
  have inv : s.Sound ∧ j.Stands s s.phase := by
    refine Reachable.invariant (fun s => s.Sound ∧ j.Stands s s.phase) (fun s start => ?_) ?_ run
    · refine ⟨start.sound, ?_⟩
      rw [start.phase]
      exact iff_of_false (fun differ => differ start.before.symm) (by simp [start.executions])
    · rintro s t - ⟨sound, stands⟩ ⟨e, undisturbed, step⟩
      refine ⟨step.sound ?_ sound, step.stands undisturbed sound stands⟩
      cases e with
      | sent => exact undisturbed
      | _ => trivial
  have stands := inv.2
  rw [said] at stands
  exact stands

/-! ### A sample -/

namespace Sample

open Vesting.Sample (account batchId deployment)

/-- A claim of one unit more than the first beneficiary can claim. -/
def overclaim : Job where
  chain := deployment
  tx := deployment.claimTransaction (batchScheduleId deployment.toPlatform batchId 0) (some batchId)
    .native 301 1700000900000 (account 4) (account 2)
  limit := 3

end Sample

open Sample

/-- A claim that is sent, executed, accepted and found was applied. -/
theorem truthful_sample : ∃ s,
    Reachable partialClaim.Starts (partialClaim.Next partialClaim.Undisturbed) s ∧
      s.phase = .done .applied [⟨0, true⟩] ∧ Truthful .applied [⟨0, true⟩] := by
  have sent := Job.next (starts_opened partialClaim partialClaim.Undisturbed) (.sent rfl) rfl
  have executed := Job.next sent (@Job.Step.executed _ _ 0 rfl)
    ⟨fun n k here last => by obtain ⟨rfl, rfl⟩ := Phase.polling.inj here; exact Nat.le_refl 0,
      fun _ _ ⟨_, _, ix, _⟩ => Vesting.Instruction.noConfusion ix⟩
  have found := Job.next executed (.found rfl List.mem_cons_self rfl) trivial
  have read := Job.next found (.read rfl) trivial
  refine ⟨_, read, ?_, partialClaim.truthful read ?_⟩
  · decide +kernel
  · decide +kernel

/-- The client's claim is refused, the beneficiary's other one accepted: the client says that its
own was applied. -/
theorem refused_claim_applied : ∃ s,
    Reachable overclaim.Starts (overclaim.Next fun _ _ => True) s ∧
      s.phase = .done .applied [⟨0, false⟩] ∧ ¬ Truthful .applied [⟨0, false⟩] := by
  have sent := Job.next (starts_opened overclaim fun _ _ => True) (.sent rfl) trivial
  have executed := Job.next sent (@Job.Step.executed _ _ 0 rfl) trivial
  have foreign := Job.next executed (.foreign partialClaim.tx) trivial
  have found := Job.next foreign (.found rfl List.mem_cons_self rfl) trivial
  have read := Job.next found (.read rfl) trivial
  exact ⟨_, read, by decide +kernel, by simp [Truthful]⟩

end Cli

end Antumbra
