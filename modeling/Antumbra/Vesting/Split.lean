/-
# The library's cancellation split

A cancellation divides the total into what was claimed, what the beneficiary may
still claim and what returns to the creator. The last two come from what has vested
at the time the cancellation names, the first from the claims before it, and nothing
orders those times: the three parts make the total exactly when no earlier claim
named a time at which more had vested.
-/

import Antumbra.Vesting.Latest

namespace Antumbra

open Antumbra.Math

namespace Schedule

/-- What a cancellation owes each party. -/
structure CancelSplit where
  alreadyClaimed : U128
  toBeneficiary : U128
  toCreator : U128
  deriving DecidableEq

/-- The three parts together, unless they leave the word. -/
def CancelSplit.sum (split : CancelSplit) : Option U128 := do
  let kept ← checkedAdd split.alreadyClaimed split.toBeneficiary
  checkedAdd kept split.toCreator

/-- Cancel at `now`: the split and the schedule after it. -/
def cancel (s : Schedule) (now : U64) : Option (Except CurveError CancelSplit × Schedule) :=
  if s.cancelable = false then
    some (.error .zeroAmount, s)
  else if s.cancelledAt.isSome then
    some (.error .zeroAmount, s)
  else do
    let vested ← s.vestedAt now
    match checkedSub s.total vested with
    | some toCreator =>
      return (.ok ⟨s.claimed, saturatingSub vested s.claimed, toCreator⟩,
        { s with cancelledAt := some now })
    | none => return (.error .overflow, s)

/-- An accepted cancellation splits by what has vested and freezes the schedule. -/
theorem eq_of_cancel {s after : Schedule} {now : U64} {split : CancelSplit}
    (h : s.cancel now = some (.ok split, after)) :
    s.cancelledAt = none ∧ after = { s with cancelledAt := some now } ∧
      ∃ vested, s.vestedAt now = some vested ∧ split.alreadyClaimed = s.claimed ∧
        split.toBeneficiary.toNat = vested.toNat - s.claimed.toNat ∧
        s.total.toNat = split.toCreator.toNat + vested.toNat := by
  unfold cancel at h
  split_ifs at h with permanent cancelled
  · exact absurd (congrArg Prod.fst (Option.some.inj h)) (by simp)
  · exact absurd (congrArg Prod.fst (Option.some.inj h)) (by simp)
  · cases vested : s.vestedAt now with
    | none => simp [vested] at h
    | some v =>
      simp only [vested, Option.bind_eq_bind, Option.bind_some] at h
      cases rest : checkedSub s.total v with
      | none => simp [rest] at h
      | some toCreator =>
        simp only [rest, Option.pure_def, Option.some.injEq, Prod.mk.injEq, Except.ok.injEq] at h
        obtain ⟨rfl, rfl⟩ := h
        refine ⟨by simpa using cancelled, rfl, v, rfl, rfl, toNat_saturatingSub _ _, ?_⟩
        exact checkedSub_eq_some_iff.mp rest

theorem CancelSplit.sum_eq_some_iff {split : CancelSplit} {total : U128} :
    split.sum = some total ↔
      split.alreadyClaimed.toNat + split.toBeneficiary.toNat + split.toCreator.toNat =
        total.toNat := by
  have htotal := total.isLt
  unfold CancelSplit.sum
  constructor
  · intro h
    obtain ⟨kept, first, second⟩ := Option.bind_eq_some_iff.mp h
    rw [checkedAdd_eq_some_iff] at first second
    omega
  · intro h
    have kept : (split.alreadyClaimed + split.toBeneficiary).toNat =
        split.alreadyClaimed.toNat + split.toBeneficiary.toNat := by
      rw [BitVec.toNat_add, Nat.mod_eq_of_lt (by omega)]
    refine Option.bind_eq_some_iff.mpr ⟨_, checkedAdd_eq_some_iff.mpr kept.symm, ?_⟩
    rw [checkedAdd_eq_some_iff, kept]
    exact h

/-- Once cancelled, no claim sees more than had vested at the cancellation. -/
theorem observed_le_of_cancelled {s : Schedule} {c : U64} (cancelled : s.cancelledAt = some c)
    (calls : List Call) : ∀ v ∈ s.observed calls, v ≤ s.base c.toNat := by
  intro v mem
  obtain ⟨earlier, now, -, -, rfl⟩ := exists_of_mem_observed mem
  -- a cancelled schedule takes no signals
  have refused (index : U32) : s.signalledAfter s.signalled index = s.signalled := by
    rw [signalledAfter, if_neg fun all => by simp [cancelled] at all]
  rw [List.foldl_fixed' refused, earned, cancelled]
  exact s.base_mono (Nat.min_le_right _ _)

/-- What was claimed is within what has vested at `now` exactly when every claim named a
time at which no more had vested. -/
theorem claimed_le_iff {s : Schedule} (sound : s.Sound) (nothing : s.claimed = 0)
    {calls : List Call} {tr : Trace} (ran : s.run calls = some tr) (now : U64) :
    tr.schedule.claimed.toNat ≤ tr.schedule.earned now.toNat ↔
      ∀ t ∈ claimTimes calls, tr.schedule.earned t.toNat ≤ tr.schedule.earned now.toNat := by
  have follows := follows_of_run sound ran
  have claimed : tr.schedule.claimed.toNat = (s.observed calls).foldl max 0 := by
    rw [follows.claimed, nothing]
    rfl
  by_cases milestone : s.kind = .milestone
  · -- time plays no part, and no claim saw more than is signalled now
    have constant : ∀ t, tr.schedule.earned t =
        signalledFrom ((signals calls).foldl s.signalledAfter s.signalled) 0 s.tranches := by
      intro t
      rw [follows.frame]
      exact earned_of_milestone (s := { s with
        claimed := tr.schedule.claimed
        cancelable := tr.schedule.cancelable }) milestone _ t
    simp only [constant, Nat.le_refl, implies_true, iff_true]
    rw [claimed]
    exact foldl_max_le_iff.mpr ⟨Nat.zero_le _, observed_le_of_milestone milestone calls⟩
  · have same : tr.schedule.earned = s.earned := by
      rw [follows.frame]
      unfold earned base
      cases kind : s.kind with
      | milestone => exact absurd kind milestone
      | cliffLinear => simp only
      | linear => simp only
    rw [claimed, same, observed_of_timeBased milestone, foldl_max_le_iff]
    simp only [Nat.zero_le, true_and, List.mem_map, forall_exists_index, and_imp,
      forall_apply_eq_imp_iff₂]

/-- No call changes the kind or the tranches. -/
theorem frame_of_call {tr tr' : Trace} {c : Call} (h : tr.call c = some tr') :
    tr'.schedule.kind = tr.schedule.kind ∧ tr'.schedule.tranches = tr.schedule.tranches := by
  cases c with
  | claim now =>
    cases vested : tr.schedule.vestedAt now with
    | none => simp [Trace.call, vested] at h
    | some v =>
      simp only [Trace.call, vested, claim_eq vested, Option.bind_eq_bind, Option.bind_some,
        Option.pure_def, Option.some.injEq] at h
      rw [← h]
      split <;> exact ⟨rfl, rfl⟩
  | signalMilestone index =>
    obtain ⟨⟨answer, schedule⟩, signalled, rest⟩ := Option.bind_eq_some_iff.mp h
    rw [Option.pure_def, Option.some_inj] at rest
    obtain ⟨x, after⟩ := eq_of_signalMilestone signalled
    rw [← rest, after]
    exact ⟨rfl, rfl⟩
  | makeNonCancelable =>
    rw [Trace.call, makeNonCancelable_eq, Option.some_inj] at h
    rw [← h]
    exact ⟨rfl, rfl⟩

theorem frame_of_foldlM {calls : List Call} {tr tr' : Trace}
    (ran : calls.foldlM Trace.call tr = some tr') :
    tr'.schedule.kind = tr.schedule.kind ∧ tr'.schedule.tranches = tr.schedule.tranches := by
  induction calls generalizing tr with
  | nil =>
    rw [List.foldlM_nil, Option.pure_def, Option.some_inj] at ran
    exact ran ▸ ⟨rfl, rfl⟩
  | cons c calls ih =>
    rw [List.foldlM_cons] at ran
    obtain ⟨mid, first, rest⟩ := Option.bind_eq_some_iff.mp ran
    obtain ⟨kind, tranches⟩ := frame_of_call first
    obtain ⟨kind', tranches'⟩ := ih rest
    exact ⟨kind'.trans kind, tranches'.trans tranches⟩

/-- After a cancellation nothing pays more than the beneficiary's part. -/
theorem paidInAll_le_toBeneficiary {s after : Schedule} (sound : s.Sound) {now : U64}
    {split : CancelSplit} (accepted : s.cancel now = some (.ok split, after)) {later : List Call}
    {tr : Trace} (ran : after.run later = some tr) : tr.paidInAll ≤ split.toBeneficiary.toNat := by
  obtain ⟨live, rfl, vested, computed, -, toBeneficiary, -⟩ := eq_of_cancel accepted
  rw [vestedAt_eq_some_iff sound, earned_of_live live] at computed
  have sound' := sound.update s.claimed s.cancelable s.signalled (some now)
  obtain ⟨-, -, claimed, paid⟩ := follows_of_run sound' ran
  have seen := observed_le_of_cancelled (s := { s with cancelledAt := some now }) rfl later
  -- claims after the freeze see at most what it split
  have final : tr.schedule.claimed.toNat ≤ max s.claimed.toNat vested.toNat := by
    rw [claimed, computed]
    exact foldl_max_le_iff.mpr
      ⟨Nat.le_max_left _ _, fun v mem => Nat.le_trans (seen v mem) (Nat.le_max_right _ _)⟩
  simp only [List.map_nil, List.sum_nil, Nat.zero_add] at paid
  rw [toBeneficiary, Trace.paidInAll]
  omega

/-- The three parts of an accepted cancellation make the total exactly when no claim
before it named a time at which more had vested than at the cancellation; and whatever
is called afterwards pays the beneficiary no more than the split says. -/
theorem cancel_sum_iff (s : Schedule) (fresh : s.Fresh) (calls : List Call) (tr : Trace)
    (ran : s.run calls = some tr) (now : U64) (split : CancelSplit) (after : Schedule)
    (accepted : tr.schedule.cancel now = some (.ok split, after)) :
    (split.sum = some s.total ↔
      ∀ t ∈ claimTimes calls, ∀ v w, tr.schedule.vestedAt t = some v →
        tr.schedule.vestedAt now = some w → v ≤ w) ∧
      ∀ later tr', after.run later = some tr' → tr'.paidInAll ≤ split.toBeneficiary.toNat := by
  obtain ⟨-, -, vested, computed, already, toBeneficiary, toCreator⟩ := eq_of_cancel accepted
  -- a cancellation that returned read its tranches within the bitmap
  have fits : s.tranches.length ≤ MAX_MILESTONES := by
    by_contra beyond
    rw [Nat.not_le] at beyond
    have kind := fresh.kind_of_tranches (List.ne_nil_of_length_pos (by omega))
    obtain ⟨kind', tranches'⟩ := frame_of_foldlM ran
    rw [vestedAt_beyond (kind'.trans kind) (by rw [tranches']; exact beyond)] at computed
    exact absurd computed (by simp)
  have sound := fresh.sound fits
  have follows := follows_of_run sound ran
  have sound' := follows.sound sound
  have total : tr.schedule.total = s.total := by rw [follows.frame]
  refine ⟨?_, fun later tr' ran' => paidInAll_le_toBeneficiary sound' accepted ran'⟩
  have value := (vestedAt_eq_some_iff sound').mp computed
  rw [CancelSplit.sum_eq_some_iff, already, toBeneficiary, ← total, toCreator]
  calc tr.schedule.claimed.toNat + (vested.toNat - tr.schedule.claimed.toNat) +
        split.toCreator.toNat = split.toCreator.toNat + vested.toNat
      ↔ tr.schedule.claimed.toNat ≤ tr.schedule.earned now.toNat := by omega
    _ ↔ ∀ t ∈ claimTimes calls, tr.schedule.earned t.toNat ≤ tr.schedule.earned now.toNat :=
        claimed_le_iff sound fresh.claimed ran now
    _ ↔ _ := by
        simp only [vestedAt_eq_some_iff sound', BitVec.le_def]
        refine forall₂_congr fun t _ => ⟨fun le v w hv hw => by rwa [hv, hw], fun le => ?_⟩
        obtain ⟨v, -, value'⟩ := exists_vestedAt sound' t
        rw [← value, ← value']
        exact le v vested value' value

/-- A hundred units over ten ticks, as the library builds them. -/
def hundred : Schedule := created .linear 0 0 10 100 []

theorem linear_hundred : linear 0 10 100 = .ok hundred := by decide

/-- Claimed at five, cancelled at seven. -/
theorem cancel_sum_iff_hundred :
    (⟨50, 20, 30⟩ : CancelSplit).sum = some 100 := by
  have split := cancel_sum_iff hundred (.inl (.inl ⟨0, 10, 100, linear_hundred⟩)) [.claim 5]
    ⟨{ hundred with claimed := 50 }, [50], [50]⟩ (by decide +kernel) 7 ⟨50, 20, 30⟩
    { hundred with claimed := 50, cancelledAt := some 7 } (by decide +kernel)
  refine split.1.mpr ?_
  intro t mem v w vested vested'
  have at5 : Schedule.vestedAt { hundred with claimed := 50 } 5 = some 50 := by decide +kernel
  have at7 : Schedule.vestedAt { hundred with claimed := 50 } 7 = some 70 := by decide +kernel
  rw [List.mem_singleton.mp mem] at vested
  cases at5.symm.trans vested
  cases at7.symm.trans vested'
  decide

/-- Claimed in full at ten and then cancelled at zero: the parts make twice the total. -/
theorem early_cancel_overpays :
    ∃ s tr split after, linear 0 10 100 = .ok s ∧ s.run [.claim 10] = some tr ∧
      tr.schedule.cancel 0 = some (.ok split, after) ∧ s.total = 100 ∧ split.sum = some 200 :=
  ⟨hundred, ⟨{ hundred with claimed := 100 }, [100], [100]⟩, ⟨100, 0, 100⟩,
    { hundred with claimed := 100, cancelledAt := some 0 }, linear_hundred, by decide +kernel,
    by decide +kernel, rfl, by decide +kernel⟩

end Schedule

end Antumbra
