/-
# What a stored schedule has vested

The program's arithmetic over a stored schedule, panics included, and the rule it
computes: for a schedule whose terms passed the checks of a creation no branch
refuses, and the answer is the accrual of its kind, frozen at a cancellation.
-/

import Antumbra.Vesting.Schedule
import Antumbra.Vesting.Types

namespace Antumbra

open Antumbra.Math

namespace Vesting

/-! ### The program's arithmetic -/

def milestoneVested (s : VestingSchedule) : Except Panic U128 := do
  refuseUnless (s.tranches ≠ 0 ∧ s.tranches ≤ MAX_TRANCHES) E_MILESTONE_BAD
    "tranche count out of range"
  let done := BitVec.ofNat 128 (countOnes s.signalled)
  match mulDivFloor s.total done (s.tranches.setWidth 128) with
  | .ok amount => return amount
  | .error _ => refuse E_MILESTONE_BAD "milestone arithmetic overflowed"

/-- The library schedule of a record's kind. -/
def builtByKind (s : VestingSchedule) : Except Panic (Except CurveError Schedule) :=
  if s.kind = 0 then
    .ok (Schedule.cliffLinear s.start s.cliff s.end_ s.total)
  else if s.kind = 1 then
    .ok (Schedule.linear s.start s.end_ s.total)
  else
    refuse E_BAD_SCHEDULE "unknown schedule kind"

def rebuild (s : VestingSchedule) : Except Panic Schedule := do
  let built ← builtByKind s
  match built with
  | .ok sched =>
    return { sched with
      claimed := s.claimed
      cancelledAt := if s.cancelledAt ≠ 0 then some s.cancelledAt else sched.cancelledAt }
  | .error _ => refuse E_BAD_SCHEDULE "schedule parameters are degenerate"

/-- What has vested by `t`, frozen at a cancellation. -/
def vested (s : VestingSchedule) (t : U64) : Except Panic U128 :=
  if s.kind = 2 then
    milestoneVested s
  else do
    let sched ← rebuild s
    okOr .arithmetic (sched.vestedAt t)

/-- Vested by `t` and not yet claimed: the largest amount a claim at `t` may name. -/
def claimable (s : VestingSchedule) (t : U64) : Except Panic U128 := do
  let amount ← vested s t
  return saturatingSub amount s.claimed

/-- The exact refund a cancellation at `t` must name. -/
def unvested (s : VestingSchedule) (t : U64) : Except Panic U128 := do
  let live := { s with cancelledAt := 0 }
  let amount ← vested live t
  match checkedSub s.total amount with
  | some rest => return rest
  | none => refuse E_BAD_SCHEDULE "vested exceeds total"

def orCreator (a creator : AccountId) : AccountId :=
  if a = AccountId.default then creator else a

/-- The record a creation writes. -/
def initialState (creator escrow beneficiary : AccountId) (asset : Asset) (terms : Terms) :
    VestingSchedule where
  kind := terms.kind
  start := terms.start
  cliff := terms.cliff
  end_ := terms.end_
  total := terms.total
  claimed := 0
  lastSeen := 0
  beneficiary
  escrow
  creator
  cancelable := if terms.cancelable then 1 else 0
  transferable := if terms.transferable then 1 else 0
  cancelledAt := 0
  signalled := 0
  tranches := terms.tranches
  asset := asset.code.1
  tokenDefinition := asset.code.2
  refundTo := terms.refundTo
  cancelAuthority := orCreator terms.cancelAuthority creator
  milestoneAuthority := orCreator terms.milestoneAuthority creator

/-- The checks of a creation on the record's kind. -/
def checkKind (state : VestingSchedule) : Except Panic Unit :=
  if state.kind = 2 then do
    let _ ← milestoneVested state
    refuseUnless (0 < state.total) E_BAD_SCHEDULE "zero total"
  else do
    refuseUnless (state.tranches = 0) E_BAD_SCHEDULE "tranches on a time schedule"
    let _ ← rebuild state

/-- The state a creation writes, validated now rather than at the first claim. -/
def newState (creator escrow beneficiary : AccountId) (asset : Asset) (terms : Terms) :
    Except Panic VestingSchedule := do
  let state := initialState creator escrow beneficiary asset terms
  checkKind state
  refuseUnless (state.refundTo ≠ AccountId.default) E_WRONG_REFUND "no refund account"
  return state

/-! ### The rule -/

namespace VestingSchedule

variable {s : VestingSchedule}

/-- The freeze a record carries. -/
def freeze (s : VestingSchedule) : Option ℕ :=
  if s.cancelledAt = 0 then none else some s.cancelledAt.toNat

/-- What the record's kind earns by a time, freezes aside. -/
def base (s : VestingSchedule) : ℕ → ℕ :=
  if s.kind = 2 then
    fun _ => s.total.toNat * countOnes s.signalled / s.tranches.toNat
  else if s.kind = 0 then
    delayed s.cliff.toNat (Math.linear s.start.toNat s.end_.toNat s.total.toNat)
  else
    Math.linear s.start.toNat s.end_.toNat s.total.toNat

theorem base_of_cliffLinear (kind : s.kind = 0) :
    s.base = delayed s.cliff.toNat (Math.linear s.start.toNat s.end_.toNat s.total.toNat) := by
  rw [base, if_neg (by rw [kind]; decide), if_pos kind]

theorem base_of_linear (kind : s.kind = 1) :
    s.base = Math.linear s.start.toNat s.end_.toNat s.total.toNat := by
  rw [base, if_neg (by rw [kind]; decide), if_neg (by rw [kind]; decide)]

theorem base_of_milestones (kind : s.kind = 2) (t : ℕ) :
    s.base t = s.total.toNat * countOnes s.signalled / s.tranches.toNat := by
  rw [base, if_pos kind]

/-- What the record has earned by a time. -/
def accrued (s : VestingSchedule) : ℕ → ℕ := frozen s.freeze s.base

/-- The constraints of a creation, and that only existing milestones are signalled. -/
inductive WellFormed (s : VestingSchedule) : Prop
  | cliffLinear (kind : s.kind = 0) (start_le : s.start ≤ s.cliff) (cliff_lt : s.cliff < s.end_)
      (total : s.total ≠ 0) (tranches : s.tranches = 0) (signalled : s.signalled = 0)
  | linear (kind : s.kind = 1) (start_lt : s.start < s.end_) (total : s.total ≠ 0)
      (tranches : s.tranches = 0) (signalled : s.signalled = 0)
  | milestones (kind : s.kind = 2) (total : s.total ≠ 0) (some_tranches : s.tranches ≠ 0)
      (tranches_le : s.tranches ≤ MAX_TRANCHES)
      (signalled : ∀ i, s.tranches.toNat ≤ i → s.signalled.getLsbD i = false)

/-- Signalled milestones are at most all of them. -/
theorem WellFormed.base_le (h : s.WellFormed) (t : ℕ) : s.base t ≤ s.total.toNat := by
  unfold base
  split_ifs with milestones cliff
  · cases h with
    | cliffLinear kind => exact absurd (kind.symm.trans milestones) (by decide)
    | linear kind => exact absurd (kind.symm.trans milestones) (by decide)
    | milestones _ _ _ _ signalled => exact part_le (countOnes_le signalled)
  · exact delayed_le linear_le
  · exact linear_le

theorem base_mono (s : VestingSchedule) : Monotone s.base := by
  unfold base
  split_ifs
  · exact fun _ _ _ => Nat.le_refl _
  · exact delayed_mono linear_mono
  · exact linear_mono

theorem accrued_mono (s : VestingSchedule) : Monotone s.accrued := frozen_mono s.freeze s.base_mono

theorem WellFormed.accrued_le (h : s.WellFormed) (t : ℕ) : s.accrued t ≤ s.total.toNat := by
  unfold accrued frozen
  split
  · exact h.base_le _
  · exact h.base_le t

theorem accrued_of_live (live : s.cancelledAt = 0) : s.accrued = s.base := by
  funext t
  simp [accrued, freeze, live, frozen]

theorem accrued_of_cancelled (cancelled : s.cancelledAt ≠ 0) :
    s.accrued = frozen (some s.cancelledAt.toNat) s.base := by
  rw [accrued, freeze, if_neg cancelled]

/-- The time a record is read at: no later than its freeze. -/
def readTime (s : VestingSchedule) (t : U64) : U64 :=
  if s.cancelledAt = 0 then t else min t s.cancelledAt

theorem base_readTime (s : VestingSchedule) (t : U64) :
    s.base (s.readTime t).toNat = s.accrued t.toNat := by
  unfold readTime
  split
  · next live => rw [accrued_of_live live]
  · next cancelled => rw [accrued_of_cancelled cancelled, toNat_min, frozen]

end VestingSchedule

/-! ### The arithmetic computes the rule -/

variable {s : VestingSchedule}

theorem milestoneVested_eq_ok_iff {v : U128} :
    milestoneVested s = .ok v ↔
      (s.tranches ≠ 0 ∧ s.tranches ≤ MAX_TRANCHES) ∧
        v.toNat = s.total.toNat * countOnes s.signalled / s.tranches.toNat := by
  have done : (BitVec.ofNat 128 (countOnes s.signalled)).toNat = countOnes s.signalled := by
    have := BitVec.toNat_cpop_le s.signalled
    rw [BitVec.toNat_ofNat, Nat.mod_eq_of_lt]
    unfold countOnes
    omega
  have parts : (s.tranches.setWidth 128).toNat = s.tranches.toNat := by
    have := s.tranches.isLt
    rw [BitVec.toNat_setWidth, Nat.mod_eq_of_lt (by omega)]
  simp only [milestoneVested, bind_eq_ok_iff, refuseUnless_eq_ok_iff]
  constructor
  · rintro ⟨_, range, answer⟩
    split at answer
    · next amount computed =>
      cases answer
      rw [mulDivFloor_eq_ok_iff, done, parts] at computed
      exact ⟨range, computed.2⟩
    · exact absurd answer (by simp)
  · rintro ⟨range, value⟩
    refine ⟨(), range, ?_⟩
    have computed : mulDivFloor s.total (BitVec.ofNat 128 (countOnes s.signalled))
        (s.tranches.setWidth 128) = .ok v := by
      rw [mulDivFloor_eq_ok_iff, done, parts, toNat_pos_iff, parts]
      refine ⟨?_, value⟩
      rw [Nat.pos_iff_ne_zero]
      exact fun none => range.1 (word_ext none)
    rw [computed]
    rfl

/-- The schedule a time-based record is rebuilt as. -/
def rebuilt (s : VestingSchedule) (kind : Kind) (cliff : U64) : Schedule :=
  { Schedule.created kind s.start cliff s.end_ s.total [] with
    claimed := s.claimed
    cancelledAt := if s.cancelledAt ≠ 0 then some s.cancelledAt else none }

theorem rebuild_of_cliffLinear (kind : s.kind = 0) (start_le : s.start ≤ s.cliff)
    (cliff_lt : s.cliff < s.end_) (total : s.total ≠ 0) :
    rebuild s = .ok (rebuilt s .cliffLinear s.cliff) := by
  simp only [rebuild, builtByKind, kind, if_true, ok_bind,
    Schedule.cliffLinear_eq_ok total start_le cliff_lt]
  rfl

theorem rebuild_of_linear (kind : s.kind = 1) (start_lt : s.start < s.end_) (total : s.total ≠ 0) :
    rebuild s = .ok (rebuilt s .linear s.start) := by
  simp only [rebuild, builtByKind, kind, show (1 : U8) ≠ 0 by decide, if_true, if_false, ok_bind,
    Schedule.linear_eq_ok total start_lt]
  rfl

/-- A rebuilt schedule reads its accrual at the record's time. -/
theorem readTime_rebuilt (s : VestingSchedule) (kind : Kind) (cliff t : U64) :
    (rebuilt s kind cliff).readTime t = s.readTime t := by
  unfold rebuilt Schedule.readTime VestingSchedule.readTime
  by_cases live : s.cancelledAt = 0
  · simp only [live, ne_eq, not_true_eq_false, if_false, if_true]
  · simp only [live, ne_eq, not_false_eq_true, if_true, if_false]

/-- What has vested is the rule's value: no branch refuses. -/
theorem vested_eq_ok_iff (h : s.WellFormed) {t : U64} {v : U128} :
    vested s t = .ok v ↔ v.toNat = s.accrued t.toNat := by
  -- a frozen rule is the base rule at the read time, which is how the program computes it
  rw [← s.base_readTime]
  cases h with
  | cliffLinear kind start_le cliff_lt total =>
    have timed : s.kind ≠ 2 := by rw [kind]; decide
    have value : vested s t =
        .ok (if s.readTime t < s.cliff then 0
          else linearBetween s.start s.end_ (s.readTime t) s.total) := by
      rw [vested, if_neg timed, rebuild_of_cliffLinear kind start_le cliff_lt total, ok_bind,
        okOr_eq_ok_iff]
      simp only [Schedule.vestedAt, readTime_rebuilt]
      simp only [rebuilt, Schedule.created]
      rfl
    rw [value, Except.ok.injEq, ← BitVec.toNat_inj, eq_comm, VestingSchedule.base, if_neg timed,
      if_pos kind, delayed]
    simp only [BitVec.lt_def]
    split
    · rfl
    · rw [toNat_linearBetween]
  | linear kind start_lt total =>
    have timed : s.kind ≠ 2 := by rw [kind]; decide
    have noCliff : s.kind ≠ 0 := by rw [kind]; decide
    have value : vested s t = .ok (linearBetween s.start s.end_ (s.readTime t) s.total) := by
      rw [vested, if_neg timed, rebuild_of_linear kind start_lt total, ok_bind, okOr_eq_ok_iff]
      simp only [Schedule.vestedAt, readTime_rebuilt]
      simp only [rebuilt, Schedule.created]
    rw [value, Except.ok.injEq, ← BitVec.toNat_inj, eq_comm, toNat_linearBetween,
      VestingSchedule.base, if_neg timed, if_neg noCliff]
  | milestones kind total some_tranches tranches_le =>
    rw [vested, if_pos kind, milestoneVested_eq_ok_iff,
      and_iff_right (And.intro some_tranches tranches_le), VestingSchedule.base, if_pos kind]

theorem exists_vested (h : s.WellFormed) (t : U64) :
    ∃ v, vested s t = .ok v ∧ v.toNat = s.accrued t.toNat := by
  have fits : s.accrued t.toNat < 2 ^ 128 := Nat.lt_of_le_of_lt (h.accrued_le _) s.total.isLt
  have value : (BitVec.ofNat 128 (s.accrued t.toNat)).toNat = s.accrued t.toNat := by
    rw [BitVec.toNat_ofNat, Nat.mod_eq_of_lt fits]
  exact ⟨_, (vested_eq_ok_iff h).mpr value, value⟩

/-- What can be claimed is what has been earned beyond what was claimed. -/
theorem claimable_eq_ok_iff (h : s.WellFormed) {t : U64} {v : U128} :
    claimable s t = .ok v ↔ v.toNat = s.accrued t.toNat - s.claimed.toNat := by
  obtain ⟨amount, computed, value⟩ := exists_vested h t
  rw [claimable, computed, ok_bind, pure_eq_ok, Except.ok.injEq, ← BitVec.toNat_inj,
    toNat_saturatingSub, value, eq_comm]

theorem exists_claimable (h : s.WellFormed) (t : U64) : ∃ v, claimable s t = .ok v := by
  obtain ⟨amount, computed, -⟩ := exists_vested h t
  exact ⟨_, by rw [claimable, computed, ok_bind, pure_eq_ok]⟩

/-- What a cancellation refunds is what a live record has not earned. -/
theorem unvested_eq_ok_iff (h : s.WellFormed) (live : s.cancelledAt = 0) {t : U64} {v : U128} :
    unvested s t = .ok v ↔ v.toNat = s.total.toNat - s.accrued t.toNat := by
  obtain ⟨amount, computed, value⟩ := exists_vested h t
  -- reading a live record as not cancelled changes nothing
  have same : { s with cancelledAt := 0 } = s := by rw [← live]
  have le := h.accrued_le t.toNat
  have covered : checkedSub s.total amount = some (s.total - amount) :=
    if_pos (by rw [BitVec.le_def]; omega)
  simp only [unvested, same, computed, ok_bind, covered]
  rw [pure_eq_ok, Except.ok.injEq, ← BitVec.toNat_inj,
    toNat_sub_of_le (by rw [BitVec.le_def]; omega), value, eq_comm]

/-! ### Creation -/

/-- Rebuilding accepts only the two time-based kinds on proper parameters. -/
theorem of_rebuild_eq_ok {sched : Schedule} (h : rebuild s = .ok sched) :
    (s.kind = 0 ∧ s.start ≤ s.cliff ∧ s.cliff < s.end_ ∨ s.kind = 1 ∧ s.start < s.end_) ∧
      s.total ≠ 0 := by
  obtain ⟨built, byKind, accepted⟩ := bind_eq_ok_iff.mp h
  cases built with
  | error e => exact absurd accepted refuse_ne_ok
  | ok sched =>
    unfold builtByKind at byKind
    split_ifs at byKind with cliff straight
    · simp only [Except.ok.injEq, Schedule.cliffLinear] at byKind
      split_ifs at byKind with zero degenerate
      exact ⟨.inl ⟨cliff, degenerate⟩, zero⟩
    · simp only [Except.ok.injEq, Schedule.linear] at byKind
      split_ifs at byKind with degenerate
      rw [not_or, BitVec.not_le] at degenerate
      exact ⟨.inr ⟨straight, degenerate.2⟩, degenerate.1⟩
    · exact absurd byKind refuse_ne_ok

/-- A creation is accepted only on well-formed terms, and writes the initial record. -/
theorem newState_eq_ok {creator escrow beneficiary : AccountId} {asset : Asset} {terms : Terms}
    (h : newState creator escrow beneficiary asset terms = .ok s) :
    s = initialState creator escrow beneficiary asset terms ∧ s.WellFormed := by
  simp only [newState, bind_eq_ok_iff, refuseUnless_eq_ok_iff, pure_eq_ok, Except.ok.injEq] at h
  obtain ⟨_, checked, _, -, rfl⟩ := h
  refine ⟨rfl, ?_⟩
  unfold checkKind at checked
  split at checked
  · next kind =>
    simp only [bind_eq_ok_iff, milestoneVested_eq_ok_iff, refuseUnless_eq_ok_iff] at checked
    obtain ⟨_, ⟨⟨some_tranches, tranches_le⟩, -⟩, positive⟩ := checked
    exact .milestones kind (toNat_pos_iff.mpr positive) some_tranches tranches_le
      fun _ _ => BitVec.getLsbD_zero
  · simp only [bind_eq_ok_iff, refuseUnless_eq_ok_iff, pure_eq_ok] at checked
    obtain ⟨_, tranches, sched, rebuilt, -⟩ := checked
    obtain ⟨⟨kind, start_le, cliff_lt⟩ | ⟨kind, start_lt⟩, total⟩ := of_rebuild_eq_ok rebuilt
    · exact .cliffLinear kind start_le cliff_lt total tranches rfl
    · exact .linear kind start_lt total tranches rfl

/-! ### Sound terms -/

/-- The terms a schedule can have. -/
structure Terms.Sound (terms : Terms) : Prop where
  total : terms.total ≠ 0
  refundTo : terms.refundTo ≠ AccountId.default
  kind :
    terms.kind = 0 ∧ terms.start ≤ terms.cliff ∧ terms.cliff < terms.end_ ∧ terms.tranches = 0 ∨
      terms.kind = 1 ∧ terms.start < terms.end_ ∧ terms.tranches = 0 ∨
        terms.kind = 2 ∧ terms.tranches ≠ 0 ∧ terms.tranches ≤ MAX_TRANCHES

section Sound

variable {creator escrow who : AccountId} {asset : Asset} {terms : Terms}

theorem Terms.Sound.of_wellFormed
    (h : (initialState creator escrow who asset terms).WellFormed)
    (refundTo : terms.refundTo ≠ AccountId.default) : terms.Sound := by
  cases h with
  | cliffLinear kind start_le cliff_lt total tranches =>
    exact ⟨total, refundTo, .inl ⟨kind, start_le, cliff_lt, tranches⟩⟩
  | linear kind start_lt total tranches =>
    exact ⟨total, refundTo, .inr (.inl ⟨kind, start_lt, tranches⟩)⟩
  | milestones kind total some_tranches tranches_le =>
    exact ⟨total, refundTo, .inr (.inr ⟨kind, some_tranches, tranches_le⟩)⟩

theorem Terms.Sound.wellFormed (h : terms.Sound) :
    (initialState creator escrow who asset terms).WellFormed := by
  rcases h.kind with ⟨kind, start_le, cliff_lt, tranches⟩ | ⟨kind, start_lt, tranches⟩ |
    ⟨kind, some_tranches, tranches_le⟩
  · exact .cliffLinear kind start_le cliff_lt h.total tranches rfl
  · exact .linear kind start_lt h.total tranches rfl
  · exact .milestones kind h.total some_tranches tranches_le fun _ _ => BitVec.getLsbD_zero

/-- The checks of a creation pass on a well-formed record. -/
theorem checkKind_of_wellFormed (h : s.WellFormed) : checkKind s = .ok () := by
  cases h with
  | cliffLinear kind start_le cliff_lt total tranches =>
    have timed : s.kind ≠ 2 := by rw [kind]; decide
    simp only [checkKind, if_neg timed, bind_eq_ok_iff, refuseUnless_eq_ok_iff]
    exact ⟨(), tranches, _, rebuild_of_cliffLinear kind start_le cliff_lt total, rfl⟩
  | linear kind start_lt total tranches =>
    have timed : s.kind ≠ 2 := by rw [kind]; decide
    simp only [checkKind, if_neg timed, bind_eq_ok_iff, refuseUnless_eq_ok_iff]
    exact ⟨(), tranches, _, rebuild_of_linear kind start_lt total, rfl⟩
  | milestones kind total some_tranches tranches_le signalled =>
    obtain ⟨v, computed, -⟩ :=
      exists_vested (.milestones kind total some_tranches tranches_le signalled) 0
    rw [vested, if_pos kind] at computed
    simp only [checkKind, if_pos kind, bind_eq_ok_iff, refuseUnless_eq_ok_iff]
    exact ⟨v, computed, toNat_pos_iff.mp total⟩

/-- A creation is accepted on sound terms and on no others. -/
theorem newState_eq_ok_iff :
    newState creator escrow who asset terms = .ok s ↔
      terms.Sound ∧ s = initialState creator escrow who asset terms := by
  constructor
  · intro h
    obtain ⟨same, wellFormed⟩ := newState_eq_ok h
    obtain ⟨_, -, rest⟩ := bind_eq_ok_iff.mp h
    obtain ⟨_, refundTo, -⟩ := bind_eq_ok_iff.mp rest
    exact ⟨.of_wellFormed (same ▸ wellFormed) (refuseUnless_eq_ok_iff.mp refundTo), same⟩
  · rintro ⟨sound, rfl⟩
    simp only [newState, bind_eq_ok_iff, refuseUnless_eq_ok_iff, pure_eq_ok]
    exact ⟨(), checkKind_of_wellFormed sound.wellFormed, (), sound.refundTo, trivial⟩

end Sound

/-! ### A sample -/

namespace Sample

def account (n : U8) : AccountId := ⟨List.Vector.replicate 32 n⟩

/-- 600 units over thirty minutes, cancelable and transferable by their creator. -/
def terms : Terms where
  kind := 1
  start := 1700000000000
  cliff := 1700000000000
  end_ := 1700001800000
  total := 600
  tranches := 0
  cancelable := true
  transferable := true
  cancelAuthority := AccountId.default
  milestoneAuthority := AccountId.default
  refundTo := account 0xAA

/-- The sample's record under an escrow. -/
def record (escrow : AccountId) : VestingSchedule :=
  initialState (account 1) escrow (account 2) .native terms

theorem newState_record (escrow : AccountId) :
    newState (account 1) escrow (account 2) .native terms = .ok (record escrow) := by
  rfl

/-- Two minutes in, a fifteenth has vested. -/
example : vested (record (account 4)) 1700000120000 = .ok 40 := by decide +kernel

end Sample

end Vesting

end Antumbra
