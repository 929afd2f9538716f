/-
# Claims and signals on a library schedule

The library's mutating calls, in any order and at any times. A claim pays the
difference to what has vested and never looks back, so what a schedule has paid is
the largest amount any claim saw. A call that stops the program is no answer.
-/

import Antumbra.Vesting.Position

namespace Antumbra

open Antumbra.Math

namespace Schedule

/-! ### The calls -/

/-- Vested and not yet claimed, never below zero. -/
def claimableAt (s : Schedule) (now : U64) : Option U128 := do
  let vested ← s.vestedAt now
  return saturatingSub vested s.claimed

/-- Claim everything currently claimable: the answer and the schedule after it. -/
def claim (s : Schedule) (now : U64) : Option (Except CurveError U128 × Schedule) := do
  let amount ← s.claimableAt now
  if amount = 0 then
    return (.error .zeroAmount, s)
  else
    match checkedAdd s.claimed amount with
    | some claimed => return (.ok amount, { s with claimed })
    | none => return (.error .overflow, s)

/-- Signal milestone `index`: refused a second time and outside the tranches. -/
def signalMilestone (s : Schedule) (index : U32) : Option (Except CurveError U128 × Schedule) :=
  if s.kind ≠ .milestone then
    some (.error .zeroAmount, s)
  else if s.cancelledAt.isSome then
    some (.error .zeroAmount, s)
  else
    match s.tranches[index.toNat]? with
    | none => some (.error .exceedsSaleReserve, s)
    | some amount =>
      -- shifting past the bitmap stops the program
      if 64 ≤ index.toNat then
        none
      else if s.signalled &&& bitAt 64 index.toNat ≠ 0 then
        some (.error .slippageExceeded, s)
      else
        some (.ok amount, { s with signalled := s.signalled ||| bitAt 64 index.toNat })

/-- Make a cancelable schedule permanent. -/
def makeNonCancelable (s : Schedule) : Except CurveError Unit × Schedule :=
  if s.cancelable then
    (.ok (), { s with cancelable := false })
  else
    (.error .zeroAmount, s)

/-- One call on a schedule. -/
inductive Call
  | claim (now : U64)
  | signalMilestone (index : U32)
  | makeNonCancelable
  deriving DecidableEq

/-- A schedule with what its claims returned and what had vested at each of them. -/
structure Trace where
  schedule : Schedule
  /-- The amounts the accepted claims returned, in order. -/
  paid : List U128
  /-- What had vested at every claim, accepted or refused. -/
  seen : List U128
  deriving DecidableEq

/-- One call, its refusal ignored. -/
def Trace.call (tr : Trace) : Call → Option Trace
  | .claim now => do
    let vested ← tr.schedule.vestedAt now
    let (answer, schedule) ← tr.schedule.claim now
    return {
      schedule
      paid := match answer with
        | .ok amount => tr.paid ++ [amount]
        | .error _ => tr.paid
      seen := tr.seen ++ [vested] }
  | .signalMilestone index => do
    let (_, schedule) ← tr.schedule.signalMilestone index
    return { tr with schedule }
  | .makeNonCancelable => some { tr with schedule := tr.schedule.makeNonCancelable.2 }

/-- A sequence of calls; `none` once one of them stopped the program. -/
def run (s : Schedule) (calls : List Call) : Option Trace :=
  calls.foldlM Trace.call { schedule := s, paid := [], seen := [] }

/-- The times the claims of a sequence name. -/
def claimTimes (calls : List Call) : List U64 :=
  calls.filterMap fun
    | .claim now => some now
    | _ => none

/-- The milestones a sequence signals, accepted or not. -/
def signals (calls : List Call) : List U32 :=
  calls.filterMap fun
    | .signalMilestone index => some index
    | _ => none

/-! ### What one call does -/

/-- A claim pays up to what has vested, or pays nothing and changes nothing. -/
theorem claim_eq {s : Schedule} {now : U64} {v : U128} (h : s.vestedAt now = some v) :
    s.claim now = some
      (if v ≤ s.claimed then (.error .zeroAmount, s)
      else (.ok (v - s.claimed), { s with claimed := v })) := by
  simp only [claim, claimableAt, h, Option.bind_eq_bind, Option.bind_some, Option.pure_def]
  by_cases le : v ≤ s.claimed
  -- nothing new has vested
  · have nothing : saturatingSub v s.claimed = 0 := by
      refine word_ext ?_
      rw [toNat_saturatingSub, toNat_zero]
      rw [BitVec.le_def] at le
      omega
    rw [if_pos nothing, if_pos le]
  · have amount : saturatingSub v s.claimed = v - s.claimed := by
      rw [BitVec.not_le] at le
      exact if_pos (BitVec.le_of_lt le)
    have some : saturatingSub v s.claimed ≠ 0 := by
      rw [toNat_pos_iff, toNat_saturatingSub]
      rw [BitVec.le_def] at le
      omega
    -- the claimed amount becomes what has vested, which is a word
    have added : checkedAdd s.claimed (v - s.claimed) = Option.some v := by
      rw [BitVec.le_def] at le
      rw [checkedAdd_eq_some_iff, toNat_sub_of_le (by rw [BitVec.le_def]; omega)]
      omega
    rw [if_neg some, if_neg le, amount, added]

/-- The bits after a signal of milestone `index`. -/
def signalledAfter (s : Schedule) (x : U64) (index : U32) : U64 :=
  if s.kind = .milestone ∧ s.cancelledAt = none ∧ index.toNat < s.tranches.length then
    x ||| bitAt 64 index.toNat
  else
    x

theorem or_bitAt_of_set {x : U64} {n : ℕ} (h : x.getLsbD n = true) : x ||| bitAt 64 n = x := by
  apply BitVec.eq_of_getLsbD_eq
  intro i _
  rw [BitVec.getLsbD_or, getLsbD_bitAt]
  by_cases same : i = n
  · subst same
    simp [h]
  · simp [same]

/-- A signal of no tranche of a live milestone schedule changes nothing. -/
theorem signalMilestone_refused {s : Schedule} {index : U32}
    (outside : ¬ (s.kind = .milestone ∧ s.cancelledAt = none ∧ index.toNat < s.tranches.length)) :
    ∃ e, s.signalMilestone index = some (.error e, s) := by
  unfold signalMilestone
  by_cases milestone : s.kind = .milestone
  · by_cases live : s.cancelledAt = none
    · have beyond : s.tranches.length ≤ index.toNat :=
        Nat.not_lt.mp fun inside => outside ⟨milestone, live, inside⟩
      rw [if_neg (not_not.mpr milestone), if_neg (by rw [live]; decide),
        List.getElem?_eq_none beyond]
      exact ⟨_, rfl⟩
    · rw [if_neg (not_not.mpr milestone), if_pos (Option.isSome_iff_ne_none.mpr live)]
      exact ⟨_, rfl⟩
  · rw [if_pos milestone]
    exact ⟨_, rfl⟩

/-- A signal answers, and sets at most its own bit. -/
theorem exists_signalMilestone {s : Schedule} (h : s.Sound) (index : U32) :
    ∃ answer, s.signalMilestone index =
      some (answer, { s with signalled := s.signalledAfter s.signalled index }) := by
  unfold signalledAfter
  by_cases inside : s.kind = .milestone ∧ s.cancelledAt = none ∧ index.toNat < s.tranches.length
  · rw [if_pos inside]
    obtain ⟨milestone, live, below⟩ := inside
    -- a tranche of a sound schedule has its bit in the bitmap
    have fits : index.toNat < 64 := by
      cases h with
      | cliffLinear kind => exact absurd (kind.symm.trans milestone) (by decide)
      | linear kind => exact absurd (kind.symm.trans milestone) (by decide)
      | milestone kind count => exact Nat.lt_of_lt_of_le below count
    rw [signalMilestone, if_neg (not_not.mpr milestone), if_neg (by rw [live]; decide),
      List.getElem?_eq_getElem below]
    simp only [if_neg (Nat.not_le.mpr fits), ne_eq, and_bitAt_eq_zero_iff fits]
    by_cases set : s.signalled.getLsbD index.toNat = true
    · rw [if_pos (by rw [set]; decide), or_bitAt_of_set set]
      exact ⟨_, rfl⟩
    · rw [if_neg (by rw [Bool.not_eq_true] at set; rw [set]; decide)]
      exact ⟨_, rfl⟩
  · rw [if_neg inside]
    obtain ⟨e, refused⟩ := signalMilestone_refused inside
    exact ⟨_, refused⟩

/-- Whatever a signal answers, it changes nothing but the bits. -/
theorem eq_of_signalMilestone {s after : Schedule} {index : U32} {answer : Except CurveError U128}
    (h : s.signalMilestone index = some (answer, after)) :
    ∃ x, after = { s with signalled := x } := by
  by_cases inside : s.kind = .milestone ∧ s.cancelledAt = none ∧ index.toNat < s.tranches.length
  · obtain ⟨milestone, live, below⟩ := inside
    rw [signalMilestone, if_neg (not_not.mpr milestone), if_neg (by rw [live]; decide),
      List.getElem?_eq_getElem below] at h
    simp only at h
    split_ifs at h
    · cases h
      exact ⟨s.signalled, rfl⟩
    · cases h
      exact ⟨_, rfl⟩
  · obtain ⟨e, refused⟩ := signalMilestone_refused inside
    rw [refused] at h
    cases h
    exact ⟨s.signalled, rfl⟩

theorem makeNonCancelable_eq (s : Schedule) :
    s.makeNonCancelable.2 = { s with cancelable := false } := by
  unfold makeNonCancelable
  split
  · rfl
  · next already =>
    rw [Bool.not_eq_true] at already
    rw [← already]

/-! ### What a sequence does -/

/-- What every claim of a sequence finds vested, by the accrual rule. -/
def observed (s : Schedule) : List Call → List ℕ
  | [] => []
  | .claim now :: calls => s.earned now.toNat :: s.observed calls
  | .signalMilestone index :: calls =>
    { s with signalled := s.signalledAfter s.signalled index }.observed calls
  | .makeNonCancelable :: calls => s.observed calls

/-- What was claimed and whether a cancellation is possible do not enter the rule. -/
theorem observed_update (s : Schedule) (claimed : U128) (cancelable : Bool) (calls : List Call) :
    { s with claimed, cancelable }.observed calls = s.observed calls := by
  induction calls generalizing s with
  | nil => rfl
  | cons c calls ih =>
    cases c with
    | claim now => exact congrArg (s.earned now.toNat :: ·) (ih s)
    | signalMilestone index =>
      exact ih { s with signalled := s.signalledAfter s.signalled index }
    | makeNonCancelable => exact ih s

/-- Soundness is about what neither a call nor a cancellation changes. -/
theorem Sound.update {s : Schedule} (h : s.Sound) (claimed : U128) (cancelable : Bool)
    (signalled : U64) (cancelledAt : Option U64) :
    { s with claimed, cancelable, signalled, cancelledAt }.Sound := by
  cases h with
  | cliffLinear kind start_le cliff_lt => exact .cliffLinear kind start_le cliff_lt
  | linear kind cliff start_lt => exact .linear kind cliff start_lt
  | milestone kind count total => exact .milestone kind count total

/-- The effect of a sequence of calls on a trace, as the rule has it. -/
structure Trace.Follows (tr : Trace) (calls : List Call) (tr' : Trace) : Prop where
  frame : tr'.schedule = { tr.schedule with
    claimed := tr'.schedule.claimed
    cancelable := tr'.schedule.cancelable
    signalled := (signals calls).foldl tr.schedule.signalledAfter tr.schedule.signalled }
  seen : tr'.seen.map BitVec.toNat = tr.seen.map BitVec.toNat ++ tr.schedule.observed calls
  claimed : tr'.schedule.claimed.toNat =
    (tr.schedule.observed calls).foldl max tr.schedule.claimed.toNat
  paid : (tr'.paid.map BitVec.toNat).sum + tr.schedule.claimed.toNat =
    (tr.paid.map BitVec.toNat).sum + tr'.schedule.claimed.toNat

/-- A claim raises the claimed amount to what has vested and pays the difference. -/
theorem exists_call_claim {tr : Trace} (h : tr.schedule.Sound) (now : U64) :
    ∃ tr', tr.call (.claim now) = some tr' ∧ tr.Follows [.claim now] tr' := by
  obtain ⟨v, vested, value⟩ := exists_vestedAt h now
  by_cases le : v ≤ tr.schedule.claimed
  -- a refused claim was for a time at which no more had vested than was claimed
  · have refused := claim_eq vested
    rw [if_pos le] at refused
    refine ⟨{ tr with seen := tr.seen ++ [v] }, ?_, rfl, ?_, ?_, rfl⟩
    · rw [Trace.call, vested, refused]
      rfl
    · simp only [observed, List.map_append, List.map_cons, List.map_nil, value]
    · rw [BitVec.le_def, value] at le
      exact (Nat.max_eq_left le).symm
  · have accepted := claim_eq vested
    rw [if_neg le] at accepted
    rw [BitVec.le_def] at le
    refine ⟨⟨{ tr.schedule with claimed := v }, tr.paid ++ [v - tr.schedule.claimed],
      tr.seen ++ [v]⟩, ?_, rfl, ?_, ?_, ?_⟩
    · rw [Trace.call, vested, accepted]
      rfl
    · simp only [observed, List.map_append, List.map_cons, List.map_nil, value]
    · change v.toNat = max tr.schedule.claimed.toNat (tr.schedule.earned now.toNat)
      omega
    · simp only [List.map_append, List.map_cons, List.map_nil, List.sum_append, List.sum_cons,
        List.sum_nil]
      rw [toNat_sub_of_le (by rw [BitVec.le_def]; omega)]
      omega

theorem exists_call {tr : Trace} (h : tr.schedule.Sound) (c : Call) :
    ∃ tr', tr.call c = some tr' ∧ tr.Follows [c] tr' := by
  cases c with
  | claim now => exact exists_call_claim h now
  | signalMilestone index =>
    obtain ⟨answer, signalled⟩ := exists_signalMilestone h index
    refine ⟨{ tr with schedule := { tr.schedule with
      signalled := tr.schedule.signalledAfter tr.schedule.signalled index } }, ?_, rfl,
      (List.append_nil _).symm, rfl, rfl⟩
    rw [Trace.call, signalled]
    rfl
  | makeNonCancelable =>
    refine ⟨{ tr with schedule := { tr.schedule with cancelable := false } }, ?_, rfl,
      (List.append_nil _).symm, rfl, rfl⟩
    rw [Trace.call, makeNonCancelable_eq]

theorem Trace.Follows.sound {tr tr' : Trace} {calls : List Call} (h : tr.Follows calls tr')
    (start : tr.schedule.Sound) : tr'.schedule.Sound := by
  rw [h.frame]
  exact start.update _ _ _ _

/-- What a sequence does is what its first call does, then the rest. -/
theorem Trace.Follows.cons {tr mid tr' : Trace} {c : Call} {calls : List Call}
    (first : tr.Follows [c] mid) (rest : mid.Follows calls tr') :
    tr.Follows (c :: calls) tr' := by
  -- no call changes what decides whether a signal counts
  have after : ∀ x, mid.schedule.signalledAfter x = tr.schedule.signalledAfter x := by
    intro x
    rw [first.frame]
    rfl
  have split : signals (c :: calls) = signals [c] ++ signals calls := by
    cases c <;> rfl
  have later : tr.schedule.observed (c :: calls) =
      tr.schedule.observed [c] ++ mid.schedule.observed calls := by
    rw [first.frame]
    cases c with
    | claim now =>
      exact congrArg (tr.schedule.earned now.toNat :: ·)
        (observed_update tr.schedule _ _ calls).symm
    | signalMilestone index =>
      exact (observed_update { tr.schedule with signalled := _ } _ _ calls).symm
    | makeNonCancelable => exact (observed_update tr.schedule _ _ calls).symm
  refine ⟨?_, ?_, ?_, ?_⟩
  · rw [rest.frame, first.frame, split, List.foldl_append]
    rfl
  · rw [rest.seen, first.seen, later, List.append_assoc]
  · rw [rest.claimed, first.claimed, later, List.foldl_append]
  · have := first.paid
    have := rest.paid
    omega

/-- Any sequence of calls answers, and does what the rule says. -/
theorem exists_follows (tr : Trace) (h : tr.schedule.Sound) (calls : List Call) :
    ∃ tr', calls.foldlM Trace.call tr = some tr' ∧ tr.Follows calls tr' := by
  induction calls generalizing tr with
  | nil => exact ⟨tr, rfl, rfl, (List.append_nil _).symm, rfl, rfl⟩
  | cons c calls ih =>
    obtain ⟨mid, called, first⟩ := exists_call h c
    obtain ⟨tr', ran, rest⟩ := ih mid (first.sound h)
    exact ⟨tr', by rw [List.foldlM_cons, called]; exact ran, first.cons rest⟩

end Schedule

end Antumbra
