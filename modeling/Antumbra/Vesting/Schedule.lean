/-
# Vesting schedules

One vesting position and the amount it has earned by a time. Nothing is stored
that can go stale: the earned amount is computed from the schedule and the time.
Here the word arithmetic of linear accrual is shown to be the exact rounded-down
rule.
-/

import Antumbra.Core.MulDiv
import Antumbra.Math.Accrual
import Antumbra.Math.Bits

namespace Antumbra

open Antumbra.Math

/-- Milestone tranches are a bitmap of this many bits. -/
def MAX_MILESTONES : ℕ := 64

/-- Which accrual rule a schedule follows. -/
inductive Kind
  | cliffLinear
  | linear
  | milestone
  deriving DecidableEq, Repr

/-- One vesting position. -/
structure Schedule where
  kind : Kind
  start : U64
  /-- Only meaningful for `Kind.cliffLinear`. -/
  cliff : U64
  end_ : U64
  total : U128
  claimed : U128
  cancelable : Bool
  transferable : Bool
  cancelledAt : Option U64
  /-- Tranche amounts for `Kind.milestone`, empty otherwise. -/
  tranches : List U128
  /-- Bit `i` set means milestone `i` has been signalled. -/
  signalled : U64
  deriving DecidableEq

/-- Linear accrual from one time to another, saturating at both ends. -/
def linearBetween (from_ to_ now : U64) (total : U128) : U128 :=
  if now ≤ from_ then
    0
  else if to_ ≤ now then
    total
  else
    let elapsed := (now - from_).setWidth 128
    let span := (to_ - from_).setWidth 128
    match mulDivFloor total elapsed span with
    | .ok amount => amount
    | .error _ => 0

namespace Schedule

/-- A schedule at its creation: nothing claimed, cancelled or signalled. -/
def created (kind : Kind) (start cliff end_ : U64) (total : U128) (tranches : List U128) :
    Schedule where
  kind
  start
  cliff
  end_
  total
  claimed := 0
  cancelable := true
  transferable := false
  cancelledAt := none
  tranches
  signalled := 0

/-- A cliff and then linear accrual: `start ≤ cliff < end` and a positive total. -/
def cliffLinear (start cliff end_ : U64) (total : U128) : Except CurveError Schedule :=
  if total = 0 then
    .error .zeroAmount
  else if ¬ (start ≤ cliff ∧ cliff < end_) then
    .error .zeroAmount
  else
    .ok (created .cliffLinear start cliff end_ total [])

/-- Fully linear accrual: `start < end` and a positive total. -/
def linear (start end_ : U64) (total : U128) : Except CurveError Schedule :=
  if total = 0 ∨ end_ ≤ start then
    .error .zeroAmount
  else
    .ok (created .linear start start end_ total [])

/-- Milestone accrual: the total is the sum of the tranches, none of them zero. -/
def milestone (tranches : List U128) : Except CurveError Schedule :=
  if tranches = [] ∨ MAX_MILESTONES < tranches.length % 2 ^ 32 then
    .error .zeroAmount
  else do
    let total ← tranches.foldlM
      (fun total t =>
        if t = 0 then .error .zeroAmount
        else
          match checkedAdd total t with
          | some sum => .ok sum
          | none => .error CurveError.overflow)
      (0 : U128)
    return created .milestone 0 0 0 total tranches

/-- The sum of the signalled tranches; shifting past the bitmap or a sum beyond the
word stops the program. -/
def signalledSum (signalled : U64) (tranches : List U128) : Option U128 :=
  tranches.zipIdx.foldlM
    (fun sum (amount, i) =>
      if 64 ≤ i then none
      else if signalled &&& bitAt 64 i ≠ 0 then checkedAdd sum amount
      else some sum)
    0

/-- The time a schedule is read at: once cancelled, accrual stops at the cancellation. -/
def readTime (s : Schedule) (now : U64) : U64 :=
  match s.cancelledAt with
  | some c => min now c
  | none => now

/-- Amount vested at `now`. -/
def vestedAt (s : Schedule) (now : U64) : Option U128 :=
  let t := s.readTime now
  match s.kind with
  | .milestone => signalledSum s.signalled s.tranches
  | .linear => some (linearBetween s.start s.end_ t s.total)
  | .cliffLinear =>
    some (if t < s.cliff then 0 else linearBetween s.start s.end_ t s.total)

theorem cliffLinear_eq_ok {start cliff end_ : U64} {total : U128} (positive : total ≠ 0)
    (start_le : start ≤ cliff) (cliff_lt : cliff < end_) :
    cliffLinear start cliff end_ total = .ok (created .cliffLinear start cliff end_ total []) := by
  rw [cliffLinear, if_neg positive, if_neg (not_not.mpr ⟨start_le, cliff_lt⟩)]

theorem linear_eq_ok {start end_ : U64} {total : U128} (positive : total ≠ 0)
    (start_lt : start < end_) :
    linear start end_ total = .ok (created .linear start start end_ total []) := by
  rw [linear, if_neg (not_or.mpr ⟨positive, BitVec.not_le.mpr start_lt⟩)]

end Schedule

/-- Between the two ends the division never refuses: its quotient is below the total. -/
theorem mulDivFloor_between {from_ to_ now : U64} (total : U128) (after : from_ < now)
    (before : now < to_) :
    mulDivFloor total ((now - from_).setWidth 128) ((to_ - from_).setWidth 128) =
      .ok (BitVec.ofNat 128
        (total.toNat * (now.toNat - from_.toNat) / (to_.toNat - from_.toNat))) := by
  have hnow := now.isLt
  have hto := to_.isLt
  have htotal := total.isLt
  rw [BitVec.lt_def] at after before
  have elapsed : ((now - from_).setWidth 128).toNat = now.toNat - from_.toNat :=
    toNat_widened_sub (by decide) (by omega)
  have span : ((to_ - from_).setWidth 128).toNat = to_.toNat - from_.toNat :=
    toNat_widened_sub (by decide) (by omega)
  have quotient_le : total.toNat * (now.toNat - from_.toNat) / (to_.toNat - from_.toNat) ≤
      total.toNat := part_le (by omega)
  rw [mulDivFloor_eq_ok_iff, toNat_pos_iff, span, elapsed, BitVec.toNat_ofNat,
    Nat.mod_eq_of_lt (by omega)]
  exact ⟨by omega, rfl⟩

/-- The word arithmetic computes the rule: its division never refuses. -/
theorem toNat_linearBetween (from_ to_ now : U64) (total : U128) :
    (linearBetween from_ to_ now total).toNat =
      linear from_.toNat to_.toNat total.toNat now.toNat := by
  unfold linearBetween linear
  simp only [BitVec.le_def]
  split_ifs with early late
  · rfl
  · rfl
  · rw [mulDivFloor_between total (by rw [BitVec.lt_def]; omega) (by rw [BitVec.lt_def]; omega)]
    have quotient_le : total.toNat * (now.toNat - from_.toNat) / (to_.toNat - from_.toNat) ≤
        total.toNat := part_le (by omega)
    rw [BitVec.toNat_ofNat, Nat.mod_eq_of_lt (Nat.lt_of_le_of_lt quotient_le total.isLt)]

end Antumbra
