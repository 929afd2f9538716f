/-
# The weight schedule of a pool

A pool's token weight slides from one end to the other between two timestamps. Nothing is
stored and refreshed: the weight is computed from the clock at every call, in one of two
branches by the direction it slides in. Both branches are one interpolation rounded toward
the starting weight, so the weight never leaves its ends and never turns back.
-/

import Antumbra.Math.Interpolation
import Antumbra.Weighted.Weighted

namespace Antumbra

open Antumbra.Math

namespace Weighted

/-- The token weight at `now`, moving in a straight line from `wStart` to `wEnd`. -/
def weightAt (wStart wEnd : U128) (tStart tEnd now : U64) : Except CurveError U128 :=
  if tEnd ≤ tStart then
    .error .zeroAmount
  else if now ≤ tStart then
    .ok wStart
  else if tEnd ≤ now then
    .ok wEnd
  else
    let elapsed := (now - tStart).setWidth 128
    let span := (tEnd - tStart).setWidth 128
    if wStart ≤ wEnd then do
      let delta ← mulDivFloor (wEnd - wStart) elapsed span
      okOr .overflow (checkedAdd wStart delta)
    else do
      let delta ← mulDivFloor (wStart - wEnd) elapsed span
      okOr .overflow (checkedSub wStart delta)

variable {wStart wEnd : U128} {tStart tEnd now now' : U64}

/-- The steps of the schedule that are behind at `now`: none before it starts, all of them
after it ends. -/
def elapsedAt (tStart tEnd now : U64) : ℕ :=
  min (now.toNat - tStart.toNat) (tEnd.toNat - tStart.toNat)

theorem elapsedAt_le : elapsedAt tStart tEnd now ≤ tEnd.toNat - tStart.toNat := min_le_right _ _

theorem elapsedAt_early (h : now ≤ tStart) : elapsedAt tStart tEnd now = 0 := by
  rw [BitVec.le_def] at h
  unfold elapsedAt
  omega

theorem elapsedAt_late (h : tEnd ≤ now) :
    elapsedAt tStart tEnd now = tEnd.toNat - tStart.toNat := by
  rw [BitVec.le_def] at h
  unfold elapsedAt
  omega

theorem elapsedAt_mono (h : now ≤ now') :
    elapsedAt tStart tEnd now ≤ elapsedAt tStart tEnd now' := by
  rw [BitVec.le_def] at h
  unfold elapsedAt
  omega

/-- A share of a distance is never refused. -/
theorem exists_share (distance : U128) {elapsed span : U128} (some_span : span ≠ 0)
    (h : elapsed ≤ span) :
    ∃ delta, mulDivFloor distance elapsed span = .ok delta ∧
      delta.toNat = distance.toNat * elapsed.toNat / span.toNat ∧
      delta.toNat ≤ distance.toNat := by
  have le := mul_div_le_of_le distance.toNat (BitVec.le_def.mp h)
  have := distance.isLt
  have value : (BitVec.ofNat 128 (distance.toNat * elapsed.toNat / span.toNat)).toNat =
      distance.toNat * elapsed.toNat / span.toNat := by
    rw [BitVec.toNat_ofNat, Nat.mod_eq_of_lt (by omega)]
  exact ⟨_, mulDivFloor_eq_ok_iff.mpr ⟨some_span, value⟩, value, by rwa [value]⟩

/-- The schedule computes the rounded interpolation, at every time and in both directions. -/
theorem weightAt_eq (schedule : tStart < tEnd) :
    ∃ w, weightAt wStart wEnd tStart tEnd now = .ok w ∧
      w.toNat = interpolate wStart.toNat wEnd.toNat (elapsedAt tStart tEnd now)
        (tEnd.toNat - tStart.toNat) := by
  have hw := wEnd.isLt
  have hspan : 0 < tEnd.toNat - tStart.toNat := by
    rw [BitVec.lt_def] at schedule
    omega
  unfold weightAt
  rw [if_neg (BitVec.not_le.mpr schedule)]
  by_cases early : now ≤ tStart
  · rw [if_pos early]
    exact ⟨wStart, rfl, by rw [elapsedAt_early early, interpolate_zero]⟩
  by_cases late : tEnd ≤ now
  · rw [if_neg early, if_pos late]
    exact ⟨wEnd, rfl, by rw [elapsedAt_late late, interpolate_self _ _ hspan]⟩
  rw [if_neg early, if_neg late]
  rw [BitVec.not_le] at early late
  -- within the schedule the elapsed steps are fewer than all of them
  have inside : elapsedAt tStart tEnd now = now.toNat - tStart.toNat := by
    rw [BitVec.lt_def] at early late
    unfold elapsedAt
    omega
  have elapsed : ((now - tStart).setWidth 128).toNat = now.toNat - tStart.toNat :=
    toNat_widened_sub (by decide) (BitVec.le_def.mp (BitVec.le_of_lt early))
  have span : ((tEnd - tStart).setWidth 128).toNat = tEnd.toNat - tStart.toNat :=
    toNat_widened_sub (by decide) (BitVec.le_def.mp (BitVec.le_of_lt schedule))
  have some_span : (tEnd - tStart).setWidth 128 ≠ 0 := by
    rw [toNat_pos_iff, span]
    exact hspan
  have le : (now - tStart).setWidth 128 ≤ (tEnd - tStart).setWidth 128 := by
    rw [BitVec.le_def, elapsed, span, ← inside]
    exact elapsedAt_le
  rw [inside]
  unfold interpolate
  by_cases rising : wStart ≤ wEnd
  · have distance := toNat_sub_of_le rising
    obtain ⟨delta, answer, value, moved⟩ := exists_share (wEnd - wStart) some_span le
    rw [distance, elapsed, span] at value
    rw [distance] at moved
    rw [if_pos rising, if_pos (BitVec.le_def.mp rising)]
    rw [BitVec.le_def] at rising
    refine ⟨wStart + delta, ?_, ?_⟩
    · rw [answer, ok_bind, checkedAdd, if_pos (by omega), okOr]
    · rw [BitVec.toNat_add_of_lt (by omega), value]
  · have falling := BitVec.le_of_lt (BitVec.not_le.mp rising)
    have distance := toNat_sub_of_le falling
    obtain ⟨delta, answer, value, moved⟩ := exists_share (wStart - wEnd) some_span le
    rw [distance, elapsed, span] at value
    have covered : delta ≤ wStart := by
      rw [BitVec.le_def]
      omega
    rw [if_neg rising, if_neg (by rwa [← BitVec.le_def])]
    refine ⟨wStart - delta, ?_, ?_⟩
    · rw [answer, ok_bind, checkedSub, if_pos covered, okOr]
    · rw [toNat_sub_of_le covered, value]

/-- The exact weight: the straight line between the two ends, level outside them. -/
def exactWeight (wStart wEnd : U128) (tStart tEnd now : U64) : ℚ :=
  interpolation wStart.toNat wEnd.toNat (elapsedAt tStart tEnd now) (tEnd.toNat - tStart.toNat)

/-- On every schedule that runs forward: the weight answers at every time; it is the
starting weight until the start and the final one from the end on, stays between the two,
only moves from the one to the other as time passes, and lags behind the exact weight by
less than a unit; with both ends at most one, so is the weight, and it has a complement. -/
theorem weightAt_sound {wStart wEnd : U128} {tStart tEnd : U64} (schedule : tStart < tEnd) :
    ∃ w : U64 → U128, ∀ now,
      weightAt wStart wEnd tStart tEnd now = .ok (w now) ∧
        (now ≤ tStart → w now = wStart) ∧ (tEnd ≤ now → w now = wEnd) ∧
        min wStart wEnd ≤ w now ∧ w now ≤ max wStart wEnd ∧
        (∀ now', now ≤ now' →
          (wStart ≤ wEnd → w now ≤ w now') ∧ (wEnd ≤ wStart → w now' ≤ w now)) ∧
        (wStart ≤ wEnd → ((w now).toNat : ℚ) ≤ exactWeight wStart wEnd tStart tEnd now ∧
          exactWeight wStart wEnd tStart tEnd now < (w now).toNat + 1) ∧
        (wEnd ≤ wStart → exactWeight wStart wEnd tStart tEnd now ≤ (w now).toNat ∧
          ((w now).toNat : ℚ) < exactWeight wStart wEnd tStart tEnd now + 1) ∧
        (wStart ≤ ONE → wEnd ≤ ONE → w now ≤ ONE ∧
          ∃ complement, checkedSub ONE (w now) = some complement ∧
            (w now).toNat + complement.toNat = ONE.toNat) := by
  choose w answer value using fun now =>
    @weightAt_eq wStart wEnd tStart tEnd now schedule
  have hspan : 0 < tEnd.toNat - tStart.toNat := by
    rw [BitVec.lt_def] at schedule
    omega
  have above (now) : min wStart wEnd ≤ w now := by
    rw [BitVec.le_def, toNat_min, value]
    exact min_le_interpolate elapsedAt_le
  have below (now) : w now ≤ max wStart wEnd := by
    rw [BitVec.le_def, toNat_max, value]
    exact interpolate_le_max elapsedAt_le
  refine ⟨w, fun now => ⟨answer now, fun early => word_ext ?_, fun late => word_ext ?_, above now,
    below now, fun now' later => ⟨fun rising => ?_, fun falling => ?_⟩, fun rising => ?_,
    fun falling => ?_, fun start_le end_le => ?_⟩⟩
  · rw [value, elapsedAt_early early, interpolate_zero]
  · rw [value, elapsedAt_late late, interpolate_self _ _ hspan]
  · rw [BitVec.le_def, value, value]
    exact interpolate_le_interpolate (BitVec.le_def.mp rising) (elapsedAt_mono later)
  · rw [BitVec.le_def, value, value]
    exact interpolate_le_interpolate' (BitVec.le_def.mp falling) (elapsedAt_mono later)
  · rw [value]
    exact interpolate_rounds_down (BitVec.le_def.mp rising) hspan
  · rw [value]
    exact interpolate_rounds_up (BitVec.le_def.mp falling) elapsedAt_le hspan
  · have le_one : w now ≤ ONE := by
      have ceiling := BitVec.le_def.mp (below now)
      rw [toNat_max] at ceiling
      rw [BitVec.le_def] at start_le end_le ⊢
      omega
    refine ⟨le_one, ONE - w now, if_pos le_one, ?_⟩
    rw [toNat_sub_of_le le_one]
    rw [BitVec.le_def] at le_one
    omega

theorem weightAt_sound_falling :
    ∃ w : U64 → U128, ∀ now,
      weightAt 990000000000000000 10000000000000000 1000 2000 now = .ok (w now) ∧
        (now ≤ 1000 → w now = 990000000000000000) ∧
        (2000 ≤ now → w now = 10000000000000000) ∧
        (∀ now', now ≤ now' → w now' ≤ w now) := by
  obtain ⟨w, sound⟩ := @weightAt_sound 990000000000000000 10000000000000000 1000 2000 (by decide)
  refine ⟨w, fun now => ?_⟩
  obtain ⟨answer, early, late, -, -, turns, -⟩ := sound now
  exact ⟨answer, early, late, fun now' later => (turns now' later).2 (by decide)⟩

end Weighted

end Antumbra
