/-
# What a library schedule earns

A schedule that a constructor accepted earns its total by the rule of its kind:
linearly, linearly after a cliff, or by signalled tranches, and nothing new after
a cancellation. The library's word arithmetic is shown to compute that rule at
every time, its division and its sum never refusing.
-/

import Antumbra.Vesting.Schedule
import Antumbra.Math.Fallible

namespace Antumbra

open Antumbra.Math

namespace Schedule

/-! ### Accepted schedules -/

/-- A schedule as the two time-based constructors return it. -/
def TimeBased (s : Schedule) : Prop :=
  (∃ start end_ total, linear start end_ total = .ok s) ∨
    ∃ start cliff end_ total, cliffLinear start cliff end_ total = .ok s

/-- A schedule as one of the three constructors returns it. -/
def Fresh (s : Schedule) : Prop :=
  s.TimeBased ∨ ∃ tranches, milestone tranches = .ok s

/-- What the constructors check of a schedule whose tranches fit the bitmap. -/
inductive Sound (s : Schedule) : Prop
  | cliffLinear (kind : s.kind = .cliffLinear) (start_le : s.start ≤ s.cliff)
      (cliff_lt : s.cliff < s.end_)
  | linear (kind : s.kind = .linear) (cliff : s.cliff = s.start) (start_lt : s.start < s.end_)
  | milestone (kind : s.kind = .milestone) (count : s.tranches.length ≤ MAX_MILESTONES)
      (total : (s.tranches.map BitVec.toNat).sum = s.total.toNat)

theorem eq_of_linear {start end_ : U64} {total : U128} {s : Schedule}
    (h : linear start end_ total = .ok s) :
    s = created .linear start start end_ total [] ∧ start < end_ := by
  unfold linear at h
  split_ifs at h with degenerate
  rw [not_or, BitVec.not_le] at degenerate
  exact ⟨(Except.ok.inj h).symm, degenerate.2⟩

theorem eq_of_cliffLinear {start cliff end_ : U64} {total : U128} {s : Schedule}
    (h : cliffLinear start cliff end_ total = .ok s) :
    s = created .cliffLinear start cliff end_ total [] ∧ start ≤ cliff ∧ cliff < end_ := by
  unfold cliffLinear at h
  split_ifs at h with zero degenerate
  exact ⟨(Except.ok.inj h).symm, degenerate⟩

theorem TimeBased.sound {s : Schedule} (h : s.TimeBased) : s.Sound := by
  obtain ⟨start, end_, total, accepted⟩ | ⟨start, cliff, end_, total, accepted⟩ := h
  · obtain ⟨rfl, start_lt⟩ := eq_of_linear accepted
    exact .linear rfl rfl start_lt
  · obtain ⟨rfl, start_le, cliff_lt⟩ := eq_of_cliffLinear accepted
    exact .cliffLinear rfl start_le cliff_lt

theorem TimeBased.live {s : Schedule} (h : s.TimeBased) : s.cancelledAt = none := by
  obtain ⟨_, _, _, accepted⟩ | ⟨_, _, _, _, accepted⟩ := h
  · rw [(eq_of_linear accepted).1]
    rfl
  · rw [(eq_of_cliffLinear accepted).1]
    rfl

/-- Adding up the tranches is exact, and finds a zero one. -/
theorem sum_of_foldlM {tranches : List U128} {sum total : U128}
    (h : tranches.foldlM
      (fun total t =>
        if t = 0 then Except.error CurveError.zeroAmount
        else
          match checkedAdd total t with
          | some sum => Except.ok sum
          | none => Except.error CurveError.overflow)
      sum = .ok total) :
    sum.toNat + (tranches.map BitVec.toNat).sum = total.toNat ∧ ∀ t ∈ tranches, t ≠ 0 := by
  induction tranches generalizing sum with
  | nil =>
    rw [List.foldlM_nil, pure_eq_ok, Except.ok.injEq] at h
    exact ⟨by rw [h]; rfl, fun _ mem => absurd mem List.not_mem_nil⟩
  | cons t tranches ih =>
    rw [List.foldlM_cons, bind_eq_ok_iff] at h
    obtain ⟨next, first, rest⟩ := h
    split_ifs at first with zero
    split at first
    · next added =>
      rw [Except.ok.injEq] at first
      subst first
      rw [checkedAdd_eq_some_iff] at added
      obtain ⟨value, nonzero⟩ := ih rest
      rw [List.map_cons, List.sum_cons, ← Nat.add_assoc, added]
      refine ⟨value, fun u mem => ?_⟩
      rcases List.mem_cons.mp mem with rfl | later
      · exact zero
      · exact nonzero u later
    · exact absurd first (by simp)

theorem eq_of_milestone {tranches : List U128} {s : Schedule} (h : milestone tranches = .ok s) :
    s = created .milestone 0 0 0 s.total tranches ∧
      tranches.length % 2 ^ 32 ≤ MAX_MILESTONES ∧
      (tranches.map BitVec.toNat).sum = s.total.toNat := by
  unfold milestone at h
  split_ifs at h with degenerate
  rw [not_or, Nat.not_lt] at degenerate
  -- the count is checked after its cast to 32 bits, the sum over the whole list
  obtain ⟨total, summed, accepted⟩ := bind_eq_ok_iff.mp h
  rw [pure_eq_ok, Except.ok.injEq] at accepted
  subst accepted
  have exact := (sum_of_foldlM summed).1
  rw [toNat_zero, Nat.zero_add] at exact
  exact ⟨rfl, degenerate.2, exact⟩

/-- An accepted schedule is sound unless its list of tranches is longer than the
bitmap, which the constructor's truncated length lets through. -/
theorem Fresh.sound {s : Schedule} (h : s.Fresh) (fits : s.tranches.length ≤ MAX_MILESTONES) :
    s.Sound := by
  obtain timed | ⟨tranches, accepted⟩ := h
  · exact timed.sound
  · obtain ⟨shape, -, total⟩ := eq_of_milestone accepted
    have kept : s.tranches = tranches := by rw [shape]; rfl
    exact .milestone (by rw [shape]; rfl) fits (by rw [kept]; exact total)

theorem Fresh.live {s : Schedule} (h : s.Fresh) : s.cancelledAt = none := by
  obtain timed | ⟨tranches, accepted⟩ := h
  · exact timed.live
  · rw [(eq_of_milestone accepted).1]
    rfl

/-! ### The rule -/

/-- The signalled part of tranches whose first one has number `i`. -/
def signalledFrom (signalled : U64) : ℕ → List U128 → ℕ
  | _, [] => 0
  | i, t :: tranches =>
    (if signalled.getLsbD i then t.toNat else 0) + signalledFrom signalled (i + 1) tranches

/-- What the schedule's kind earns by a time, freezes aside. -/
def base (s : Schedule) : ℕ → ℕ :=
  match s.kind with
  | .milestone => fun _ => signalledFrom s.signalled 0 s.tranches
  | .linear => Math.linear s.start.toNat s.end_.toNat s.total.toNat
  | .cliffLinear =>
    delayed s.cliff.toNat (Math.linear s.start.toNat s.end_.toNat s.total.toNat)

/-- What the schedule has earned by a time. -/
def earned (s : Schedule) : ℕ → ℕ := frozen (s.cancelledAt.map BitVec.toNat) s.base

theorem signalledFrom_le (signalled : U64) (i : ℕ) (tranches : List U128) :
    signalledFrom signalled i tranches ≤ (tranches.map BitVec.toNat).sum := by
  induction tranches generalizing i with
  | nil => exact Nat.le_refl 0
  | cons t tranches ih =>
    have rest := ih (i + 1)
    rw [signalledFrom, List.map_cons, List.sum_cons]
    split <;> omega

/-- Everything is earned once every tranche's bit is set. -/
theorem signalledFrom_eq_sum {signalled : U64} {i : ℕ} {tranches : List U128}
    (all : ∀ j, i ≤ j → j < i + tranches.length → signalled.getLsbD j = true) :
    signalledFrom signalled i tranches = (tranches.map BitVec.toNat).sum := by
  induction tranches generalizing i with
  | nil => rfl
  | cons t tranches ih =>
    rw [List.length_cons] at all
    rw [signalledFrom, List.map_cons, List.sum_cons, if_pos (all i (Nat.le_refl i) (by omega)),
      ih fun j above below => all j (by omega) (by omega)]

/-- More bits earn no less. -/
theorem signalledFrom_mono {x y : U64}
    (more : ∀ i, x.getLsbD i = true → y.getLsbD i = true) (i : ℕ) (tranches : List U128) :
    signalledFrom x i tranches ≤ signalledFrom y i tranches := by
  induction tranches generalizing i with
  | nil => exact Nat.le_refl 0
  | cons t tranches ih =>
    have rest := ih (i + 1)
    rw [signalledFrom, signalledFrom]
    by_cases set : x.getLsbD i = true
    · rw [if_pos set, if_pos (more i set)]
      omega
    · rw [if_neg set]
      omega

theorem base_mono (s : Schedule) : Monotone s.base := by
  unfold base
  split
  · exact fun _ _ _ => Nat.le_refl _
  · exact linear_mono
  · exact delayed_mono linear_mono

theorem earned_mono (s : Schedule) : Monotone s.earned := frozen_mono _ s.base_mono

theorem earned_of_live {s : Schedule} (live : s.cancelledAt = none) : s.earned = s.base := by
  rw [earned, live]
  rfl

theorem Sound.base_le {s : Schedule} (h : s.Sound) (t : ℕ) : s.base t ≤ s.total.toNat := by
  cases h with
  | cliffLinear kind start_le cliff_lt =>
    rw [base, kind]
    exact delayed_le linear_le
  | linear kind cliff start_lt =>
    rw [base, kind]
    exact linear_le
  | milestone kind count total =>
    rw [base, kind, ← total]
    exact signalledFrom_le s.signalled 0 s.tranches

theorem Sound.earned_le {s : Schedule} (h : s.Sound) (t : ℕ) : s.earned t ≤ s.total.toNat := by
  unfold earned frozen
  split
  · exact h.base_le _
  · exact h.base_le t

/-- The time a schedule is read at is its freeze. -/
theorem base_readTime (s : Schedule) (t : U64) :
    s.base (s.readTime t).toNat = s.earned t.toNat := by
  unfold readTime earned frozen
  cases s.cancelledAt with
  | none => rfl
  | some c => rw [toNat_min, Option.map_some]

/-! ### The words compute the rule -/

/-- Summing the signalled tranches within the bitmap never refuses. -/
theorem foldlM_signalled {signalled : U64} {i : ℕ} {tranches : List U128} {sum : U128}
    (count : i + tranches.length ≤ 64)
    (fits : sum.toNat + (tranches.map BitVec.toNat).sum < 2 ^ 128) :
    ∃ v, (tranches.zipIdx i).foldlM
      (fun sum (amount, i) =>
        if 64 ≤ i then none
        else if signalled &&& bitAt 64 i ≠ 0 then checkedAdd sum amount
        else some sum) sum = some v ∧
      v.toNat = sum.toNat + signalledFrom signalled i tranches := by
  induction tranches generalizing i sum with
  | nil => exact ⟨sum, rfl, rfl⟩
  | cons t tranches ih =>
    rw [List.length_cons] at count
    rw [List.map_cons, List.sum_cons] at fits
    rw [List.zipIdx_cons, List.foldlM_cons]
    -- inside the bitmap no shift is refused, and inside the total no sum
    simp only [if_neg (show ¬ 64 ≤ i by omega), ne_eq,
      and_bitAt_eq_zero_iff (show i < 64 by omega), signalledFrom]
    by_cases set : signalled.getLsbD i = true
    · rw [if_pos (by rw [set]; decide), if_pos set,
        checkedAdd_eq_some_iff_fits.mpr ⟨by omega, rfl⟩]
      have added : (sum + t).toNat = sum.toNat + t.toNat := by
        rw [BitVec.toNat_add, Nat.mod_eq_of_lt (by omega)]
      obtain ⟨v, folded, value⟩ := @ih (i + 1) (sum + t) (by omega) (by omega)
      exact ⟨v, folded, by omega⟩
    · rw [if_neg (by rw [Bool.not_eq_true] at set; rw [set]; decide), if_neg set]
      obtain ⟨v, folded, value⟩ := @ih (i + 1) sum (by omega) (by omega)
      exact ⟨v, folded, by omega⟩

/-- What has vested is the rule's value: no branch refuses. -/
theorem exists_vestedAt {s : Schedule} (h : s.Sound) (t : U64) :
    ∃ v, s.vestedAt t = some v ∧ v.toNat = s.earned t.toNat := by
  rw [← s.base_readTime]
  cases h with
  | cliffLinear kind start_le cliff_lt =>
    refine ⟨_, by rw [vestedAt, kind], ?_⟩
    rw [base, kind]
    simp only [delayed, BitVec.lt_def]
    split
    · rfl
    · exact toNat_linearBetween _ _ _ _
  | linear kind cliff start_lt =>
    refine ⟨_, by rw [vestedAt, kind], ?_⟩
    rw [base, kind]
    exact toNat_linearBetween _ _ _ _
  | milestone kind count total =>
    have htotal := s.total.isLt
    rw [vestedAt, kind, base, kind]
    -- the tranches add up to the total, which is a word
    obtain ⟨v, folded, value⟩ := @foldlM_signalled s.signalled 0 s.tranches 0
      (by rw [Nat.zero_add]; exact count) (by rw [toNat_zero, total]; omega)
    rw [toNat_zero, Nat.zero_add] at value
    exact ⟨v, folded, value⟩

theorem vestedAt_eq_some_iff {s : Schedule} (h : s.Sound) {t : U64} {v : U128} :
    s.vestedAt t = some v ↔ v.toNat = s.earned t.toNat := by
  obtain ⟨v', computed, value⟩ := exists_vestedAt h t
  rw [computed, Option.some_inj, ← BitVec.toNat_inj, value, eq_comm]

/-! ### Time-based accrual at full width -/

/-- A time-based schedule earns by its two ends, after its cliff. -/
theorem base_of_timeBased {s : Schedule} (h : s.TimeBased) {t : ℕ} :
    s.base t = delayed s.cliff.toNat
      (Math.linear s.start.toNat s.end_.toNat s.total.toNat) t := by
  obtain ⟨start, end_, total, accepted⟩ | ⟨start, cliff, end_, total, accepted⟩ := h
  · -- without a cliff nothing is earned before the start anyway
    rw [(eq_of_linear accepted).1]
    change Math.linear start.toNat end_.toNat total.toNat t =
      delayed start.toNat (Math.linear start.toNat end_.toNat total.toNat) t
    rw [delayed]
    by_cases early : t < start.toNat
    · rw [if_pos early, Math.linear, if_pos (Nat.le_of_lt early)]
    · rw [if_neg early]
  · rw [(eq_of_cliffLinear accepted).1]
    rfl

theorem TimeBased.order {s : Schedule} (h : s.TimeBased) :
    s.start ≤ s.cliff ∧ s.cliff < s.end_ := by
  obtain ⟨start, end_, total, accepted⟩ | ⟨start, cliff, end_, total, accepted⟩ := h
  · obtain ⟨rfl, start_lt⟩ := eq_of_linear accepted
    exact ⟨BitVec.le_refl _, start_lt⟩
  · obtain ⟨rfl, order⟩ := eq_of_cliffLinear accepted
    exact order

/-- Accrual over the whole range of times and totals: nothing up to the start and
before the cliff, the rounded-down part in between, the total from the end on; the
division is never refused, more time never earns less, and a cancellation reads the
schedule at the earlier of its instant and the time asked for. -/
theorem linear_accrual_exact (s : Schedule) (built : s.TimeBased) (t : U64) :
    ∃ v, s.vestedAt t = some v ∧ v ≤ s.total ∧
      (t ≤ s.start ∨ t < s.cliff → v = 0) ∧
      (s.end_ ≤ t → v = s.total) ∧
      (s.start < t → s.cliff ≤ t → t < s.end_ →
        v.toNat = s.total.toNat * (t.toNat - s.start.toNat) / (s.end_.toNat - s.start.toNat)) ∧
      (s.start < t → t < s.end_ → ∃ q, mulDivFloor s.total ((t - s.start).setWidth 128)
        ((s.end_ - s.start).setWidth 128) = .ok q) ∧
      (∀ t', t ≤ t' → ∃ v', s.vestedAt t' = some v' ∧ v ≤ v') ∧
      ∀ c, { s with cancelledAt := some c }.vestedAt t = s.vestedAt (min t c) := by
  obtain ⟨v, computed, value⟩ := exists_vestedAt built.sound t
  have le := built.sound.earned_le t.toNat
  rw [← value] at le
  refine ⟨v, computed, BitVec.le_def.mpr le, ?_, ?_, ?_, ?_, ?_, ?_⟩
  all_goals rw [earned_of_live built.live, base_of_timeBased built] at value
  -- up to the start, or before the cliff
  · intro early
    refine word_ext ?_
    rw [value, delayed, Math.linear, toNat_zero]
    rcases early with early | early
    · rw [if_pos (BitVec.le_def.mp early), ite_self]
    · rw [if_pos (BitVec.lt_def.mp early)]
  · intro late
    have order := built.order.2
    rw [BitVec.le_def] at late
    rw [BitVec.lt_def] at order
    have order' := BitVec.le_def.mp built.order.1
    refine word_ext ?_
    rw [value, delayed, Math.linear, if_neg (by omega), if_neg (by omega), if_pos late]
  · intro after past before
    rw [BitVec.lt_def] at after before
    rw [BitVec.le_def] at past
    rw [value, delayed, Math.linear, if_neg (by omega), if_neg (by omega), if_neg (by omega)]
  · intro after before
    exact ⟨_, mulDivFloor_between s.total after before⟩
  · intro t' later
    obtain ⟨v', computed', value'⟩ := exists_vestedAt built.sound t'
    refine ⟨v', computed', BitVec.le_def.mpr ?_⟩
    rw [value', value, ← base_of_timeBased built, ← earned_of_live built.live]
    exact s.earned_mono (BitVec.le_def.mp later)
  · intro c
    unfold vestedAt readTime
    rw [built.live]

/-- A cliff of a quarter, read at its first instant and just before. -/
theorem linear_accrual_exact_cliff :
    ∃ s, cliffLinear 0 100 400 1001 = .ok s ∧ s.vestedAt 99 = some 0 ∧
      s.vestedAt 100 = some 250 := by
  have built : cliffLinear 0 100 400 1001 = .ok (created .cliffLinear 0 100 400 1001 []) := by
    decide
  refine ⟨_, built, ?_, ?_⟩
  · obtain ⟨v, computed, -, none, -⟩ := linear_accrual_exact _ (.inr ⟨_, _, _, _, built⟩) 99
    rw [computed, none (.inr (by decide))]
  · obtain ⟨v, computed, -, -, -, part, -⟩ := linear_accrual_exact _ (.inr ⟨_, _, _, _, built⟩) 100
    have value : v.toNat = (250 : U128).toNat := part (by decide) (by decide) (by decide)
    rw [computed, word_ext value]

end Schedule

end Antumbra
