/-
# What a cancellation freezes

A cancellation refunds what had not vested at the time it names and stores that
time, or one where it names zero. From then on the record vests a constant amount
whatever else happens to it. That amount and the refund make the total exactly when
nothing vests between the named time and the stored one.
-/

import Antumbra.Vesting.Life

namespace Antumbra

open Antumbra.Math

namespace Vesting

variable {s s' : VestingSchedule}

/-- After a cancellation at `at_`, and whatever else is accepted, the vested amount is
the total less the refund at every later time, and claims stay within it. -/
def SplitsExactly (s' : VestingSchedule) (at_ : U64) (refund : U128) : Prop :=
  ∀ more : List Effect, (∀ e ∈ more, e.Genuine) → ∀ s'', more.foldl applied (store s') = store s'' →
    ∀ t, at_ ≤ t → ∃ v, vested s'' t = .ok v ∧
      v.toNat + refund.toNat = s''.total.toNat ∧ s''.claimed ≤ v ∧
      s''.claimed.toNat + refund.toNat ≤ s''.total.toNat ∧
      (s''.claimed = v → s''.claimed.toNat + refund.toNat = s''.total.toNat)

/-- The times a cancellation freezes at without a gap: any time but zero, and zero where
nothing vests in the first unit of time. -/
def VestingSchedule.FreezesAt (s : VestingSchedule) (at_ : U64) : Prop :=
  at_ ≠ 0 ∨ s.kind = 2 ∨ s.start ≠ 0 ∨ s.kind = 0 ∧ 1 < s.cliff ∨ s.total.toNat < s.end_.toNat

/-! ### The first unit of time -/

theorem linear_zero {start stop total : ℕ} : linear start stop total 0 = 0 :=
  if_pos (Nat.zero_le start)

theorem linear_one_eq_zero_iff {start stop total : ℕ} (positive : 0 < total) :
    linear start stop total 1 = 0 ↔ start ≠ 0 ∨ total < stop := by
  unfold linear
  split_ifs with early late
  · simp only [true_iff]
    omega
  · omega
  · have origin : start = 0 := by omega
    rw [origin, Nat.sub_zero, Nat.mul_one, Nat.sub_zero, Nat.div_eq_zero_iff]
    omega

theorem toNat_start_ne_zero_iff : s.start.toNat ≠ 0 ↔ s.start ≠ 0 := by
  rw [ne_eq, ne_eq, ← BitVec.toNat_inj]
  rfl

/-- Nothing vests in the first unit of time exactly under the last four conditions. -/
theorem WellFormed.base_one_eq_iff (h : s.WellFormed) :
    s.base 1 = s.base 0 ↔
      s.kind = 2 ∨ s.start ≠ 0 ∨ s.kind = 0 ∧ 1 < s.cliff ∨ s.total.toNat < s.end_.toNat := by
  cases h with
  | cliffLinear kind start_le cliff_lt total =>
    have timed : s.kind ≠ 2 := by rw [kind]; decide
    rw [toNat_pos_iff] at total
    rw [VestingSchedule.base_of_cliffLinear kind, delayed, delayed, linear_zero, ite_self,
      BitVec.lt_def, show (1 : U64).toNat = 1 from rfl]
    -- behind the cliff the line already counts, before it nothing does
    by_cases held : 1 < s.cliff.toNat
    · simp only [held, kind, if_true, and_self, true_or, or_true]
    · rw [if_neg held, linear_one_eq_zero_iff total, toNat_start_ne_zero_iff]
      simp only [timed, held, and_false, false_or]
  | linear kind start_lt total =>
    have timed : s.kind ≠ 2 := by rw [kind]; decide
    have noCliff : s.kind ≠ 0 := by rw [kind]; decide
    rw [toNat_pos_iff] at total
    rw [VestingSchedule.base_of_linear kind, linear_zero, linear_one_eq_zero_iff total,
      toNat_start_ne_zero_iff]
    simp only [timed, noCliff, false_and, false_or]
  | milestones kind =>
    rw [VestingSchedule.base_of_milestones kind, VestingSchedule.base_of_milestones kind]
    simp only [kind, true_or]

/-! ### A frozen record -/

/-- A cancelled record earns by the same frozen rule for ever. -/
theorem OneWay.accrued_eq (h : OneWay s s') (cancelled : s.cancelledAt ≠ 0) :
    s'.accrued = s.accrued := by
  have terms := h.fixed
  simp only [VestingSchedule.fixed, Prod.mk.injEq] at terms
  obtain ⟨kind, start, cliff, end_, total, -, -, -, tranches, -⟩ := terms
  have freeze : s'.cancelledAt = s.cancelledAt :=
    h.cancelledAt.resolve_right fun later => cancelled later.1
  -- a cancelled record takes no more signals
  have signalled : s'.signalled = s.signalled := by
    apply BitVec.eq_of_getLsbD_eq
    intro i _
    cases before : s.signalled.getLsbD i with
    | true => exact h.gains i before
    | false =>
      by_contra gained
      rw [Bool.not_eq_false] at gained
      exact cancelled (h.gained i before gained).2.2
  unfold VestingSchedule.accrued VestingSchedule.freeze VestingSchedule.base
  rw [freeze, kind, start, cliff, end_, total, tranches, signalled]

/-- Of what a record earns by, only the signals change between two freezes. -/
theorem OneWay.accrued_signalled (h : OneWay s s') (same : s'.cancelledAt = s.cancelledAt) :
    s'.accrued = { s with signalled := s'.signalled }.accrued := by
  have terms := h.fixed
  simp only [VestingSchedule.fixed, Prod.mk.injEq] at terms
  obtain ⟨kind, start, cliff, end_, total, -, -, -, tranches, -⟩ := terms
  unfold VestingSchedule.accrued VestingSchedule.freeze VestingSchedule.base
  rw [same, kind, start, cliff, end_, total, tranches]

/-- With nothing earned between `t` and the freeze, every time from `t` on earns the same. -/
theorem base_min_eq {c t : ℕ} (h : s.base c = s.base (min t c)) {u : ℕ} (later : t ≤ u) :
    s.base (min u c) = s.base c := by
  have up := s.base_mono (show min u c ≤ c by omega)
  have down := s.base_mono (show min t c ≤ min u c by omega)
  omega

/-- Nothing is earned between the time a cancellation names and the stored one exactly
under the condition. -/
theorem WellFormed.freezesAt_iff (h : s.WellFormed) (at_ : U64) :
    s.base (max at_ 1).toNat = s.base at_.toNat ↔ s.FreezesAt at_ := by
  unfold VestingSchedule.FreezesAt
  rw [← WellFormed.base_one_eq_iff h, toNat_max, show (1 : U64).toNat = 1 from rfl]
  by_cases zero : at_ = 0
  · rw [zero, toNat_zero]
    simp only [ne_eq, not_true_eq_false, false_or]
    rfl
  · have positive : at_.toNat ≠ 0 := fun none => zero (word_ext none)
    rw [show max at_.toNat 1 = at_.toNat by omega]
    simp only [ne_eq, zero, not_false_eq_true, true_or]

/-- A cancellation splits the total exactly, and for ever, if and only if nothing vests
between the time it names and the time it stores. -/
theorem cancel_splits_iff (run : List Effect) (genuine : ∀ e ∈ run, e.Genuine)
    (s : VestingSchedule) (stored : run.foldl applied [] = store s)
    (authority holding refundTo : AccountId) (asset : Asset) (at_ : U64) (refund : U128)
    (post : Option (List U8))
    (accepted : apply (.cancel authority holding refundTo asset at_ refund) (store s) = .ok post) :
    ∃ s', post = some (store s') ∧ (SplitsExactly s' at_ refund ↔ s.FreezesAt at_) := by
  have valid : Valid s := valid_of_run genuine (.inl rfl) stored
  rcases apply_eq_ok_iff.mp accepted with ⟨_, create, -⟩ | ⟨s₀, s', stored₀, acts, rfl⟩
  · cases create
  obtain rfl := store_injective stored₀
  have valid' := acts.valid valid
  refine ⟨s', rfl, ?_⟩
  cases acts with
  | cancel hauthority hcancelable live hrefundTo hescrow hasset forward hrefund =>
    have le := valid.wellFormed.base_le at_.toNat
    rw [unvested_eq_ok_iff valid.wellFormed live, VestingSchedule.accrued_of_live live] at hrefund
    have rule : ∀ t, { s with cancelledAt := max at_ 1, lastSeen := at_ }.accrued t =
        s.base (min t (max at_ 1).toNat) := by
      intro t
      rw [VestingSchedule.accrued_of_cancelled (by exact max_one_ne_zero at_)]
      rfl
    rw [← WellFormed.freezesAt_iff valid.wellFormed]
    constructor
    · -- at the stored time the split says what the named time earned
      intro splits
      obtain ⟨v, vested, total, -⟩ := splits [] (by simp) _ rfl (max at_ 1) (le_max_one at_)
      rw [vested_eq_ok_iff valid'.wellFormed, rule, Nat.min_self] at vested
      change v.toNat + refund.toNat = s.total.toNat at total
      omega
    -- whatever is accepted later leaves the freeze and the terms as they are
    · intro same more genuine' s'' stored'' t later
      obtain ⟨s₁, stored₁, oneWay⟩ := oneWay_run genuine' valid'
      obtain rfl := store_injective (stored₁.symm.trans stored'')
      have valid'' : Valid s₁ := valid_of_run genuine' (.inr ⟨_, rfl, valid'⟩) stored₁
      have forever := oneWay.accrued_eq (max_one_ne_zero at_)
      have total : s₁.total = s.total := by
        have terms := oneWay.fixed
        simp only [VestingSchedule.fixed, Prod.mk.injEq] at terms
        exact terms.2.2.2.2.1
      have atStored : s.base (max at_ 1).toNat = s.base (min at_.toNat (max at_ 1).toNat) := by
        rw [same, Nat.min_eq_left (BitVec.le_def.mp (le_max_one at_))]
      obtain ⟨v, vested, value⟩ := exists_vested valid''.wellFormed t
      rw [forever, rule, base_min_eq atStored (BitVec.le_def.mp later), same] at value
      have claimed := valid''.earned
      rw [forever, rule] at claimed
      have within := s.base_mono (Nat.min_le_right s₁.lastSeen.toNat (max at_ 1).toNat)
      refine ⟨v, vested, ?_, BitVec.le_def.mpr (by omega), ?_, fun all => ?_⟩
      · rw [total]
        omega
      · rw [total]
        omega
      · rw [total, all]
        omega

theorem cancel_splits_iff_sample :
    let s := Sample.record (Sample.account 4)
    ∃ s', apply (.cancel (Sample.account 1) (Sample.account 4) (Sample.account 0xAA) .native
        1700000420000 460) (store s) = .ok (some (store s')) ∧
      SplitsExactly s' 1700000420000 460 := by
  intro s
  have genuine : ∀ e ∈ [Effect.create s], e.Genuine :=
    genuine_create (Sample.newState_record _) (by simp)
  have acts : Acts (.cancel (Sample.account 1) (Sample.account 4) (Sample.account 0xAA) .native
      1700000420000 460) s _ :=
    .cancel rfl (by decide) rfl rfl rfl rfl (by decide) (by decide +kernel)
  have accepted := apply_eq_ok_iff.mpr (.inr ⟨s, _, rfl, acts, rfl⟩)
  obtain ⟨s', post, splits⟩ := cancel_splits_iff _ genuine s rfl _ _ _ _ _ _ _ accepted
  exact ⟨s', post ▸ accepted, splits.mpr (.inl (by decide))⟩

namespace Sample

/-- The sample's terms from the beginning of time: a hundred units by time ten. -/
def earlyTerms : Terms := { terms with start := 0, cliff := 0, end_ := 10, total := 100 }

def early : VestingSchedule := initialState (account 1) (account 4) (account 2) .native earlyTerms

/-- The same cancelled at zero. -/
def earlyCancelled : VestingSchedule := { early with cancelledAt := 1, lastSeen := 0 }

end Sample

/-- Cancelled at zero the record refunds everything and then vests a tenth of it again. -/
theorem zero_cancel_overpays :
    newState (Sample.account 1) (Sample.account 4) (Sample.account 2) .native
        Sample.earlyTerms = .ok Sample.early ∧
      apply (.cancel (Sample.account 1) (Sample.account 4) (Sample.account 0xAA) .native 0 100)
        (store Sample.early) = .ok (some (store Sample.earlyCancelled)) ∧
      vested Sample.earlyCancelled 1 = .ok 10 ∧ ¬ SplitsExactly Sample.earlyCancelled 0 100 := by
  have acts : Acts (.cancel (Sample.account 1) (Sample.account 4) (Sample.account 0xAA) .native
      0 100) Sample.early Sample.earlyCancelled :=
    .cancel rfl (by decide) rfl rfl rfl rfl (by decide) (by decide +kernel)
  have ten : vested Sample.earlyCancelled 1 = .ok 10 := by decide +kernel
  refine ⟨rfl, apply_eq_ok_iff.mpr (.inr ⟨_, _, rfl, acts, rfl⟩), ten, fun splits => ?_⟩
  obtain ⟨v, vested, total, -⟩ := splits [] (by simp) _ rfl 1 (by decide)
  cases ten.symm.trans vested
  exact absurd total (by decide)

end Vesting

end Antumbra
