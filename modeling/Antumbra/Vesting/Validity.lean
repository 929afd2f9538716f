/-
# What holds of every stored schedule

A stored record is well formed, its claims never run ahead of what it has earned
at the latest time it saw, and its flag is a flag. These survive every act, and
with them what a record still owes falls by exactly what an act pays out.
-/

import Antumbra.Vesting.Apply

namespace Antumbra

open Antumbra.Math

namespace Vesting

/-- The invariant of a stored record. -/
structure Valid (s : VestingSchedule) : Prop where
  wellFormed : s.WellFormed
  /-- Nothing was claimed before it was earned. -/
  earned : s.claimed.toNat ≤ s.accrued s.lastSeen.toNat
  flag : s.cancelable = 0 ∨ s.cancelable = 1

variable {s s' : VestingSchedule} {effect : Effect}

theorem Valid.claimed_le (h : Valid s) : s.claimed.toNat ≤ s.total.toNat :=
  Nat.le_trans h.earned (h.wellFormed.accrued_le _)

/-- A creation stores a valid record. -/
theorem valid_of_newState {creator escrow beneficiary : AccountId} {asset : Asset} {terms : Terms}
    (h : newState creator escrow beneficiary asset terms = .ok s) : Valid s := by
  obtain ⟨rfl, wellFormed⟩ := newState_eq_ok h
  refine ⟨wellFormed, Nat.zero_le _, ?_⟩
  rw [initialState]
  cases terms.cancelable
  · exact .inl rfl
  · exact .inr rfl

/-! ### Acts keep records well formed -/

theorem WellFormed.congr (h : s.WellFormed) (kind : s'.kind = s.kind) (start : s'.start = s.start)
    (cliff : s'.cliff = s.cliff) (end_ : s'.end_ = s.end_) (total : s'.total = s.total)
    (tranches : s'.tranches = s.tranches) (signalled : s'.signalled = s.signalled) :
    s'.WellFormed := by
  cases h with
  | cliffLinear hkind start_le cliff_lt htotal htranches hsignalled =>
    exact .cliffLinear (kind.trans hkind) (by rwa [start, cliff]) (by rwa [cliff, end_])
      (by rwa [total]) (tranches.trans htranches) (signalled.trans hsignalled)
  | linear hkind start_lt htotal htranches hsignalled =>
    exact .linear (kind.trans hkind) (by rwa [start, end_]) (by rwa [total])
      (tranches.trans htranches) (signalled.trans hsignalled)
  | milestones hkind htotal some_tranches tranches_le clear =>
    exact .milestones (kind.trans hkind) (by rwa [total]) (by rwa [tranches])
      (by rwa [tranches]) (by rwa [tranches, signalled])

theorem Acts.wellFormed (acts : Acts effect s s') (h : s.WellFormed) : s'.WellFormed := by
  cases acts with
  | claim => exact WellFormed.congr h rfl rfl rfl rfl rfl rfl rfl
  | cancel => exact WellFormed.congr h rfl rfl rfl rfl rfl rfl rfl
  | makeNonCancelable => exact WellFormed.congr h rfl rfl rfl rfl rfl rfl rfl
  | transferBeneficiary => exact WellFormed.congr h rfl rfl rfl rfl rfl rfl rfl
  | signalMilestone hauthority hkind live index_lt clear =>
    cases h with
    | cliffLinear kind => exact absurd (kind.symm.trans hkind) (by decide)
    | linear kind => exact absurd (kind.symm.trans hkind) (by decide)
    | milestones kind total some_tranches tranches_le signalled =>
      refine .milestones kind total some_tranches tranches_le fun i beyond => ?_
      have below := (index_lt_64 index_lt).2
      change s.tranches.toNat ≤ i at beyond
      rw [BitVec.getLsbD_or, getLsbD_bitAt, signalled i beyond]
      simp only [Bool.false_or, Bool.and_eq_false_iff, decide_eq_false_iff_not]
      omega

/-- Signalling a milestone only raises what is earned. -/
theorem accrued_signal_le {bits : U64}
    (more : ∀ i, s.signalled.getLsbD i = true → bits.getLsbD i = true) (t : ℕ) :
    s.accrued t ≤ { s with signalled := bits }.accrued t := by
  have base_le : ∀ u, s.base u ≤ { s with signalled := bits }.base u := by
    intro u
    unfold VestingSchedule.base
    split_ifs
    · exact Nat.div_le_div_right (Nat.mul_le_mul_left _ (countOnes_mono more))
    · exact Nat.le_refl _
    · exact Nat.le_refl _
  unfold VestingSchedule.accrued
  change frozen s.freeze s.base t ≤ frozen s.freeze _ t
  cases s.freeze with
  | none => exact base_le t
  | some c => exact base_le (min t c)

/-- One more milestone never lowers what is earned. -/
theorem accrued_or_le (s : VestingSchedule) (bits : U64) (t : ℕ) :
    s.accrued t ≤ { s with signalled := s.signalled ||| bits }.accrued t := by
  apply accrued_signal_le
  intro i set
  rw [BitVec.getLsbD_or, set, Bool.true_or]

/-! ### Acts keep records valid -/

theorem toNat_add_of_fits {x y : U128} (fits : x.toNat + y.toNat < 2 ^ 128) :
    (x + y).toNat = x.toNat + y.toNat := by
  rw [BitVec.toNat_add, Nat.mod_eq_of_lt fits]

theorem accrued_frozen_at (live : s.cancelledAt = 0) {c : U64} (nonzero : c ≠ 0) {t lastSeen : U64}
    (h : t ≤ c) :
    { s with cancelledAt := c, lastSeen := lastSeen }.accrued t.toNat = s.accrued t.toNat := by
  rw [VestingSchedule.accrued_of_live live, VestingSchedule.accrued_of_cancelled (by exact nonzero),
    frozen_of_le (BitVec.le_def.mp h)]
  rfl

theorem max_one_ne_zero (t : U64) : max t 1 ≠ 0 := by
  intro zero
  have value := congrArg BitVec.toNat zero
  rw [toNat_max, toNat_zero, show (1 : U64).toNat = 1 from rfl] at value
  omega

theorem le_max_one (t : U64) : t ≤ max t 1 := by
  rw [BitVec.le_def, toNat_max]
  omega

theorem Acts.valid (acts : Acts effect s s') (h : Valid s) : Valid s' := by
  refine ⟨acts.wellFormed h.wellFormed, ?_, ?_⟩
  · have earned := h.earned
    cases acts with
    | @claim _ _ _ _ amount at_ owed _ _ _ howed hamount fits =>
      -- either nothing new was earned or the new time earned it
      rw [claimable_eq_ok_iff h.wellFormed] at howed
      rw [BitVec.le_def] at hamount
      change (s.claimed + amount).toNat ≤ s.accrued (max s.lastSeen at_).toNat
      have before : s.accrued s.lastSeen.toNat ≤ s.accrued (max s.lastSeen at_).toNat :=
        s.accrued_mono (by rw [toNat_max]; omega)
      have now : s.accrued at_.toNat ≤ s.accrued (max s.lastSeen at_).toNat :=
        s.accrued_mono (by rw [toNat_max]; omega)
      rw [toNat_add_of_fits fits]
      omega
    | @cancel _ _ _ _ _ at_ refund _ _ live _ _ _ forward _ =>
      change s.claimed.toNat ≤ _
      rw [accrued_frozen_at live (max_one_ne_zero at_) (le_max_one at_)]
      exact Nat.le_trans earned (s.accrued_mono (BitVec.le_def.mp forward))
    | makeNonCancelable => exact earned
    | transferBeneficiary => exact earned
    | signalMilestone => exact Nat.le_trans earned (accrued_or_le s _ _)
  · cases acts with
    | makeNonCancelable => exact .inl rfl
    | claim => exact h.flag
    | cancel => exact h.flag
    | transferBeneficiary => exact h.flag
    | signalMilestone => exact h.flag

/-! ### What a record owes -/

/-- The most a record can ever pay: all of it while it is live, what it had earned at its
cancellation afterwards. -/
def VestingSchedule.most (s : VestingSchedule) : ℕ :=
  if s.cancelledAt = 0 then s.total.toNat else s.accrued s.cancelledAt.toNat

/-- What a record still owes. -/
def VestingSchedule.owed (s : VestingSchedule) : ℕ := s.most - s.claimed.toNat

/-- What an effect pays out of the escrow. -/
def Effect.paid : Effect → ℕ
  | .claim _ _ _ amount _ => amount.toNat
  | .cancel _ _ _ _ _ refund => refund.toNat
  | _ => 0

/-- A cancellation that names a time at which a freeze can be stored as it is. -/
def Effect.Timely : Effect → Prop
  | .cancel _ _ _ _ at_ _ => at_ ≠ 0
  | _ => True

theorem Valid.accrued_le_most (h : Valid s) (t : ℕ) : s.accrued t ≤ s.most := by
  unfold VestingSchedule.most
  split
  · exact h.wellFormed.accrued_le t
  · next cancelled =>
    rw [VestingSchedule.accrued_of_cancelled cancelled]
    exact frozen_le_at s.base_mono

theorem Valid.claimed_le_most (h : Valid s) : s.claimed.toNat ≤ s.most :=
  Nat.le_trans h.earned (h.accrued_le_most _)

theorem Valid.most_le (h : Valid s) : s.most ≤ s.total.toNat := by
  unfold VestingSchedule.most
  split
  · exact Nat.le_refl _
  · exact h.wellFormed.accrued_le _

theorem most_of_live (live : s.cancelledAt = 0) : s.most = s.total.toNat := if_pos live

/-- No act pays out more than the record owes. -/
theorem Acts.paid_le_owed (acts : Acts effect s s') (h : Valid s) : effect.paid ≤ s.owed := by
  have earned := h.earned
  unfold VestingSchedule.owed
  cases acts with
  | @claim _ _ _ _ amount at_ owed _ _ _ howed hamount _ =>
    have most := h.accrued_le_most at_.toNat
    rw [claimable_eq_ok_iff h.wellFormed] at howed
    rw [BitVec.le_def] at hamount
    dsimp only [Effect.paid]
    omega
  | @cancel _ _ _ _ _ at_ refund _ _ live _ _ _ forward hrefund =>
    have later := s.accrued_mono (BitVec.le_def.mp forward)
    rw [unvested_eq_ok_iff h.wellFormed live] at hrefund
    rw [most_of_live live]
    dsimp only [Effect.paid]
    omega
  | makeNonCancelable => exact Nat.zero_le _
  | transferBeneficiary => exact Nat.zero_le _
  | signalMilestone => exact Nat.zero_le _

/-- An act lowers what the record owes by what it pays. -/
theorem Acts.owed_add_paid (acts : Acts effect s s') (h : Valid s) (timely : effect.Timely) :
    s'.owed + effect.paid = s.owed := by
  have covered := acts.paid_le_owed h
  have earned := h.earned
  cases acts with
  | @claim _ _ _ _ amount _ _ _ _ _ _ _ fits =>
    change s.most - (s.claimed + amount).toNat + amount.toNat = s.most - s.claimed.toNat
    change amount.toNat ≤ s.most - s.claimed.toNat at covered
    have := h.claimed_le_most
    rw [toNat_add_of_fits fits]
    omega
  | @cancel _ _ _ _ _ at_ refund _ _ live _ _ _ forward hrefund =>
    have later := s.accrued_mono (BitVec.le_def.mp forward)
    have le := h.wellFormed.accrued_le at_.toNat
    -- a time other than zero is stored as it is
    have freeze : max at_ 1 = at_ := by
      apply word_ext
      rw [toNat_max, show (1 : U64).toNat = 1 from rfl]
      have : at_.toNat ≠ 0 := fun zero => timely (word_ext zero)
      omega
    rw [unvested_eq_ok_iff h.wellFormed live] at hrefund
    -- from then on the record pays no more than what had vested at that time
    have frozenMost : { s with cancelledAt := max at_ 1, lastSeen := at_ }.most =
        s.accrued at_.toNat := by
      rw [VestingSchedule.most, if_neg (max_one_ne_zero at_),
        accrued_frozen_at live (max_one_ne_zero at_) (by rw [freeze]; exact BitVec.le_refl _)]
      dsimp only
      rw [freeze]
    unfold VestingSchedule.owed
    rw [frozenMost, most_of_live live]
    dsimp only [Effect.paid]
    omega
  | makeNonCancelable => rfl
  | transferBeneficiary => rfl
  | signalMilestone _ _ live =>
    unfold VestingSchedule.owed
    rw [most_of_live live, most_of_live (by exact live)]
    rfl

end Vesting

end Antumbra
