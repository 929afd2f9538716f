/-
# One contract for two kernels

Both kernels refuse a zero denominator, a base above one and an exponent that carries the
logarithm out of the word, but they ask in different orders. The binary kernel refuses a
zero exponent, which the decimal one takes; it takes a zero base, which the decimal one
refuses; and it refuses a base above one before it looks at equal weights. A swap meets
only the second of these, where the base rounds down to zero.
-/

import Antumbra.Weighted.BinaryPower
import Antumbra.Weighted.DecimalPower
import Antumbra.Weighted.Payout

namespace Antumbra

open Antumbra.Math

namespace Weighted

/-- The binary kernel answers exactly when the decimal one does, and refuses for the same
reason. -/
def SameOutcome (binary : Except Binfixed.Failure U128) (decimal : Except CurveError U128) :
    Prop := refusal binary = (refusal decimal).map .refused

instance (binary : Except Binfixed.Failure U128) (decimal : Except CurveError U128) :
    Decidable (SameOutcome binary decimal) :=
  inferInstanceAs (Decidable (refusal binary = (refusal decimal).map .refused))

/-- The exponent carries both kernels' logarithms out of the word, or neither. -/
def SameRange (x num den : U128) : Prop :=
  (Binfixed.nl x).toNat * num.toNat < 2 ^ 128 * den.toNat ↔ nl x * num.toNat < 2 ^ 128 * den.toNat

/-- The arguments of the power on which the two contracts agree. -/
def PowersAgree (x num den : U128) : Prop :=
  if den = 0 then True
  else if num = 0 then x = 0
  else if x = 0 then num = den
  else if ONE < x then num ≠ den
  else num = den ∨ SameRange x num den

/-- The trades on which the two contracts agree. -/
def TradesAgree (reserveToken reserveCollateral cIn wToken wCollateral : U128) : Prop :=
  cIn = 0 ∨ reserveToken = 0 ∨ reserveCollateral = 0 ∨ wToken = 0 ∨ wCollateral = 0 ∨
    2 ^ 128 ≤ reserveCollateral.toNat + cIn.toNat ∨
    PowersAgree (base reserveCollateral cIn) wCollateral wToken

variable {x num den p reserveToken reserveCollateral cIn wToken wCollateral : U128}

/-! ### What the powers refuse -/

theorem one_lt_iff : ONE < x ↔ 1000000000000000000 < x.toNat := BitVec.lt_def

theorem refusal_powFrac_binary :
    refusal (Binfixed.powFrac x num den) =
      if den = 0 ∨ num = 0 then some (.refused .zeroAmount)
      else if x = 0 then none
      else if ONE < x then some (.refused .quantityAtOrAboveReserve)
      else if num = den then none
      else if (Binfixed.nl x).toNat * num.toNat < 2 ^ 128 * den.toNat then none
      else some (.refused .overflow) := by
  by_cases weights : den = 0 ∨ num = 0
  · rw [Binfixed.powFrac, if_pos weights, if_pos weights]
    rfl
  rw [if_neg weights]
  obtain ⟨hd, hn⟩ := not_or.mp weights
  by_cases zero : x = 0
  · rw [Binfixed.powFrac, if_neg weights, if_pos zero, if_pos zero]
    rfl
  rw [if_neg zero]
  by_cases above : ONE < x
  · have above' : Binfixed.asU128 Binfixed.ONE18 < x := above
    rw [Binfixed.powFrac, if_neg weights, if_neg zero, if_pos above', if_pos above]
    rfl
  rw [if_neg above]
  have hx := toNat_pos_iff.mp zero
  have le : x.toNat ≤ 1000000000000000000 := not_lt.mp (one_lt_iff.not.mp above)
  by_cases same : num = den
  · rw [if_pos same, same, Binfixed.powFrac_same hx le hd]
    rfl
  · have range : Binfixed.scaledLog x num den < 2 ^ 128 ↔
        (Binfixed.nl x).toNat * num.toNat < 2 ^ 128 * den.toNat :=
      Nat.div_lt_iff_lt_mul (toNat_pos_iff.mp hd)
    rw [if_neg same, Binfixed.powFrac_eq hx le hn hd same]
    by_cases fitting : (Binfixed.nl x).toNat * num.toNat < 2 ^ 128 * den.toNat
    · rw [if_neg (not_le.mpr (range.mpr fitting)), if_pos fitting]
      split <;> rfl
    · rw [if_pos (not_lt.mp (range.not.mpr fitting)), if_neg fitting]
      rfl

theorem refusal_powFrac_decimal :
    refusal (powFrac x num den) =
      if den = 0 then some .zeroAmount
      else if num = den then none
      else if x = 0 then some .zeroAmount
      else if ONE < x then some .quantityAtOrAboveReserve
      else if nl x * num.toNat < 2 ^ 128 * den.toNat then none
      else some .overflow := by
  by_cases hd : den = 0
  · rw [powFrac, if_pos hd, if_pos hd]
    rfl
  rw [if_neg hd]
  by_cases same : num = den
  · rw [if_pos same, same, powFrac_same hd]
    rfl
  rw [if_neg same]
  by_cases zero : x = 0
  · rw [if_pos zero, powFrac, if_neg hd, if_neg (by rw [zero]; decide), if_neg same, negLn,
      if_pos zero]
    rfl
  rw [if_neg zero]
  by_cases above : ONE < x
  · have notOne : x ≠ ONE := by
      rintro rfl
      exact absurd above (by decide)
    rw [if_pos above, powFrac, if_neg hd, if_neg notOne, if_neg same, negLn, if_neg zero,
      if_pos above]
    rfl
  rw [if_neg above]
  have le : x.toNat ≤ 1000000000000000000 := not_lt.mp (one_lt_iff.not.mp above)
  have range : scaledLog x num den < 2 ^ 128 ↔ nl x * num.toNat < 2 ^ 128 * den.toNat :=
    Nat.div_lt_iff_lt_mul (toNat_pos_iff.mp hd)
  rw [powFrac_eq (toNat_pos_iff.mp zero) le hd same]
  by_cases fitting : nl x * num.toNat < 2 ^ 128 * den.toNat
  · rw [if_neg (not_le.mpr (range.mpr fitting)), if_pos fitting]
    rfl
  · rw [if_pos (not_lt.mp (range.not.mpr fitting)), if_neg fitting]
    rfl

theorem sameOutcome_powFrac_iff :
    SameOutcome (Binfixed.powFrac x num den) (powFrac x num den) ↔ PowersAgree x num den := by
  rw [SameOutcome, refusal_powFrac_binary, refusal_powFrac_decimal, PowersAgree]
  -- the guards in the order the binary kernel asks them
  by_cases hd : den = 0
  · rw [if_pos (.inl hd), if_pos hd, if_pos hd]
    exact iff_of_true rfl trivial
  by_cases hn : num = 0
  · have differ : num ≠ den := fun same => hd (same ▸ hn)
    rw [if_pos (.inr hn), if_neg hd, if_neg hd, if_neg differ, if_pos hn]
    by_cases zero : x = 0
    · rw [if_pos zero]
      exact iff_of_true rfl zero
    rw [if_neg zero]
    refine iff_of_false (fun agree => ?_) zero
    split_ifs at agree <;> cases agree
  rw [if_neg (not_or.mpr ⟨hd, hn⟩), if_neg hd, if_neg hd, if_neg hn]
  by_cases zero : x = 0
  · rw [if_pos zero, if_pos zero, if_pos zero]
    by_cases same : num = den
    · rw [if_pos same]
      exact iff_of_true rfl same
    · rw [if_neg same]
      exact iff_of_false nofun same
  rw [if_neg zero, if_neg zero, if_neg zero]
  by_cases above : ONE < x
  · rw [if_pos above, if_pos above, if_pos above]
    by_cases same : num = den
    · rw [if_pos same]
      exact iff_of_false nofun (not_not.mpr same)
    · rw [if_neg same]
      exact iff_of_true rfl same
  rw [if_neg above, if_neg above, if_neg above]
  by_cases same : num = den
  · rw [if_pos same, if_pos same]
    exact iff_of_true rfl (.inl same)
  rw [if_neg same, if_neg same, or_iff_right same, SameRange]
  split_ifs with binary decimal decimal
  · exact iff_of_true rfl (iff_of_true binary decimal)
  · exact iff_of_false nofun fun range => decimal (range.mp binary)
  · exact iff_of_false nofun fun range => binary (range.mpr decimal)
  · exact iff_of_true rfl (iff_of_false binary decimal)

/-! ### What the swaps refuse -/

theorem powFrac_le_one_binary (le : x.toNat ≤ 1000000000000000000)
    (answer : Binfixed.powFrac x num den = .ok p) : p.toNat ≤ 1000000000000000000 := by
  have some' := refusal_eq_none_iff.mpr ⟨p, answer⟩
  rw [refusal_powFrac_binary] at some'
  split_ifs at some' with weights zero above same fitting
  · rw [Binfixed.powFrac, if_neg weights, if_pos zero, Except.ok.injEq] at answer
    rw [← answer]
    exact Nat.zero_le _
  · obtain ⟨hd, hn⟩ := not_or.mp weights
    rw [same, Binfixed.powFrac_same (toNat_pos_iff.mp zero) le hd, Except.ok.injEq] at answer
    rwa [← answer]
  · obtain ⟨hd, hn⟩ := not_or.mp weights
    have bound := (Binfixed.expAt_le (Binfixed.scaledLog x num den)).2
    rw [Binfixed.powFrac_eq (toNat_pos_iff.mp zero) le hn hd same] at answer
    split_ifs at answer
    · rw [← Except.ok.inj answer]
      decide
    · rw [← Except.ok.inj answer, BitVec.toNat_ofNat, Nat.mod_eq_of_lt (by omega)]
      exact bound

theorem powFrac_le_one_decimal (le : x.toNat ≤ 1000000000000000000)
    (answer : powFrac x num den = .ok p) : p.toNat ≤ 1000000000000000000 := by
  have some' := refusal_eq_none_iff.mpr ⟨p, answer⟩
  rw [refusal_powFrac_decimal] at some'
  split_ifs at some' with hd same zero above fitting
  · rw [same, powFrac_same hd, Except.ok.injEq] at answer
    rwa [← answer]
  · have bound := expAt_le (scaledLog x num den)
    rw [powFrac_eq (toNat_pos_iff.mp zero) le hd same] at answer
    split_ifs at answer
    rw [← Except.ok.inj answer, BitVec.toNat_ofNat, Nat.mod_eq_of_lt (by omega)]
    exact bound

/-- A quotient that fits a word is the answer. -/
theorem mulDivFloor_of_lt {a b d : U128} (hd : 0 < d.toNat)
    (fitting : a.toNat * b.toNat / d.toNat < 2 ^ 128) :
    mulDivFloor a b d = .ok (BitVec.ofNat 128 (a.toNat * b.toNat / d.toNat)) := by
  rw [mulDivFloor_eq, if_neg (toNat_pos_iff.mpr hd), if_neg (not_le.mpr fitting)]

/-- With a power at most one the rest of the swap goes through. -/
theorem rest_answers (le : p.toNat ≤ 1000000000000000000) :
    checkedSub ONE p = some (ONE - p) ∧
      ∃ out, mulDivFloor reserveToken (ONE - p) ONE = .ok out ∧ ¬ reserveToken < out := by
  have one : ONE.toNat = 1000000000000000000 := rfl
  have sub := checkedSub_eq_some_iff_le.mpr ⟨BitVec.le_def.mpr (one ▸ le), rfl⟩
  have part := checkedSub_eq_some_iff.mp sub
  have share : reserveToken.toNat * (ONE - p).toNat / ONE.toNat ≤ reserveToken.toNat := by
    refine Nat.div_le_of_le_mul ?_
    rw [Nat.mul_comm ONE.toNat]
    exact Nat.mul_le_mul_left _ (by omega)
  have word := reserveToken.isLt
  refine ⟨sub, _, mulDivFloor_of_lt (by decide) (by omega), ?_⟩
  rw [BitVec.lt_def, BitVec.toNat_ofNat, Nat.mod_eq_of_lt (by omega)]
  omega

/-- The swaps take the same base, and refuse as their powers do. -/
theorem refusal_weightedBuy (taken : ¬ (cIn = 0 ∨ reserveToken = 0 ∨ reserveCollateral = 0))
    (weighted : ¬ (wToken = 0 ∨ wCollateral = 0))
    (fitting : reserveCollateral.toNat + cIn.toNat < 2 ^ 128) :
    refusal (Binfixed.weightedBuy reserveToken reserveCollateral cIn wToken wCollateral) =
        refusal (Binfixed.powFrac (base reserveCollateral cIn) wCollateral wToken) ∧
      refusal (weightedBuy reserveToken reserveCollateral cIn wToken wCollateral) =
        refusal (powFrac (base reserveCollateral cIn) wCollateral wToken) := by
  have pos : 0 < cIn.toNat := toNat_pos_iff.mp fun none => taken (.inl none)
  have sum : (reserveCollateral + cIn).toNat = reserveCollateral.toNat + cIn.toNat := by
    rw [BitVec.toNat_add, Nat.mod_eq_of_lt fitting]
  have added := checkedAdd_eq_some_iff_fits.mpr ⟨fitting, rfl⟩
  obtain ⟨value, below⟩ := @base_toNat reserveCollateral cIn pos
  have one : ONE.toNat = 1000000000000000000 := rfl
  have divided : mulDivFloor reserveCollateral ONE (reserveCollateral + cIn) =
      .ok (base reserveCollateral cIn) := by
    rw [mulDivFloor_of_lt (by omega) (by rw [sum, ← value]; omega), sum, base]
  have le : (base reserveCollateral cIn).toNat ≤ 1000000000000000000 := by omega
  constructor
  · rw [Binfixed.weightedBuy, if_neg taken, if_neg weighted, added, okOr, ok_bind,
      show Binfixed.asU128 Binfixed.ONE18 = ONE by decide, divided, Binfixed.orRefused,
      Except.mapError, ok_bind]
    refine refusal_bind fun p answer => ?_
    obtain ⟨sub, out, paid, within⟩ := @rest_answers p reserveToken
      (powFrac_le_one_binary le answer)
    rw [sub, okOr, ok_bind, paid, Binfixed.orRefused, Except.mapError, ok_bind, if_neg within]
    rfl
  · have denom : reserveCollateral + cIn ≠ 0 := toNat_pos_iff.mpr (by omega)
    rw [weightedBuy, if_neg taken, if_neg weighted, added, okOr, ok_bind, div, if_neg denom,
      divided, ok_bind]
    refine refusal_bind fun p answer => ?_
    obtain ⟨sub, out, paid, within⟩ := @rest_answers p reserveToken
      (powFrac_le_one_decimal le answer)
    rw [sub, okOr, ok_bind, paid, ok_bind, if_neg within]
    rfl

/-- With both weights strictly inside the unit the binary swap of a stocked pool answers. -/
theorem exists_weightedBuy (taken : ¬ (cIn = 0 ∨ reserveToken = 0 ∨ reserveCollateral = 0))
    (weighted : ¬ (wToken = 0 ∨ wCollateral = 0)) (le : wCollateral ≤ ONE)
    (fitting : reserveCollateral.toNat + cIn.toNat < 2 ^ 128) :
    ∃ out, Binfixed.weightedBuy reserveToken reserveCollateral cIn wToken wCollateral =
      .ok out := by
  have nonzero := (not_or.mp taken).1
  have below := (@base_toNat reserveCollateral cIn (toNat_pos_iff.mp nonzero)).2
  have within : ¬ ONE < base reserveCollateral cIn := one_lt_iff.not.mpr (not_lt.mpr below.le)
  have hw : 0 < wToken.toNat := toNat_pos_iff.mp fun none => weighted (.inl none)
  rw [← refusal_eq_none_iff, (refusal_weightedBuy taken weighted fitting).1,
    refusal_powFrac_binary, if_neg weighted, if_neg within]
  by_cases zero : base reserveCollateral cIn = 0
  · rw [if_pos zero]
  by_cases same : wCollateral = wToken
  · rw [if_neg zero, if_pos same]
  -- the logarithm of the base is below `2 ^ 68`, the weight it is scaled by below `2 ^ 60`
  obtain ⟨nonneg, small⟩ := Binfixed.nl_range (toNat_pos_iff.mp zero) below.le
  have weight : wCollateral.toNat ≤ 1000000000000000000 := BitVec.le_def.mp le
  have scaled : (Binfixed.nl (base reserveCollateral cIn)).toNat * wCollateral.toNat <
      2 ^ 128 * wToken.toNat := by
    calc (Binfixed.nl (base reserveCollateral cIn)).toNat * wCollateral.toNat
        ≤ 2 ^ 68 * 1000000000000000000 := Nat.mul_le_mul (by omega) weight
      _ < 2 ^ 128 * 1 := by norm_num
      _ ≤ 2 ^ 128 * wToken.toNat := Nat.mul_le_mul_left _ hw
  rw [if_neg zero, if_neg same, if_pos scaled]

/-- An accepted binary swap takes something, into a reserve with room for it, and pays out no
more than there is. -/
theorem weightedBuy_eq_ok {out : U128}
    (answer : Binfixed.weightedBuy reserveToken reserveCollateral cIn wToken wCollateral =
      .ok out) :
    cIn ≠ 0 ∧ reserveCollateral.toNat + cIn.toNat < 2 ^ 128 ∧ out ≤ reserveToken := by
  unfold Binfixed.weightedBuy at answer
  split at answer
  · cases answer
  · next taken =>
    split at answer
    · cases answer
    · simp only [bind_eq_ok_iff, okOr_eq_ok_iff, checkedAdd_eq_some_iff_fits] at answer
      obtain ⟨_, ⟨fits, -⟩, _, -, _, -, _, -, paid, -, last⟩ := answer
      split at last
      · cases last
      · next within =>
        rw [pure_eq_ok, Except.ok.injEq] at last
        exact ⟨(not_or.mp taken).1, fits, BitVec.not_lt.mp (last ▸ within)⟩

/-- An accepted binary swap has two weights, and reserves on both sides. -/
theorem weights_of_weightedBuy {out : U128}
    (answer : Binfixed.weightedBuy reserveToken reserveCollateral cIn wToken wCollateral =
      .ok out) :
    (wToken ≠ 0 ∧ wCollateral ≠ 0) ∧ reserveToken ≠ 0 ∧ reserveCollateral ≠ 0 := by
  unfold Binfixed.weightedBuy at answer
  split at answer
  · cases answer
  · next taken =>
    split at answer
    · cases answer
    · next weighted => exact ⟨not_or.mp weighted, (not_or.mp (not_or.mp taken).2)⟩

/-- Within the arguments of a swap the powers never refuse for different reasons. -/
theorem sameOutcome_powFrac_iff_answers (hd : den ≠ 0) (hn : num ≠ 0)
    (le : x.toNat ≤ 1000000000000000000) :
    SameOutcome (Binfixed.powFrac x num den) (powFrac x num den) ↔
      (refusal (Binfixed.powFrac x num den) = none ↔ refusal (powFrac x num den) = none) := by
  have within : ¬ ONE < x := one_lt_iff.not.mpr (not_lt.mpr le)
  rw [SameOutcome, refusal_powFrac_binary, refusal_powFrac_decimal, if_neg (not_or.mpr ⟨hd, hn⟩),
    if_neg hd, if_neg within, if_neg within]
  split_ifs <;> simp

theorem sameOutcome_weightedBuy_iff :
    (SameOutcome (Binfixed.weightedBuy reserveToken reserveCollateral cIn wToken wCollateral)
        (weightedBuy reserveToken reserveCollateral cIn wToken wCollateral) ↔
      TradesAgree reserveToken reserveCollateral cIn wToken wCollateral) ∧
      (SameOutcome (Binfixed.weightedBuy reserveToken reserveCollateral cIn wToken wCollateral)
        (weightedBuy reserveToken reserveCollateral cIn wToken wCollateral) ↔
        (refusal (Binfixed.weightedBuy reserveToken reserveCollateral cIn wToken wCollateral) =
            none ↔
          refusal (weightedBuy reserveToken reserveCollateral cIn wToken wCollateral) = none)) := by
  unfold TradesAgree
  by_cases taken : cIn = 0 ∨ reserveToken = 0 ∨ reserveCollateral = 0
  · rw [Binfixed.weightedBuy, weightedBuy, if_pos taken, if_pos taken]
    refine ⟨iff_of_true rfl ?_, iff_of_true rfl (iff_of_false nofun nofun)⟩
    rcases taken with none | none | none
    · exact .inl none
    · exact .inr (.inl none)
    · exact .inr (.inr (.inl none))
  by_cases weighted : wToken = 0 ∨ wCollateral = 0
  · rw [Binfixed.weightedBuy, weightedBuy, if_neg taken, if_neg taken, if_pos weighted,
      if_pos weighted]
    refine ⟨iff_of_true rfl ?_, iff_of_true rfl (iff_of_false nofun nofun)⟩
    rcases weighted with none | none
    · exact .inr (.inr (.inr (.inl none)))
    · exact .inr (.inr (.inr (.inr (.inl none))))
  by_cases fitting : reserveCollateral.toNat + cIn.toNat < 2 ^ 128
  · obtain ⟨binary, decimal⟩ := refusal_weightedBuy taken weighted fitting
    obtain ⟨hd, hn⟩ := not_or.mp weighted
    simp only [not_or] at taken
    have below := (@base_toNat reserveCollateral cIn (toNat_pos_iff.mp taken.1)).2
    rw [SameOutcome, binary, decimal, ← SameOutcome, or_iff_right taken.1, or_iff_right taken.2.1,
      or_iff_right taken.2.2, or_iff_right hd, or_iff_right hn, or_iff_right (not_le.mpr fitting)]
    exact ⟨sameOutcome_powFrac_iff, sameOutcome_powFrac_iff_answers hd hn below.le⟩
  · have large := not_lt.mp fitting
    rw [Binfixed.weightedBuy, weightedBuy, if_neg taken, if_neg taken, if_neg weighted,
      if_neg weighted, checkedAdd_eq_none_iff.mpr large]
    exact ⟨iff_of_true rfl (.inr (.inr (.inr (.inr (.inr (.inl large)))))),
      iff_of_true rfl (iff_of_false nofun nofun)⟩

/-- At exponents of at most `2 ^ 60` only a base of zero tells the powers apart. -/
theorem powersAgree_of_ratio {x num den : U128} (ordered : num.toNat ≤ 2 ^ 60 * den.toNat)
    (hd : den ≠ 0) (hn : num ≠ 0) (pos : 0 < x.toNat) (below : x.toNat ≤ 10 ^ 18) :
    PowersAgree x num den := by
  have within : ¬ ONE < x := one_lt_iff.not.mpr (not_lt.mpr below)
  rw [PowersAgree, if_neg hd, if_neg hn, if_neg (toNat_pos_iff.mpr pos), if_neg within]
  -- both logarithms are below `2 ^ 68`
  obtain ⟨nonneg, binary⟩ := Binfixed.nl_range pos below
  obtain ⟨-, decimal, -, -⟩ := negLn_close pos below
  have weight := toNat_pos_iff.mp hd
  have scaled {l : ℕ} (small : l < 2 ^ 68) : l * num.toNat < 2 ^ 128 * den.toNat := by
    calc l * num.toNat ≤ l * (2 ^ 60 * den.toNat) := Nat.mul_le_mul_left l ordered
      _ < 2 ^ 68 * (2 ^ 60 * den.toNat) := Nat.mul_lt_mul_of_pos_right small (by omega)
      _ = 2 ^ 128 * den.toNat := by rw [← mul_assoc, ← pow_add]
  exact .inr (iff_of_true (scaled (by omega)) (scaled (by omega)))

/-- At weights no more than `2 ^ 60` times apart only a base of zero tells the swaps apart. -/
theorem tradesAgree_of_ratio (ordered : wCollateral.toNat ≤ 2 ^ 60 * wToken.toNat)
    (pos : 0 < (base reserveCollateral cIn).toNat) :
    TradesAgree reserveToken reserveCollateral cIn wToken wCollateral := by
  by_cases none : cIn = 0
  · exact .inl none
  by_cases hd : wToken = 0
  · exact .inr (.inr (.inr (.inl hd)))
  by_cases hn : wCollateral = 0
  · exact .inr (.inr (.inr (.inr (.inl hn))))
  have below := (@base_toNat reserveCollateral cIn (toNat_pos_iff.mp none)).2
  exact .inr (.inr (.inr (.inr (.inr (.inr (powersAgree_of_ratio ordered hd hn pos below.le))))))

/-! ### The result -/

/-- The powers answer the same arguments and refuse the rest for the same reasons exactly
where their guards agree, and the swaps accept and refuse the same trades exactly where the
powers agree at the rounded base. Exponents up to `2 ^ 60`, and weights no further apart, are
told apart by a base of zero alone. -/
theorem contracts_agree_iff
    (x num den reserveToken reserveCollateral cIn wToken wCollateral : U128) :
    (SameOutcome (Binfixed.powFrac x num den) (powFrac x num den) ↔ PowersAgree x num den) ∧
      (SameOutcome (Binfixed.weightedBuy reserveToken reserveCollateral cIn wToken wCollateral)
          (weightedBuy reserveToken reserveCollateral cIn wToken wCollateral) ↔
        TradesAgree reserveToken reserveCollateral cIn wToken wCollateral) ∧
      (((∃ out, Kernel.binary.Buys reserveToken reserveCollateral cIn wToken wCollateral out) ↔
          ∃ out, Kernel.decimal.Buys reserveToken reserveCollateral cIn wToken wCollateral out) ↔
        TradesAgree reserveToken reserveCollateral cIn wToken wCollateral) ∧
      (num.toNat ≤ 2 ^ 60 * den.toNat → den ≠ 0 → num ≠ 0 → 0 < x.toNat → x.toNat ≤ 10 ^ 18 →
        PowersAgree x num den) ∧
      (wCollateral.toNat ≤ 2 ^ 60 * wToken.toNat → 0 < (base reserveCollateral cIn).toNat →
        TradesAgree reserveToken reserveCollateral cIn wToken wCollateral) := by
  obtain ⟨agree, answers⟩ := @sameOutcome_weightedBuy_iff reserveToken reserveCollateral cIn
    wToken wCollateral
  refine ⟨sameOutcome_powFrac_iff, agree, ?_, powersAgree_of_ratio, tradesAgree_of_ratio⟩
  rw [← agree, answers, refusal_eq_none_iff, refusal_eq_none_iff]
  rfl

/-- A zero base: the binary power is zero and its swap pays out the whole reserve, where the
decimal kernel refuses both. -/
theorem zero_base_differs :
    Binfixed.powFrac 0 1 2 = .ok 0 ∧ powFrac 0 1 2 = .error .zeroAmount ∧
      ¬ SameOutcome (Binfixed.powFrac 0 1 2) (powFrac 0 1 2) ∧
      Binfixed.weightedBuy 7 1 1000000000000000000 1 2 = .ok 7 ∧
      weightedBuy 7 1 1000000000000000000 1 2 = .error .zeroAmount := by
  have binary : Binfixed.powFrac 0 1 2 = .ok 0 := by decide
  have decimal : powFrac 0 1 2 = .error .zeroAmount := by decide
  refine ⟨binary, decimal, ?_, by decide +kernel, by decide +kernel⟩
  rw [binary, decimal]
  decide

end Weighted

end Antumbra
