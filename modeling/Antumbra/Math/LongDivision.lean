/-
# Restoring division of a double word by a word

The dividend is `hi * 2 ^ w + lo`. The loop reads the bits of `lo` from the top,
shifts each into the running remainder and subtracts the divisor where it fits.
The shift drops the remainder's top bit; reading that bit first is what keeps the
true remainder below the divisor at every step.
-/

import Antumbra.Math.Word
import Mathlib.Tactic.Ring

namespace Antumbra.Math

variable {w : ℕ}

/-- One step of the loop on a pair of remainder and quotient: bit `i` of `lo` is
shifted in, and the divisor comes off when the shifted remainder reaches it. -/
def divStep (d lo : BitVec w) (i : ℕ) (s : BitVec w × BitVec w) : BitVec w × BitVec w :=
  let carried := s.1 >>> (w - 1)
  let bit := (lo >>> i) &&& 1
  let rem := s.1 <<< 1 ||| bit
  let quo := s.2 <<< 1
  -- a carried bit means the true value is past the divisor, whatever `rem` shows
  if carried = 1 ∨ d ≤ rem then (rem - d, quo ||| 1) else (rem, quo)

/-- The steps for the low `i` bits of `lo`, from bit `i - 1` down to bit `0`. -/
def divLoop (d lo : BitVec w) : ℕ → BitVec w × BitVec w → BitVec w × BitVec w
  | 0, s => s
  | i + 1, s => divLoop d lo i (divStep d lo i s)

/-- The state after all bits from `i` up were read: the prefix of the dividend
they make is split exactly, with a remainder below the divisor. -/
structure DivInvariant (d hi lo : BitVec w) (i : ℕ) (s : BitVec w × BitVec w) : Prop where
  split : hi.toNat * 2 ^ (w - i) + lo.toNat / 2 ^ i = s.2.toNat * d.toNat + s.1.toNat
  rem_lt : s.1.toNat < d.toNat
  quo_lt : s.2.toNat < 2 ^ (w - i)

theorem DivInvariant.start {d hi lo : BitVec w} (h : hi < d) :
    DivInvariant d hi lo w (hi, 0) where
  split := by simp [Nat.div_eq_of_lt lo.isLt]
  rem_lt := BitVec.lt_def.mp h
  quo_lt := by simp

/-- Shifting in one bit doubles the value, as far as the width goes. -/
theorem toNat_shiftLeft_one_or (hw : 0 < w) (x b : BitVec w) (hb : b.toNat < 2) :
    (x <<< 1 ||| b).toNat = 2 * x.toNat % 2 ^ w + b.toNat := by
  obtain ⟨v, rfl⟩ : ∃ v, w = v + 1 := ⟨w - 1, by omega⟩
  have even : 2 * x.toNat % 2 ^ (v + 1) = 2 ^ 1 * (x.toNat % 2 ^ v) := by
    rw [pow_succ', Nat.mul_mod_mul_left, pow_one]
  rw [BitVec.toNat_or, BitVec.toNat_shiftLeft, Nat.shiftLeft_eq, pow_one, mul_comm, even,
    Nat.two_pow_add_eq_or_of_lt (by simpa using hb)]

theorem toNat_one (hw : 0 < w) : (1 : BitVec w).toNat = 1 := by
  obtain ⟨v, rfl⟩ : ∃ v, w = v + 1 := ⟨w - 1, by omega⟩
  simp

theorem toNat_bit (hw : 0 < w) (x : BitVec w) (i : ℕ) :
    ((x >>> i) &&& 1).toNat = x.toNat / 2 ^ i % 2 := by
  rw [BitVec.toNat_and, BitVec.toNat_ushiftRight, Nat.shiftRight_eq_div_pow, toNat_one hw,
    Nat.and_one_is_mod]

/-- The top bit is set exactly when doubling leaves the width. -/
theorem topBit_eq_one_iff (hw : 0 < w) (x : BitVec w) :
    x >>> (w - 1) = 1 ↔ 2 ^ w ≤ 2 * x.toNat := by
  have hx := x.isLt
  rw [← BitVec.toNat_inj, BitVec.toNat_ushiftRight, Nat.shiftRight_eq_div_pow, toNat_one hw]
  obtain ⟨v, rfl⟩ : ∃ v, w = v + 1 := ⟨w - 1, by omega⟩
  rw [Nat.add_sub_cancel]
  rw [pow_succ] at hx ⊢
  have hpos : 0 < 2 ^ v := Nat.two_pow_pos v
  rw [Nat.div_eq_iff hpos]
  omega

/-- Bit `i` extends the prefix of the dividend by one binary digit. -/
theorem prefix_succ (hi lo : ℕ) {i : ℕ} (h : i < w) :
    hi * 2 ^ (w - i) + lo / 2 ^ i =
      2 * (hi * 2 ^ (w - (i + 1)) + lo / 2 ^ (i + 1)) + lo / 2 ^ i % 2 := by
  have width : w - i = w - (i + 1) + 1 := by omega
  have digits := Nat.div_add_mod (lo / 2 ^ i) 2
  rw [Nat.div_div_eq_div_mul, ← pow_succ] at digits
  rw [width, pow_succ]
  have := Nat.mul_comm (2 ^ (w - (i + 1))) 2
  rw [← Nat.mul_assoc, Nat.mul_comm (hi * 2 ^ (w - (i + 1))) 2]
  omega

/-- Subtracting the divisor from the shifted remainder is exact although the shift
may have dropped a bit: the true value is below twice the divisor. -/
theorem toNat_restored (hw : 0 < w) {rem b d : BitVec w} (hb : b.toNat < 2)
    (rem_lt : rem.toNat < d.toNat)
    (fits : 2 ^ w ≤ 2 * rem.toNat ∨ d.toNat ≤ 2 * rem.toNat % 2 ^ w + b.toNat) :
    ((rem <<< 1 ||| b) - d).toNat + d.toNat = 2 * rem.toNat + b.toNat := by
  have shifted := toNat_shiftLeft_one_or hw rem b hb
  have dlt := d.isLt
  -- either the shift kept every bit, or it dropped one and the subtraction wraps back
  rcases Nat.lt_or_ge (2 * rem.toNat) (2 ^ w) with below | above
  · rw [Nat.mod_eq_of_lt below] at shifted fits
    rw [toNat_sub_of_le (by rw [BitVec.le_def]; omega)]
    omega
  · rw [Nat.mod_eq_sub_mod above, Nat.mod_eq_of_lt (by omega)] at shifted
    rw [BitVec.toNat_sub, shifted, Nat.mod_eq_of_lt (by omega)]
    omega

/-- One step carries the invariant from bit `i + 1` to bit `i`. -/
theorem DivInvariant.step {d hi lo : BitVec w} {i : ℕ} {s : BitVec w × BitVec w}
    (hs : DivInvariant d hi lo (i + 1) s) (h : i < w) :
    DivInvariant d hi lo i (divStep d lo i s) := by
  have hw : 0 < w := by omega
  obtain ⟨rem, quo⟩ := s
  obtain ⟨split, rem_lt, quo_lt⟩ := hs
  simp only at split rem_lt quo_lt
  have bit := toNat_bit hw lo i
  have bit_lt : ((lo >>> i) &&& 1).toNat < 2 := by omega
  have shifted := toNat_shiftLeft_one_or hw rem _ bit_lt
  have one := toNat_one hw
  -- the quotient has room for one more digit
  have width : 2 ^ (w - i) = 2 * 2 ^ (w - (i + 1)) := by
    rw [← pow_succ', show w - (i + 1) + 1 = w - i by omega]
  have room : 2 ^ (w - i) ≤ 2 ^ w := Nat.pow_le_pow_right (by omega) (by omega)
  have doubled := toNat_shiftLeft_one_or hw quo
  rw [Nat.mod_eq_of_lt (by omega)] at doubled
  have next : hi.toNat * 2 ^ (w - i) + lo.toNat / 2 ^ i =
      2 * quo.toNat * d.toNat + (2 * rem.toNat + ((lo >>> i) &&& 1).toNat) := by
    rw [prefix_succ hi.toNat lo.toNat h, split, bit]
    ring
  -- the two tests together say that the true value reaches the divisor
  simp only [divStep, topBit_eq_one_iff hw, BitVec.le_def, shifted]
  split
  · next fits =>
    have restored := toNat_restored hw bit_lt rem_lt fits
    have digit := doubled 1 (by omega)
    rw [one] at digit
    refine ⟨?_, ?_, ?_⟩
    · rw [next, digit, ← restored]
      ring
    · simp only
      omega
    · simp only [digit]
      omega
  · next below =>
    have exact : 2 * rem.toNat % 2 ^ w = 2 * rem.toNat := Nat.mod_eq_of_lt (by omega)
    have digit := doubled 0#w (by simp)
    rw [BitVec.or_zero, BitVec.toNat_zero, Nat.add_zero] at digit
    rw [exact] at shifted below
    refine ⟨?_, ?_, ?_⟩
    · rw [next, digit, shifted]
    · simp only [shifted]
      omega
    · simp only [digit]
      omega

/-- Reading the remaining bits leads from any state of the loop to its end. -/
theorem DivInvariant.loop {d hi lo : BitVec w} (i : ℕ) {s : BitVec w × BitVec w}
    (hs : DivInvariant d hi lo i s) (h : i ≤ w) :
    DivInvariant d hi lo 0 (divLoop d lo i s) := by
  induction i generalizing s with
  | zero => exact hs
  | succ i ih => exact ih (hs.step h) (by omega)

/-- The state after the first `k` steps on `(hi, 0)`. -/
def divAfter (d hi lo : BitVec w) : ℕ → BitVec w × BitVec w
  | 0 => (hi, 0)
  | k + 1 => divStep d lo (w - (k + 1)) (divAfter d hi lo k)

/-- The loop passes through these states: the steps not yet taken lead from each of
them to the end. -/
theorem divLoop_divAfter (d hi lo : BitVec w) {k : ℕ} (h : k ≤ w) :
    divLoop d lo (w - k) (divAfter d hi lo k) = divLoop d lo w (hi, 0) := by
  induction k with
  | zero => rfl
  | succ k ih =>
    rw [← ih (by omega), show w - k = w - (k + 1) + 1 by omega]
    rfl

/-- The invariant holds after every number of steps. -/
theorem DivInvariant.after {d hi : BitVec w} (lo : BitVec w) (above : hi < d) {k : ℕ}
    (h : k ≤ w) : DivInvariant d hi lo (w - k) (divAfter d hi lo k) := by
  induction k with
  | zero => exact DivInvariant.start above
  | succ k ih =>
    have previous := ih (by omega)
    rw [show w - k = w - (k + 1) + 1 by omega] at previous
    exact previous.step (by omega)

/-- The loop divides exactly: quotient and remainder are those of the double word. -/
theorem divLoop_eq {d hi : BitVec w} (lo : BitVec w) (h : hi < d) :
    (divLoop d lo w (hi, 0)).2.toNat = (hi.toNat * 2 ^ w + lo.toNat) / d.toNat ∧
      (divLoop d lo w (hi, 0)).1.toNat = (hi.toNat * 2 ^ w + lo.toNat) % d.toNat := by
  have start : DivInvariant d hi lo w (hi, 0) := DivInvariant.start h
  obtain ⟨split, rem_lt, -⟩ := start.loop w le_rfl
  rw [Nat.sub_zero, pow_zero, Nat.div_one, Nat.mul_comm _ d.toNat,
    Nat.add_comm (d.toNat * _)] at split
  constructor
  · rw [split, Nat.add_mul_div_left _ _ (by omega), Nat.div_eq_of_lt rem_lt, Nat.zero_add]
  · rw [split, Nat.add_mul_mod_self_left, Nat.mod_eq_of_lt rem_lt]

end Antumbra.Math
