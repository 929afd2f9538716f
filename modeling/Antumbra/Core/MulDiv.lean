/-
# Multiplication and division through 256 bits

Pricing and accrual never store a product of two 128-bit amounts. Each formula is
one multiplication followed by one division, taken in 256 bits, and refuses a
quotient that does not fit in 128. Here the limb arithmetic is described by exact
natural-number quotients, rounded down or up.
-/

import Antumbra.Math.LongDivision
import Antumbra.Math.Rounding

namespace Antumbra

open Antumbra.Math

/-- Every way a pricing call can refuse. -/
inductive CurveError
  | virtualTokenReserveTooSmall
  | zeroAmount
  | quantityAtOrAboveReserve
  | exceedsSaleReserve
  | exceedsRealCollateral
  | overflow
  | slippageExceeded
  deriving DecidableEq, Repr

/-- `u64::MAX as u128`, the mask of the low limb. -/
def lowMask : U128 := 0xFFFFFFFFFFFFFFFF

/-- The full product of two words as `(hi, lo)`, schoolbook over 64-bit limbs. -/
def wideMul (a b : U128) : U128 × U128 :=
  let aHi := a >>> 64
  let aLo := a &&& lowMask
  let bHi := b >>> 64
  let bLo := b &&& lowMask
  let loLo := aLo * bLo
  let hiLo := aHi * bLo
  let loHi := aLo * bHi
  let hiHi := aHi * bHi
  let mid := (loLo >>> 64) + (hiLo &&& lowMask) + (loHi &&& lowMask)
  let lo := (mid <<< 64) ||| (loLo &&& lowMask)
  let hi := hiHi + (hiLo >>> 64) + (loHi >>> 64) + (mid >>> 64)
  (hi, lo)

/-- Quotient and remainder of the double word `(hi, lo)`, refusing a quotient
beyond 128 bits. -/
def wideDiv (hi lo d : U128) : Except CurveError (U128 × U128) :=
  if d = 0 then
    .error .zeroAmount
  else if d ≤ hi then
    .error .overflow
  else
    let (rem, quo) := divLoop d lo 128 (hi, 0)
    .ok (quo, rem)

/-- `floor(a·b / d)`. -/
def mulDivFloor (a b d : U128) : Except CurveError U128 := do
  let (hi, lo) := wideMul a b
  let (q, _) ← wideDiv hi lo d
  return q

/-- `ceil(a·b / d)`. -/
def mulDivCeil (a b d : U128) : Except CurveError U128 := do
  let (hi, lo) := wideMul a b
  let (q, r) ← wideDiv hi lo d
  if r = 0 then
    return q
  else
    match checkedAdd q 1 with
    | some q => return q
    | none => throw .overflow

/-! ### The product -/

theorem toNat_high (x : U128) : (x >>> 64).toNat = x.toNat / 2 ^ 64 := by
  rw [BitVec.toNat_ushiftRight, Nat.shiftRight_eq_div_pow]

theorem toNat_low (x : U128) : (x &&& lowMask).toNat = x.toNat % 2 ^ 64 := by
  rw [BitVec.toNat_and, show lowMask.toNat = 2 ^ 64 - 1 from rfl, Nat.and_two_pow_sub_one_eq_mod]

theorem toNat_limbs (mid low : U128) (h : low.toNat < 2 ^ 64) :
    (mid <<< 64 ||| low).toNat = mid.toNat % 2 ^ 64 * 2 ^ 64 + low.toNat := by
  rw [BitVec.toNat_or, BitVec.toNat_shiftLeft, Nat.shiftLeft_eq,
    show mid.toNat * 2 ^ 64 % 2 ^ 128 = 2 ^ 64 * (mid.toNat % 2 ^ 64) by omega,
    ← Nat.two_pow_add_eq_or_of_lt h, Nat.mul_comm]

/-- The product of two limbs fits in a word. -/
theorem toNat_limb_mul {x y : U128} (hx : x.toNat < 2 ^ 64) (hy : y.toNat < 2 ^ 64) :
    (x * y).toNat = x.toNat * y.toNat ∧ x.toNat * y.toNat ≤ (2 ^ 64 - 1) * (2 ^ 64 - 1) := by
  have bound : x.toNat * y.toNat ≤ (2 ^ 64 - 1) * (2 ^ 64 - 1) :=
    Nat.mul_le_mul (by omega) (by omega)
  exact ⟨by rw [BitVec.toNat_mul, Nat.mod_eq_of_lt (by omega)], bound⟩

/-- The two words of `wideMul` are the exact product. -/
theorem wideMul_eq (a b : U128) :
    (wideMul a b).1.toNat * 2 ^ 128 + (wideMul a b).2.toNat = a.toNat * b.toNat := by
  have ha := a.isLt
  have hb := b.isLt
  have aHi := toNat_high a
  have aLo := toNat_low a
  have bHi := toNat_high b
  have bLo := toNat_low b
  obtain ⟨loLo, loLo_le⟩ := toNat_limb_mul (x := a &&& lowMask) (y := b &&& lowMask)
    (by omega) (by omega)
  obtain ⟨hiLo, hiLo_le⟩ := toNat_limb_mul (x := a >>> 64) (y := b &&& lowMask)
    (by omega) (by omega)
  obtain ⟨loHi, loHi_le⟩ := toNat_limb_mul (x := a &&& lowMask) (y := b >>> 64)
    (by omega) (by omega)
  obtain ⟨hiHi, hiHi_le⟩ := toNat_limb_mul (x := a >>> 64) (y := b >>> 64)
    (by omega) (by omega)
  have schoolbook : a.toNat * b.toNat =
      (a >>> 64).toNat * (b >>> 64).toNat * 2 ^ 128 +
        ((a >>> 64).toNat * (b &&& lowMask).toNat + (a &&& lowMask).toNat * (b >>> 64).toNat) *
          2 ^ 64 + (a &&& lowMask).toNat * (b &&& lowMask).toNat := by
    have splitA : a.toNat = (a >>> 64).toNat * 2 ^ 64 + (a &&& lowMask).toNat := by omega
    have splitB : b.toNat = (b >>> 64).toNat * 2 ^ 64 + (b &&& lowMask).toNat := by omega
    generalize (a >>> 64).toNat = ah at *
    generalize (a &&& lowMask).toNat = al at *
    generalize (b >>> 64).toNat = bh at *
    generalize (b &&& lowMask).toNat = bl at *
    rw [splitA, splitB]
    ring
  rw [schoolbook]
  -- no partial sum leaves its word, so each carry is the quotient it stands for
  simp only [wideMul, BitVec.toNat_add, toNat_high]
  rw [toNat_limbs _ _ (by rw [toNat_low]; omega)]
  simp only [BitVec.toNat_add, toNat_high, toNat_low, loLo, hiLo, loHi, hiHi] at *
  omega

/-! ### The quotients -/

/-- A double word's quotient leaves the word exactly when its high word reaches the divisor. -/
theorem wide_quotient_ge_iff {hi lo d : ℕ} (hlo : lo < 2 ^ 128) (pos : 0 < d) :
    2 ^ 128 ≤ (hi * 2 ^ 128 + lo) / d ↔ d ≤ hi := by
  rw [Nat.le_div_iff_mul_le pos]
  omega

theorem toNat_pos_iff {x : U128} : x ≠ 0 ↔ 0 < x.toNat := by
  rw [ne_eq, ← BitVec.toNat_inj, Nat.pos_iff_ne_zero]
  rfl

/-- A quotient that fits the word is the loop's. -/
theorem wideDiv_eq_of_lt {hi d : U128} (lo : U128) (above : hi < d) :
    wideDiv hi lo d =
      .ok (BitVec.ofNat 128 ((hi.toNat * 2 ^ 128 + lo.toNat) / d.toNat),
        BitVec.ofNat 128 ((hi.toNat * 2 ^ 128 + lo.toNat) % d.toNat)) := by
  have zero : d ≠ 0 := fun none => BitVec.not_lt_zero (none ▸ above)
  obtain ⟨quo, rem⟩ := divLoop_eq lo above
  rw [wideDiv, if_neg zero, if_neg (BitVec.not_le.mpr above)]
  -- the loop's result as a variable, so that its 128 rounds are not computed
  generalize divLoop d lo 128 (hi, 0) = out at *
  obtain ⟨r, q⟩ := out
  rw [← quo, ← rem, BitVec.ofNat_toNat, BitVec.ofNat_toNat, BitVec.setWidth_eq,
    BitVec.setWidth_eq]

/-- Division of a double word, in one fact. -/
theorem wideDiv_eq (hi lo d : U128) :
    wideDiv hi lo d =
      if d = 0 then .error .zeroAmount
      else if 2 ^ 128 ≤ (hi.toNat * 2 ^ 128 + lo.toNat) / d.toNat then .error .overflow
      else .ok (BitVec.ofNat 128 ((hi.toNat * 2 ^ 128 + lo.toNat) / d.toNat),
        BitVec.ofNat 128 ((hi.toNat * 2 ^ 128 + lo.toNat) % d.toNat)) := by
  by_cases zero : d = 0
  · rw [wideDiv, if_pos zero, if_pos zero]
  rw [if_neg zero]
  have reaches : 2 ^ 128 ≤ (hi.toNat * 2 ^ 128 + lo.toNat) / d.toNat ↔ d ≤ hi :=
    (wide_quotient_ge_iff lo.isLt (toNat_pos_iff.mp zero)).trans BitVec.le_def.symm
  by_cases large : 2 ^ 128 ≤ (hi.toNat * 2 ^ 128 + lo.toNat) / d.toNat
  · rw [if_pos large, wideDiv, if_neg zero, if_pos (reaches.mp large)]
  · rw [if_neg large]
    exact wideDiv_eq_of_lt lo (BitVec.not_le.mp fun above => large (reaches.mpr above))

/-- `mulDivFloor` returns the exact quotient rounded down, or says why it cannot. -/
theorem mulDivFloor_eq (a b d : U128) :
    mulDivFloor a b d =
      if d = 0 then .error .zeroAmount
      else if 2 ^ 128 ≤ a.toNat * b.toNat / d.toNat then .error .overflow
      else .ok (BitVec.ofNat 128 (a.toNat * b.toNat / d.toNat)) := by
  simp only [mulDivFloor, wideDiv_eq, wideMul_eq]
  split_ifs <;> rfl

/-- A quotient is given out exactly when there is one and it is in the word. -/
theorem quotient_eq_ok_iff {d q : U128} {v : ℕ} :
    (if d = 0 then .error .zeroAmount
      else if 2 ^ 128 ≤ v then .error .overflow
      else .ok (BitVec.ofNat 128 v) : Except CurveError U128) = .ok q ↔ d ≠ 0 ∧ q.toNat = v := by
  have hq := q.isLt
  split_ifs with zero large
  · simp [zero]
  · simp only [false_iff, not_and]
    omega
  · rw [Except.ok.injEq, ← BitVec.toNat_inj, BitVec.toNat_ofNat, Nat.mod_eq_of_lt (by omega)]
    exact ⟨fun h => ⟨zero, h.symm⟩, fun h => h.2.symm⟩

theorem mulDivFloor_eq_ok_iff {a b d q : U128} :
    mulDivFloor a b d = .ok q ↔ d ≠ 0 ∧ q.toNat = a.toNat * b.toNat / d.toNat := by
  rw [mulDivFloor_eq, quotient_eq_ok_iff]

/-- `mulDivCeil` returns the exact quotient rounded up, or says why it cannot. -/
theorem mulDivCeil_eq (a b d : U128) :
    mulDivCeil a b d =
      if d = 0 then .error .zeroAmount
      else if 2 ^ 128 ≤ (a.toNat * b.toNat) ⌈/⌉ d.toNat then .error .overflow
      else .ok (BitVec.ofNat 128 ((a.toNat * b.toNat) ⌈/⌉ d.toNat)) := by
  simp only [mulDivCeil, wideDiv_eq, wideMul_eq]
  by_cases zero : d = 0
  · simp only [zero, if_true]
    rfl
  have pos := toNat_pos_iff.mp zero
  simp only [zero, if_false, ceilDiv_eq_ite _ pos]
  have rem_lt := Nat.mod_lt (a.toNat * b.toNat) pos
  have dlt := d.isLt
  generalize a.toNat * b.toNat / d.toNat = q
  generalize a.toNat * b.toNat % d.toNat = r at *
  have rem_eq : BitVec.ofNat 128 r = 0 ↔ r = 0 := by
    rw [← BitVec.toNat_inj, BitVec.toNat_ofNat, Nat.mod_eq_of_lt (by omega)]
    rfl
  by_cases large : 2 ^ 128 ≤ q
  · rw [if_pos large, if_pos (by split_ifs <;> omega)]
    rfl
  have quo_eq : (BitVec.ofNat 128 q).toNat = q := by
    rw [BitVec.toNat_ofNat, Nat.mod_eq_of_lt (by omega)]
  rw [if_neg large]
  change (if BitVec.ofNat 128 r = 0 then _ else _) = _
  simp only [rem_eq]
  by_cases exact : r = 0
  · simp only [exact, if_true, if_neg large]
    rfl
  · simp only [exact, if_false]
    -- rounding the largest quotient up leaves the word
    by_cases top : 2 ^ 128 ≤ q + 1
    · have none : checkedAdd (BitVec.ofNat 128 q) 1 = none := by
        rw [checkedAdd_eq_none_iff, quo_eq]
        exact top
      rw [none, if_pos top]
      rfl
    · have some : checkedAdd (BitVec.ofNat 128 q) 1 = some (BitVec.ofNat 128 (q + 1)) := by
        rw [checkedAdd_eq_some_iff, quo_eq, BitVec.toNat_ofNat, Nat.mod_eq_of_lt (by omega)]
        rfl
      rw [some, if_neg top]
      rfl

theorem mulDivCeil_eq_ok_iff {a b d q : U128} :
    mulDivCeil a b d = .ok q ↔ d ≠ 0 ∧ q.toNat = (a.toNat * b.toNat) ⌈/⌉ d.toNat := by
  rw [mulDivCeil_eq, quotient_eq_ok_iff]

end Antumbra
