/-
# Checked arithmetic on machine words

Unsigned integers of a fixed width are bit vectors. The checked operations
return `none` where the exact result leaves the width, the saturating ones stop
at the end of the range. Every operation is described by one fact about natural
numbers, so that a proof about words becomes a proof about numbers at once.
-/

import Mathlib.Algebra.Group.Nat.Defs
import Mathlib.Data.Nat.Basic
import Mathlib.Tactic.Common

namespace Antumbra.Math

abbrev U8 := BitVec 8
abbrev U32 := BitVec 32
abbrev U64 := BitVec 64
abbrev U128 := BitVec 128

variable {w : ℕ}

instance instMinWord : Min (BitVec w) := minOfLe
instance instMaxWord : Max (BitVec w) := maxOfLe

/-- The sum, unless it leaves the width. -/
def checkedAdd (x y : BitVec w) : Option (BitVec w) :=
  if x.toNat + y.toNat < 2 ^ w then some (x + y) else none

/-- The difference, unless it is negative. -/
def checkedSub (x y : BitVec w) : Option (BitVec w) :=
  if y ≤ x then some (x - y) else none

/-- The product, unless it leaves the width. -/
def checkedMul (x y : BitVec w) : Option (BitVec w) :=
  if x.toNat * y.toNat < 2 ^ w then some (x * y) else none

/-- The difference, or zero where it would be negative. -/
def saturatingSub (x y : BitVec w) : BitVec w :=
  if y ≤ x then x - y else 0

/-! ### Values as natural numbers -/

@[simp] theorem toNat_zero : (0 : BitVec w).toNat = 0 := rfl

theorem toNat_sub_of_le {x y : BitVec w} (h : y ≤ x) : (x - y).toNat = x.toNat - y.toNat :=
  BitVec.toNat_sub_of_le h

/-- A difference, widened. -/
theorem toNat_widened_sub {v : ℕ} {x y : BitVec w} (wide : w ≤ v) (h : y.toNat ≤ x.toNat) :
    ((x - y).setWidth v).toNat = x.toNat - y.toNat := by
  have word := x.isLt
  have wider : 2 ^ w ≤ 2 ^ v := Nat.pow_le_pow_right (by decide) wide
  rw [BitVec.toNat_setWidth, toNat_sub_of_le (BitVec.le_def.mpr h), Nat.mod_eq_of_lt (by omega)]

theorem toNat_min (x y : BitVec w) : (min x y).toNat = min x.toNat y.toNat := by
  change (if x ≤ y then x else y).toNat = _
  split <;> rename_i h <;> rw [BitVec.le_def] at h <;> omega

theorem toNat_max (x y : BitVec w) : (max x y).toNat = max x.toNat y.toNat := by
  change (if x ≤ y then y else x).toNat = _
  split <;> rename_i h <;> rw [BitVec.le_def] at h <;> omega

@[simp] theorem toNat_saturatingSub (x y : BitVec w) :
    (saturatingSub x y).toNat = x.toNat - y.toNat := by
  unfold saturatingSub
  split
  · next h => exact toNat_sub_of_le h
  · next h =>
    rw [BitVec.le_def] at h
    change 0 = _
    omega

theorem checkedAdd_eq_some_iff {x y z : BitVec w} :
    checkedAdd x y = some z ↔ x.toNat + y.toNat = z.toNat := by
  unfold checkedAdd
  split
  · next h => rw [Option.some_inj, ← BitVec.toNat_inj, BitVec.toNat_add, Nat.mod_eq_of_lt h]
  · next h => simp only [reduceCtorEq, false_iff]; have := z.isLt; omega

/-- The same with the sum as a word. -/
theorem checkedAdd_eq_some_iff_fits {x y z : BitVec w} :
    checkedAdd x y = some z ↔ x.toNat + y.toNat < 2 ^ w ∧ z = x + y := by
  unfold checkedAdd
  split
  · next h => simp only [Option.some.injEq, h, true_and, eq_comm]
  · next h => simp only [reduceCtorEq, h, false_and]

theorem isSome_checkedAdd_iff {x y : BitVec w} :
    (checkedAdd x y).isSome = true ↔ x.toNat + y.toNat < 2 ^ w := by
  simp [checkedAdd]

theorem checkedAdd_eq_none_iff {x y : BitVec w} :
    checkedAdd x y = none ↔ 2 ^ w ≤ x.toNat + y.toNat := by
  simp [checkedAdd]

theorem checkedSub_eq_some_iff {x y z : BitVec w} :
    checkedSub x y = some z ↔ x.toNat = z.toNat + y.toNat := by
  unfold checkedSub
  split
  · next h =>
    rw [Option.some_inj, ← BitVec.toNat_inj, toNat_sub_of_le h]
    rw [BitVec.le_def] at h
    omega
  · next h => rw [BitVec.le_def] at h; simp only [reduceCtorEq, false_iff]; omega

theorem isSome_checkedSub_iff {x y : BitVec w} :
    (checkedSub x y).isSome = true ↔ y.toNat ≤ x.toNat := by
  simp [checkedSub, BitVec.le_def]

theorem checkedSub_eq_some_iff_le {x y z : BitVec w} :
    checkedSub x y = some z ↔ y ≤ x ∧ z = x - y := by
  unfold checkedSub
  split
  · next h => simp only [Option.some.injEq, h, true_and, eq_comm]
  · next h => simp only [reduceCtorEq, h, false_and]

theorem checkedMul_eq_some_iff {x y z : BitVec w} :
    checkedMul x y = some z ↔ x.toNat * y.toNat = z.toNat := by
  unfold checkedMul
  split
  · next h => rw [Option.some_inj, ← BitVec.toNat_inj, BitVec.toNat_mul, Nat.mod_eq_of_lt h]
  · next h => simp only [reduceCtorEq, false_iff]; have := z.isLt; omega

/-- A word is determined by the number it holds. -/
theorem word_ext {x y : BitVec w} (h : x.toNat = y.toNat) : x = y :=
  BitVec.toNat_inj.mp h

end Antumbra.Math
