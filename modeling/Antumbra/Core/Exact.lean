/-
# The 256-bit division over its whole domain

The product and the restoring loop at every operand of 128 bits: no partial sum of
the product leaves its word, the loop keeps the true remainder below the divisor
after each of its steps, and both quotients are exact or refused for the stated
reason.
-/

import Antumbra.Core.MulDiv

namespace Antumbra

open Antumbra.Math

/-- `wideMul` with every multiplication and addition checked: `none` where one of
them leaves its word. -/
def wideMulChecked (a b : U128) : Option (U128 × U128) := do
  let aHi := a >>> 64
  let aLo := a &&& lowMask
  let bHi := b >>> 64
  let bLo := b &&& lowMask
  let loLo ← checkedMul aLo bLo
  let hiLo ← checkedMul aHi bLo
  let loHi ← checkedMul aLo bHi
  let hiHi ← checkedMul aHi bHi
  let mid ← checkedAdd (loLo >>> 64) (hiLo &&& lowMask)
  let mid ← checkedAdd mid (loHi &&& lowMask)
  let lo := (mid <<< 64) ||| (loLo &&& lowMask)
  let hi ← checkedAdd hiHi (hiLo >>> 64)
  let hi ← checkedAdd hi (loHi >>> 64)
  let hi ← checkedAdd hi (mid >>> 64)
  return (hi, lo)

/-- A checked product of two limbs succeeds. -/
theorem checkedMul_limbs {x y : U128} (hx : x.toNat < 2 ^ 64) (hy : y.toNat < 2 ^ 64) :
    checkedMul x y = some (x * y) := by
  rw [checkedMul_eq_some_iff, (toNat_limb_mul hx hy).1]

theorem checkedAdd_fits {x y : U128} (h : x.toNat + y.toNat < 2 ^ 128) :
    checkedAdd x y = some (x + y) := checkedAdd_eq_some_iff_fits.mpr ⟨h, rfl⟩

/-- No partial product or sum leaves its word. -/
theorem wideMulChecked_eq (a b : U128) : wideMulChecked a b = some (wideMul a b) := by
  have ha := a.isLt
  have hb := b.isLt
  have aHi : (a >>> 64).toNat < 2 ^ 64 := by rw [toNat_high]; omega
  have aLo : (a &&& lowMask).toNat < 2 ^ 64 := by rw [toNat_low]; omega
  have bHi : (b >>> 64).toNat < 2 ^ 64 := by rw [toNat_high]; omega
  have bLo : (b &&& lowMask).toNat < 2 ^ 64 := by rw [toNat_low]; omega
  simp only [wideMulChecked, wideMul, checkedMul_limbs aLo bLo, checkedMul_limbs aHi bLo,
    checkedMul_limbs aLo bHi, checkedMul_limbs aHi bHi, Option.bind_eq_bind, Option.bind_some]
  obtain ⟨loLo, loLo_le⟩ := toNat_limb_mul aLo bLo
  obtain ⟨hiLo, hiLo_le⟩ := toNat_limb_mul aHi bLo
  obtain ⟨loHi, loHi_le⟩ := toNat_limb_mul aLo bHi
  obtain ⟨hiHi, hiHi_le⟩ := toNat_limb_mul aHi bHi
  generalize (a &&& lowMask) * (b &&& lowMask) = ll at *
  generalize (a >>> 64) * (b &&& lowMask) = hl at *
  generalize (a &&& lowMask) * (b >>> 64) = lh at *
  generalize (a >>> 64) * (b >>> 64) = hh at *
  -- three parts below `2 ^ 64` make the middle limb
  have mid₁ : (ll >>> 64 + (hl &&& lowMask)).toNat = ll.toNat / 2 ^ 64 + hl.toNat % 2 ^ 64 := by
    rw [BitVec.toNat_add, toNat_high, toNat_low]
    omega
  have mid₂ : (ll >>> 64 + (hl &&& lowMask) + (lh &&& lowMask)).toNat =
      ll.toNat / 2 ^ 64 + hl.toNat % 2 ^ 64 + lh.toNat % 2 ^ 64 := by
    rw [BitVec.toNat_add, mid₁, toNat_low]
    omega
  rw [checkedAdd_fits (by rw [toNat_high, toNat_low]; omega), Option.bind_some,
    checkedAdd_fits (by rw [mid₁, toNat_low]; omega), Option.bind_some]
  -- the top limb leaves room for the three carries
  have hi₁ : (hh + hl >>> 64).toNat = hh.toNat + hl.toNat / 2 ^ 64 := by
    rw [BitVec.toNat_add, toNat_high]
    omega
  have hi₂ : (hh + hl >>> 64 + lh >>> 64).toNat =
      hh.toNat + hl.toNat / 2 ^ 64 + lh.toNat / 2 ^ 64 := by
    rw [BitVec.toNat_add, hi₁, toNat_high]
    omega
  rw [checkedAdd_fits (by rw [toNat_high]; omega), Option.bind_some,
    checkedAdd_fits (by rw [hi₁, toNat_high]; omega), Option.bind_some,
    checkedAdd_fits (by rw [hi₂, toNat_high, mid₂]; omega), Option.bind_some]
  rfl

/-- The whole contract of the division: the product is exact with no overflow on the
way, after every number of steps the loop has split the part of the dividend it read,
with a remainder below the divisor, and the two quotients are exact or refused. -/
theorem division_exact (a b d : U128) :
    wideMulChecked a b = some (wideMul a b) ∧
    (wideMul a b).1.toNat * 2 ^ 128 + (wideMul a b).2.toNat = a.toNat * b.toNat ∧
    mulDivFloor a b d =
      (if d = 0 then .error .zeroAmount
      else if 2 ^ 128 ≤ a.toNat * b.toNat / d.toNat then .error .overflow
      else .ok (BitVec.ofNat 128 (a.toNat * b.toNat / d.toNat))) ∧
    mulDivCeil a b d =
      (if d = 0 then .error .zeroAmount
      else if 2 ^ 128 ≤ (a.toNat * b.toNat) ⌈/⌉ d.toNat then .error .overflow
      else .ok (BitVec.ofNat 128 ((a.toNat * b.toNat) ⌈/⌉ d.toNat))) ∧
    ∀ hi lo : U128, hi < d → ∀ k ≤ 128,
      divLoop d lo (128 - k) (divAfter d hi lo k) = divLoop d lo 128 (hi, 0) ∧
      (divAfter d hi lo k).1 < d ∧
      (hi.toNat * 2 ^ 128 + lo.toNat) / 2 ^ (128 - k) =
        (divAfter d hi lo k).2.toNat * d.toNat + (divAfter d hi lo k).1.toNat := by
  refine ⟨wideMulChecked_eq a b, wideMul_eq a b, mulDivFloor_eq a b d, mulDivCeil_eq a b d, ?_⟩
  intro hi lo above k hk
  obtain ⟨split, rem_lt, -⟩ := DivInvariant.after lo above hk
  refine ⟨divLoop_divAfter d hi lo hk, BitVec.lt_def.mpr rem_lt, ?_⟩
  -- the bits read so far are the dividend without its last `128 - k` bits
  have width : 2 ^ 128 = 2 ^ k * 2 ^ (128 - k) := by rw [← pow_add, Nat.add_sub_cancel' hk]
  rw [← split, width, ← Nat.mul_assoc, Nat.add_comm, Nat.add_mul_div_right _ _ (Nat.two_pow_pos _),
    Nat.add_comm, Nat.sub_sub_self hk]

/-- The largest operands: a carry is dropped by the shift at almost every step. -/
theorem division_exact_largest :
    let top : U128 := BitVec.allOnes 128
    mulDivFloor top top top = .ok top ∧
      ∀ k ≤ 128, (divAfter top (top - 1) top k).1 < top := by
  intro top
  obtain ⟨-, -, floor, -, steps⟩ := division_exact top top top
  refine ⟨floor.trans (by decide +kernel), fun k hk => ?_⟩
  exact (steps (top - 1) top (by decide) k hk).2.1

end Antumbra
