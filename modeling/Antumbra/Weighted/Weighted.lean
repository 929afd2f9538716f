/-
# The weighted-pool swap on a decimal scale

The swap pays `Rt * (1 - (Rc / (Rc + C_in)) ^ (w_c / w_t))`, with a rational exponent.
The power is taken as `exp(e * ln x)` at a scale of `10 ^ 18`: the logarithm by a
doubling reduction and the atanh series, the exponential by a reduction modulo `ln 2`
and the Taylor series, every product through 256 bits.
-/

import Antumbra.Core.MulDiv
import Antumbra.Math.Fallible

namespace Antumbra

open Antumbra.Math

namespace Weighted

/-- One unit of the fixed-point scale. -/
def ONE : U128 := 1000000000000000000

/-- `ln 2` at the scale, truncated. -/
def LN2 : U128 := 693147180559945309

/-- Terms in the atanh series. -/
def ATANH_TERMS : ℕ := 24

/-- Terms in the exponential series. -/
def EXP_TERMS : ℕ := 24

/-- `a * b / ONE`, rounded down. -/
def mul (a b : U128) : Except CurveError U128 := mulDivFloor a b ONE

/-- `a * ONE / b`, rounded down. -/
def div (a b : U128) : Except CurveError U128 :=
  if b = 0 then .error .zeroAmount else mulDivFloor a ONE b

/-- The loop that doubles `m` into `[ONE / 2, ONE)`, counting the doublings, for at most
`fuel` of them. -/
def normalise : ℕ → U128 → U32 → Except CurveError (U128 × U32)
  | 0, m, k => .ok (m, k)
  | fuel + 1, m, k =>
    if m < ONE / 2 then do
      let m ← okOr .overflow (checkedMul m 2)
      normalise fuel m (k + 1)
    else
      .ok (m, k)

/-- The terms of the atanh series after the first, added to it. -/
def atanhSum (z z2 : U128) : Except CurveError U128 := do
  let (_, sum) ← (List.range' 1 (ATANH_TERMS - 1)).foldlM
    (fun (term, sum) i => do
      let term ← mul term z2
      let d := BitVec.ofNat 128 (2 * i + 1)
      let sum ← okOr .overflow (checkedAdd sum (term / d))
      return (term, sum))
    (z, z)
  return sum

/-- `-ln x` for `x` in `(0, ONE]`. -/
def negLn (x : U128) : Except CurveError U128 :=
  if x = 0 then
    .error .zeroAmount
  else if ONE < x then
    .error .quantityAtOrAboveReserve
  else if x = ONE then
    .ok 0
  else do
    let (m, k) ← normalise 128 x 0
    let negLnM ←
      if ONE ≤ m then
        pure 0
      else do
        -- `-ln m` is twice the atanh of `(1 - m) / (1 + m)`
        let z ← div (ONE - m) (ONE + m)
        let z2 ← mul z z
        let sum ← atanhSum z z2
        okOr .overflow (checkedMul sum 2)
    let kLn2 ← okOr .overflow (checkedMul LN2 (k.setWidth 128))
    okOr .overflow (checkedAdd kLn2 negLnM)

/-- The terms `is` of the exponential series, positive and negative ones apart; the loop
ends at the first term that is zero. -/
def expSums (r : U128) : List ℕ → U128 → U128 × U128 → Except CurveError (U128 × U128)
  | [], _, sums => .ok sums
  | i :: is, term, (pos, neg) => do
    let product ← mul term r
    let term := product / BitVec.ofNat 128 i
    if term = 0 then
      return (pos, neg)
    else if i % 2 = 1 then
      let neg ← okOr .overflow (checkedAdd neg term)
      expSums r is term (pos, neg)
    else
      let pos ← okOr .overflow (checkedAdd pos term)
      expSums r is term (pos, neg)

/-- `exp (-y)` for `y ≥ 0`. -/
def expNeg (y : U128) : Except CurveError U128 :=
  if y = 0 then
    .ok ONE
  else
    let n := y / LN2
    let r := y % LN2
    if 128 ≤ n then
      .ok 0
    else do
      let (pos, neg) ← expSums r (List.range' 1 (EXP_TERMS - 1)) ONE (ONE, 0)
      let e ← okOr .overflow (checkedSub pos neg)
      return e >>> n.toNat

/-- `x ^ (num / den)` for `x` in `(0, ONE]`; equal weights return `x` as it is. -/
def powFrac (x num den : U128) : Except CurveError U128 :=
  if den = 0 then
    .error .zeroAmount
  else if x = ONE then
    .ok ONE
  else if num = den then
    .ok x
  else do
    let nl ← negLn x
    let scaled ← mulDivFloor nl num den
    expNeg scaled

/-- Tokens out for `cIn` collateral at these reserves and weights. -/
def weightedBuy (reserveToken reserveCollateral cIn wToken wCollateral : U128) :
    Except CurveError U128 :=
  if cIn = 0 ∨ reserveToken = 0 ∨ reserveCollateral = 0 then
    .error .zeroAmount
  else if wToken = 0 ∨ wCollateral = 0 then
    .error .zeroAmount
  else do
    let denom ← okOr .overflow (checkedAdd reserveCollateral cIn)
    let base ← div reserveCollateral denom
    let p ← powFrac base wCollateral wToken
    let oneMinus ← okOr .overflow (checkedSub ONE p)
    let out ← mulDivFloor reserveToken oneMinus ONE
    if reserveToken < out then
      throw .exceedsSaleReserve
    else
      return out

/-- The doubling loop always ends by its own test: its fuel covers every positive word. -/
theorem half_le_of_normalise {fuel : ℕ} {m m' : U128} {k k' : U32}
    (enough : (ONE / 2).toNat ≤ m.toNat * 2 ^ fuel) (h : normalise fuel m k = .ok (m', k')) :
    ONE / 2 ≤ m' := by
  -- one round less to go, and one doubling less to need
  induction fuel generalizing m k with
  | zero =>
    rw [normalise, Except.ok.injEq, Prod.mk.injEq] at h
    rw [← h.1, BitVec.le_def]
    omega
  | succ fuel ih =>
    unfold normalise at h
    split at h
    · simp only [bind_eq_ok_iff, okOr_eq_ok_iff, checkedMul_eq_some_iff] at h
      obtain ⟨doubled, value, rest⟩ := h
      refine ih ?_ rest
      rw [← value, Nat.mul_assoc]
      rw [pow_succ'] at enough
      exact enough
    · next above =>
      rw [Except.ok.injEq, Prod.mk.injEq] at h
      rw [← h.1]
      exact BitVec.not_lt.mp above

end Weighted

end Antumbra
