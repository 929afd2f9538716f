/-
# The weighted-pool swap on a binary scale

The same power with `62` fractional bits, where dividing by the scale is a shift. The
logarithm reduces symmetrically around one, so its intermediates are signed words: they
are integers here, and an operation whose result leaves the word stops the program, as
the checked build does. Shifts drop what leaves the word and never stop it.
-/

import Antumbra.Weighted.Weighted

namespace Antumbra

open Antumbra.Math

namespace Binfixed

/-! ### Signed words -/

/-- How a call ends without a result. -/
inductive Failure
  | refused (e : CurveError)
  | overflowed
  deriving DecidableEq, Repr

/-- The numbers of a signed word of 128 bits. -/
def InI128 (x : ℤ) : Prop := -2 ^ 127 ≤ x ∧ x < 2 ^ 127

instance : DecidablePred InI128 := fun x => by
  unfold InI128
  infer_instance

/-- An exact result, unless it leaves the signed word. -/
def fits (x : ℤ) : Except Failure ℤ := if InI128 x then .ok x else .error .overflowed

/-- Division that truncates towards zero. -/
def quotient (a b : ℤ) : Except Failure ℤ :=
  if b = 0 then .error .overflowed else fits (a.tdiv b)

/-- `a << n`: the bits that leave the word are lost. -/
def shl (a : ℤ) (n : ℕ) : ℤ := (a * 2 ^ n).bmod (2 ^ 128)

/-- `a >> n`, which rounds down. -/
def shr (a : ℤ) (n : ℕ) : ℤ := a / 2 ^ n

/-- `as u128`. -/
def asU128 (a : ℤ) : U128 := BitVec.ofInt 128 a

/-- `as i128`. -/
def asI128 (x : U128) : ℤ := x.toInt

/-- A refusal of the shared unsigned arithmetic. -/
def orRefused {α : Type} (x : Except CurveError α) : Except Failure α := x.mapError .refused

/-! ### Constants -/

/-- The working scale: values have this many fractional bits. -/
def LN_SCALE : ℕ := 62

def ONE62 : ℤ := 4611686018427387904

/-- The public scale. -/
def ONE18 : ℤ := 1000000000000000000

/-- `ln 2` at the working scale, rounded. -/
def LN2_62 : ℤ := 3196577161300663915

/-- `2 ^ 30 / ln 2`, rounded: it estimates the reduction of the exponential. -/
def INV_LN2_30 : ℤ := 1549082005

/-- `2 ^ 62 / sqrt 2`, rounded: the lower edge of the reduction window. -/
def SQRT2_HALF_62 : ℤ := 3260954456333195553

/-- From here on the exponential is zero at any scale the kernel represents. -/
def EXP_ZERO_ABOVE : ℤ := 100 * LN2_62

/-- `2 ^ 62 / (2 i + 1)`, rounded: the coefficients of the atanh series. -/
def ATANH_62 : List ℤ :=
  [4611686018427387904, 1537228672809129301, 922337203685477581, 658812288346769701,
    512409557603043100, 419244183493398900, 354745078340568300, 307445734561825860,
    271275648142787524, 242720316759336205, 219604096115589900, 200508087757712518,
    184467440737095516]

/-- `(-1) ^ i * 2 ^ 62 / i!`, rounded: the coefficients of the exponential series. -/
def EXP_62 : List ℤ :=
  [4611686018427387904, -4611686018427387904, 2305843009213693952, -768614336404564651,
    192153584101141163, -38430716820228233, 6405119470038039, -915017067148291, 114377133393536,
    -12708570377060, 1270857037706, -115532457973, 9627704831, -740592679, 52899477, -3526632,
    220414, -12966, 720, -38, 2]

/-! ### The kernel -/

/-- A Horner pass from the last coefficient down to the first. -/
def horner (u : ℤ) : List ℤ → Except Failure ℤ
  | [] => .ok 0
  | [a] => .ok a
  | a :: as => do
    let p ← horner u as
    let product ← fits (p * u)
    fits (shr product LN_SCALE + a)

/-- The loop that shifts `m` up to the reduction window, counting the shifts, for at most
`fuel` of them. -/
def normalise62 : ℕ → ℤ → ℤ → ℤ × ℤ
  | 0, m, k => (m, k)
  | fuel + 1, m, k => if m < SQRT2_HALF_62 then normalise62 fuel (shl m 1) (k + 1) else (m, k)

/-- `-ln x` at the working scale, for `x` in `(0, 2 ^ 62]`. -/
def negLn62 (x62 : ℤ) : Except Failure ℤ :=
  if x62 ≤ 0 ∨ ONE62 < x62 then
    .error (.refused .zeroAmount)
  else do
    let (m, k) := normalise62 128 x62 0
    let num ← fits (m - ONE62)
    let den ← fits (m + ONE62)
    let t ← quotient (shl num LN_SCALE) den
    let square ← fits (t * t)
    let u := shr square LN_SCALE
    let p ← horner u ATANH_62
    -- twice the product: the shift is one short
    let product ← fits (t * p)
    let lnM := shr product (LN_SCALE - 1)
    let kLn2 ← fits (k * LN2_62)
    fits (kLn2 - lnM)

/-- `exp (-y)` at the working scale. -/
def expNeg62 (y : ℤ) : Except Failure ℤ :=
  if y ≤ 0 then
    .ok ONE62
  else if EXP_ZERO_ABOVE ≤ y then
    .ok 0
  else do
    let scaled ← fits (y * INV_LN2_30)
    let k := shr scaled (30 + LN_SCALE)
    let kLn2 ← fits (k * LN2_62)
    let s ← fits (y - kLn2)
    -- the estimate can land one step either side
    let (k, s) ←
      if s < 0 then do
        let k ← fits (k - 1)
        let s ← fits (s + LN2_62)
        pure (k, s)
      else if LN2_62 ≤ s then do
        let k ← fits (k + 1)
        let s ← fits (s - LN2_62)
        pure (k, s)
      else
        pure (k, s)
    if 63 ≤ k then
      return 0
    else do
      let acc ← horner s EXP_62
      let acc := if acc < 0 then 0 else acc
      -- shifting by a negative amount stops the program
      if k < 0 then
        throw .overflowed
      else
        return shr acc k.toNat

/-- The loop that shifts `xx` up to `[ONE18 / 2, ONE18)`, counting the shifts, for at most
`fuel` of them. -/
def normalise18 : ℕ → U128 → ℤ → U128 × ℤ
  | 0, xx, j => (xx, j)
  | fuel + 1, xx, j =>
    if xx < asU128 ONE18 / 2 then normalise18 fuel (xx <<< 1) (j + 1) else (xx, j)

/-- `x ^ (num / den)` for `x` in `(0, ONE18]`; equal weights return `x` as it is. -/
def powFrac (x num den : U128) : Except Failure U128 :=
  if den = 0 ∨ num = 0 then
    .error (.refused .zeroAmount)
  else if x = 0 then
    .ok 0
  else if asU128 ONE18 < x then
    .error (.refused .quantityAtOrAboveReserve)
  else if num = den then
    .ok x
  else do
    let (xx, j) := normalise18 128 x 0
    let m0 ← orRefused (mulDivFloor xx (asU128 ONE62) (asU128 ONE18))
    if asI128 m0 ≤ 0 then
      return 0
    else do
      let x62 := min (asI128 m0) ONE62
      let jLn2 ← fits (j * LN2_62)
      let rest ← negLn62 x62
      let nl ← fits (jLn2 + rest)
      let y ← orRefused (mulDivFloor (asU128 nl) num den)
      let r ← expNeg62 (asI128 y)
      let scaled ← fits (r * ONE18)
      return asU128 (shr scaled LN_SCALE)

/-- Tokens out for `cIn` collateral at these reserves and weights. -/
def weightedBuy (reserveToken reserveCollateral cIn wToken wCollateral : U128) :
    Except Failure U128 :=
  if cIn = 0 ∨ reserveToken = 0 ∨ reserveCollateral = 0 then
    .error (.refused .zeroAmount)
  else if wToken = 0 ∨ wCollateral = 0 then
    .error (.refused .zeroAmount)
  else do
    let denom ← okOr (.refused .overflow) (checkedAdd reserveCollateral cIn)
    let base ← orRefused (mulDivFloor reserveCollateral (asU128 ONE18) denom)
    let p ← powFrac base wCollateral wToken
    let oneMinus ← okOr (.refused .overflow) (checkedSub (asU128 ONE18) p)
    let out ← orRefused (mulDivFloor reserveToken oneMinus (asU128 ONE18))
    if reserveToken < out then
      throw (.refused .exceedsSaleReserve)
    else
      return out

/-! ### The loops end by their own tests -/

/-- A shift of a small number loses nothing. -/
theorem shl_eq {a : ℤ} {n : ℕ} (lower : -2 ^ 127 ≤ a * 2 ^ n) (upper : a * 2 ^ n < 2 ^ 127) :
    shl a n = a * 2 ^ n := by
  unfold shl
  apply Int.bmod_eq_of_le
  · omega
  · omega

/-- The loop of the logarithm doubles its argument exactly. -/
theorem shl_one_of_lt {m : ℤ} (positive : 0 < m) (below : m < SQRT2_HALF_62) :
    shl m 1 = m * 2 := by
  unfold SQRT2_HALF_62 at below
  rw [shl_eq (by omega) (by omega), pow_one]

theorem le_normalise62 {fuel : ℕ} {m k : ℤ} (positive : 0 < m)
    (enough : SQRT2_HALF_62 ≤ m * 2 ^ fuel) : SQRT2_HALF_62 ≤ (normalise62 fuel m k).1 := by
  induction fuel generalizing m k with
  | zero =>
    rw [pow_zero, mul_one] at enough
    exact enough
  | succ fuel ih =>
    unfold normalise62
    split
    · next below =>
      rw [shl_one_of_lt positive below]
      refine ih (by omega) ?_
      rw [mul_assoc, ← pow_succ']
      exact enough
    · next above => exact not_lt.mp above

theorem le_normalise18 {fuel : ℕ} {xx : U128} {j : ℤ}
    (enough : (asU128 ONE18 / 2).toNat ≤ xx.toNat * 2 ^ fuel) :
    asU128 ONE18 / 2 ≤ (normalise18 fuel xx j).1 := by
  induction fuel generalizing xx j with
  | zero =>
    rw [pow_zero, mul_one] at enough
    exact BitVec.le_def.mpr enough
  | succ fuel ih =>
    unfold normalise18
    split
    · next below =>
      have doubled : (xx <<< 1).toNat = xx.toNat * 2 := by
        rw [BitVec.lt_def, show (asU128 ONE18 / 2).toNat = 500000000000000000 from rfl] at below
        rw [BitVec.toNat_shiftLeft, Nat.shiftLeft_eq, Nat.mod_eq_of_lt (by omega)]
      refine ih ?_
      rw [doubled, mul_assoc, ← pow_succ']
      exact enough
    · next above => exact BitVec.not_lt.mp above

/-- The fuel of the kernel covers every argument its loops are given. -/
theorem loops_end {x : ℤ} (hx : 0 < x) {y : U128} (hy : y ≠ 0) :
    SQRT2_HALF_62 ≤ (normalise62 128 x 0).1 ∧ asU128 ONE18 / 2 ≤ (normalise18 128 y 0).1 := by
  refine ⟨le_normalise62 hx ?_, le_normalise18 ?_⟩
  · unfold SQRT2_HALF_62
    omega
  · rw [toNat_pos_iff] at hy
    rw [show (asU128 ONE18 / 2).toNat = 500000000000000000 from rfl]
    omega

end Binfixed

end Antumbra
