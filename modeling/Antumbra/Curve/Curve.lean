/-
# The bonding curve

A sale's live state is four counters. Every quote is one `mulDivCeil` of the two
virtual reserves, and every trade moves the counters one by one through checked
arithmetic. A trade that fails half way would leave the counters it had already
moved, so the state after a refusal is part of what a trade returns.
-/

import Antumbra.Core.MulDiv
import Antumbra.Math.Fallible

namespace Antumbra

open Antumbra.Math

/-- A sale's live state. The product of the reserves is never stored. -/
structure Curve where
  /-- Virtual token reserve. -/
  vt : U128
  /-- Virtual collateral reserve. -/
  vc : U128
  /-- Real project tokens still available to buy. -/
  saleReserve : U128
  /-- Real collateral the pool holds and a seller can draw from. -/
  realCollateral : U128
  deriving DecidableEq, Repr

/-- A method on `&mut self`: assignments made before an error stay. -/
abbrev CurveM := ExceptT CurveError (StateM Curve)

namespace CurveM

/-- The `?` operator on a checked result. -/
def checked (o : Option U128) : CurveM U128 :=
  match o with
  | some v => pure v
  | none => throw .overflow

/-- The `?` operator on a quote. -/
def quoted (r : Except CurveError U128) : CurveM U128 :=
  match r with
  | .ok v => pure v
  | .error e => throw e

variable {α β : Type}

/-- A run hands the state on, and stops where it is at the first error. -/
theorem run_bind (m : CurveM α) (f : α → CurveM β) (c : Curve) :
    (m >>= f).run.run c =
      match m.run.run c with
      | (.ok a, c') => (f a).run.run c'
      | (.error e, c') => (.error e, c') := by
  change (ExceptT.bindCont f (m.run.run c).1).run (m.run.run c).2 = _
  generalize m.run.run c = result
  obtain ⟨answer, c'⟩ := result
  cases answer <;> rfl

@[simp] theorem run_pure (a : α) (c : Curve) : (pure a : CurveM α).run.run c = (.ok a, c) := rfl

@[simp] theorem run_get (c : Curve) : (get : CurveM Curve).run.run c = (.ok c, c) := rfl

@[simp] theorem run_throw (e : CurveError) (c : Curve) :
    (throw e : CurveM α).run.run c = (.error e, c) := rfl

@[simp] theorem run_modify (f : Curve → Curve) (c : Curve) :
    (modify f : CurveM PUnit).run.run c = (.ok ⟨⟩, f c) := rfl

@[simp] theorem run_checked_some (v : U128) (c : Curve) :
    (checked (some v)).run.run c = (.ok v, c) := rfl

@[simp] theorem run_quoted (r : Except CurveError U128) (c : Curve) :
    (quoted r).run.run c = (r, c) := by
  cases r <;> rfl

end CurveM

namespace Curve

/-- A curve opens only when the virtual token reserve exceeds the quantity for sale. -/
def new (vt vc saleReserve : U128) : Except CurveError Curve :=
  if vt = 0 ∨ vc = 0 then
    .error .zeroAmount
  else if vt ≤ saleReserve then
    .error .virtualTokenReserveTooSmall
  else
    .ok { vt, vc, saleReserve, realCollateral := 0 }

/-- Tokens out for `cIn` collateral, rounded down. -/
def quoteBuy (c : Curve) (cIn : U128) : Except CurveError U128 :=
  if cIn = 0 then
    .error .zeroAmount
  else do
    let denom ← okOr .overflow (checkedAdd c.vc cIn)
    let remaining ← mulDivCeil c.vt c.vc denom
    let out ← okOr .overflow (checkedSub c.vt remaining)
    if c.saleReserve < out then
      .error .exceedsSaleReserve
    else
      return out

/-- Exact collateral cost of `q` tokens, rounded up. -/
def quoteBuyExactOut (c : Curve) (q : U128) : Except CurveError U128 :=
  if q = 0 then
    .error .zeroAmount
  else if c.saleReserve < q then
    .error .exceedsSaleReserve
  else if c.vt ≤ q then
    .error .quantityAtOrAboveReserve
  else do
    let denom := c.vt - q
    let target ← mulDivCeil c.vt c.vc denom
    okOr .overflow (checkedSub target c.vc)

/-- Collateral out for `tIn` tokens sold back, rounded down and never beyond the
real collateral. -/
def quoteSell (c : Curve) (tIn : U128) : Except CurveError U128 :=
  if tIn = 0 then
    .error .zeroAmount
  else do
    let denom ← okOr .overflow (checkedAdd c.vt tIn)
    let remaining ← mulDivCeil c.vc c.vt denom
    let out ← okOr .overflow (checkedSub c.vc remaining)
    if c.realCollateral < out then
      .error .exceedsRealCollateral
    else
      return out

/-- The body of `buy`: the quote and the slippage check come before any assignment,
the four checked assignments follow one by one. -/
def buyM (cIn minTokensOut : U128) : CurveM U128 := do
  let c ← get
  let out ← CurveM.quoted (c.quoteBuy cIn)
  if out < minTokensOut then
    throw .slippageExceeded
  -- an error from here on keeps the assignments made before it
  let vt ← CurveM.checked (checkedSub c.vt out)
  modify ({ · with vt })
  let vc ← CurveM.checked (checkedAdd c.vc cIn)
  modify ({ · with vc })
  let saleReserve ← CurveM.checked (checkedSub c.saleReserve out)
  modify ({ · with saleReserve })
  let realCollateral ← CurveM.checked (checkedAdd c.realCollateral cIn)
  modify ({ · with realCollateral })
  return out

/-- The body of `sell`. -/
def sellM (tIn minCollateralOut : U128) : CurveM U128 := do
  let c ← get
  let out ← CurveM.quoted (c.quoteSell tIn)
  if out < minCollateralOut then
    throw .slippageExceeded
  let vt ← CurveM.checked (checkedAdd c.vt tIn)
  modify ({ · with vt })
  let vc ← CurveM.checked (checkedSub c.vc out)
  modify ({ · with vc })
  let saleReserve ← CurveM.checked (checkedAdd c.saleReserve tIn)
  modify ({ · with saleReserve })
  let realCollateral ← CurveM.checked (checkedSub c.realCollateral out)
  modify ({ · with realCollateral })
  return out

/-- Apply a buy: the answer, and the state it leaves. -/
def buy (c : Curve) (cIn minTokensOut : U128) : Except CurveError U128 × Curve :=
  (buyM cIn minTokensOut).run.run c

/-- Apply a sell: the answer, and the state it leaves. -/
def sell (c : Curve) (tIn minCollateralOut : U128) : Except CurveError U128 × Curve :=
  (sellM tIn minCollateralOut).run.run c

/-- The sale closes when its reserve is exhausted. -/
def isClosed (c : Curve) : Bool := c.saleReserve = 0

example : (Curve.new 1000 1 500).map (fun c => (c.buy 1 0).1) = .ok (.ok 500) := by decide +kernel

/-! ### What the quotes compute -/

theorem new_eq_ok_iff {vt vc saleReserve : U128} {c : Curve} :
    Curve.new vt vc saleReserve = .ok c ↔
      vc ≠ 0 ∧ saleReserve < vt ∧ c = { vt, vc, saleReserve, realCollateral := 0 } := by
  unfold new
  split_ifs with zero small
  · simp only [false_iff, not_and]
    rintro hvc hlt rfl
    rcases zero with rfl | rfl
    · rw [BitVec.lt_def] at hlt
      simp at hlt
    · exact hvc rfl
  · simp [BitVec.not_lt.mpr small]
  · rw [not_or] at zero
    rw [BitVec.not_le] at small
    simp only [Except.ok.injEq]
    exact ⟨fun h => ⟨zero.2, small, h.symm⟩, fun h => h.2.2.symm⟩

/-- The three checked operations every exact-input quote makes: what is left of `x`
after `add` goes into `y` rounds up, so what comes out rounds down, and it fits. -/
theorem share_eq_ok_iff {x y add out : U128} (hadd : add ≠ 0) :
    (∃ denom, checkedAdd y add = some denom ∧ ∃ remaining, mulDivCeil x y denom = .ok remaining ∧
      checkedSub x remaining = some out) ↔
      y.toNat + add.toNat < 2 ^ 128 ∧ out.toNat = x.toNat * add.toNat / (y.toNat + add.toNat) := by
  have pos := toNat_pos_iff.mp hadd
  have hx := x.isLt
  have complement := sub_ceilDiv_eq_div x.toNat y.toNat (c := add.toNat) (by omega)
  -- what is left is at most `x`, so the last subtraction never fails
  have covered := share_le x.toNat y.toNat (c := add.toNat) (by omega)
  constructor
  · rintro ⟨denom, hdenom, remaining, hremaining, hout⟩
    rw [checkedAdd_eq_some_iff] at hdenom
    rw [checkedSub_eq_some_iff] at hout
    rw [mulDivCeil_eq_ok_iff, ← hdenom] at hremaining
    have := denom.isLt
    omega
  · rintro ⟨fits, hout⟩
    refine ⟨BitVec.ofNat 128 (y.toNat + add.toNat), ?_,
      BitVec.ofNat 128 ((x.toNat * y.toNat) ⌈/⌉ (y.toNat + add.toNat)), ?_, ?_⟩
    · rw [checkedAdd_eq_some_iff, BitVec.toNat_ofNat, Nat.mod_eq_of_lt fits]
    · rw [mulDivCeil_eq_ok_iff, toNat_pos_iff, BitVec.toNat_ofNat, BitVec.toNat_ofNat,
        Nat.mod_eq_of_lt fits, Nat.mod_eq_of_lt (by omega)]
      exact ⟨by omega, rfl⟩
    · rw [checkedSub_eq_some_iff, BitVec.toNat_ofNat, Nat.mod_eq_of_lt (by omega)]
      omega

/-- The last check of a quote: the output is covered by what backs it. -/
theorem covered_eq_ok_iff {ceiling out out' : U128} {e : CurveError} :
    (if ceiling < out' then .error e else return out' : Except CurveError U128) = .ok out ↔
      out ≤ ceiling ∧ out' = out := by
  split
  · next beyond =>
    simp only [reduceCtorEq, false_iff, not_and]
    rintro covered rfl
    exact BitVec.not_lt.mpr covered beyond
  · next covered =>
    rw [BitVec.not_lt] at covered
    simp only [pure_eq_ok, Except.ok.injEq]
    exact ⟨fun h => ⟨h ▸ covered, h⟩, fun h => h.2⟩

/-- An exact-input quote of something answers exactly when the sum fits and the output is
covered, and then with the share of `x` the input buys. -/
theorem coveredShare_eq_ok_iff {x y add ceiling out : U128} {full short beyond : CurveError}
    (hadd : add ≠ 0) :
    (do
      let denom ← okOr full (checkedAdd y add)
      let remaining ← mulDivCeil x y denom
      let out' ← okOr short (checkedSub x remaining)
      if ceiling < out' then .error beyond else return out' : Except CurveError U128) = .ok out ↔
      y.toNat + add.toNat < 2 ^ 128 ∧ out.toNat = x.toNat * add.toNat / (y.toNat + add.toNat) ∧
        out ≤ ceiling := by
  rw [← and_assoc, ← share_eq_ok_iff hadd]
  simp only [bind_eq_ok_iff, okOr_eq_ok_iff, covered_eq_ok_iff]
  constructor
  · rintro ⟨denom, hdenom, remaining, hremaining, out', hout, covered, rfl⟩
    exact ⟨⟨denom, hdenom, remaining, hremaining, hout⟩, covered⟩
  · rintro ⟨⟨denom, hdenom, remaining, hremaining, hout⟩, covered⟩
    exact ⟨denom, hdenom, remaining, hremaining, out, hout, covered, rfl⟩

/-- A buy is quoted exactly when it has an input, the collateral fits and the sale
reserve covers the output, and then at the rounded-down formula. -/
theorem quoteBuy_eq_ok_iff {c : Curve} {cIn out : U128} :
    c.quoteBuy cIn = .ok out ↔
      cIn ≠ 0 ∧ c.vc.toNat + cIn.toNat < 2 ^ 128 ∧
        out.toNat = c.vt.toNat * cIn.toNat / (c.vc.toNat + cIn.toNat) ∧ out ≤ c.saleReserve := by
  unfold quoteBuy
  split_ifs with zero
  · simp [zero]
  · rw [and_iff_right zero]
    exact coveredShare_eq_ok_iff zero

/-- A sell is quoted exactly when it has an input, the tokens fit and the real
collateral covers the output, and then at the rounded-down formula. -/
theorem quoteSell_eq_ok_iff {c : Curve} {tIn out : U128} :
    c.quoteSell tIn = .ok out ↔
      tIn ≠ 0 ∧ c.vt.toNat + tIn.toNat < 2 ^ 128 ∧
        out.toNat = c.vc.toNat * tIn.toNat / (c.vt.toNat + tIn.toNat) ∧
        out ≤ c.realCollateral := by
  unfold quoteSell
  split_ifs with zero
  · simp [zero]
  · rw [and_iff_right zero]
    exact coveredShare_eq_ok_iff zero

/-! ### What the trades do -/

/-- The state after an accepted buy. -/
def bought (c : Curve) (cIn out : U128) : Curve where
  vt := c.vt - out
  vc := c.vc + cIn
  saleReserve := c.saleReserve - out
  realCollateral := c.realCollateral + cIn

/-- The state after an accepted sell. -/
def sold (c : Curve) (tIn out : U128) : Curve where
  vt := c.vt + tIn
  vc := c.vc - out
  saleReserve := c.saleReserve + tIn
  realCollateral := c.realCollateral - out

/-- Where the real counters never exceed the virtual ones, none of the four assignments
of a quoted buy fails. -/
theorem bought_updates {c : Curve} {cIn out : U128} (tokens : c.saleReserve ≤ c.vt)
    (collateral : c.realCollateral ≤ c.vc) (quote : c.quoteBuy cIn = .ok out) :
    checkedSub c.vt out = some (c.vt - out) ∧ checkedAdd c.vc cIn = some (c.vc + cIn) ∧
      checkedSub c.saleReserve out = some (c.saleReserve - out) ∧
      checkedAdd c.realCollateral cIn = some (c.realCollateral + cIn) := by
  obtain ⟨-, fits, -, covered⟩ := quoteBuy_eq_ok_iff.mp quote
  rw [BitVec.le_def] at tokens collateral covered
  exact ⟨if_pos (by rw [BitVec.le_def]; omega), if_pos fits, if_pos covered, if_pos (by omega)⟩

/-- The same four for a sell, with the signs exchanged. -/
theorem sold_updates {c : Curve} {tIn out : U128} (tokens : c.saleReserve ≤ c.vt)
    (collateral : c.realCollateral ≤ c.vc) (quote : c.quoteSell tIn = .ok out) :
    checkedAdd c.vt tIn = some (c.vt + tIn) ∧ checkedSub c.vc out = some (c.vc - out) ∧
      checkedAdd c.saleReserve tIn = some (c.saleReserve + tIn) ∧
      checkedSub c.realCollateral out = some (c.realCollateral - out) := by
  obtain ⟨-, fits, -, covered⟩ := quoteSell_eq_ok_iff.mp quote
  rw [BitVec.le_def] at tokens collateral covered
  exact ⟨if_pos fits, if_pos (by rw [BitVec.le_def]; omega), if_pos (by omega), if_pos covered⟩

/-- What one trade can do: answer `out` from the quote and reach `next out`, or
refuse and change nothing. -/
def Outcome (c : Curve) (quote : Except CurveError U128) (atLeast : U128) (next : U128 → Curve)
    (result : Except CurveError U128 × Curve) : Prop :=
  (∃ out, quote = .ok out ∧ atLeast ≤ out ∧ result = (.ok out, next out)) ∨
    ∃ e, (∀ out, quote = .ok out → ¬ atLeast ≤ out) ∧ result = (.error e, c)

/-- Where the real counters never exceed the virtual ones, a buy either answers its
quote with all four counters moved, or refuses with none moved. -/
theorem buy_outcome (c : Curve) (cIn minTokensOut : U128) (tokens : c.saleReserve ≤ c.vt)
    (collateral : c.realCollateral ≤ c.vc) :
    Outcome c (c.quoteBuy cIn) minTokensOut (c.bought cIn) (c.buy cIn minTokensOut) := by
  unfold buy buyM Outcome
  simp only [CurveM.run_bind, CurveM.run_get, CurveM.run_quoted]
  cases quote : c.quoteBuy cIn with
  | error e => exact .inr ⟨e, by simp, rfl⟩
  | ok out =>
    by_cases slippage : out < minTokensOut
    · refine .inr ⟨.slippageExceeded, ?_, ?_⟩
      · rintro _ ⟨⟩
        exact BitVec.not_le.mpr slippage
      · simp only [slippage, if_true, CurveM.run_bind, CurveM.run_throw]
    · obtain ⟨vt, vc, saleReserve, realCollateral⟩ := bought_updates tokens collateral quote
      refine .inl ⟨out, rfl, BitVec.not_lt.mp slippage, ?_⟩
      simp only [slippage, if_false, vt, vc, saleReserve, realCollateral, CurveM.run_bind,
        CurveM.run_modify, CurveM.run_checked_some, CurveM.run_pure, bought]

/-- The same for a sell. -/
theorem sell_outcome (c : Curve) (tIn minCollateralOut : U128) (tokens : c.saleReserve ≤ c.vt)
    (collateral : c.realCollateral ≤ c.vc) :
    Outcome c (c.quoteSell tIn) minCollateralOut (c.sold tIn) (c.sell tIn minCollateralOut) := by
  unfold sell sellM Outcome
  simp only [CurveM.run_bind, CurveM.run_get, CurveM.run_quoted]
  cases quote : c.quoteSell tIn with
  | error e => exact .inr ⟨e, by simp, rfl⟩
  | ok out =>
    by_cases slippage : out < minCollateralOut
    · refine .inr ⟨.slippageExceeded, ?_, ?_⟩
      · rintro _ ⟨⟩
        exact BitVec.not_le.mpr slippage
      · simp only [slippage, if_true, CurveM.run_bind, CurveM.run_throw]
    · obtain ⟨vt, vc, saleReserve, realCollateral⟩ := sold_updates tokens collateral quote
      refine .inl ⟨out, rfl, BitVec.not_lt.mp slippage, ?_⟩
      simp only [slippage, if_false, vt, vc, saleReserve, realCollateral, CurveM.run_bind,
        CurveM.run_modify, CurveM.run_checked_some, CurveM.run_pure, sold]

end Curve

end Antumbra
