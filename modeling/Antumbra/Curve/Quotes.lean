/-
# Exact quotes and atomic trades

What a quote answers is a closed form of the two virtual reserves, rounded down. The
price of an exact quantity is the other side of the same adjunction: it is the least
payment whose rounded-down output reaches the quantity. A trade refused at any point
leaves the four counters where they were, because none of the assignments that follow
the quote can fail.
-/

import Antumbra.Curve.Solvency

namespace Antumbra

open Antumbra.Math

namespace Curve

variable {tokens collateral : ℕ} {c : Curve}

/-! ### Closed forms -/

/-- A word with a given value at most `bound` exists exactly when the value is. -/
theorem exists_word_le_iff {n : ℕ} {bound : U128} :
    (∃ out : U128, out.toNat = n ∧ out ≤ bound) ↔ n ≤ bound.toNat := by
  constructor
  · rintro ⟨out, rfl, le⟩
    exact BitVec.le_def.mp le
  · intro le
    have := bound.isLt
    refine ⟨BitVec.ofNat 128 n, ?_, ?_⟩
    · rw [BitVec.toNat_ofNat, Nat.mod_eq_of_lt (by omega)]
    · rw [BitVec.le_def, BitVec.toNat_ofNat, Nat.mod_eq_of_lt (by omega)]
      exact le

/-- With an input that fits, only the sale reserve can refuse a buy. -/
theorem quoteBuy_of_fits {cIn : U128} (input : cIn ≠ 0)
    (fits : c.vc.toNat + cIn.toNat < 2 ^ 128) :
    ∃ out : U128, out.toNat = c.vt.toNat * cIn.toNat / (c.vc.toNat + cIn.toNat) ∧
      c.quoteBuy cIn = if c.saleReserve < out then .error .exceedsSaleReserve else .ok out := by
  have pos := toNat_pos_iff.mp input
  have le_vt : c.vt.toNat * cIn.toNat / (c.vc.toNat + cIn.toNat) ≤ c.vt.toNat :=
    Nat.div_le_of_le_mul (by rw [Nat.mul_comm]; exact Nat.mul_le_mul_right _ (by omega))
  have := c.vt.isLt
  let out := BitVec.ofNat 128 (c.vt.toNat * cIn.toNat / (c.vc.toNat + cIn.toNat))
  have value : out.toNat = c.vt.toNat * cIn.toNat / (c.vc.toNat + cIn.toNat) := by
    rw [BitVec.toNat_ofNat, Nat.mod_eq_of_lt (by omega)]
  obtain ⟨denom, hdenom, remaining, hremaining, hout⟩ :=
    (share_eq_ok_iff input).mpr ⟨fits, value⟩
  refine ⟨out, value, ?_⟩
  unfold quoteBuy
  rw [if_neg input, hdenom, okOr, ok_bind, hremaining, ok_bind, hout, okOr, ok_bind]
  rfl

/-- A price is quoted for a quantity the sale reserve and the virtual reserve leave room
for: the rounded-up reserve that has to stand against the rest, less the one that does. -/
theorem quoteBuyExactOut_eq_ok_iff {q cost : U128} :
    c.quoteBuyExactOut q = .ok cost ↔
      q ≠ 0 ∧ q ≤ c.saleReserve ∧ q < c.vt ∧ c.vc.toNat + cost.toNat < 2 ^ 128 ∧
        c.vc.toNat + cost.toNat = (c.vt.toNat * c.vc.toNat) ⌈/⌉ (c.vt.toNat - q.toNat) := by
  unfold quoteBuyExactOut
  split_ifs with zero beyond above
  · simp [zero]
  · simp [BitVec.not_le.mpr beyond]
  · simp [BitVec.not_lt.mpr above]
  · rw [BitVec.not_lt] at beyond
    rw [BitVec.not_le] at above
    have rest : (c.vt - q).toNat = c.vt.toNat - q.toNat :=
      toNat_sub_of_le (BitVec.le_of_lt above)
    have some_rest : c.vt - q ≠ 0 := by
      rw [toNat_pos_iff, rest]
      rw [BitVec.lt_def] at above
      omega
    simp only [bind_eq_ok_iff, mulDivCeil_eq_ok_iff, okOr_eq_ok_iff, checkedSub_eq_some_iff, rest]
    constructor
    · rintro ⟨target, ⟨-, formula⟩, sum⟩
      have := target.isLt
      exact ⟨zero, beyond, above, by omega, by omega⟩
    · rintro ⟨-, -, -, fits, formula⟩
      refine ⟨BitVec.ofNat 128 (c.vc.toNat + cost.toNat), ⟨some_rest, ?_⟩, ?_⟩
      · rw [BitVec.toNat_ofNat, Nat.mod_eq_of_lt fits, formula]
      · rw [BitVec.toNat_ofNat, Nat.mod_eq_of_lt fits]
        omega

/-- A trade that clears its quote and its minimum answers the quote. -/
theorem Outcome.answer {quote : Except CurveError U128} {atLeast out : U128}
    {next : U128 → Curve} {result : Except CurveError U128 × Curve}
    (h : Outcome c quote atLeast next result) (quoted : quote = .ok out)
    (enough : atLeast ≤ out) : result.1 = .ok out := by
  obtain ⟨out', quote', -, answer⟩ | ⟨e, refuses, -⟩ := h
  · rw [answer, ← quote', quoted]
  · exact absurd enough (refuses out quoted)

/-- A buy that is not quoted answers with the quote's refusal. -/
theorem buy_of_quote_error {cIn minTokensOut : U128} {e : CurveError}
    (quote : c.quoteBuy cIn = .error e) : c.buy cIn minTokensOut = (.error e, c) := by
  unfold buy buyM
  simp only [CurveM.run_bind, CurveM.run_get, CurveM.run_quoted, quote]

/-! ### The least sufficient payment -/

/-- The price quoted for `q` tokens is the least payment that brings out `q`. -/
theorem Offsets.cost_le_iff (h : Offsets tokens collateral c) {q cost : U128}
    (price : c.quoteBuyExactOut q = .ok cost) (c' : ℕ) :
    q.toNat ≤ c.vt.toNat * c' / (c.vc.toNat + c') ↔ cost.toNat ≤ c' := by
  obtain ⟨-, -, below, -, formula⟩ := quoteBuyExactOut_eq_ok_iff.mp price
  have vc_pos : 0 < c.vc.toNat := by
    rw [h.collateral_eq]
    have := h.collateral_pos
    omega
  rw [le_share_iff vc_pos (BitVec.lt_def.mp below), ← formula, Nat.add_le_add_iff_left]

theorem Offsets.cost_pos (h : Offsets tokens collateral c) {q cost : U128}
    (price : c.quoteBuyExactOut q = .ok cost) : cost ≠ 0 := by
  have input := (quoteBuyExactOut_eq_ok_iff.mp price).1
  rw [toNat_pos_iff] at input ⊢
  -- paying nothing brings out nothing
  by_contra none
  have free := (h.cost_le_iff price 0).mpr (by omega)
  rw [Nat.mul_zero, Nat.zero_div] at free
  omega

/-- Buying at the quoted price delivers the quantity, or more of it than is for sale. -/
theorem Offsets.buy_at_cost (h : Offsets tokens collateral c) {q cost : U128}
    (price : c.quoteBuyExactOut q = .ok cost) :
    (∃ out, (c.buy cost q).1 = .ok out ∧ q ≤ out) ∨
      (c.buy cost q).1 = .error .exceedsSaleReserve ∧
        c.saleReserve.toNat < c.vt.toNat * cost.toNat / (c.vc.toNat + cost.toNat) := by
  have fits := (quoteBuyExactOut_eq_ok_iff.mp price).2.2.2.1
  obtain ⟨out, value, quote⟩ := quoteBuy_of_fits (h.cost_pos price) fits
  have enough : q ≤ out := by
    rw [BitVec.le_def, value, h.cost_le_iff price]
  by_cases beyond : c.saleReserve < out
  · rw [if_pos beyond] at quote
    refine .inr ⟨?_, by rwa [← value, ← BitVec.lt_def]⟩
    rw [buy_of_quote_error quote]
  · rw [if_neg beyond] at quote
    exact .inl ⟨out, (buy_outcome c cost q h.tokens_le h.collateral_le).answer quote enough,
      enough⟩

/-- On every curve that opened and was traded on: the exact-input quotes are the
rounded-down formulas wherever these are covered and fit, the exact-output quote is the
least sufficient payment, and buying at it never fails for slippage or overflow. -/
theorem quotes_exact {vt vc saleReserve : U128} {c₀ : Curve}
    (opened : Curve.new vt vc saleReserve = .ok c₀) (ts : List Trade) :
    let c := c₀.run ts
    (∀ cIn : U128,
        ((∃ out, c.quoteBuy cIn = .ok out) ↔
          1 ≤ cIn.toNat ∧ c.vc.toNat + cIn.toNat < 2 ^ 128 ∧
            c.vt.toNat * cIn.toNat / (c.vc.toNat + cIn.toNat) ≤ c.saleReserve.toNat) ∧
        ∀ out, c.quoteBuy cIn = .ok out →
          out.toNat = c.vt.toNat * cIn.toNat / (c.vc.toNat + cIn.toNat)) ∧
      (∀ tIn : U128,
        ((∃ out, c.quoteSell tIn = .ok out) ↔
          1 ≤ tIn.toNat ∧ c.vt.toNat + tIn.toNat < 2 ^ 128 ∧
            c.vc.toNat * tIn.toNat / (c.vt.toNat + tIn.toNat) ≤ c.realCollateral.toNat) ∧
        ∀ out, c.quoteSell tIn = .ok out →
          out.toNat = c.vc.toNat * tIn.toNat / (c.vt.toNat + tIn.toNat)) ∧
      ∀ q cost : U128, c.quoteBuyExactOut q = .ok cost →
        1 ≤ cost.toNat ∧
          (∀ c' : ℕ, q.toNat ≤ c.vt.toNat * c' / (c.vc.toNat + c') ↔ cost.toNat ≤ c') ∧
          ((∃ out, (c.buy cost q).1 = .ok out ∧ q ≤ out) ∨
            (c.buy cost q).1 = .error .exceedsSaleReserve ∧
              c.saleReserve.toNat < c.vt.toNat * cost.toNat / (c.vc.toNat + cost.toNat)) := by
  intro c
  have inv : Offsets _ _ c := (Offsets.of_new opened).run ts
  refine ⟨fun cIn => ⟨?_, fun out quote => (quoteBuy_eq_ok_iff.mp quote).2.2.1⟩,
    fun tIn => ⟨?_, fun out quote => (quoteSell_eq_ok_iff.mp quote).2.2.1⟩, ?_⟩
  · simp only [quoteBuy_eq_ok_iff, exists_and_left, toNat_pos_iff]
    exact and_congr_right fun _ => and_congr_right fun _ => exists_word_le_iff
  · simp only [quoteSell_eq_ok_iff, exists_and_left, toNat_pos_iff]
    exact and_congr_right fun _ => and_congr_right fun _ => exists_word_le_iff
  · intro q cost price
    exact ⟨toNat_pos_iff.mp (inv.cost_pos price), inv.cost_le_iff price, inv.buy_at_cost price⟩

theorem quotes_exact_small :
    let c := (⟨1000, 10, 500, 0⟩ : Curve).run [.buy 3 0, .sell 7 0]
    (∀ cIn : U128,
        ((∃ out, c.quoteBuy cIn = .ok out) ↔
          1 ≤ cIn.toNat ∧ c.vc.toNat + cIn.toNat < 2 ^ 128 ∧
            c.vt.toNat * cIn.toNat / (c.vc.toNat + cIn.toNat) ≤ c.saleReserve.toNat) ∧
        ∀ out, c.quoteBuy cIn = .ok out →
          out.toNat = c.vt.toNat * cIn.toNat / (c.vc.toNat + cIn.toNat)) ∧
      (∀ tIn : U128,
        ((∃ out, c.quoteSell tIn = .ok out) ↔
          1 ≤ tIn.toNat ∧ c.vt.toNat + tIn.toNat < 2 ^ 128 ∧
            c.vc.toNat * tIn.toNat / (c.vt.toNat + tIn.toNat) ≤ c.realCollateral.toNat) ∧
        ∀ out, c.quoteSell tIn = .ok out →
          out.toNat = c.vc.toNat * tIn.toNat / (c.vt.toNat + tIn.toNat)) ∧
      ∀ q cost : U128, c.quoteBuyExactOut q = .ok cost →
        1 ≤ cost.toNat ∧
          (∀ c' : ℕ, q.toNat ≤ c.vt.toNat * c' / (c.vc.toNat + c') ↔ cost.toNat ≤ c') ∧
          ((∃ out, (c.buy cost q).1 = .ok out ∧ q ≤ out) ∨
            (c.buy cost q).1 = .error .exceedsSaleReserve ∧
              c.saleReserve.toNat < c.vt.toNat * cost.toNat / (c.vc.toNat + cost.toNat)) :=
  quotes_exact (rfl : Curve.new 1000 10 500 = .ok ⟨1000, 10, 500, 0⟩) [.buy 3 0, .sell 7 0]

/-! ### A refused trade -/

/-- On every curve that opened and was traded on, a refused trade leaves all four counters
as they were: with the quote and the slippage check behind it, no assignment fails. -/
theorem refused_unchanged {vt vc saleReserve : U128} {c₀ : Curve}
    (opened : Curve.new vt vc saleReserve = .ok c₀) (ts : List Trade) :
    let c := c₀.run ts
    (∀ t e, (c.trade t).1 = .error e → (c.trade t).2 = c) ∧
      (∀ cIn minTokensOut out : U128, c.quoteBuy cIn = .ok out → minTokensOut ≤ out →
        checkedSub c.vt out ≠ none ∧ checkedAdd c.vc cIn ≠ none ∧
          checkedSub c.saleReserve out ≠ none ∧ checkedAdd c.realCollateral cIn ≠ none ∧
          (c.buy cIn minTokensOut).1 = .ok out) ∧
      ∀ tIn minCollateralOut out : U128, c.quoteSell tIn = .ok out → minCollateralOut ≤ out →
        checkedAdd c.vt tIn ≠ none ∧ checkedSub c.vc out ≠ none ∧
          checkedAdd c.saleReserve tIn ≠ none ∧ checkedSub c.realCollateral out ≠ none ∧
          (c.sell tIn minCollateralOut).1 = .ok out := by
  intro c
  have inv : Offsets _ _ c := (Offsets.of_new opened).run ts
  refine ⟨fun t e refused => ?_, fun cIn minTokensOut out quote enough => ?_,
    fun tIn minCollateralOut out quote enough => ?_⟩
  · cases inv.moves t with
    | bought _ _ _ _ _ answer => rw [answer] at refused; cases refused
    | sold _ _ _ _ _ answer => rw [answer] at refused; cases refused
    | refused _ answer => rw [answer]
  · obtain ⟨vt, vc, saleReserve, realCollateral⟩ :=
      bought_updates inv.tokens_le inv.collateral_le quote
    have answer := (buy_outcome c cIn minTokensOut inv.tokens_le inv.collateral_le).answer
      quote enough
    rw [vt, vc, saleReserve, realCollateral]
    exact ⟨nofun, nofun, nofun, nofun, answer⟩
  · obtain ⟨vt, vc, saleReserve, realCollateral⟩ :=
      sold_updates inv.tokens_le inv.collateral_le quote
    have answer := (sell_outcome c tIn minCollateralOut inv.tokens_le inv.collateral_le).answer
      quote enough
    rw [vt, vc, saleReserve, realCollateral]
    exact ⟨nofun, nofun, nofun, nofun, answer⟩

theorem refused_unchanged_small :
    let c := (⟨1000, 10, 500, 0⟩ : Curve).run [.buy 3 0, .sell 7 0]
    (∀ t e, (c.trade t).1 = .error e → (c.trade t).2 = c) ∧
      (∀ cIn minTokensOut out : U128, c.quoteBuy cIn = .ok out → minTokensOut ≤ out →
        checkedSub c.vt out ≠ none ∧ checkedAdd c.vc cIn ≠ none ∧
          checkedSub c.saleReserve out ≠ none ∧ checkedAdd c.realCollateral cIn ≠ none ∧
          (c.buy cIn minTokensOut).1 = .ok out) ∧
      ∀ tIn minCollateralOut out : U128, c.quoteSell tIn = .ok out → minCollateralOut ≤ out →
        checkedAdd c.vt tIn ≠ none ∧ checkedSub c.vc out ≠ none ∧
          checkedAdd c.saleReserve tIn ≠ none ∧ checkedSub c.realCollateral out ≠ none ∧
          (c.sell tIn minCollateralOut).1 = .ok out :=
  refused_unchanged (rfl : Curve.new 1000 10 500 = .ok ⟨1000, 10, 500, 0⟩)
    [.buy 3 0, .sell 7 0]

end Curve

end Antumbra
