/-
# Split trades

A payment made in parts moves the curve along a path of roundings, a payment made whole
moves it once. Each rounding only raises the product of the virtual reserves, so at the
end of the path there is at least as much left in the curve as one trade would leave:
splitting never brings out more. Parts that are refused bring out nothing and change
nothing, so they need not be excluded.
-/

import Antumbra.Curve.Solvency

namespace Antumbra

open Antumbra.Math

namespace Curve

/-- What a call brings out: nothing when it is refused. -/
def answered : Except CurveError U128 → ℕ
  | .ok out => out.toNat
  | .error _ => 0

/-- What a sequence of calls brings out, each made in the state the earlier ones leave. -/
def received (c : Curve) : List Trade → ℕ
  | [] => 0
  | t :: ts => answered (c.trade t).1 + (c.next t).received ts

/-- The sum of the amounts of a split trade, whatever minimum each part asks for. -/
def amount (parts : List (U128 × U128)) : ℕ := (parts.map fun part => part.1.toNat).sum

/-- The buys of a split payment, in order. -/
def buys (parts : List (U128 × U128)) : List Trade :=
  parts.map fun part => .buy part.1 part.2

/-- The sells of a split return, in order. -/
def sells (parts : List (U128 × U128)) : List Trade :=
  parts.map fun part => .sell part.1 part.2

variable {tokens collateral : ℕ} {c : Curve}

/-! ### The ends of the path -/

/-- One part takes from the tokens what it answers and pays in at most its amount. -/
theorem Offsets.next_buy (h : Offsets tokens collateral c) (cIn minTokensOut : U128) :
    (c.next (.buy cIn minTokensOut)).vt.toNat +
        answered (c.trade (.buy cIn minTokensOut)).1 = c.vt.toNat ∧
      (c.next (.buy cIn minTokensOut)).vc.toNat ≤ c.vc.toNat + cIn.toNat := by
  unfold Curve.next
  cases h.moves (.buy cIn minTokensOut) with
  | bought cIn' _ out call quote answer =>
    obtain ⟨rfl, -⟩ := Trade.buy.inj call
    obtain ⟨vt, vc, -, -⟩ := h.toNat_bought quote
    have below := h.buy_lt quote
    rw [answer]
    simp only [answered]
    omega
  | sold _ _ _ call => cases call
  | refused e answer =>
    rw [answer]
    simp only [answered]
    omega

theorem Offsets.next_sell (h : Offsets tokens collateral c) (tIn minCollateralOut : U128) :
    (c.next (.sell tIn minCollateralOut)).vc.toNat +
        answered (c.trade (.sell tIn minCollateralOut)).1 = c.vc.toNat ∧
      (c.next (.sell tIn minCollateralOut)).vt.toNat ≤ c.vt.toNat + tIn.toNat := by
  unfold Curve.next
  cases h.moves (.sell tIn minCollateralOut) with
  | bought _ _ _ call => cases call
  | sold tIn' _ out call quote answer =>
    obtain ⟨rfl, -⟩ := Trade.sell.inj call
    obtain ⟨vt, vc, -, -⟩ := h.toNat_sold quote
    have covered := (quoteSell_eq_ok_iff.mp quote).2.2.2
    have collateral_eq := h.collateral_eq
    rw [BitVec.le_def] at covered
    rw [answer]
    simp only [answered]
    omega
  | refused e answer =>
    rw [answer]
    simp only [answered]
    omega

/-- A split payment takes from the tokens what its parts answer and pays in at most
their sum. -/
theorem Offsets.run_buys (h : Offsets tokens collateral c) (parts : List (U128 × U128)) :
    (c.run (buys parts)).vt.toNat + c.received (buys parts) = c.vt.toNat ∧
      (c.run (buys parts)).vc.toNat ≤ c.vc.toNat + amount parts := by
  induction parts generalizing c with
  | nil => exact ⟨rfl, Nat.le_refl _⟩
  | cons part parts ih =>
    obtain ⟨taken, paid⟩ := h.next_buy part.1 part.2
    obtain ⟨taken', paid'⟩ := ih (h.next (.buy part.1 part.2))
    change ((c.next _).run (buys parts)).vt.toNat + (_ + (c.next _).received (buys parts)) = _ ∧
      ((c.next _).run (buys parts)).vc.toNat ≤ _
    simp only [amount, List.map_cons, List.sum_cons] at paid' ⊢
    omega

theorem Offsets.run_sells (h : Offsets tokens collateral c) (parts : List (U128 × U128)) :
    (c.run (sells parts)).vc.toNat + c.received (sells parts) = c.vc.toNat ∧
      (c.run (sells parts)).vt.toNat ≤ c.vt.toNat + amount parts := by
  induction parts generalizing c with
  | nil => exact ⟨rfl, Nat.le_refl _⟩
  | cons part parts ih =>
    obtain ⟨taken, paid⟩ := h.next_sell part.1 part.2
    obtain ⟨taken', paid'⟩ := ih (h.next (.sell part.1 part.2))
    change ((c.next _).run (sells parts)).vc.toNat + (_ + (c.next _).received (sells parts)) = _ ∧
      ((c.next _).run (sells parts)).vt.toNat ≤ _
    simp only [amount, List.map_cons, List.sum_cons] at paid' ⊢
    omega

/-! ### The path against one trade -/

/-- On every curve that opened and was traded on: however a payment or a return is split,
and whatever parts are refused, its parts together bring out at most the rounded-down
output of the whole, which is what one trade of the whole answers where it is accepted. -/
theorem split_never_helps {vt vc saleReserve : U128} {c₀ : Curve}
    (opened : Curve.new vt vc saleReserve = .ok c₀) (ts : List Trade) :
    let c := c₀.run ts
    (∀ parts : List (U128 × U128),
        c.received (buys parts) ≤
            c.vt.toNat * amount parts / (c.vc.toNat + amount parts) ∧
          ∀ whole out : U128, whole.toNat = amount parts → c.quoteBuy whole = .ok out →
            c.received (buys parts) ≤ out.toNat) ∧
      ∀ parts : List (U128 × U128),
        c.received (sells parts) ≤
            c.vc.toNat * amount parts / (c.vt.toNat + amount parts) ∧
          ∀ whole out : U128, whole.toNat = amount parts → c.quoteSell whole = .ok out →
            c.received (sells parts) ≤ out.toNat := by
  intro c
  have inv : Offsets _ _ c := (Offsets.of_new opened).run ts
  have vt_pos : 0 < c.vt.toNat := by
    have := inv.tokens_eq
    have := inv.tokens_pos
    omega
  have vc_pos : 0 < c.vc.toNat := by
    have := inv.collateral_eq
    have := inv.collateral_pos
    omega
  constructor
  · intro parts
    obtain ⟨taken, paid⟩ := inv.run_buys parts
    have split : c.received (buys parts) ≤ _ :=
      (inv.fair_run (buys parts)).taken_le vc_pos taken paid
    refine ⟨split, fun whole out sum quote => ?_⟩
    rw [(quoteBuy_eq_ok_iff.mp quote).2.2.1, sum]
    exact split
  · intro parts
    obtain ⟨taken, paid⟩ := inv.run_sells parts
    have split : c.received (sells parts) ≤ _ :=
      (inv.fair_run (sells parts)).taken_le' vt_pos taken paid
    refine ⟨split, fun whole out sum quote => ?_⟩
    rw [(quoteSell_eq_ok_iff.mp quote).2.2.1, sum]
    exact split

theorem split_never_helps_small :
    let c := (⟨1000, 10, 500, 0⟩ : Curve).run [.buy 3 0, .sell 7 0]
    (∀ parts : List (U128 × U128),
        c.received (buys parts) ≤
            c.vt.toNat * amount parts / (c.vc.toNat + amount parts) ∧
          ∀ whole out : U128, whole.toNat = amount parts → c.quoteBuy whole = .ok out →
            c.received (buys parts) ≤ out.toNat) ∧
      ∀ parts : List (U128 × U128),
        c.received (sells parts) ≤
            c.vc.toNat * amount parts / (c.vt.toNat + amount parts) ∧
          ∀ whole out : U128, whole.toNat = amount parts → c.quoteSell whole = .ok out →
            c.received (sells parts) ≤ out.toNat :=
  split_never_helps (rfl : Curve.new 1000 10 500 = .ok ⟨1000, 10, 500, 0⟩)
    [.buy 3 0, .sell 7 0]

end Curve

end Antumbra
