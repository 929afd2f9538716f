/-
# Solvency of the curve

A run of the curve is a sequence of buys and sells, accepted or refused. Two
offsets never move, the product of the virtual reserves never falls, and the
collateral the curve holds is what was paid in and not yet paid out. Every
safety statement about the curve is these three facts together: the pool of
`Math.ConstantProduct` is refined move by move.
-/

import Antumbra.Curve.Curve
import Antumbra.Math.ConstantProduct
import Antumbra.Math.Runs

namespace Antumbra

open Antumbra.Math

namespace Curve

/-- A call on the curve, by anyone and with any arguments. -/
inductive Trade
  | buy (cIn minTokensOut : U128)
  | sell (tIn minCollateralOut : U128)
  deriving DecidableEq, Repr

/-- What a call answers, and the state it leaves. -/
def trade (c : Curve) : Trade → Except CurveError U128 × Curve
  | .buy cIn minTokensOut => c.buy cIn minTokensOut
  | .sell tIn minCollateralOut => c.sell tIn minCollateralOut

/-- The state after one call. -/
def next (c : Curve) (t : Trade) : Curve := (c.trade t).2

/-- The state after a sequence of calls. -/
def run (c : Curve) (ts : List Trade) : Curve := ts.foldl next c

/-- The call is accepted. -/
def Accepts (c : Curve) (t : Trade) : Prop := ∃ out, (c.trade t).1 = .ok out

/-- Every call of the sequence is accepted, each in the state the earlier ones leave. -/
def AcceptsAll (c : Curve) : List Trade → Prop
  | [] => True
  | t :: ts => c.Accepts t ∧ (c.next t).AcceptsAll ts

/-- Collateral the call brings in: the input of an accepted buy. -/
def paidIn (c : Curve) : Trade → ℕ
  | .buy cIn minTokensOut =>
    match (c.buy cIn minTokensOut).1 with
    | .ok _ => cIn.toNat
    | .error _ => 0
  | .sell _ _ => 0

/-- Collateral the call takes out: the output of an accepted sell. -/
def paidOut (c : Curve) : Trade → ℕ
  | .buy _ _ => 0
  | .sell tIn minCollateralOut =>
    match (c.sell tIn minCollateralOut).1 with
    | .ok out => out.toNat
    | .error _ => 0

/-- Collateral brought in over a sequence of calls. -/
def totalIn (c : Curve) : List Trade → ℕ
  | [] => 0
  | t :: ts => c.paidIn t + (c.next t).totalIn ts

/-- Collateral taken out over a sequence of calls. -/
def totalOut (c : Curve) : List Trade → ℕ
  | [] => 0
  | t :: ts => c.paidOut t + (c.next t).totalOut ts

/-- The virtual reserves as a pool. -/
def pool (c : Curve) : Pool := ⟨c.vt.toNat, c.vc.toNat⟩

/-- The virtual reserves stand a fixed amount above the real ones. -/
structure Offsets (tokens collateral : ℕ) (c : Curve) : Prop where
  tokens_eq : c.vt.toNat = c.saleReserve.toNat + tokens
  collateral_eq : c.vc.toNat = c.realCollateral.toNat + collateral
  tokens_pos : 0 < tokens
  collateral_pos : 0 < collateral

variable {tokens collateral : ℕ} {c : Curve}

/-! ### One call -/

theorem Offsets.of_new {vt vc saleReserve : U128} (opened : Curve.new vt vc saleReserve = .ok c) :
    Offsets (vt.toNat - saleReserve.toNat) vc.toNat c := by
  obtain ⟨hvc, above, rfl⟩ := new_eq_ok_iff.mp opened
  rw [BitVec.lt_def] at above
  exact
    { tokens_eq := by dsimp only; omega
      collateral_eq := by simp
      tokens_pos := by omega
      collateral_pos := toNat_pos_iff.mp hvc }

theorem Offsets.tokens_le (h : Offsets tokens collateral c) : c.saleReserve ≤ c.vt := by
  rw [BitVec.le_def, h.tokens_eq]
  omega

theorem Offsets.collateral_le (h : Offsets tokens collateral c) : c.realCollateral ≤ c.vc := by
  rw [BitVec.le_def, h.collateral_eq]
  omega

/-- The output of a buy never reaches the virtual token reserve. -/
theorem Offsets.buy_lt (h : Offsets tokens collateral c) {cIn out : U128}
    (quote : c.quoteBuy cIn = .ok out) : out.toNat < c.vt.toNat := by
  have covered := (quoteBuy_eq_ok_iff.mp quote).2.2.2
  have := h.tokens_eq
  have := h.tokens_pos
  rw [BitVec.le_def] at covered
  omega

/-- What a call does to the four counters, as natural numbers. -/
inductive Moves (c : Curve) (t : Trade) : Prop
  | bought (cIn minTokensOut out : U128) (call : t = .buy cIn minTokensOut)
      (quote : c.quoteBuy cIn = .ok out) (answer : c.trade t = (.ok out, c.bought cIn out))
  | sold (tIn minCollateralOut out : U128) (call : t = .sell tIn minCollateralOut)
      (quote : c.quoteSell tIn = .ok out) (answer : c.trade t = (.ok out, c.sold tIn out))
  | refused (e : CurveError) (answer : c.trade t = (.error e, c))

theorem Offsets.moves (h : Offsets tokens collateral c) (t : Trade) : c.Moves t := by
  cases t with
  | buy cIn minTokensOut =>
    obtain ⟨out, quote, -, answer⟩ | ⟨e, -, answer⟩ :=
      buy_outcome c cIn minTokensOut h.tokens_le h.collateral_le
    · exact .bought cIn minTokensOut out rfl quote answer
    · exact .refused e answer
  | sell tIn minCollateralOut =>
    obtain ⟨out, quote, -, answer⟩ | ⟨e, -, answer⟩ :=
      sell_outcome c tIn minCollateralOut h.tokens_le h.collateral_le
    · exact .sold tIn minCollateralOut out rfl quote answer
    · exact .refused e answer

/-- The counters after an accepted buy, without wrap-around. -/
theorem Offsets.toNat_bought (h : Offsets tokens collateral c) {cIn out : U128}
    (quote : c.quoteBuy cIn = .ok out) :
    (c.bought cIn out).vt.toNat = c.vt.toNat - out.toNat ∧
      (c.bought cIn out).vc.toNat = c.vc.toNat + cIn.toNat ∧
      (c.bought cIn out).saleReserve.toNat = c.saleReserve.toNat - out.toNat ∧
      (c.bought cIn out).realCollateral.toNat = c.realCollateral.toNat + cIn.toNat := by
  obtain ⟨-, fits, -, covered⟩ := quoteBuy_eq_ok_iff.mp quote
  have below := h.buy_lt quote
  have := h.collateral_eq
  -- the virtual sum fits by the quote, the real one because it is no larger
  refine ⟨toNat_sub_of_le (by rw [BitVec.le_def]; omega), ?_, toNat_sub_of_le covered, ?_⟩
  · exact (BitVec.toNat_add _ _).trans (Nat.mod_eq_of_lt fits)
  · exact (BitVec.toNat_add _ _).trans (Nat.mod_eq_of_lt (by omega))

/-- The counters after an accepted sell, without wrap-around. -/
theorem Offsets.toNat_sold (h : Offsets tokens collateral c) {tIn out : U128}
    (quote : c.quoteSell tIn = .ok out) :
    (c.sold tIn out).vt.toNat = c.vt.toNat + tIn.toNat ∧
      (c.sold tIn out).vc.toNat = c.vc.toNat - out.toNat ∧
      (c.sold tIn out).saleReserve.toNat = c.saleReserve.toNat + tIn.toNat ∧
      (c.sold tIn out).realCollateral.toNat = c.realCollateral.toNat - out.toNat := by
  obtain ⟨-, fits, -, covered⟩ := quoteSell_eq_ok_iff.mp quote
  have := h.tokens_eq
  have := h.collateral_eq
  have covered' := covered
  rw [BitVec.le_def] at covered'
  refine ⟨?_, toNat_sub_of_le (by rw [BitVec.le_def]; omega), ?_, toNat_sub_of_le covered⟩
  · exact (BitVec.toNat_add _ _).trans (Nat.mod_eq_of_lt fits)
  · exact (BitVec.toNat_add _ _).trans (Nat.mod_eq_of_lt (by omega))

theorem Offsets.bought (h : Offsets tokens collateral c) {cIn out : U128}
    (quote : c.quoteBuy cIn = .ok out) : Offsets tokens collateral (c.bought cIn out) := by
  obtain ⟨vt, vc, saleReserve, realCollateral⟩ := h.toNat_bought quote
  have covered := (quoteBuy_eq_ok_iff.mp quote).2.2.2
  have tokens_eq := h.tokens_eq
  have collateral_eq := h.collateral_eq
  rw [BitVec.le_def] at covered
  exact ⟨by omega, by omega, h.tokens_pos, h.collateral_pos⟩

theorem Offsets.sold (h : Offsets tokens collateral c) {tIn out : U128}
    (quote : c.quoteSell tIn = .ok out) : Offsets tokens collateral (c.sold tIn out) := by
  obtain ⟨vt, vc, saleReserve, realCollateral⟩ := h.toNat_sold quote
  have covered := (quoteSell_eq_ok_iff.mp quote).2.2.2
  have tokens_eq := h.tokens_eq
  have collateral_eq := h.collateral_eq
  rw [BitVec.le_def] at covered
  exact ⟨by omega, by omega, h.tokens_pos, h.collateral_pos⟩

/-- What a buyer takes is rounded down, so what stays is rounded up. -/
theorem Offsets.fair_bought (h : Offsets tokens collateral c) {cIn out : U128}
    (quote : c.quoteBuy cIn = .ok out) : c.pool.Fair (c.bought cIn out).pool := by
  obtain ⟨vt, vc, -, -⟩ := h.toNat_bought quote
  obtain ⟨input, -, formula, -⟩ := quoteBuy_eq_ok_iff.mp quote
  have pos := toNat_pos_iff.mp input
  refine Pool.fair_of_ceilDiv pos vc ?_
  change (c.bought cIn out).vt.toNat = _
  rw [vt, formula]
  exact sub_div_eq_ceilDiv _ _ (by omega)

theorem Offsets.fair_sold (h : Offsets tokens collateral c) {tIn out : U128}
    (quote : c.quoteSell tIn = .ok out) : c.pool.Fair (c.sold tIn out).pool := by
  obtain ⟨vt, vc, -, -⟩ := h.toNat_sold quote
  obtain ⟨input, -, formula, -⟩ := quoteSell_eq_ok_iff.mp quote
  have pos := toNat_pos_iff.mp input
  refine Pool.fair_of_ceilDiv' pos vt ?_
  change (c.sold tIn out).vc.toNat = _
  rw [vc, formula]
  exact sub_div_eq_ceilDiv _ _ (by omega)

/-- The two offsets survive every call. -/
theorem Offsets.next (h : Offsets tokens collateral c) (t : Trade) :
    Offsets tokens collateral (c.next t) := by
  unfold Curve.next
  cases h.moves t with
  | bought cIn _ out _ quote answer => rw [answer]; exact h.bought quote
  | sold tIn _ out _ quote answer => rw [answer]; exact h.sold quote
  | refused e answer => rw [answer]; exact h

/-- Every call is a fair move of the pool: both quotes round against the trader. -/
theorem Offsets.fair_next (h : Offsets tokens collateral c) (t : Trade) :
    c.pool.Fair (c.next t).pool := by
  unfold Curve.next
  cases h.moves t with
  | bought cIn _ out _ quote answer => rw [answer]; exact h.fair_bought quote
  | sold tIn _ out _ quote answer => rw [answer]; exact h.fair_sold quote
  | refused e answer => rw [answer]; exact Pool.Fair.refl _

/-- The virtual collateral moves by exactly what is paid. -/
theorem Offsets.paid_next (h : Offsets tokens collateral c) (t : Trade) :
    (c.next t).vc.toNat + c.paidOut t = c.vc.toNat + c.paidIn t := by
  unfold Curve.next
  cases h.moves t with
  | bought cIn _ out call quote answer =>
    -- a buy pays in its whole input
    obtain ⟨-, vc, -, -⟩ := h.toNat_bought quote
    subst call
    rw [answer]
    rw [trade] at answer
    simp only [paidIn, paidOut, answer, vc, Nat.add_zero]
  | sold tIn _ out call quote answer =>
    obtain ⟨-, vc, -, -⟩ := h.toNat_sold quote
    -- a sell takes its output, which the virtual collateral covers
    have covered := (quoteSell_eq_ok_iff.mp quote).2.2.2
    have := h.collateral_eq
    rw [BitVec.le_def] at covered
    subst call
    rw [answer]
    rw [trade] at answer
    simp only [paidIn, paidOut, answer, vc]
    omega
  | refused e answer =>
    rw [answer]
    cases t <;> rw [trade] at answer <;> simp only [paidIn, paidOut, answer]

/-! ### A run of calls -/

theorem Offsets.run (h : Offsets tokens collateral c) (ts : List Trade) :
    Offsets tokens collateral (c.run ts) :=
  foldl_invariant (fun _ t hc => hc.next t) ts h

theorem Offsets.fair_run (h : Offsets tokens collateral c) (ts : List Trade) :
    c.pool.Fair (c.run ts).pool :=
  foldl_rel (Offsets tokens collateral) (fun c c' => c.pool.Fair c'.pool)
    (fun c => Pool.Fair.refl c.pool) Pool.Fair.trans (fun _ t hc => hc.next t)
    (fun _ t hc => hc.fair_next t) ts h

theorem Offsets.paid_run (h : Offsets tokens collateral c) (ts : List Trade) :
    (c.run ts).vc.toNat + c.totalOut ts = c.vc.toNat + c.totalIn ts := by
  induction ts generalizing c with
  | nil => rfl
  | cons t ts ih =>
    have one := h.paid_next t
    have rest := ih (h.next t)
    change ((c.next t).run ts).vc.toNat + _ = _
    simp only [totalIn, totalOut]
    omega

/-- Whatever is bought and sold on a curve that opened: the offsets between virtual
and real reserves stand, no call lowers the product of the virtual reserves, and any
stretch of calls that ends with the token reserve it began with has paid in at least
what it paid out. -/
theorem run_solvent {vt vc saleReserve : U128} {c₀ : Curve}
    (opened : Curve.new vt vc saleReserve = .ok c₀) (ts : List Trade) :
    let c := c₀.run ts
    (saleReserve.toNat < vt.toNat ∧
        c.vt.toNat = c.saleReserve.toNat + (vt.toNat - saleReserve.toNat) ∧
        c.vc.toNat = c.realCollateral.toNat + vc.toNat) ∧
      (∀ t, c.vt.toNat * c.vc.toNat ≤ (c.next t).vt.toNat * (c.next t).vc.toNat) ∧
      ∀ segment, (c.run segment).vt = c.vt → c.totalOut segment ≤ c.totalIn segment := by
  intro c
  have inv : Offsets _ _ c := (Offsets.of_new opened).run ts
  refine ⟨⟨?_, inv.tokens_eq, inv.collateral_eq⟩, inv.fair_next, fun segment same => ?_⟩
  · have := inv.tokens_pos
    omega
  · have vt_pos : 0 < c.vt.toNat := by
      have := inv.tokens_eq
      have := inv.tokens_pos
      omega
    -- with the tokens back where they were, only the collateral can have grown
    have kept := (inv.fair_run segment).le_of_eq vt_pos (congrArg BitVec.toNat same)
    have paid := inv.paid_run segment
    dsimp only [pool] at kept
    omega

theorem run_solvent_small :
    let c := (⟨1000, 10, 500, 0⟩ : Curve).run [.buy 3 0, .sell 7 0]
    ((500 : U128).toNat < (1000 : U128).toNat ∧
        c.vt.toNat = c.saleReserve.toNat + ((1000 : U128).toNat - (500 : U128).toNat) ∧
        c.vc.toNat = c.realCollateral.toNat + (10 : U128).toNat) ∧
      (∀ t, c.vt.toNat * c.vc.toNat ≤ (c.next t).vt.toNat * (c.next t).vc.toNat) ∧
      ∀ segment, (c.run segment).vt = c.vt → c.totalOut segment ≤ c.totalIn segment :=
  run_solvent (rfl : Curve.new 1000 10 500 = .ok ⟨1000, 10, 500, 0⟩) [.buy 3 0, .sell 7 0]

/-! ### Selling back -/

/-- A sell of tokens that are out is quoted, since the reserve that must stay behind
is at least the opening one. -/
theorem Offsets.quoteSell_ok {c₀ : Curve} (h : Offsets tokens collateral c)
    (start : c₀.vc.toNat = collateral) (fair : c₀.pool.Fair c.pool) {tIn : U128}
    (input : tIn ≠ 0) (out : c.vt.toNat + tIn.toNat ≤ c₀.vt.toNat) :
    ∃ cOut, c.quoteSell tIn = .ok cOut := by
  have pos := toNat_pos_iff.mp input
  -- at least the opening collateral stays, so what is paid out is real
  have rest := fair.le_rest pos out
  have complement := sub_ceilDiv_eq_div c.vc.toNat c.vt.toNat (c := tIn.toNat) (by omega)
  have := h.collateral_eq
  have := c.vc.isLt
  have := c₀.vt.isLt
  dsimp only [pool] at rest
  have fits : c.vc.toNat * tIn.toNat / (c.vt.toNat + tIn.toNat) < 2 ^ 128 := by omega
  refine ⟨BitVec.ofNat 128 (c.vc.toNat * tIn.toNat / (c.vt.toNat + tIn.toNat)),
    quoteSell_eq_ok_iff.mpr ⟨input, by omega, ?_, ?_⟩⟩
  · rw [BitVec.toNat_ofNat, Nat.mod_eq_of_lt fits]
  · rw [BitVec.le_def, BitVec.toNat_ofNat, Nat.mod_eq_of_lt fits]
    omega

/-- A quoted sell without a minimum is accepted at its quote. -/
theorem Offsets.sell_ok (h : Offsets tokens collateral c) {tIn cOut : U128}
    (quote : c.quoteSell tIn = .ok cOut) : c.sell tIn 0 = (.ok cOut, c.sold tIn cOut) := by
  obtain ⟨out, quote', -, answer⟩ | ⟨e, refuses, -⟩ :=
    sell_outcome c tIn 0 h.tokens_le h.collateral_le
  · rw [quote, Except.ok.injEq] at quote'
    rw [answer, quote']
  · exact absurd (BitVec.le_def.mpr (Nat.zero_le _)) (refuses cOut quote)

/-- Tokens that are out can be sold back in any split and order. -/
theorem Offsets.acceptsAll_sells {c₀ : Curve} (h : Offsets tokens collateral c)
    (start : c₀.vc.toNat = collateral) (fair : c₀.pool.Fair c.pool) (parts : List U128)
    (inputs : ∀ tIn ∈ parts, tIn ≠ 0)
    (out : c.vt.toNat + (parts.map BitVec.toNat).sum ≤ c₀.vt.toNat) :
    c.AcceptsAll (parts.map (Trade.sell · 0)) := by
  induction parts generalizing c with
  | nil => trivial
  | cons tIn parts ih =>
    rw [List.map_cons, List.sum_cons] at out
    obtain ⟨cOut, quote⟩ := h.quoteSell_ok start fair (inputs tIn (by simp)) (by omega)
    have answer := h.sell_ok quote
    have next_eq : c.next (.sell tIn 0) = c.sold tIn cOut := congrArg Prod.snd answer
    -- the tokens just sold are no longer out
    have vt := (h.toNat_sold quote).1
    refine ⟨⟨cOut, congrArg Prod.fst answer⟩, ih (h.next _) (fair.trans (h.fair_next _))
      (fun t ht => inputs t (by simp [ht])) ?_⟩
    rw [next_eq, vt]
    omega

/-- Holders can always exit: whatever was traded on a curve that opened, tokens that
are out sell back, in one call or split in any way. -/
theorem exit_accepted {vt vc saleReserve : U128} {c₀ : Curve}
    (opened : Curve.new vt vc saleReserve = .ok c₀) (ts : List Trade) :
    let c := c₀.run ts
    (∀ tIn : U128, 1 ≤ tIn.toNat →
        (c.vt.toNat + tIn.toNat ≤ vt.toNat ↔
          c.saleReserve.toNat + tIn.toNat ≤ saleReserve.toNat) ∧
        (c.vt.toNat + tIn.toNat ≤ vt.toNat →
          ∃ out, c.quoteSell tIn = .ok out ∧ (c.sell tIn 0).1 = .ok out)) ∧
      ∀ parts : List U128, (∀ tIn ∈ parts, 1 ≤ tIn.toNat) →
        c.vt.toNat + (parts.map BitVec.toNat).sum ≤ vt.toNat →
          c.AcceptsAll (parts.map (Trade.sell · 0)) := by
  intro c
  have inv : Offsets _ _ c := (Offsets.of_new opened).run ts
  have fair : c₀.pool.Fair c.pool := (Offsets.of_new opened).fair_run ts
  obtain ⟨-, above, rfl⟩ := new_eq_ok_iff.mp opened
  rw [BitVec.lt_def] at above
  refine ⟨fun tIn input => ⟨?_, fun out => ?_⟩, fun parts inputs out => ?_⟩
  · have := inv.tokens_eq
    omega
  · obtain ⟨cOut, quote⟩ := inv.quoteSell_ok rfl fair (toNat_pos_iff.mpr input) out
    exact ⟨cOut, quote, congrArg Prod.fst (inv.sell_ok quote)⟩
  · exact inv.acceptsAll_sells rfl fair parts
      (fun tIn h => toNat_pos_iff.mpr (inputs tIn h)) out

theorem exit_accepted_small :
    let c := (⟨1000, 10, 500, 0⟩ : Curve).run [.buy 3 0, .sell 7 0]
    (∀ tIn : U128, 1 ≤ tIn.toNat →
        (c.vt.toNat + tIn.toNat ≤ (1000 : U128).toNat ↔
          c.saleReserve.toNat + tIn.toNat ≤ (500 : U128).toNat) ∧
        (c.vt.toNat + tIn.toNat ≤ (1000 : U128).toNat →
          ∃ out, c.quoteSell tIn = .ok out ∧ (c.sell tIn 0).1 = .ok out)) ∧
      ∀ parts : List U128, (∀ tIn ∈ parts, 1 ≤ tIn.toNat) →
        c.vt.toNat + (parts.map BitVec.toNat).sum ≤ (1000 : U128).toNat →
          c.AcceptsAll (parts.map (Trade.sell · 0)) :=
  exit_accepted (rfl : Curve.new 1000 10 500 = .ok ⟨1000, 10, 500, 0⟩) [.buy 3 0, .sell 7 0]

end Curve

end Antumbra
