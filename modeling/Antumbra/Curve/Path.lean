/-
# What a sale sold for what it raised

Between any two moments of a sale others buy, sweep, are refused and pay in. However the
payments were split and whatever came between them, the sale took in their sum less one
fee of it, and sold what one payment of that would have bought, each up to one unit a
payment. And no later payment buys more than the sale would have given for it before.
-/

import Antumbra.Curve.Holding

namespace Antumbra

open Antumbra.Math

namespace Accounts

open SaleProgram (salePda holdingPda)
open Entry (total taken charged payments)

variable {p : Addressing ProgramId} {selfId : ProgramId} {saleId : Bytes 32}
  {tokens collateral : ℕ} {a a' b : Accounts} {s t : Sale} {feeRate : U128}
  {e : Entry (SaleCall × Failure)} {es fs : List (Entry (SaleCall × Failure))}

/-! ### Steps -/

/-- A step of a sale is one of its till, and moves its curve along a path as tight as it has
payments. -/
theorem Anchored.tight (h : Anchored p selfId saleId tokens collateral feeRate a s)
    (step : Step p selfId saleId a e a') :
    ∃ s', Anchored p selfId saleId tokens collateral feeRate a' s' ∧
      Till.Step (feeOf feeRate) (till (a (holdingPda p selfId saleId)).balance s) e
        (till (a' (holdingPda p selfId saleId)).balance s') ∧
      Pool.Tight (payments [e]).length s.curve.pool s'.curve.pool := by
  obtain ⟨s', anchored, taken⟩ := (h.step step).1
  refine ⟨s', anchored, taken, ?_⟩
  -- the record after the step is the one the call wrote
  have same : ∀ {t : Sale}, (a' (salePda p selfId saleId)).data = saleCodec.encode t → s' = t :=
    fun written => saleCodec.encode_injective (anchored.stored.symm.trans written)
  cases step with
  | accepted a' c distinct run =>
    cases c with
    | executeBuy sale buyer holding collateralIn minTokensOut =>
      obtain ⟨fee, effective, tokensOut, accepted, written, -⟩ := h.executeBuy distinct run
      obtain rfl := same (congrArg Account.data written)
      obtain ⟨vt, vc, -, -⟩ := h.offsets.toNat_bought accepted.quote
      obtain ⟨input, -, formula, -⟩ := Curve.quoteBuy_eq_ok_iff.mp accepted.quote
      have pos := toNat_pos_iff.mp input
      refine Pool.tight_of_ceilDiv pos vc ?_
      change (s.curve.bought effective tokensOut).vt.toNat = _
      rw [vt, formula]
      exact sub_div_eq_ceilDiv _ _ (by omega)
    | collectFees sale holding feeTreasury =>
      obtain ⟨written, -, -⟩ := h.collectFees distinct run
      obtain rfl := same (congrArg Account.data written)
      exact .refl _
    | withdraw sale holding creator =>
      obtain ⟨-, written, -, -⟩ := h.withdraw distinct run
      obtain rfl := same ((congrArg Account.data written).trans h.stored)
      exact .refl _
  | refused c why distinct run =>
    obtain rfl := same h.stored
    exact .refl _
  | elsewhere a' record saleOwner holdingOwner undebited =>
    obtain rfl := same (record.trans h.stored)
    exact .refl _

/-- A stretch of a sale's history is one of its till, and a path of its curve as tight as it
has payments. -/
theorem Anchored.stretch (h : Anchored p selfId saleId tokens collateral feeRate a s)
    (history : History p selfId saleId a es a') :
    ∃ s', Anchored p selfId saleId tokens collateral feeRate a' s' ∧
      Trace (Till.Step (feeOf feeRate)) (till (a (holdingPda p selfId saleId)).balance s) es
        (till (a' (holdingPda p selfId saleId)).balance s') ∧
      Pool.Tight (payments es).length s.curve.pool s'.curve.pool := by
  refine history.invariant (fun es a' => ∃ s', Anchored p selfId saleId tokens collateral feeRate
    a' s' ∧ Trace (Till.Step (feeOf feeRate)) _ es (till (a' (holdingPda p selfId saleId)).balance
      s') ∧ Pool.Tight (payments es).length s.curve.pool s'.curve.pool) ?_ ?_
  · exact ⟨s, h, .start, .refl _⟩
  · rintro es b e b' ⟨s', anchored, run, path⟩ step
    obtain ⟨s'', anchored', taken, last⟩ := anchored.tight step
    refine ⟨s'', anchored', run.next taken, ?_⟩
    rw [Entry.payments_append, List.length_append]
    exact path.trans last

/-! ### Two moments -/

/-- What payments did to a sale between two of its records. -/
structure Took (feeRate : U128) (payments : List ℕ) (s t : Sale) : Prop where
  /-- The collateral raised is what was paid less the fees. -/
  raised : t.realCollateral.toNat + (payments.map (feeOf feeRate)).sum =
    s.realCollateral.toNat + payments.sum
  /-- The fees are one fee of the sum, up to one unit a payment. -/
  fees : feeOf feeRate payments.sum ≤ (payments.map (feeOf feeRate)).sum ∧
    (payments.map (feeOf feeRate)).sum ≤ feeOf feeRate payments.sum + payments.length
  /-- The tokens sold are those of one payment of what was raised, up to one unit a payment. -/
  sold : ∃ raised sold, t.realCollateral.toNat = s.realCollateral.toNat + raised ∧
    s.saleReserve.toNat = t.saleReserve.toNat + sold ∧
      sold ≤ s.vt.toNat * raised / (s.vc.toNat + raised) ∧
        s.vt.toNat * raised / (s.vc.toNat + raised) ≤ sold + payments.length
  /-- A later payment buys no more than it would have before. -/
  dearer : ∀ {cIn out : U128}, t.curve.quoteBuy cIn = .ok out →
    out.toNat ≤ s.vt.toNat * cIn.toNat / (s.vc.toNat + cIn.toNat)

theorem feeOf_sum (feeRate : U128) (payments : List ℕ) :
    feeOf feeRate payments.sum ≤ (payments.map (feeOf feeRate)).sum ∧
      (payments.map (feeOf feeRate)).sum ≤ feeOf feeRate payments.sum + payments.length := by
  refine ⟨ceilDiv_sum_le payments feeRate.toNat (by decide), ?_⟩
  by_contra beyond
  rw [not_le] at beyond
  have excess : feeOf feeRate payments.sum < (payments.map (feeOf feeRate)).sum :=
    Nat.lt_of_le_of_lt (Nat.le_add_right _ _) beyond
  have slack := @sum_ceilDiv_lt payments feeRate.toNat RATE_ONE.toNat (by decide) excess
  exact absurd slack (Nat.not_lt.mpr beyond.le)

/-- A path of the curve is what its payments did to the sale. -/
theorem Anchored.took (h : Anchored p selfId saleId tokens collateral feeRate a s)
    (h' : Anchored p selfId saleId tokens collateral feeRate b t) {paid : List ℕ}
    (raised : t.realCollateral.toNat + (paid.map (feeOf feeRate)).sum =
      s.realCollateral.toNat + paid.sum)
    (path : Pool.Tight paid.length s.curve.pool t.curve.pool) : Took feeRate paid s t := by
  have tokens_eq : s.vt.toNat = s.saleReserve.toNat + tokens := h.offsets.tokens_eq
  have tokens_eq' : t.vt.toNat = t.saleReserve.toNat + tokens := h'.offsets.tokens_eq
  have collateral_eq : s.vc.toNat = s.realCollateral.toNat + collateral := h.offsets.collateral_eq
  have collateral_eq' : t.vc.toNat = t.realCollateral.toNat + collateral :=
    h'.offsets.collateral_eq
  have drawn : t.vt.toNat ≤ s.vt.toNat := path.drawn
  have grown : s.vc.toNat ≤ t.vc.toNat := path.paid
  have some_collateral : 0 < s.vc.toNat := by
    have := h.offsets.collateral_pos
    omega
  refine ⟨raised, feeOf_sum feeRate paid, ?_, ?_⟩
  · refine ⟨t.vc.toNat - s.vc.toNat, s.vt.toNat - t.vt.toNat, by omega, by omega, ?_⟩
    exact path.taken some_collateral (Nat.add_sub_cancel' drawn) (Nat.add_sub_cancel' grown).symm
  · intro cIn out quote
    rw [(Curve.quoteBuy_eq_ok_iff.mp quote).2.2.1]
    exact path.dearer some_collateral cIn.toNat

/-- Over any stretch of any history of a sale, whatever is bought, swept, withdrawn, refused or
paid in by whomever: the sale took in the payments less one fee of their sum and sold what one
payment of that would have bought, each up to one unit a payment, and nothing got cheaper. -/
theorem sold_follows {sale holding creator : Named} {vt vc saleReserve seedReserve : U128}
    {feeTreasury : AccountId} (distinct : Distinct [sale, holding, creator]) {a₀ : Accounts}
    (opened : a₀.openSale p selfId saleId sale holding creator vt vc saleReserve seedReserve
      feeTreasury feeRate = .ok a)
    (before : History p selfId saleId a es b) (since : History p selfId saleId b fs a') :
    ∃ s t, SaleProgram.read (b (salePda p selfId saleId)) = .ok s ∧
      SaleProgram.read (a' (salePda p selfId saleId)) = .ok t ∧ Took feeRate (payments fs) s t := by
  obtain ⟨s₀, anchored₀, -⟩ := anchored_of_openSale distinct opened
  obtain ⟨s, anchored, -, -⟩ := anchored₀.stretch before
  obtain ⟨t, anchored', run, path⟩ := anchored.stretch since
  refine ⟨s, t, SaleProgram.read_eq_ok_iff.mpr anchored.stored,
    SaleProgram.read_eq_ok_iff.mpr anchored'.stored, ?_⟩
  have capped := anchored.rate_eq ▸ anchored.rate_le
  have raised := Till.raised_of_run (feeOf_le capped) run
  rw [Entry.total_charged, Entry.total_taken] at raised
  exact anchored.took anchored' raised path

/-- The sale of 500 tokens, from its opening to the payment of its creator. -/
theorem sold_follows_sold :
    ∃ s t, SaleProgram.read
        (demoOpened (salePda Listing.demo Listing.curveProgram Listing.demoSaleId)) = .ok s ∧
      SaleProgram.read
        (demoPaid (salePda Listing.demo Listing.curveProgram Listing.demoSaleId)) = .ok t ∧
      Took 10000 [11] s t :=
  sold_follows (show Distinct [demoSale, demoHolding, ⟨demoAddress 1, true⟩] by decide)
    demoOpening_eq .start demo_history

end Accounts

end Antumbra
