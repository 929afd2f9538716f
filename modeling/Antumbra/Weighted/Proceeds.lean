/-
# What a pool takes in and pays out

Over any history of a pool everything paid in or credited is still held, or was paid to the
creator or to the fee treasury, and the fee is the share of what left. The creator is paid
whenever the call names a time past the end. The times of accepted buys never turn back, so
neither do the weights.
-/

import Antumbra.Weighted.Chain

namespace Antumbra

open Antumbra.Math

namespace PoolProgram

open Weighted (weightAt ONE)
open PoolEntry (collateralIn feeOut paidOut creditIn payout payouts flagAfter)

variable {p : Addressing ProgramId} {selfId : ProgramId} {poolId : Bytes 32}
variable {s₀ s : Pool} {a a' : Accounts} {e : PoolEntry} {es : List PoolEntry}
variable {x y : PoolState}

/-! ### What one turn does -/

/-- A turn that is a buy, with what its price says of the reserves. -/
theorem Priced.reserves {now : U64} {collateralIn wToken tokensOut : U128}
    (h : Priced s now collateralIn wToken tokensOut) :
    (s.bought now collateralIn tokensOut).reserveCollateral.toNat =
        s.reserveCollateral.toNat + collateralIn.toNat ∧
      (s.bought now collateralIn tokensOut).reserveToken.toNat + tokensOut.toNat =
        s.reserveToken.toNat := by
  obtain ⟨-, fits, within⟩ := Weighted.weightedBuy_eq_ok h.price
  refine ⟨BitVec.toNat_add_of_lt fits, ?_⟩
  rw [Pool.bought, toNat_sub_of_le within, Nat.sub_add_cancel (BitVec.le_def.mp within)]

/-- What leaves the holding at a close is all of it. -/
theorem Turn.cash (h : Turn x e y) :
    y.held + (feeOut e + paidOut e) = x.held + (collateralIn e + creditIn e) := by
  cases h with
  | withdrawn ended raised share split =>
    rw [← split]
    simp
  | bought | paused | credited | refused => simp

theorem Turn.collateral (h : Turn x e y) :
    y.record.reserveCollateral.toNat + 0 =
      x.record.reserveCollateral.toNat + collateralIn e := by
  cases h with
  | bought priced => exact priced.reserves.1
  | withdrawn | paused | credited | refused => rfl

theorem Turn.tokens (h : Turn x e y) :
    y.record.reserveToken.toNat ≤ x.record.reserveToken.toNat := by
  cases h with
  | bought priced =>
    have sold := priced.reserves.2
    dsimp only
    omega
  | withdrawn | paused | credited | refused => exact Nat.le_refl _

/-- The clock of a pool moves with its buys only, and only forward. -/
theorem Turn.clock (h : Turn x e y) :
    x.record.lastSeen ≤ y.record.lastSeen ∧
      ∀ now n, e = .bought now n → y.record.lastSeen = now := by
  cases h with
  | bought priced =>
    refine ⟨priced.seen, ?_⟩
    rintro now n same
    exact (PoolEntry.bought.inj same).1
  | withdrawn | paused | credited | refused => exact ⟨BitVec.le_refl _, fun _ _ => nofun⟩

/-- The flag of a pool is the last one set. -/
theorem Turn.flag (h : Turn x e y) (before : x.record.paused = flagAfter es) :
    y.record.paused = flagAfter (es ++ [e]) := by
  cases h with
  | paused flag => simp
  | bought => simpa [Pool.bought] using before
  | withdrawn | credited | refused => simpa using before

/-! ### What a run does -/

theorem run_terms (run : Trace Turn x es y) : Terms x.record y.record := by
  refine run.invariant (fun _ y => Terms x.record y.record) (Terms.refl _) ?_
  intro _ _ _ _ before last
  exact before.trans last.terms

theorem run_cash (run : Trace Turn x es y) :
    y.held + flow feeOut es + flow paidOut es =
      x.held + flow collateralIn es + flow creditIn es := by
  have balanced := run.conserved PoolState.held (fun e => collateralIn e + creditIn e)
    (fun e => feeOut e + paidOut e) fun _ _ _ => Turn.cash
  rw [flow_add, flow_add] at balanced
  omega

theorem run_collateral (run : Trace Turn x es y) :
    y.record.reserveCollateral.toNat =
      x.record.reserveCollateral.toNat + flow collateralIn es := by
  have balanced := run.conserved (fun x => x.record.reserveCollateral.toNat) _ _
    fun _ _ _ => Turn.collateral
  simpa [flow] using balanced

theorem run_tokens (run : Trace Turn x es y) :
    y.record.reserveToken.toNat ≤ x.record.reserveToken.toNat := by
  refine run.invariant (fun _ y => y.record.reserveToken.toNat ≤ x.record.reserveToken.toNat)
    (Nat.le_refl _) ?_
  intro _ _ _ _ before last
  exact last.tokens.trans before

theorem run_clock (run : Trace Turn x es y) : x.record.lastSeen ≤ y.record.lastSeen := by
  refine run.invariant (fun _ y => x.record.lastSeen ≤ y.record.lastSeen) (BitVec.le_refl _) ?_
  intro _ _ _ _ before last
  exact BitVec.le_trans before last.clock.1

theorem run_flag (unpaused : x.record.paused = 0) (run : Trace Turn x es y) :
    y.record.paused = flagAfter es :=
  run.invariant (fun es y => y.record.paused = flagAfter es) unpaused
    fun _ _ _ _ before last => last.flag before

/-- The fee of a close is the share of all that leaves at it. -/
theorem Turn.payout {now : U64} {fee paid : ℕ} (h : Turn x (.withdrawn now fee paid) y) :
    x.record.tEnd ≤ now ∧ x.held ≠ 0 ∧ fee + paid = x.held ∧
      fee = x.record.closeShare (fee + paid) := by
  cases h with
  | withdrawn ended raised share split => exact ⟨ended, raised, split, by rw [split, share]⟩

/-- The fees of a run, as shares of its payouts. -/
theorem run_payouts (run : Trace Turn x es y) :
    flow feeOut es = ((payouts es).map x.record.closeShare).sum ∧
      flow feeOut es + flow paidOut es = (payouts es).sum := by
  refine (run.invariant (fun es y => Terms x.record y.record ∧
    flow feeOut es = ((payouts es).map x.record.closeShare).sum ∧
      flow feeOut es + flow paidOut es = (payouts es).sum)
    ⟨Terms.refl _, rfl, rfl⟩ ?_).2
  rintro es t e u ⟨terms, fees, all⟩ last
  refine ⟨terms.trans last.terms, ?_⟩
  rw [PoolEntry.payouts_append_singleton, List.map_append, List.sum_append, List.sum_append,
    flow_append, flow_append, flow_singleton, flow_singleton, ← fees, ← all]
  cases last with
  | withdrawn ended raised share split =>
    rw [← split, terms.closeShare] at share
    simp only [feeOut, paidOut, payout, Option.toList_some, List.map_cons, List.map_nil,
      List.sum_cons, List.sum_nil, ← share]
    omega
  | bought | paused | credited | refused => simp

/-! ### Every history of an opened pool -/

/-- What a pool's history adds up to. -/
structure Books (s₀ s : Pool) (held : ℕ) (es : List PoolEntry) : Prop where
  /-- Nothing changes the terms, and the reserves move with the buys only. -/
  terms : Terms s₀ s
  collateral : s.reserveCollateral.toNat = s₀.reserveCollateral.toNat + flow collateralIn es
  tokens : s.reserveToken ≤ s₀.reserveToken
  /-- What came in is held, or left at a close. -/
  cash : held + flow feeOut es + flow paidOut es = flow collateralIn es + flow creditIn es
  /-- A close takes all that came in since the last one, and the fee is its share. -/
  closes : ∀ before now fee paid after, es = before ++ .withdrawn now fee paid :: after →
    s₀.tEnd ≤ now ∧ 0 < fee + paid ∧ fee = s₀.closeShare (fee + paid) ∧
      fee + paid + flow feeOut before + flow paidOut before =
        flow collateralIn before + flow creditIn before
  /-- The fees are the share of all that left, but for a unit a close after the first. -/
  fees_least : s₀.closeShare (flow feeOut es + flow paidOut es) ≤ flow feeOut es
  fees_most : flow feeOut es ≤
    s₀.closeShare (flow feeOut es + flow paidOut es) + ((payouts es).length - 1)

theorem cash_of_run (run : Trace Turn ⟨s₀, 0⟩ es y) :
    y.held + flow feeOut es + flow paidOut es = flow collateralIn es + flow creditIn es := by
  have cash := run_cash run
  rwa [show PoolState.held ⟨s₀, 0⟩ = 0 from rfl, Nat.zero_add] at cash

theorem books_of_run (run : Trace Turn ⟨s₀, 0⟩ es y) : Books s₀ y.record y.held es := by
  obtain ⟨fees, all⟩ : flow feeOut es = ((payouts es).map s₀.closeShare).sum ∧
    flow feeOut es + flow paidOut es = (payouts es).sum := run_payouts run
  have closeShare_eq : s₀.closeShare = fun a => (a * s₀.feeRate.toNat) ⌈/⌉ RATE_ONE.toNat :=
    funext fun a => by rw [Pool.closeShare]
  have shares := shares_of_payouts (payouts es) s₀.feeRate.toNat (d := RATE_ONE.toNat) (by decide)
  rw [← all, ← closeShare_eq, ← fees] at shares
  exact
    { terms := run_terms run
      collateral := run_collateral run
      tokens := BitVec.le_def.mpr (run_tokens run)
      cash := cash_of_run run
      closes := by
        rintro before now fee paid after rfl
        obtain ⟨m, m', first, close, -⟩ := run.around
        obtain ⟨ended, raised, split, share⟩ := close.payout
        have terms := run_terms first
        have earlier := cash_of_run first
        rw [← split] at earlier
        rw [terms.tEnd] at ended
        rw [terms.closeShare] at share
        exact ⟨ended, by omega, share, earlier⟩
      fees_least := by rw [closeShare_eq]; exact shares.1
      fees_most := by rw [closeShare_eq]; exact shares.2 }

/-- Of every history of an opened pool, in whatever order the calls and credits come: the
record stands on the terms it was opened on, its reserves moved with the buys, and the holding
and everything paid out add up to everything that came in. -/
theorem proceeds_accounted {pool holding creator : Named}
    {reserveToken reserveCollateral wStart wEnd feeRate : U128} {tStart tEnd : U64}
    {feeTreasury : AccountId} (distinct : Distinct [pool, holding, creator]) {a₀ : Accounts}
    (opened : openPool p selfId poolId a₀ pool holding creator reserveToken reserveCollateral
      wStart wEnd tStart tEnd feeTreasury feeRate = .ok a)
    (history : History p selfId poolId a es a') :
    ∃ s₀ s, s₀ = ⟨reserveToken, reserveCollateral, wStart, wEnd, tStart, tEnd, tStart, 0,
        creator.accountId, holdingPda p selfId poolId, feeTreasury, feeRate⟩ ∧
      read (a (poolPda p selfId poolId)) = .ok s₀ ∧
      read (a' (poolPda p selfId poolId)) = .ok s ∧
      Books s₀ s (a' (holdingPda p selfId poolId)).balance.toNat es := by
  obtain ⟨s₀, anchored, empty, -, -, -, -, record⟩ := anchored_of_openPool distinct opened
  obtain ⟨s, anchored', run⟩ := anchored.run history
  rw [empty] at run
  exact ⟨s₀, s, record, read_eq_ok_iff.mpr anchored.stored, read_eq_ok_iff.mpr anchored'.stored,
    books_of_run run⟩

theorem proceeds_accounted_closed :
    ∃ s₀ s, read (demoClosed (poolPda demo lbpProgram demoPoolId)) = .ok s ∧
      Books s₀ s (demoClosed (holdingPda demo lbpProgram demoPoolId)).balance.toNat
        [.bought 1500 10, .bought 1600 10, .withdrawn 2000 1 19] := by
  obtain ⟨s₀, s, -, -, stored, books⟩ := proceeds_accounted
    (show Distinct [demoRow, demoHolding, demoCreator] by decide) demoOpened_eq demo_closed
  exact ⟨s₀, s, stored, books⟩

/-! ### The creator is paid -/

/-- A turn that bought was priced, at a weight with a positive complement. -/
theorem Turn.weighed {now : U64} {n : ℕ} (h : Turn x (.bought now n) y) :
    x.record.paused = 0 ∧ x.record.lastSeen ≤ now ∧ ∃ w,
      weightAt x.record.wStart x.record.wEnd x.record.tStart x.record.tEnd now = .ok w ∧
        0 < w ∧ w < ONE := by
  cases h with
  | @bought _ collateralIn w tokensOut priced =>
    refine ⟨priced.unpaused, priced.seen, w, priced.weight, ?_⟩
    obtain ⟨⟨some_token, some_collateral⟩, -⟩ := Weighted.weights_of_weightedBuy priced.price
    have le := BitVec.le_def.mp priced.weight_le
    have rest := toNat_sub_of_le priced.weight_le
    rw [toNat_pos_iff] at some_token some_collateral
    rw [BitVec.lt_def, BitVec.lt_def, toNat_zero]
    omega

/-- Of any two accepted buys in a history of an opened pool, the later one names no earlier
time, so its weight has moved on from that of the first toward the end of the schedule, and
neither was accepted under a pause. -/
theorem weights_forward {pool holding creator : Named}
    {reserveToken reserveCollateral wStart wEnd feeRate : U128} {tStart tEnd : U64}
    {feeTreasury : AccountId} (distinct : Distinct [pool, holding, creator]) {a₀ : Accounts}
    (opened : openPool p selfId poolId a₀ pool holding creator reserveToken reserveCollateral
      wStart wEnd tStart tEnd feeTreasury feeRate = .ok a)
    {before between after : List PoolEntry} {now now' : U64} {n n' : ℕ}
    (history : History p selfId poolId a
      (before ++ .bought now n :: between ++ .bought now' n' :: after) a') :
    tStart ≤ now ∧ now ≤ now' ∧ flagAfter before = 0 ∧
      flagAfter (before ++ .bought now n :: between) = 0 ∧
      ∃ w w', weightAt wStart wEnd tStart tEnd now = .ok w ∧
        weightAt wStart wEnd tStart tEnd now' = .ok w' ∧ 0 < w ∧ w < ONE ∧ 0 < w' ∧ w' < ONE ∧
        (wStart ≤ wEnd → w ≤ w') ∧ (wEnd ≤ wStart → w' ≤ w) := by
  obtain ⟨s₀, anchored, empty, forward, -, -, -, rfl⟩ := anchored_of_openPool distinct opened
  obtain ⟨s, -, run⟩ := anchored.run history
  rw [empty] at run
  obtain ⟨m₂, _, run₂, second, -⟩ := run.around
  obtain ⟨m₁, m₁', run₁, first, rest⟩ := run₂.around
  -- the clock stands at the first time after the first buy, and does not turn back
  have clock : now ≤ m₂.record.lastSeen := (first.clock.2 now n rfl) ▸ run_clock rest
  obtain ⟨unpaused, seen, w, weight, pos, below⟩ := first.weighed
  obtain ⟨unpaused', seen', w', weight', pos', below'⟩ := second.weighed
  have start := BitVec.le_trans (run_clock run₁) seen
  have later := BitVec.le_trans clock seen'
  rw [(run_terms run₁).wStart, (run_terms run₁).wEnd, (run_terms run₁).tStart,
    (run_terms run₁).tEnd] at weight
  rw [(run_terms run₂).wStart, (run_terms run₂).wEnd, (run_terms run₂).tStart,
    (run_terms run₂).tEnd] at weight'
  rw [run_flag rfl run₁] at unpaused
  rw [run_flag rfl run₂] at unpaused'
  obtain ⟨weights, sound⟩ := @Weighted.weightAt_sound wStart wEnd tStart tEnd forward
  obtain ⟨answer, -, -, -, -, turns, -⟩ := sound now
  obtain ⟨answer', -⟩ := sound now'
  obtain rfl := Except.ok.inj (weight.symm.trans answer)
  obtain rfl := Except.ok.inj (weight'.symm.trans answer')
  obtain ⟨rising, falling⟩ := turns now' later
  exact ⟨start, later, unpaused, unpaused', _, _, weight, weight', pos, below, pos', below', rising,
    falling⟩

theorem weights_forward_falling :
    ∃ w w', weightAt 990000000000000000 10000000000000000 1000 2000 1500 = .ok w ∧
      weightAt 990000000000000000 10000000000000000 1000 2000 1600 = .ok w' ∧ w' ≤ w := by
  have history : History demo lbpProgram demoPoolId demoStart
      ([] ++ .bought 1500 10 :: [] ++ .bought 1600 10 :: []) demoBoughtTwice := demo_bought
  obtain ⟨-, -, -, -, w, w', weight, weight', -, -, -, -, -, falling⟩ := weights_forward
    (show Distinct [demoRow, demoHolding, demoCreator] by decide) demoOpened_eq history
  exact ⟨w, w', weight, weight', falling (by decide)⟩

end PoolProgram

end Antumbra
