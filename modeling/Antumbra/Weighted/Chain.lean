/-
# A pool on the chain

The collateral of a pool lies in its holding. Buys put it in, the creator takes it out at
the close with the fee split off, and strangers may add to it. Here the pool runs among
arbitrary accounts and calls, and under it lies a machine of two parts, the record and what
is held: every step on the chain is a step of that machine.
-/

import Antumbra.Curve.Holding
import Antumbra.Math.Flow
import Antumbra.Weighted.Instructions

namespace Antumbra

open Antumbra.Math

/-- A call on one pool, with the rows it names. -/
inductive PoolCall
  | executeBuy (pool buyer holding : Named) (now : U64) (collateralIn minTokensOut : U128)
  | withdraw (pool holding creator feeTreasury : Named) (now : U64)
  | setPaused (pool creator : Named) (paused : U8)
  deriving DecidableEq

/-- What happened to a pool. -/
inductive PoolEntry
  | bought (now : U64) (collateral : ℕ)
  | withdrawn (now : U64) (fee paid : ℕ)
  | paused (flag : U8)
  | credited (amount : ℕ)
  | refused (call : PoolCall) (why : Failure)
  deriving DecidableEq

namespace PoolEntry

/-- What was paid for tokens. -/
@[simp] def collateralIn : PoolEntry → ℕ
  | bought _ collateral => collateral
  | _ => 0

/-- One for a buy. -/
@[simp] def buys : PoolEntry → ℕ
  | bought _ _ => 1
  | _ => 0

@[simp] def feeOut : PoolEntry → ℕ
  | withdrawn _ fee _ => fee
  | _ => 0

@[simp] def paidOut : PoolEntry → ℕ
  | withdrawn _ _ paid => paid
  | _ => 0

@[simp] def creditIn : PoolEntry → ℕ
  | credited amount => amount
  | _ => 0

/-- What left the holding at a close. -/
@[simp] def payout : PoolEntry → Option ℕ
  | withdrawn _ fee paid => some (fee + paid)
  | _ => none

/-- What left the holding at each close of a history. -/
def payouts (es : List PoolEntry) : List ℕ := es.filterMap payout

@[simp] theorem payouts_append_singleton (es : List PoolEntry) (e : PoolEntry) :
    payouts (es ++ [e]) = payouts es ++ (payout e).toList := by
  rw [payouts, List.filterMap_append, List.filterMap_cons, List.filterMap_nil]
  cases payout e with
  | none => rfl
  | some amount => rfl

/-- The flag that stands after a history, from an open pool on. -/
def flagAfter (es : List PoolEntry) : U8 :=
  es.foldl (fun flag e => match e with | paused flag' => flag' | _ => flag) 0

@[simp] theorem flagAfter_append_singleton (es : List PoolEntry) (e : PoolEntry) :
    flagAfter (es ++ [e]) = match e with | paused flag => flag | _ => flagAfter es := by
  simp [flagAfter]

end PoolEntry

namespace PoolCall

def rows : PoolCall → List Named
  | executeBuy pool buyer holding _ _ _ => [pool, buyer, holding]
  | withdraw pool holding creator feeTreasury _ => [pool, holding, creator, feeTreasury]
  | setPaused pool creator _ => [pool, creator]

/-- The row of the pool. -/
def pool : PoolCall → Named
  | executeBuy pool _ _ _ _ _ | withdraw pool _ _ _ _ | setPaused pool _ _ => pool

/-- What an accepted call enters in the pool's history. -/
def entry (a a' : Accounts) : PoolCall → PoolEntry
  | executeBuy _ _ _ now collateralIn _ => .bought now collateralIn.toNat
  | withdraw _ _ creator feeTreasury now =>
    .withdrawn now (a.received a' feeTreasury.accountId) (a.received a' creator.accountId)
  | setPaused _ _ paused => .paused paused

end PoolCall

namespace PoolProgram

open Weighted (weightAt ONE)

variable (p : Addressing ProgramId) (selfId : ProgramId) (poolId : Bytes 32)

/-- The instruction a call runs. -/
def instruction (a : Accounts) : PoolCall → Except SpelError SpelOutput
  | .executeBuy pool buyer holding now collateralIn minTokensOut =>
    executeBuy p selfId (pool.row a) (buyer.row a) (holding.row a) poolId now collateralIn
      minTokensOut
  | .withdraw pool holding creator feeTreasury now =>
    withdraw p selfId (pool.row a) (holding.row a) (creator.row a) (feeTreasury.row a) poolId now
  | .setPaused pool creator paused => setPaused p selfId (pool.row a) (creator.row a) poolId paused

/-- Run a call on the chain: the program, then the transfers it chains. -/
def execute (a : Accounts) (c : PoolCall) : Except Failure Accounts := do
  let out ← (instruction p selfId poolId a c).mapError .refused
  okOr .transferFailed (out.calls.foldlM Accounts.transfer (a.record out.accounts))

/-- Open a pool on the chain. -/
def openPool (a : Accounts) (pool holding creator : Named)
    (reserveToken reserveCollateral wStart wEnd : U128) (tStart tEnd : U64)
    (feeTreasury : AccountId) (feeRate : U128) : Except Failure Accounts := do
  let out ← (createPool p selfId (pool.row a) (holding.row a) (creator.row a) poolId reserveToken
    reserveCollateral wStart wEnd tStart tEnd feeTreasury feeRate).mapError .refused
  return Accounts.claim selfId (Accounts.claim selfId (a.record out.accounts) pool.accountId)
    holding.accountId

/-- What can happen to a pool: a call on it, accepted or refused, or anything else, which
neither writes the pool's record nor debits its holding. -/
inductive Step : Accounts → PoolEntry → Accounts → Prop
  | accepted (a a' : Accounts) (c : PoolCall) (distinct : Distinct c.rows)
    (run : execute p selfId poolId a c = .ok a') : Step a (c.entry a a') a'
  | refused (a : Accounts) (c : PoolCall) (why : Failure) (distinct : Distinct c.rows)
    (run : execute p selfId poolId a c = .error why) : Step a (.refused c why) a
  | elsewhere (a a' : Accounts)
    (record : (a' (poolPda p selfId poolId)).data = (a (poolPda p selfId poolId)).data)
    (poolOwner : (a' (poolPda p selfId poolId)).programOwner =
      (a (poolPda p selfId poolId)).programOwner)
    (holdingOwner : (a' (holdingPda p selfId poolId)).programOwner =
      (a (holdingPda p selfId poolId)).programOwner)
    (undebited : (a (holdingPda p selfId poolId)).balance.toNat ≤
      (a' (holdingPda p selfId poolId)).balance.toNat) :
    Step a (.credited (a.received a' (holdingPda p selfId poolId))) a'

/-- The histories of a pool from given accounts on. -/
abbrev History (a₀ : Accounts) (es : List PoolEntry) (a : Accounts) : Prop :=
  Trace (Step p selfId poolId) a₀ es a

/-! ### The machine underneath -/

/-- A pool's record, and what its holding holds. -/
structure PoolState where
  record : Pool
  held : ℕ

/-- The terms a pool was opened on. -/
structure Terms (s₀ s : Pool) : Prop where
  wStart : s.wStart = s₀.wStart
  wEnd : s.wEnd = s₀.wEnd
  tStart : s.tStart = s₀.tStart
  tEnd : s.tEnd = s₀.tEnd
  creator : s.creator = s₀.creator
  treasury : s.treasury = s₀.treasury
  feeTreasury : s.feeTreasury = s₀.feeTreasury
  feeRate : s.feeRate = s₀.feeRate

/-- A buy of a pool at a time, priced at the weight of that time. -/
structure Priced (s : Pool) (now : U64) (collateralIn wToken tokensOut : U128) : Prop where
  unpaused : s.paused = 0
  seen : s.lastSeen ≤ now
  weight : weightAt s.wStart s.wEnd s.tStart s.tEnd now = .ok wToken
  weight_le : wToken ≤ ONE
  price : Binfixed.weightedBuy s.reserveToken s.reserveCollateral collateralIn wToken
    (ONE - wToken) = .ok tokensOut

/-- What can happen to a record and what is held. -/
inductive Turn : PoolState → PoolEntry → PoolState → Prop
  | bought {x : PoolState} {now : U64} {collateralIn wToken tokensOut : U128}
    (priced : Priced x.record now collateralIn wToken tokensOut) :
    Turn x (.bought now collateralIn.toNat)
      ⟨x.record.bought now collateralIn tokensOut, x.held + collateralIn.toNat⟩
  | withdrawn {x : PoolState} {now : U64} {fee paid : ℕ} (ended : x.record.tEnd ≤ now)
    (raised : x.held ≠ 0) (share : fee = x.record.closeShare x.held)
    (split : fee + paid = x.held) :
    Turn x (.withdrawn now fee paid) ⟨x.record, 0⟩
  | paused {x : PoolState} (flag : U8) :
    Turn x (.paused flag) ⟨{ x.record with paused := flag }, x.held⟩
  | credited {x : PoolState} (amount : ℕ) :
    Turn x (.credited amount) ⟨x.record, x.held + amount⟩
  | refused {x : PoolState} (c : PoolCall) (why : Failure) : Turn x (.refused c why) x

variable {p selfId poolId}
variable {s₀ s t : Pool} {a a' : Accounts} {e : PoolEntry} {x y : PoolState}

theorem Terms.refl (s : Pool) : Terms s s := ⟨rfl, rfl, rfl, rfl, rfl, rfl, rfl, rfl⟩

theorem Terms.trans {u : Pool} (h : Terms s t) (h' : Terms t u) : Terms s u :=
  ⟨h'.wStart.trans h.wStart, h'.wEnd.trans h.wEnd, h'.tStart.trans h.tStart,
    h'.tEnd.trans h.tEnd, h'.creator.trans h.creator, h'.treasury.trans h.treasury,
    h'.feeTreasury.trans h.feeTreasury, h'.feeRate.trans h.feeRate⟩

theorem Terms.closeShare (h : Terms s t) (raised : ℕ) :
    t.closeShare raised = s.closeShare raised := by
  rw [Pool.closeShare, Pool.closeShare, h.feeRate]

/-- No turn changes the terms. -/
theorem Turn.terms (h : Turn x e y) : Terms x.record y.record := by
  cases h with
  | bought | withdrawn | paused | credited | refused =>
    exact ⟨rfl, rfl, rfl, rfl, rfl, rfl, rfl, rfl⟩

/-! ### Every step on the chain is a turn -/

/-- What holds of a pool's two accounts in every state. -/
structure Anchored (p : Addressing ProgramId) (selfId : ProgramId) (poolId : Bytes 32)
    (s₀ : Pool) (a : Accounts) (s : Pool) : Prop where
  apart : poolPda p selfId poolId ≠ holdingPda p selfId poolId
  stored : (a (poolPda p selfId poolId)).data = poolCodec.encode s
  poolOwner : (a (poolPda p selfId poolId)).programOwner = selfId
  holdingOwner : (a (holdingPda p selfId poolId)).programOwner = selfId
  terms : Terms s₀ s
  treasury : s.treasury = holdingPda p selfId poolId
  rate_le : s.feeRate ≤ CAP_AT_CLOSE

/-- The state of the machine the accounts carry. -/
def stateAt (p : Addressing ProgramId) (selfId : ProgramId) (poolId : Bytes 32) (a : Accounts)
    (s : Pool) : PoolState where
  record := s
  held := (a (holdingPda p selfId poolId)).balance.toNat

theorem execute_eq_ok_iff {c : PoolCall} :
    execute p selfId poolId a c = .ok a' ↔ ∃ out, instruction p selfId poolId a c = .ok out ∧
      out.calls.foldlM Accounts.transfer (a.record out.accounts) = some a' := by
  simp only [execute, bind_eq_ok_iff, mapError_eq_ok_iff, okOr_eq_ok_iff]

/-- Every instruction checks the pool's address. -/
theorem pool_of_instruction {c : PoolCall} {out : SpelOutput}
    (run : instruction p selfId poolId a c = .ok out) :
    c.pool.accountId = poolPda p selfId poolId := by
  cases c with
  | executeBuy pool buyer holding now collateralIn minTokensOut =>
    simp only [instruction, executeBuy, SaleProgram.checkPda, bind_eq_ok_iff,
      ensure_eq_ok_iff] at run
    obtain ⟨_, -, _, poolAt, -⟩ := run
    exact poolAt
  | withdraw pool holding creator feeTreasury now =>
    simp only [instruction, withdraw, SaleProgram.checkPda, bind_eq_ok_iff,
      ensure_eq_ok_iff] at run
    obtain ⟨_, -, _, poolAt, -⟩ := run
    exact poolAt
  | setPaused pool creator paused =>
    simp only [instruction, setPaused, SaleProgram.checkPda, bind_eq_ok_iff,
      ensure_eq_ok_iff] at run
    obtain ⟨_, -, _, poolAt, -⟩ := run
    exact poolAt

theorem Anchored.stored_row (h : Anchored p selfId poolId s₀ a s) {c : PoolCall}
    {out : SpelOutput} (run : instruction p selfId poolId a c = .ok out) :
    (c.pool.row a).account.data = poolCodec.encode s := by
  rw [Named.row_account, pool_of_instruction run]
  exact h.stored

/-- An accepted buy moves its whole input into the holding and records its price. -/
theorem Anchored.executeBuy (h : Anchored p selfId poolId s₀ a s)
    {pool buyer holding : Named} {now : U64} {collateralIn minTokensOut : U128}
    (distinct : Distinct [pool, buyer, holding])
    (run : execute p selfId poolId a
      (.executeBuy pool buyer holding now collateralIn minTokensOut) = .ok a') :
    ∃ t, Anchored p selfId poolId s₀ a' t ∧
      Turn (stateAt p selfId poolId a s) (.bought now collateralIn.toNat)
        (stateAt p selfId poolId a' t) := by
  obtain ⟨out, run, transfers⟩ := execute_eq_ok_iff.mp run
  have stored : (pool.row a).account.data = poolCodec.encode s := h.stored_row run
  obtain ⟨wToken, tokensOut, accepted, rfl⟩ := (executeBuy_eq_ok_iff (pool.row a) stored).mp run
  obtain ⟨_, transfer, last⟩ := Option.bind_eq_some_iff.mp transfers
  obtain rfl := Option.some.inj last
  obtain ⟨-, -, rfl⟩ := Accounts.transfer_eq_some_iff.mp transfer
  obtain ⟨notBuyer, notHolding, -⟩ := distinct_iff.mp distinct
  have poolAt := accepted.poolAt
  have holdingAt := accepted.holdingAt
  have fits := accepted.fits
  rw [Named.row_accountId] at poolAt holdingAt
  rw [Named.row_account, holdingAt] at fits
  -- the transfer leaves the record alone
  set a' := Accounts.record _ _ with ha'
  have pool' : a' (poolPda p selfId poolId) =
      write (a (poolPda p selfId poolId)) (s.bought now collateralIn tokensOut) := by
    rw [ha', ← poolAt]
    simp [Accounts.record, notBuyer, notHolding]
  have holding' : a' (holdingPda p selfId poolId) =
      { a (holdingPda p selfId poolId) with
        balance := (a (holdingPda p selfId poolId)).balance + collateralIn } := by
    rw [ha', ← holdingAt]
    simp [Accounts.record]
  refine ⟨s.bought now collateralIn tokensOut, ?_, ?_⟩
  · exact
      { apart := h.apart
        stored := by rw [pool']; rfl
        poolOwner := by rw [pool']; exact h.poolOwner
        holdingOwner := by rw [holding']; exact h.holdingOwner
        terms := h.terms.trans ⟨rfl, rfl, rfl, rfl, rfl, rfl, rfl, rfl⟩
        treasury := h.treasury
        rate_le := h.rate_le }
  · have held : stateAt p selfId poolId a' (s.bought now collateralIn tokensOut) =
        ⟨s.bought now collateralIn tokensOut,
          (stateAt p selfId poolId a s).held + collateralIn.toNat⟩ := by
      rw [stateAt, holding', BitVec.toNat_add_of_lt fits]
      rfl
    rw [held]
    exact .bought ⟨accepted.unpaused, accepted.seen, accepted.weight, accepted.weight_le,
      accepted.price⟩

/-- What an accepted payment of the creator leaves: an empty holding, and its two parts where
they belong. -/
structure Paid (p : Addressing ProgramId) (selfId : ProgramId) (poolId : Bytes 32) (s : Pool)
    (creator feeTreasury : AccountId) (a a' : Accounts) : Prop where
  record : a' (poolPda p selfId poolId) = a (poolPda p selfId poolId)
  holding : a' (holdingPda p selfId poolId) = { a (holdingPda p selfId poolId) with balance := 0 }
  share : a.received a' feeTreasury =
    s.closeShare (a (holdingPda p selfId poolId)).balance.toNat
  split : a.received a' feeTreasury + a.received a' creator =
    (a (holdingPda p selfId poolId)).balance.toNat

theorem Anchored.withdraw (h : Anchored p selfId poolId s₀ a s)
    {pool holding creator feeTreasury : Named} {now : U64}
    (distinct : Distinct [pool, holding, creator, feeTreasury])
    (run : execute p selfId poolId a (.withdraw pool holding creator feeTreasury now) = .ok a') :
    s.tEnd ≤ now ∧ (a (holdingPda p selfId poolId)).balance ≠ 0 ∧
      Paid p selfId poolId s creator.accountId feeTreasury.accountId a a' := by
  obtain ⟨out, run, transfers⟩ := execute_eq_ok_iff.mp run
  have stored : (pool.row a).account.data = poolCodec.encode s := h.stored_row run
  obtain ⟨fee, toCreator, accepted, rfl⟩ :=
    (withdraw_eq_ok_iff (pool.row a) stored h.rate_le).mp run
  obtain rfl := Option.some.inj transfers
  have poolAt := accepted.poolAt
  have holdingAt := accepted.holdingAt
  have raised := accepted.raised
  have share := accepted.share
  have split := accepted.split
  rw [Named.row_accountId] at poolAt holdingAt
  rw [Named.row_account, holdingAt] at raised share split
  simp only [Distinct, List.map_cons, List.map_nil, List.nodup_cons, List.mem_cons,
    List.not_mem_nil, or_false, not_or, not_false_eq_true, List.nodup_nil, and_true] at distinct
  obtain ⟨⟨notHolding, notCreator, notTreasury⟩, ⟨apart, apart'⟩, different⟩ := distinct
  set a' := Accounts.record _ _ with ha'
  have fee_eq : a.received a' feeTreasury.accountId = fee.toNat :=
    Accounts.received_eq (by simp [ha', Accounts.record]) accepted.treasuryFits
  have paid_eq : a.received a' creator.accountId = toCreator.toNat :=
    Accounts.received_eq (by simp [ha', Accounts.record, different]) accepted.creatorFits
  refine ⟨accepted.ended, raised, ?_, ?_, fee_eq.trans share, ?_⟩
  · rw [← poolAt, ha']
    simp [Accounts.record, notHolding, notCreator, notTreasury]
  · rw [← holdingAt, ha']
    simp [Accounts.record, apart, apart']
  · rw [fee_eq, paid_eq, split]

/-- The accounts of a pool that keeps its record and its owners. -/
theorem Anchored.same_record (h : Anchored p selfId poolId s₀ a s)
    (record : (a' (poolPda p selfId poolId)).data = (a (poolPda p selfId poolId)).data)
    (poolOwner : (a' (poolPda p selfId poolId)).programOwner =
      (a (poolPda p selfId poolId)).programOwner)
    (holdingOwner : (a' (holdingPda p selfId poolId)).programOwner =
      (a (holdingPda p selfId poolId)).programOwner) :
    Anchored p selfId poolId s₀ a' s :=
  { apart := h.apart
    stored := record.trans h.stored
    poolOwner := poolOwner.trans h.poolOwner
    holdingOwner := holdingOwner.trans h.holdingOwner
    terms := h.terms
    treasury := h.treasury
    rate_le := h.rate_le }

/-- An accepted payment of the creator empties the holding. -/
theorem Anchored.pay (h : Anchored p selfId poolId s₀ a s)
    {pool holding creator feeTreasury : Named} {now : U64}
    (distinct : Distinct [pool, holding, creator, feeTreasury])
    (run : execute p selfId poolId a (.withdraw pool holding creator feeTreasury now) = .ok a') :
    Anchored p selfId poolId s₀ a' s ∧
      Turn (stateAt p selfId poolId a s)
        (.withdrawn now (a.received a' feeTreasury.accountId) (a.received a' creator.accountId))
        (stateAt p selfId poolId a' s) := by
  obtain ⟨ended, raised, paid⟩ := h.withdraw distinct run
  refine ⟨h.same_record (by rw [paid.record]) (by rw [paid.record]) (by rw [paid.holding]), ?_⟩
  have emptied : stateAt p selfId poolId a' s = ⟨s, 0⟩ := by
    rw [stateAt, paid.holding]
    rfl
  rw [emptied]
  exact .withdrawn ended (toNat_pos_iff.mp raised).ne' paid.share paid.split

/-- An accepted pause sets the flag. -/
theorem Anchored.setPaused (h : Anchored p selfId poolId s₀ a s) {pool creator : Named}
    {paused : U8} (distinct : Distinct [pool, creator])
    (run : execute p selfId poolId a (.setPaused pool creator paused) = .ok a') :
    Anchored p selfId poolId s₀ a' { s with paused } ∧
      Turn (stateAt p selfId poolId a s) (.paused paused)
        (stateAt p selfId poolId a' { s with paused }) := by
  obtain ⟨out, run, transfers⟩ := execute_eq_ok_iff.mp run
  have stored : (pool.row a).account.data = poolCodec.encode s := h.stored_row run
  obtain ⟨-, poolAt, -, -, rfl⟩ := (setPaused_eq_ok_iff (pool.row a) stored).mp run
  obtain rfl := Option.some.inj transfers
  have different : pool.accountId ≠ creator.accountId := by
    simpa [Distinct] using distinct
  rw [Named.row_accountId] at poolAt
  have elsewhere : holdingPda p selfId poolId ≠ pool.accountId := poolAt ▸ h.apart.symm
  -- the creator's row is written back as it was read
  set a' := Accounts.record _ _ with ha'
  have pool' : a' (poolPda p selfId poolId) =
      write (a (poolPda p selfId poolId)) { s with paused } := by
    rw [ha', ← poolAt]
    simp [Accounts.record, different]
  have holding' : a' (holdingPda p selfId poolId) = a (holdingPda p selfId poolId) := by
    rw [ha']
    by_cases creator' : holdingPda p selfId poolId = creator.accountId
    · simp [Accounts.record, creator']
    · simp [Accounts.record, creator', elsewhere]
  constructor
  · exact
      { apart := h.apart
        stored := by rw [pool']; rfl
        poolOwner := by rw [pool']; exact h.poolOwner
        holdingOwner := by rw [holding']; exact h.holdingOwner
        terms := h.terms.trans ⟨rfl, rfl, rfl, rfl, rfl, rfl, rfl, rfl⟩
        treasury := h.treasury
        rate_le := h.rate_le }
  · have held : stateAt p selfId poolId a' { s with paused } =
        ⟨{ s with paused }, (stateAt p selfId poolId a s).held⟩ := by
      rw [stateAt, holding', stateAt]
    rw [held]
    exact .paused paused

/-- Money from elsewhere is added to the holding. -/
theorem Anchored.credit (h : Anchored p selfId poolId s₀ a s)
    (record : (a' (poolPda p selfId poolId)).data = (a (poolPda p selfId poolId)).data)
    (poolOwner : (a' (poolPda p selfId poolId)).programOwner =
      (a (poolPda p selfId poolId)).programOwner)
    (holdingOwner : (a' (holdingPda p selfId poolId)).programOwner =
      (a (holdingPda p selfId poolId)).programOwner)
    (undebited : (a (holdingPda p selfId poolId)).balance.toNat ≤
      (a' (holdingPda p selfId poolId)).balance.toNat) :
    Anchored p selfId poolId s₀ a' s ∧
      Turn (stateAt p selfId poolId a s) (.credited (a.received a' (holdingPda p selfId poolId)))
        (stateAt p selfId poolId a' s) := by
  refine ⟨h.same_record record poolOwner holdingOwner, ?_⟩
  have grown : stateAt p selfId poolId a' s = ⟨s, (stateAt p selfId poolId a s).held +
      a.received a' (holdingPda p selfId poolId)⟩ := by
    rw [stateAt, stateAt, Accounts.received, Nat.add_sub_cancel' undebited]
  rw [grown]
  exact .credited _

/-- Every step of a pool is a turn of its record and what is held. -/
theorem Anchored.step (h : Anchored p selfId poolId s₀ a s) (step : Step p selfId poolId a e a') :
    ∃ t, Anchored p selfId poolId s₀ a' t ∧
      Turn (stateAt p selfId poolId a s) e (stateAt p selfId poolId a' t) := by
  cases step with
  | accepted a' c distinct run =>
    cases c with
    | executeBuy pool buyer holding now collateralIn minTokensOut =>
      exact h.executeBuy distinct run
    | withdraw pool holding creator feeTreasury now => exact ⟨s, h.pay distinct run⟩
    | setPaused pool creator paused => exact ⟨_, h.setPaused distinct run⟩
  | refused c why distinct run => exact ⟨s, h, .refused c why⟩
  | elsewhere a' record poolOwner holdingOwner undebited =>
    exact ⟨s, h.credit record poolOwner holdingOwner undebited⟩

/-- A history on the chain is a run of the machine underneath. -/
theorem Anchored.run (h : Anchored p selfId poolId s₀ a s) {es : List PoolEntry}
    (history : History p selfId poolId a es a') :
    ∃ t, Anchored p selfId poolId s₀ a' t ∧
      Trace Turn (stateAt p selfId poolId a s) es (stateAt p selfId poolId a' t) := by
  refine history.invariant (fun es a' => ∃ t, Anchored p selfId poolId s₀ a' t ∧
    Trace Turn (stateAt p selfId poolId a s) es (stateAt p selfId poolId a' t)) ⟨s, h, .start⟩ ?_
  rintro es b e b' ⟨t, anchored, run⟩ step
  obtain ⟨t', anchored', last⟩ := anchored.step step
  exact ⟨t', anchored', run.next last⟩

/-- An opened pool is anchored, on the terms it was opened with, and nothing is held. -/
theorem anchored_of_openPool {pool holding creator : Named}
    {reserveToken reserveCollateral wStart wEnd feeRate : U128} {tStart tEnd : U64}
    {feeTreasury : AccountId} (distinct : Distinct [pool, holding, creator])
    (opened : openPool p selfId poolId a pool holding creator reserveToken reserveCollateral
      wStart wEnd tStart tEnd feeTreasury feeRate = .ok a') :
    ∃ s : Pool, Anchored p selfId poolId s a' s ∧ stateAt p selfId poolId a' s = ⟨s, 0⟩ ∧
      tStart < tEnd ∧ feeRate ≤ CAP_AT_CLOSE ∧ reserveToken ≠ 0 ∧ reserveCollateral ≠ 0 ∧
      s = ⟨reserveToken, reserveCollateral, wStart, wEnd, tStart, tEnd, tStart, 0,
        creator.accountId, holdingPda p selfId poolId, feeTreasury, feeRate⟩ := by
  simp only [openPool, bind_eq_ok_iff, mapError_eq_ok_iff, pure_eq_ok, Except.ok.injEq] at opened
  obtain ⟨out, accepted, rfl⟩ := opened
  obtain ⟨s, rfl, poolAt, holdingAt, fresh, forward, rate_le, some_tokens, some_collateral,
    record⟩ := exists_of_createPool accepted
  obtain ⟨apart, notCreator, notCreator'⟩ := distinct_iff.mp distinct
  rw [Named.row_accountId] at poolAt holdingAt record
  rw [Named.row_account] at fresh
  -- both accounts were new, so the program owns them now
  set b := a.record _ with hb
  have atPool : Accounts.claim selfId (Accounts.claim selfId b pool.accountId) holding.accountId
      pool.accountId = Listing.claimed selfId (b pool.accountId) := by
    simp [Accounts.claim, apart]
  have atHolding : Accounts.claim selfId (Accounts.claim selfId b pool.accountId)
      holding.accountId holding.accountId = Listing.claimed selfId (b holding.accountId) := by
    simp [Accounts.claim, apart.symm]
  refine ⟨s, ?_, ?_, forward, rate_le, some_tokens, some_collateral, record⟩
  · exact
      { apart := poolAt ▸ holdingAt ▸ apart
        stored := by
          rw [← poolAt, atPool, hb]
          simp [Accounts.record, notCreator, apart, Listing.claimed, write]
        poolOwner := by rw [← poolAt, atPool]; rfl
        holdingOwner := by rw [← holdingAt, atHolding]; rfl
        terms := Terms.refl s
        treasury := by rw [record]
        rate_le := by rw [record]; exact rate_le }
  · rw [stateAt, ← holdingAt, atHolding, hb]
    simp [Accounts.record, notCreator', Listing.claimed, fresh, Account.default]

/-! ### Two buys and a close -/

/-- A buyer with a hundred units, and nothing else. -/
def demoAccounts : Accounts := fun accountId =>
  if accountId = Accounts.demoAddress 2 then
    { Account.default with programOwner := AUTH_TRANSFER_PROGRAM_ID, balance := 100 }
  else
    Account.default

def demoRow : Named := ⟨demoPoolPda, false⟩

def demoHolding : Named := ⟨demoHoldingPda, false⟩

def demoCreator : Named := ⟨Accounts.demoAddress 1, true⟩

/-- A pool of a million tokens against a thousand between two weights, at the highest fee. -/
def demoOpened (wStart wEnd : U128) : Except Failure Accounts :=
  openPool demo lbpProgram demoPoolId demoAccounts demoRow demoHolding demoCreator 1000000 1000
    wStart wEnd 1000 2000 (Accounts.demoAddress 3) 50000

def demoPurchase (now : U64) (collateralIn : U128) : PoolCall :=
  .executeBuy demoRow ⟨Accounts.demoAddress 2, true⟩ demoHolding now collateralIn 0

def demoClose : PoolCall :=
  .withdraw demoRow demoHolding demoCreator ⟨Accounts.demoAddress 3, false⟩ 2000

/-- The accounts after a call, accepted or not. -/
def land (a : Accounts) (c : PoolCall) : Accounts :=
  ((execute demo lbpProgram demoPoolId a c).toOption).getD a

/-- From 99% down to 1%. -/
def demoStart : Accounts :=
  (demoOpened 990000000000000000 10000000000000000).toOption.getD demoAccounts

def demoBoughtOnce : Accounts := land demoStart (demoPurchase 1500 10)

def demoBoughtTwice : Accounts := land demoBoughtOnce (demoPurchase 1600 10)

def demoClosed : Accounts := land demoBoughtTwice demoClose

theorem eq_ok_getD {x : Except Failure Accounts} {a : Accounts} (isOk : x.isOk = true) :
    x = .ok (x.toOption.getD a) := by
  cases x with
  | error why => exact absurd isOk Bool.false_ne_true
  | ok b => rfl

theorem execute_land {a : Accounts} {c : PoolCall}
    (isOk : (execute demo lbpProgram demoPoolId a c).isOk = true) :
    execute demo lbpProgram demoPoolId a c = .ok (land a c) :=
  eq_ok_getD isOk

theorem demo_step {a a' : Accounts} {c : PoolCall} (distinct : Distinct c.rows)
    (isOk : (execute demo lbpProgram demoPoolId a c).isOk = true) (lands : a' = land a c)
    (entry : c.entry a a' = e) : Step demo lbpProgram demoPoolId a e a' := by
  rw [← entry, lands]
  exact .accepted a (land a c) c distinct (execute_land isOk)

theorem demoOpened_eq : demoOpened 990000000000000000 10000000000000000 = .ok demoStart :=
  eq_ok_getD (by decide +kernel)

/-- Two buys of ten units each, halfway down the schedule and later. -/
theorem demo_bought : History demo lbpProgram demoPoolId demoStart
    [.bought 1500 10, .bought 1600 10] demoBoughtTwice := by
  have once : History demo lbpProgram demoPoolId demoStart [.bought 1500 10] demoBoughtOnce :=
    Trace.start.next (demo_step (by decide) (by decide +kernel) rfl rfl)
  exact once.next (demo_step (by decide) (by decide +kernel) rfl rfl)

/-- Of the twenty units one is the fee and the creator is paid the rest. -/
theorem demo_closed : History demo lbpProgram demoPoolId demoStart
    [.bought 1500 10, .bought 1600 10, .withdrawn 2000 1 19] demoClosed :=
  demo_bought.next (demo_step (by decide) (by decide +kernel) rfl (by decide +kernel))

end PoolProgram

end Antumbra
