/-
# The bootstrapping pool program

A pool is a record in a program-derived account, with a second derived account holding the
collateral. The record carries the weight schedule and no weight: every buy computes the
weight from the clock it is given. Opening a pool asks the schedule once, at its start, and
only whether it runs forward; a buy needs both weights strictly between zero and one, at
every time from then on.
-/

import Antumbra.Curve.Sale
import Antumbra.Math.Runs
import Antumbra.Weighted.Contract
import Antumbra.Weighted.Schedule

namespace Antumbra

open Antumbra.Math

namespace PoolProgram

open SaleProgram (checkSigner checkInit checkPda)
open Weighted (weightAt ONE)

def E_BAD_POOL : ℕ := 6001
def E_NOT_ANCHORED : ℕ := 6002
def E_PRICING_REFUSED : ℕ := 6003
def E_SLIPPAGE : ℕ := 6004
def E_PAUSED : ℕ := 6005
def E_TIME_WENT_BACKWARDS : ℕ := 6006
def E_BUYER_UNOWNED : ℕ := 6007
def E_INSUFFICIENT : ℕ := 6008
def E_TREASURY_OVERFLOW : ℕ := 6009
def E_TREASURY_MISMATCH : ℕ := 6010

/-- On-chain pool state. The schedule is stored; the weight is derived. -/
structure Pool where
  reserveToken : U128
  reserveCollateral : U128
  wStart : U128
  wEnd : U128
  tStart : U64
  tEnd : U64
  lastSeen : U64
  paused : U8
  creator : AccountId
  /-- The pool's holding account, recorded so that a buy cannot name another. -/
  treasury : AccountId
  feeTreasury : AccountId
  /-- In millionths. -/
  feeRate : U128
  deriving DecidableEq

/-- The stored form of a pool: its fields in order. -/
def poolCodec : Codec Pool :=
  (Codec.u128.prod <| Codec.u128.prod <| Codec.u128.prod <| Codec.u128.prod <| Codec.u64.prod <|
    Codec.u64.prod <| Codec.u64.prod <| Codec.u8.prod <| accountIdCodec.prod <|
      accountIdCodec.prod <| accountIdCodec.prod Codec.u128).map
    { toFun := fun s => (s.reserveToken, s.reserveCollateral, s.wStart, s.wEnd, s.tStart, s.tEnd,
        s.lastSeen, s.paused, s.creator, s.treasury, s.feeTreasury, s.feeRate)
      invFun := fun (reserveToken, reserveCollateral, wStart, wEnd, tStart, tEnd, lastSeen, paused,
          creator, treasury, feeTreasury, feeRate) =>
        { reserveToken, reserveCollateral, wStart, wEnd, tStart, tEnd, lastSeen, paused, creator,
          treasury, feeTreasury, feeRate }
      left_inv := fun _ => rfl
      right_inv := fun _ => rfl }

variable (p : Addressing ProgramId) (selfId : ProgramId)

/-- Replace an account's stored record. -/
def write (account : Account) (state : Pool) : Account :=
  { account with data := poolCodec.encode state }

def read (account : Account) : Except SpelError Pool :=
  okOr (.custom E_BAD_POOL "pool failed to deserialize") (poolCodec.readAll account.data)

/-! ### Instructions -/

/-- Open a pool with a weight schedule. -/
def createPool (pool holding creator : AccountWithMetadata) (poolId : Bytes 32)
    (reserveToken reserveCollateral wStart wEnd : U128) (tStart tEnd : U64)
    (feeTreasury : AccountId) (feeRate : U128) : Except SpelError SpelOutput := do
  checkSigner "creator" 2 creator
  checkInit 0 pool
  checkInit 1 holding
  checkPda p selfId "pool" [poolId] pool
  checkPda p selfId "holding" [poolId, holdingWord] holding
  let _ ← (FeeConfig.new feeRate CAP_AT_CLOSE).mapError
    fun _ => SpelError.custom E_BAD_POOL "fee rate exceeds the 5% cap"
  -- the weights themselves are not looked at, only that one can be computed
  let _ ← (weightAt wStart wEnd tStart tEnd tStart).mapError
    fun _ => SpelError.custom E_BAD_POOL "weight schedule is degenerate"
  ensure (¬ (reserveToken = 0 ∨ reserveCollateral = 0)) (.custom E_BAD_POOL "a reserve is zero")
  let state : Pool :=
    { reserveToken, reserveCollateral, wStart, wEnd, tStart, tEnd
      lastSeen := tStart
      paused := 0
      creator := creator.accountId
      treasury := holding.accountId
      feeTreasury, feeRate }
  return { accounts := [{ pool with account := write pool.account state }, holding, creator]
           calls := [] }

/-- Price and record a buy at the weight the schedule dictates for `now`. -/
def executeBuy (pool buyer holding : AccountWithMetadata) (poolId : Bytes 32) (now : U64)
    (collateralIn minTokensOut : U128) : Except SpelError SpelOutput := do
  checkSigner "buyer" 1 buyer
  checkPda p selfId "pool" [poolId] pool
  checkPda p selfId "holding" [poolId, holdingWord] holding
  ensure (pool.account.programOwner = selfId)
    (.custom E_NOT_ANCHORED "no pool is committed at this id")
  let state ← read pool.account
  ensure (state.paused = 0) (.custom E_PAUSED "buying is paused")
  ensure (state.lastSeen ≤ now)
    (.custom E_TIME_WENT_BACKWARDS "now is earlier than a timestamp this pool has already seen")
  let wToken ← (weightAt state.wStart state.wEnd state.tStart state.tEnd now).mapError
    fun _ => SpelError.custom E_BAD_POOL "weight schedule is degenerate"
  let wCollateral ← okOr (.custom E_BAD_POOL "weight exceeds unity") (checkedSub ONE wToken)
  let tokensOut ← (Binfixed.weightedBuy state.reserveToken state.reserveCollateral collateralIn
      wToken wCollateral).mapError
    fun _ => SpelError.custom E_PRICING_REFUSED "buy refused: size or reserve"
  ensure (minTokensOut ≤ tokensOut)
    (.custom E_SLIPPAGE "execution price is worse than the minimum accepted")
  let reserveToken ← okOr (.custom E_PRICING_REFUSED "payout exceeds the reserve")
    (checkedSub state.reserveToken tokensOut)
  let reserveCollateral ← okOr (.custom E_PRICING_REFUSED "collateral reserve overflows")
    (checkedAdd state.reserveCollateral collateralIn)
  let state' : Pool := { state with reserveToken, reserveCollateral, lastSeen := now }
  ensure (¬ (state.treasury ≠ holding.accountId ∨ holding.account.programOwner ≠ selfId))
    (.custom E_TREASURY_MISMATCH
      "holding is not this pool's account, or is not owned by this program")
  ensure (buyer.account.programOwner = AUTH_TRANSFER_PROGRAM_ID)
    (.custom E_BUYER_UNOWNED "the buyer account is held by no program and cannot pay")
  ensure (collateralIn ≤ buyer.account.balance)
    (.custom E_INSUFFICIENT "the buyer cannot cover this purchase")
  ensure ((checkedAdd holding.account.balance collateralIn).isSome = true)
    (.custom E_TREASURY_OVERFLOW "the holding balance would overflow")
  let payment : ChainedCall :=
    { programId := AUTH_TRANSFER_PROGRAM_ID, accounts := [buyer, holding], amount := collateralIn }
  return { accounts := [{ pool with account := write pool.account state' }, buyer, holding]
           calls := [payment] }

/-- Close: pay the creator the collateral raised, less the fee on all of it. -/
def withdraw (pool holding creator feeTreasury : AccountWithMetadata) (poolId : Bytes 32)
    (now : U64) : Except SpelError SpelOutput := do
  checkSigner "creator" 2 creator
  checkPda p selfId "pool" [poolId] pool
  checkPda p selfId "holding" [poolId, holdingWord] holding
  ensure (¬ (pool.account.programOwner ≠ selfId ∨ holding.account.programOwner ≠ selfId))
    (.custom E_NOT_ANCHORED "pool or holding is not ours")
  let state ← read pool.account
  ensure (state.creator = creator.accountId) (.custom E_BAD_POOL "signer is not the creator")
  ensure (state.feeTreasury = feeTreasury.accountId)
    (.custom E_TREASURY_MISMATCH "fee treasury is not the account this pool was created with")
  ensure (state.tEnd ≤ now)
    (.custom E_PRICING_REFUSED "the sale has not reached its end timestamp")
  let raised := holding.account.balance
  ensure (raised ≠ 0) (.custom E_PRICING_REFUSED "nothing to withdraw")
  let cfg ← (FeeConfig.new state.feeRate CAP_AT_CLOSE).mapError
    fun _ => SpelError.custom E_BAD_POOL "stored fee rate exceeds the cap"
  let (fee, toCreator) ← (cfg.closeFee raised).mapError
    fun _ => SpelError.custom E_PRICING_REFUSED "fee arithmetic refused"
  let paid ← okOr (.custom E_TREASURY_OVERFLOW "creator balance overflow")
    (checkedAdd creator.account.balance toCreator)
  -- a fee of nothing leaves the treasury alone
  let taken ← (if 0 < fee then
      okOr (.custom E_TREASURY_OVERFLOW "fee treasury overflow")
        (checkedAdd feeTreasury.account.balance fee)
    else
      pure feeTreasury.account.balance)
  return { accounts :=
             [pool,
              { holding with account := { holding.account with balance := 0 } },
              { creator with account := { creator.account with balance := paid } },
              { feeTreasury with account := { feeTreasury.account with balance := taken } }]
           calls := [] }

/-- Emergency stop: buying halts, the schedule runs on. -/
def setPaused (pool creator : AccountWithMetadata) (poolId : Bytes 32) (paused : U8) :
    Except SpelError SpelOutput := do
  checkSigner "creator" 1 creator
  checkPda p selfId "pool" [poolId] pool
  ensure (pool.account.programOwner = selfId) (.custom E_NOT_ANCHORED "no pool at this id")
  let state ← read pool.account
  ensure (state.creator = creator.accountId) (.custom E_BAD_POOL "signer is not the creator")
  return { accounts :=
             [{ pool with account := write pool.account { state with paused } }, creator]
           calls := [] }

/-! ### Buys on a pool -/

/-- A buy as its caller makes it. -/
structure Buy where
  pool : AccountWithMetadata
  buyer : AccountWithMetadata
  holding : AccountWithMetadata
  poolId : Bytes 32
  now : U64
  collateralIn : U128
  minTokensOut : U128

def Buy.answer (b : Buy) : Except SpelError SpelOutput :=
  executeBuy p selfId b.pool b.buyer b.holding b.poolId b.now b.collateralIn b.minTokensOut

/-- The record in the first row an instruction leaves. -/
def Leaves (answer : Except SpelError SpelOutput) (s : Pool) : Prop :=
  ∃ row rest calls, answer = .ok ⟨row :: rest, calls⟩ ∧ read row.account = .ok s

/-- An accepted buy takes one record to the other. -/
def Trades (s t : Pool) : Prop :=
  ∃ b : Buy, read b.pool.account = .ok s ∧ Leaves (b.answer p selfId) t

/-- An accepted pause, or its end, takes one record to the other. -/
def Pauses (s t : Pool) : Prop :=
  ∃ (pool creator : AccountWithMetadata) (poolId : Bytes 32) (paused : U8),
    read pool.account = .ok s ∧ Leaves (setPaused p selfId pool creator poolId paused) t

/-- The life of an open pool: it is bought from, and paused and resumed. -/
def Steps (s t : Pool) : Prop := Trades p selfId s t ∨ Pauses p selfId s t

/-- The schedule yields a weight at `now`, and both weights are positive. -/
def Usable (s : Pool) (now : U64) : Prop :=
  ∃ w, weightAt s.wStart s.wEnd s.tStart s.tEnd now = .ok w ∧ 0 < w ∧ w < ONE

/-- A signed buy whose rows are the pool `s` of the program and its holding. -/
structure Addressed (s : Pool) (b : Buy) : Prop where
  signed : b.buyer.isAuthorized = true
  pool : b.pool.accountId = computePda p selfId [b.poolId]
  holding : b.holding.accountId = computePda p selfId [b.poolId, holdingWord]
  owned : b.pool.account.programOwner = selfId
  stored : read b.pool.account = .ok s

/-- What a buy on a pool is refused for when the weights are not to blame. -/
inductive Excuse (s : Pool) (b : Buy) : SpelError → Prop
  | paused (h : s.paused ≠ 0) : Excuse s b (.custom E_PAUSED "buying is paused")
  | size (h : b.collateralIn = 0 ∨ 2 ^ 128 ≤ s.reserveCollateral.toNat + b.collateralIn.toNat) :
    Excuse s b (.custom E_PRICING_REFUSED "buy refused: size or reserve")
  | slippage {wToken tokensOut : U128}
      (weight : weightAt s.wStart s.wEnd s.tStart s.tEnd b.now = .ok wToken)
      (price : Binfixed.weightedBuy s.reserveToken s.reserveCollateral b.collateralIn wToken
        (ONE - wToken) = .ok tokensOut) (h : tokensOut < b.minTokensOut) :
    Excuse s b (.custom E_SLIPPAGE "execution price is worse than the minimum accepted")
  | treasury (h : s.treasury ≠ b.holding.accountId ∨ b.holding.account.programOwner ≠ selfId) :
    Excuse s b (.custom E_TREASURY_MISMATCH
      "holding is not this pool's account, or is not owned by this program")
  | unowned (h : b.buyer.account.programOwner ≠ AUTH_TRANSFER_PROGRAM_ID) :
    Excuse s b (.custom E_BUYER_UNOWNED "the buyer account is held by no program and cannot pay")
  | insufficient (h : b.buyer.account.balance < b.collateralIn) :
    Excuse s b (.custom E_INSUFFICIENT "the buyer cannot cover this purchase")
  | overflow (h : 2 ^ 128 ≤ b.holding.account.balance.toNat + b.collateralIn.toNat) :
    Excuse s b (.custom E_TREASURY_OVERFLOW "the holding balance would overflow")

variable {p : Addressing ProgramId} {selfId : ProgramId} {s t : Pool} {b : Buy}

theorem read_eq_ok_iff {account : Account} :
    read account = .ok s ↔ account.data = poolCodec.encode s := by
  rw [read, okOr_eq_ok_iff, Codec.readAll_eq_some_iff]

theorem read_write (account : Account) (s : Pool) : read (write account s) = .ok s :=
  read_eq_ok_iff.mpr rfl

/-! ### What a buy and an opening do -/

/-- An accepted buy moves the two reserves and the clock, and nothing else. -/
theorem Trades.cases (h : Trades p selfId s t) :
    ∃ (reserveToken reserveCollateral collateralIn : U128) (now : U64),
      s.reserveCollateral.toNat + collateralIn.toNat < 2 ^ 128 ∧
        reserveCollateral = s.reserveCollateral + collateralIn ∧ s.lastSeen ≤ now ∧
        t = { s with reserveToken, reserveCollateral, lastSeen := now } := by
  obtain ⟨b, stored, row, rest, calls, accepted, left⟩ := h
  simp only [Buy.answer, executeBuy, checkSigner, checkPda, bind_eq_ok_iff, mapError_eq_ok_iff,
    ensure_eq_ok_iff, okOr_eq_ok_iff, pure_eq_ok, Except.ok.injEq, SpelOutput.mk.injEq,
    List.cons.injEq, checkedAdd_eq_some_iff_fits] at accepted
  obtain ⟨-, -, -, -, -, -, -, -, s', stored', -, -, -, seen, -, -, -, -, -, -, -, -, reserveToken,
    -, reserveCollateral, ⟨fits, added⟩, -, -, -, -, -, -, -, -, ⟨rfl, -⟩, -⟩ := accepted
  obtain rfl := Except.ok.inj (stored.symm.trans stored')
  obtain rfl := Except.ok.inj ((read_write _ _).symm.trans left)
  exact ⟨reserveToken, reserveCollateral, b.collateralIn, b.now, fits, added, seen, rfl⟩

/-- An accepted pause changes the flag, and nothing else. -/
theorem Pauses.cases (h : Pauses p selfId s t) : ∃ paused, t = { s with paused } := by
  obtain ⟨pool, creator, poolId, paused, stored, row, rest, calls, accepted, left⟩ := h
  simp only [setPaused, checkSigner, checkPda, bind_eq_ok_iff, ensure_eq_ok_iff, pure_eq_ok,
    Except.ok.injEq, SpelOutput.mk.injEq, List.cons.injEq] at accepted
  obtain ⟨-, -, -, -, -, -, s', stored', -, -, ⟨rfl, -⟩, -⟩ := accepted
  obtain rfl := Except.ok.inj (stored.symm.trans stored')
  obtain rfl := Except.ok.inj ((read_write _ _).symm.trans left)
  exact ⟨paused, rfl⟩

/-- An accepted opening records the schedule it was given, on a clock that runs forward, over
reserves that are not empty. -/
theorem createPool_eq_ok {pool holding creator : AccountWithMetadata} {poolId : Bytes 32}
    {reserveToken reserveCollateral wStart wEnd feeRate : U128} {tStart tEnd : U64}
    {feeTreasury : AccountId}
    (opened : Leaves (createPool p selfId pool holding creator poolId reserveToken
      reserveCollateral wStart wEnd tStart tEnd feeTreasury feeRate) s) :
    s.wStart = wStart ∧ s.wEnd = wEnd ∧ s.tStart = tStart ∧ s.tEnd = tEnd ∧ tStart < tEnd ∧
      s.lastSeen = tStart ∧ s.reserveToken ≠ 0 ∧ s.reserveCollateral ≠ 0 := by
  obtain ⟨row, rest, calls, accepted, left⟩ := opened
  simp only [createPool, checkSigner, checkInit, checkPda, bind_eq_ok_iff, mapError_eq_ok_iff,
    ensure_eq_ok_iff, pure_eq_ok, Except.ok.injEq, SpelOutput.mk.injEq, List.cons.injEq,
    not_or] at accepted
  obtain ⟨-, -, -, -, -, -, -, -, -, -, -, -, w, weight, -, ⟨some_tokens, some_collateral⟩,
    ⟨rfl, -⟩, -⟩ := accepted
  obtain rfl := Except.ok.inj ((read_write _ _).symm.trans left)
  have forward : tStart < tEnd := by
    by_contra backward
    rw [weightAt, if_pos (BitVec.not_lt.mp backward)] at weight
    cases weight
  exact ⟨rfl, rfl, rfl, rfl, forward, rfl, some_tokens, some_collateral⟩

/-- A weight strictly inside the unit leaves a positive one for the collateral. -/
theorem positive_weights {w : U128} (pos : 0 < w) (below : w < ONE) :
    ¬ (w = 0 ∨ ONE - w = 0) := by
  rw [BitVec.lt_def] at below
  have complement : (ONE - w).toNat = ONE.toNat - w.toNat :=
    toNat_sub_of_le (BitVec.le_def.mpr below.le)
  rintro (rfl | rest)
  · exact absurd pos (by decide)
  · rw [rest, toNat_zero] at complement
    omega

/-- With usable weights a buy on a stocked pool is refused for an excuse only. -/
theorem excuse_of_refused {e : SpelError} (usable : Usable s b.now)
    (tokens : s.reserveToken ≠ 0) (collateral : s.reserveCollateral ≠ 0)
    (addressed : Addressed p selfId s b) (seen : s.lastSeen ≤ b.now)
    (refused : b.answer p selfId = .error e) : Excuse selfId s b e := by
  obtain ⟨w, weight, pos, below⟩ := usable
  have complement : checkedSub ONE w = some (ONE - w) :=
    checkedSub_eq_some_iff_le.mpr ⟨BitVec.le_of_lt below, rfl⟩
  rw [Buy.answer, executeBuy, checkSigner, ensure_of addressed.signed, ok_bind, checkPda,
    ensure_of addressed.pool, ok_bind, checkPda, ensure_of addressed.holding, ok_bind,
    ensure_of addressed.owned, ok_bind, addressed.stored, ok_bind] at refused
  obtain ⟨paused, rfl⟩ | ⟨-, refused⟩ := ensure_bind_eq_error_iff.mp refused
  · exact .paused paused
  rw [ensure_of seen, ok_bind, weight, Except.mapError, ok_bind, complement, okOr, ok_bind]
    at refused
  by_cases size : b.collateralIn = 0 ∨
      2 ^ 128 ≤ s.reserveCollateral.toNat + b.collateralIn.toNat
  · obtain ⟨reason, price⟩ := exists_error_of_ne_ok (x := Binfixed.weightedBuy s.reserveToken
        s.reserveCollateral b.collateralIn w (ONE - w)) fun out answer => by
      obtain ⟨some_in, fits, -⟩ := Weighted.weightedBuy_eq_ok answer
      exact size.elim some_in (not_le.mpr fits)
    rw [price] at refused
    obtain rfl := Except.error.inj refused
    exact .size size
  obtain ⟨some_in, large⟩ := not_or.mp size
  have fits := not_le.mp large
  have shrunk : ONE - w ≤ ONE := by
    rw [BitVec.le_def, toNat_sub_of_le (BitVec.le_of_lt below)]
    exact Nat.sub_le _ _
  obtain ⟨tokensOut, price⟩ := Weighted.exists_weightedBuy
    (not_or.mpr ⟨some_in, not_or.mpr ⟨tokens, collateral⟩⟩) (positive_weights pos below) shrunk fits
  rw [price, Except.mapError, ok_bind] at refused
  obtain ⟨slippage, rfl⟩ | ⟨-, refused⟩ := ensure_bind_eq_error_iff.mp refused
  · exact .slippage weight price (BitVec.not_le.mp slippage)
  have covered := checkedSub_eq_some_iff_le.mpr ⟨(Weighted.weightedBuy_eq_ok price).2.2, rfl⟩
  have added := checkedAdd_eq_some_iff_fits.mpr ⟨fits, rfl⟩
  rw [covered, okOr, ok_bind, added, okOr, ok_bind] at refused
  -- the reserves are priced; what is left is the payment
  obtain ⟨treasury, rfl⟩ | ⟨-, refused⟩ := ensure_bind_eq_error_iff.mp refused
  · exact .treasury (not_not.mp treasury)
  obtain ⟨unowned, rfl⟩ | ⟨-, refused⟩ := ensure_bind_eq_error_iff.mp refused
  · exact .unowned unowned
  obtain ⟨balance, rfl⟩ | ⟨-, refused⟩ := ensure_bind_eq_error_iff.mp refused
  · exact .insufficient (BitVec.not_le.mp balance)
  obtain ⟨room, rfl⟩ | ⟨-, done⟩ := ensure_bind_eq_error_iff.mp refused
  · exact .overflow (not_lt.mp (isSome_checkedAdd_iff.not.mp room))
  · cases done

/-! ### Every pool that opens -/

/-- The schedule of a pool and its stock of collateral, which no step takes away. -/
structure Kept (s₀ s : Pool) : Prop where
  wStart : s.wStart = s₀.wStart
  wEnd : s.wEnd = s₀.wEnd
  tStart : s.tStart = s₀.tStart
  tEnd : s.tEnd = s₀.tEnd
  collateral : s.reserveCollateral ≠ 0

theorem Kept.next {s₀ : Pool} (kept : Kept s₀ s) (h : Steps p selfId s t) : Kept s₀ t := by
  rcases h with bought | paused
  · obtain ⟨reserveToken, reserveCollateral, collateralIn, now, fits, rfl, -, rfl⟩ := bought.cases
    refine ⟨kept.wStart, kept.wEnd, kept.tStart, kept.tEnd, ?_⟩
    have some_collateral := toNat_pos_iff.mp kept.collateral
    rw [toNat_pos_iff, BitVec.toNat_add_of_lt fits]
    omega
  · obtain ⟨paused, rfl⟩ := paused.cases
    exact ⟨kept.wStart, kept.wEnd, kept.tStart, kept.tEnd, kept.collateral⟩

theorem Kept.run {s₀ : Pool} (start : Kept s₀ s₀)
    (run : Relation.ReflTransGen (Steps p selfId) s₀ s) : Kept s₀ s := by
  induction run with
  | refl => exact start
  | tail run last ih => exact ih.next last

/-- A schedule that runs forward between ends strictly inside the unit is usable always. -/
theorem usable_of_ends (forward : s.tStart < s.tEnd) (start : 0 < s.wStart ∧ s.wStart < ONE)
    (finish : 0 < s.wEnd ∧ s.wEnd < ONE) (now : U64) : Usable s now := by
  obtain ⟨w, sound⟩ := @Weighted.weightAt_sound s.wStart s.wEnd s.tStart s.tEnd forward
  obtain ⟨answer, -, -, above, below, -⟩ := sound now
  rw [BitVec.le_def, toNat_min] at above
  rw [BitVec.le_def, toNat_max] at below
  rw [BitVec.lt_def, BitVec.lt_def] at start finish
  refine ⟨w now, answer, BitVec.lt_def.mpr ?_, BitVec.lt_def.mpr ?_⟩
  · omega
  · omega

/-- A schedule that is usable at its start and at its end has both ends strictly inside the
unit. -/
theorem ends_of_usable (forward : s.tStart < s.tEnd) (start : Usable s s.tStart)
    (finish : Usable s s.tEnd) : (0 < s.wStart ∧ s.wStart < ONE) ∧ 0 < s.wEnd ∧ s.wEnd < ONE := by
  obtain ⟨w, sound⟩ := @Weighted.weightAt_sound s.wStart s.wEnd s.tStart s.tEnd forward
  obtain ⟨first, weight, inside⟩ := start
  obtain ⟨last, weight', inside'⟩ := finish
  obtain ⟨answer, early, -⟩ := sound s.tStart
  obtain ⟨answer', -, late, -⟩ := sound s.tEnd
  obtain rfl := Except.ok.inj (weight.symm.trans answer)
  obtain rfl := Except.ok.inj (weight'.symm.trans answer')
  rw [early (BitVec.le_refl _)] at inside
  rw [late (BitVec.le_refl _)] at inside'
  exact ⟨inside, inside'⟩

/-- Of every pool that opens: in every state its buys lead to, while tokens are left and at
every time not yet behind, the weights are usable and a buy is refused for an excuse only,
if and only if both ends of the schedule lie strictly between zero and one. -/
theorem created_tradeable_iff {pool holding creator : AccountWithMetadata} {poolId : Bytes 32}
    {reserveToken reserveCollateral wStart wEnd feeRate : U128} {tStart tEnd : U64}
    {feeTreasury : AccountId} {s₀ : Pool}
    (opened : Leaves (createPool p selfId pool holding creator poolId reserveToken
      reserveCollateral wStart wEnd tStart tEnd feeTreasury feeRate) s₀) :
    (∀ s, Relation.ReflTransGen (Trades p selfId) s₀ s → s.reserveToken ≠ 0 →
        ∀ now, s.lastSeen ≤ now → Usable s now ∧
          ∀ b : Buy, b.now = now → Addressed p selfId s b →
            ∀ e, b.answer p selfId = .error e → Excuse selfId s b e) ↔
      (0 < wStart ∧ wStart < ONE) ∧ 0 < wEnd ∧ wEnd < ONE := by
  obtain ⟨rfl, rfl, rfl, rfl, forward, seen, tokens, collateral⟩ := createPool_eq_ok opened
  constructor
  · intro tradeable
    have at_once := tradeable s₀ .refl tokens
    exact ends_of_usable forward (at_once s₀.tStart (seen ▸ BitVec.le_refl _)).1
      (at_once s₀.tEnd (seen ▸ BitVec.le_of_lt forward)).1
  · rintro ⟨start, finish⟩ s run some_tokens now later
    have steps : Relation.ReflTransGen (Steps p selfId) s₀ s :=
      Relation.ReflTransGen.mono (fun _ _ bought => .inl bought) _ _ run
    have kept := Kept.run ⟨rfl, rfl, rfl, rfl, collateral⟩ steps
    have usable : Usable s now :=
      usable_of_ends (by rwa [kept.tStart, kept.tEnd]) (by rwa [kept.wStart])
        (by rwa [kept.wEnd]) now
    refine ⟨usable, ?_⟩
    rintro b rfl addressed e refused
    exact excuse_of_refused usable some_tokens kept.collateral addressed later refused

/-! ### A pool whose token weight falls to nothing -/

/-- The deployed program. -/
def lbpProgram : ProgramId :=
  ⟨[1468396113, 3672517216, 300259327, 3161307687, 82239325, 2311956366, 169303754, 766035894],
    rfl⟩

/-- The pool id `"pool"`. -/
def demoPoolId : Bytes 32 := seedFromStr "pool" (by decide)

def demoHoldingSeed : Bytes 32 :=
  ⟨[145, 58, 149, 67, 229, 68, 72, 42, 213, 77, 217, 219, 163, 197, 58, 208, 217, 58, 200, 111,
    230, 249, 68, 1, 145, 27, 24, 168, 0, 230, 144, 178], rfl⟩

def demoPoolPda : AccountId :=
  ⟨[151, 133, 119, 130, 75, 198, 239, 34, 90, 219, 89, 201, 49, 127, 9, 215, 50, 4, 234, 158, 113,
    76, 113, 127, 153, 110, 148, 83, 125, 12, 98, 46], rfl⟩

def demoHoldingPda : AccountId :=
  ⟨[3, 155, 26, 89, 53, 1, 164, 232, 109, 80, 79, 45, 113, 28, 241, 196, 142, 237, 73, 89, 93, 238,
    196, 93, 56, 248, 62, 168, 35, 198, 89, 204], rfl⟩

/-- The platform on the two addresses of that pool. -/
def demo : Addressing ProgramId where
  sha256 bytes :=
    if bytes = demoPoolId.toList ++ holdingWord.toList then demoHoldingSeed else holdingWord
  forPublicPda program seed :=
    if program = lbpProgram ∧ seed = ⟨demoPoolId⟩ then demoPoolPda
    else if program = lbpProgram ∧ seed = ⟨demoHoldingSeed⟩ then demoHoldingPda
    else AccountId.default

/-- A pool of a million tokens against a thousand, from 99% down to the given end. -/
def demoPool (wEnd : U128) : Pool where
  reserveToken := 1000000
  reserveCollateral := 1000
  wStart := 990000000000000000
  wEnd
  tStart := 1000
  tEnd := 2000
  lastSeen := 1000
  paused := 0
  creator := AccountId.default
  treasury := demoHoldingPda
  feeTreasury := AccountId.default
  feeRate := 50000

/-- The opening of that pool. -/
def demoOpening (wEnd : U128) : Except SpelError SpelOutput :=
  createPool demo lbpProgram ⟨Account.default, false, demoPoolPda⟩
    ⟨Account.default, false, demoHoldingPda⟩ ⟨Account.default, true, AccountId.default⟩ demoPoolId
    1000000 1000 990000000000000000 wEnd 1000 2000 AccountId.default 50000

/-- A buy of ten on that pool by someone who can pay. -/
def demoBuy (wEnd : U128) (now : U64) : Buy where
  pool := ⟨⟨lbpProgram, 0, poolCodec.encode (demoPool wEnd), 0⟩, false, demoPoolPda⟩
  buyer := ⟨⟨AUTH_TRANSFER_PROGRAM_ID, 100, [], 0⟩, true, AccountId.default⟩
  holding := ⟨⟨lbpProgram, 0, [], 0⟩, false, demoHoldingPda⟩
  poolId := demoPoolId
  now
  collateralIn := 10
  minTokensOut := 0

/-- That pool after the buy, halfway down its schedule. -/
def demoBought (wEnd : U128) : Pool :=
  { demoPool wEnd with reserveToken := 990100, reserveCollateral := 1010, lastSeen := 1500 }

/-- From 99% down to 1% the pool opens and can be traded in every state and at every time; so
after a first buy to the end of the schedule and beyond it. -/
theorem created_tradeable_iff_small :
    Leaves (demoOpening 10000000000000000) (demoPool 10000000000000000) ∧
      Trades demo lbpProgram (demoPool 10000000000000000) (demoBought 10000000000000000) ∧
      (∀ now, 1500 ≤ now → Usable (demoBought 10000000000000000) now) ∧
      ∀ s, Relation.ReflTransGen (Trades demo lbpProgram) (demoPool 10000000000000000) s →
        s.reserveToken ≠ 0 → ∀ now, s.lastSeen ≤ now → Usable s now ∧
          ∀ b : Buy, b.now = now → Addressed demo lbpProgram s b →
            ∀ e, b.answer demo lbpProgram = .error e → Excuse lbpProgram s b e := by
  have opened : Leaves (demoOpening 10000000000000000) (demoPool 10000000000000000) :=
    ⟨_, _, _, rfl, read_write _ _⟩
  have answer : (demoBuy 10000000000000000 1500).answer demo lbpProgram =
      .ok ⟨[{ (demoBuy 10000000000000000 1500).pool with
            account := write (demoBuy 10000000000000000 1500).pool.account
              (demoBought 10000000000000000) },
          (demoBuy 10000000000000000 1500).buyer, (demoBuy 10000000000000000 1500).holding],
        [{ programId := AUTH_TRANSFER_PROGRAM_ID
           accounts := [(demoBuy 10000000000000000 1500).buyer,
             (demoBuy 10000000000000000 1500).holding]
           amount := 10 }]⟩ := by
    decide +kernel
  have bought : Trades demo lbpProgram (demoPool 10000000000000000)
      (demoBought 10000000000000000) :=
    ⟨demoBuy 10000000000000000 1500, read_eq_ok_iff.mpr rfl, _, _, _, answer, read_write _ _⟩
  have tradeable := (created_tradeable_iff opened).mpr (by decide)
  exact ⟨opened, bought, fun now later =>
    (tradeable _ (.single bought) (by decide) now later).1, tradeable⟩

/-- From 99% down to nothing the pool opens and can be bought from until its end; from then on
the same buy is refused for its price, with no excuse. -/
theorem opened_not_tradeable :
    Leaves (demoOpening 0) (demoPool 0) ∧
      refusal ((demoBuy 0 1999).answer demo lbpProgram) = none ∧
      Addressed demo lbpProgram (demoPool 0) (demoBuy 0 2000) ∧
      (demoBuy 0 2000).answer demo lbpProgram =
        .error (.custom 6003 "buy refused: size or reserve") ∧
      ¬ Excuse lbpProgram (demoPool 0) (demoBuy 0 2000)
        (.custom 6003 "buy refused: size or reserve") ∧
      ¬ ∀ s, Relation.ReflTransGen (Trades demo lbpProgram) (demoPool 0) s →
        s.reserveToken ≠ 0 → ∀ now, s.lastSeen ≤ now → Usable s now ∧
          ∀ b : Buy, b.now = now → Addressed demo lbpProgram s b →
            ∀ e, b.answer demo lbpProgram = .error e → Excuse lbpProgram s b e := by
  refine ⟨⟨_, _, _, rfl, read_write _ _⟩, by decide +kernel,
    ⟨rfl, rfl, rfl, rfl, read_eq_ok_iff.mpr rfl⟩, by decide +kernel, ?_, ?_⟩
  · -- only a size is refused with this code, and the size is not at fault
    intro excuse
    generalize code : SpelError.custom 6003 "buy refused: size or reserve" = e at excuse
    cases excuse with
    | size h => exact absurd h (by decide)
    | _ => exact absurd code (by decide)
  · intro tradeable
    obtain ⟨⟨w, weight, pos, -⟩, -⟩ := tradeable (demoPool 0) .refl (by decide) 2000 (by decide)
    obtain rfl := Except.ok.inj weight
    exact absurd pos (by decide)

end PoolProgram

end Antumbra
