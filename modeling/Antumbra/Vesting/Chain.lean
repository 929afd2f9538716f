/-
# The chain under the program

What the platform does with a transaction: the program plans it, the block's time
must be inside the planned window, every effect is applied and every transfer made,
and if any part fails nothing changes. A run interleaves transactions with the
passing of time and with whatever other programs do.
-/

import Antumbra.Math.Ledger
import Antumbra.Math.Runs
import Antumbra.Vesting.Planned

namespace Antumbra

open Antumbra.Math

namespace Vesting

/-- The program on a platform: its own address, and which addresses belong to programs
rather than to keys. -/
structure Deployment extends Platform where
  me : AccountId
  derived : AccountId → Bool
  derived_forPublicPda : ∀ program seed, derived (forPublicPda program seed) = true

/-- A balance of each asset on each account. -/
abbrev Balances := AccountId × Asset → ℕ

/-- The chain as the program meets it: the block's time, the bytes of the program's shard of
each account, and the balances. -/
structure World where
  now : U64
  shard : AccountId → List U8
  balance : Balances

structure Transaction where
  rows : List AccountMeta
  ix : Instruction

/-- Why a transaction did not take effect. -/
inductive Failure
  | panicked (panic : Panic)
  | outsideWindow
  | foreignShard
  | misdirected
  | unauthorized
  | funds
  deriving DecidableEq, Repr

/-! ### Transfers -/

def TransferInstruction.asset : TransferInstruction → Asset
  | .native _ => .native
  | .token _ definitionId => .token definitionId

def TransferInstruction.amount : TransferInstruction → U128
  | .native amount => amount
  | .token amount _ => amount

/-- Move an amount of an asset, or fail for lack of funds. -/
def pay (balance : Balances) (source target : AccountId) (asset : Asset) (amount : ℕ) :
    Except Failure Balances := do
  ensure (amount ≤ balance (source, asset)) .funds
  return move balance (source, asset) (target, asset) amount

namespace Deployment

variable (d : Deployment)

/-- A program's account is debited only by a call that carries its seed, any other account
only with its signature. -/
def mayDebit (rowList : List AccountMeta) (call : ChainedCall) (source : AccountId) : Bool :=
  if d.derived source then
    call.pdaSeeds.any fun seed => d.forPublicPda d.me seed = source
  else
    rowList.any fun row => row.accountId = source && row.isAuthorized

/-- One chained transfer. -/
def runCall (rowList : List AccountMeta) (balance : Balances) (call : ChainedCall) :
    Except Failure Balances :=
  match call.accounts with
  | [source, target] => do
    let asset := call.instruction.asset
    let program := asset.shardProgram d.toPlatform
    ensure (call.programAccountId = program ∧ source.program = program ∧ target.program = program)
      .misdirected
    ensure (d.mayDebit rowList call source.account = true) .unauthorized
    pay balance source.account target.account asset call.instruction.amount.toNat
  | _ => .error .misdirected

/-- One effect, on the program's shard of the row's account. -/
def runEffect (shard : AccountId → List U8) (planned : AccountMeta × Effect) :
    Except Failure (AccountId → List U8) := do
  let (row, effect) := planned
  ensure (row.programAccountId = d.me) .foreignShard
  let post ← (apply effect (shard row.accountId)).mapError .panicked
  match post with
  | some bytes => return Function.update shard row.accountId bytes
  | none => return shard

/-- A transaction: all of it or nothing. -/
def execute (w : World) (tx : Transaction) : Except Failure World := do
  let pl ← (plan d.toPlatform ⟨d.me, tx.rows⟩ tx.ix).mapError .panicked
  ensure (pl.window.all (·.contains w.now) = true) .outsideWindow
  let shard ← pl.effects.foldlM d.runEffect w.shard
  let balance ← pl.calls.foldlM (d.runCall tx.rows) w.balance
  return { w with shard, balance }

/-- A transaction as far as the program decides it: planned, and every effect applied. -/
def settle (shard : AccountId → List U8) (tx : Transaction) :
    Except Failure (AccountId → List U8) := do
  let pl ← (plan d.toPlatform ⟨d.me, tx.rows⟩ tx.ix).mapError .panicked
  pl.effects.foldlM d.runEffect shard

/-- The shards after a transaction, accepted or not. -/
def settled (shard : AccountId → List U8) (tx : Transaction) : AccountId → List U8 :=
  match d.settle shard tx with
  | .ok shard' => shard'
  | .error _ => shard

/-- The world after a transaction, accepted or not. -/
def land (w : World) (tx : Transaction) : World :=
  match d.execute w tx with
  | .ok w' => w'
  | .error _ => w

/-- A claim with the rows a client builds, signed by the beneficiary. -/
def claimTransaction (scheduleId : Bytes 32) (batchId : Option (Bytes 32)) (asset : Asset)
    (amount : U128) (at_ : U64) (destination beneficiary : AccountId) : Transaction where
  rows := signedBy [beneficiary]
    (Rows.claim d.toPlatform d.me scheduleId batchId asset destination beneficiary)
  ix := .claim scheduleId batchId asset amount at_

/-- A cancellation with the rows a client builds, signed by the cancel authority. -/
def cancelTransaction (scheduleId : Bytes 32) (batchId : Option (Bytes 32)) (asset : Asset)
    (at_ : U64) (refund : U128) (refundTo authority : AccountId) : Transaction where
  rows := signedBy [authority]
    (Rows.cancel d.toPlatform d.me scheduleId batchId asset refundTo authority)
  ix := .cancel scheduleId batchId asset at_ refund

/-- What can happen next. A transfer that fails for a reason of its own changes nothing, as
a `tick` to the same time does. -/
inductive Step (d : Deployment) : World → World → Prop
  | tick (w : World) (later : U64) (forward : w.now ≤ later) : Step d w { w with now := later }
  | transaction (w : World) (tx : Transaction) : Step d w (d.land w tx)
  /-- Other programs and plain transfers cannot debit this program's accounts. -/
  | elsewhere (w : World) (balance : Balances)
      (kept : ∀ seed asset, w.balance (d.forPublicPda d.me seed, asset) ≤
        balance (d.forPublicPda d.me seed, asset)) : Step d w { w with balance }

/-- The worlds a run leads to that starts with no schedules and not before `since`. -/
def Reachable (since : U64) : World → Prop :=
  Math.Reachable (fun w => (∀ k, w.shard k = []) ∧ since ≤ w.now) d.Step

/-! ### Reading an accepted transaction -/

variable {d} {w w' : World} {tx : Transaction} {rowList : List AccountMeta}

theorem land_of_ok (h : d.execute w tx = .ok w') : d.land w tx = w' := by
  rw [land, h]

theorem execute_of_isOk (h : (d.execute w tx).isOk = true) :
    d.execute w tx = .ok (d.land w tx) := by
  cases accepted : d.execute w tx with
  | error why =>
    rw [accepted] at h
    exact absurd h Bool.false_ne_true
  | ok w' => rw [land_of_ok accepted]

theorem execute_eq_ok_iff :
    d.execute w tx = .ok w' ↔ ∃ pl, Planned d.toPlatform d.me tx.rows tx.ix pl ∧
      pl.window.all (·.contains w.now) = true ∧
      ∃ shard, pl.effects.foldlM d.runEffect w.shard = .ok shard ∧
        ∃ balance, pl.calls.foldlM (d.runCall tx.rows) w.balance = .ok balance ∧
          w' = { w with shard, balance } := by
  simp only [execute, bind_eq_ok_iff, mapError_eq_ok_iff, plan_eq_ok_iff, ensure_eq_ok_iff,
    exists_const, pure_eq_ok, Except.ok.injEq, @eq_comm _ w']

theorem settle_eq_ok_iff {shard shard' : AccountId → List U8} :
    d.settle shard tx = .ok shard' ↔ ∃ pl, Planned d.toPlatform d.me tx.rows tx.ix pl ∧
      pl.effects.foldlM d.runEffect shard = .ok shard' := by
  simp only [settle, bind_eq_ok_iff, mapError_eq_ok_iff, plan_eq_ok_iff]

theorem settle_of_isOk {shard : AccountId → List U8} (h : (d.settle shard tx).isOk = true) :
    d.settle shard tx = .ok (d.settled shard tx) := by
  unfold settled
  cases accepted : d.settle shard tx with
  | error why =>
    rw [accepted] at h
    exact absurd h Bool.false_ne_true
  | ok shard' => rfl

theorem settle_of_not_isOk {shard : AccountId → List U8} (h : (d.settle shard tx).isOk = false) :
    ∃ why, d.settle shard tx = .error why := by
  cases refused : d.settle shard tx with
  | error why => exact ⟨why, rfl⟩
  | ok shard' =>
    rw [refused] at h
    exact absurd h.symm Bool.false_ne_true

/-- What takes effect was accepted by the program. -/
theorem settle_of_execute (h : d.execute w tx = .ok w') : d.settle w.shard tx = .ok w'.shard := by
  obtain ⟨pl, planned, -, shard, run, _, -, rfl⟩ := execute_eq_ok_iff.mp h
  exact settle_eq_ok_iff.mpr ⟨pl, planned, run⟩

/-- Time passes between transactions only. -/
@[simp] theorem land_now (w : World) (tx : Transaction) : (d.land w tx).now = w.now := by
  unfold land
  split
  · next accepted =>
    obtain ⟨_, -, -, _, -, _, -, rfl⟩ := execute_eq_ok_iff.mp accepted
    rfl
  · rfl

/-- An effect is accepted where it creates or acts. -/
theorem runEffect_eq_ok_iff {shard shard' : AccountId → List U8} {row : AccountMeta}
    {effect : Effect} :
    d.runEffect shard (row, effect) = .ok shard' ↔ row.programAccountId = d.me ∧
      ((∃ s, effect = .create s ∧ shard row.accountId = [] ∧
          shard' = Function.update shard row.accountId (store s)) ∨
        ∃ s s', shard row.accountId = store s ∧ Acts effect s s' ∧
          shard' = Function.update shard row.accountId (store s')) := by
  simp only [runEffect, bind_eq_ok_iff, ensure_eq_ok_iff, exists_const, mapError_eq_ok_iff,
    apply_eq_ok_iff]
  refine and_congr_right fun _ => ?_
  constructor
  · rintro ⟨post, ⟨s, create, empty, rfl⟩ | ⟨s, s', stored, acts, rfl⟩, result⟩
    · exact .inl ⟨s, create, empty, (Except.ok.inj result).symm⟩
    · exact .inr ⟨s, s', stored, acts, (Except.ok.inj result).symm⟩
  · rintro (⟨s, create, empty, rfl⟩ | ⟨s, s', stored, acts, rfl⟩)
    · exact ⟨_, .inl ⟨s, create, empty, rfl⟩, rfl⟩
    · exact ⟨_, .inr ⟨s, s', stored, acts, rfl⟩, rfl⟩

/-- An effect replaces one shard. -/
theorem exists_update_of_runEffect {shard shard' : AccountId → List U8} {row : AccountMeta}
    {effect : Effect} (run : d.runEffect shard (row, effect) = .ok shard') :
    ∃ s, shard' = Function.update shard row.accountId (store s) := by
  obtain ⟨-, ⟨s, -, -, rfl⟩ | ⟨-, s, -, -, rfl⟩⟩ := runEffect_eq_ok_iff.mp run
  · exact ⟨s, rfl⟩
  · exact ⟨s, rfl⟩

theorem pay_eq_ok_iff {b b' : Balances} {source target : AccountId} {asset : Asset} {amount : ℕ} :
    pay b source target asset amount = .ok b' ↔ amount ≤ b (source, asset) ∧
      b' = move b (source, asset) (target, asset) amount := by
  simp only [pay, bind_eq_ok_iff, ensure_eq_ok_iff, exists_const, pure_eq_ok, Except.ok.injEq,
    @eq_comm _ b']

@[simp] theorem pay_zero {b : Balances} {source target : AccountId} {asset : Asset} :
    pay b source target asset 0 = .ok b :=
  pay_eq_ok_iff.mpr ⟨Nat.zero_le _, move_zero.symm⟩

/-- The funding of a creation is a signed transfer into the escrow. -/
theorem runCall_transferCall {b b' : Balances} {asset : Asset} {source target : AccountMeta}
    {amount : U128}
    (h : d.runCall rowList b (transferCall d.toPlatform asset source target amount) = .ok b') :
    d.derived source.accountId = false ∧
      pay b source.accountId target.accountId asset amount.toNat = .ok b' := by
  have unseeded : (transferCall d.toPlatform asset source target amount).pdaSeeds = [] := by
    cases asset <;> rfl
  have pair : (transferCall d.toPlatform asset source target amount).accounts =
      [source.selector, target.selector] := by
    cases asset <;> rfl
  simp only [runCall, pair, bind_eq_ok_iff, ensure_eq_ok_iff, exists_const] at h
  obtain ⟨-, debit, paid⟩ := h
  refine ⟨?_, ?_⟩
  · -- debiting a program's account takes a seed, and this call carries none
    cases program : d.derived source.accountId with
    | false => rfl
    | true =>
      unfold mayDebit AccountMeta.selector at debit
      rw [if_pos program, unseeded] at debit
      exact absurd debit (by simp)
  · cases asset <;> exact paid

/-- A well-directed call that may debit its source is a payment. -/
theorem runCall_eq_pay {b : Balances} {call : ChainedCall} {source target : AccountId}
    {asset : Asset}
    (pair : call.accounts = [⟨source, asset.shardProgram d.toPlatform⟩,
      ⟨target, asset.shardProgram d.toPlatform⟩])
    (program : call.programAccountId = asset.shardProgram d.toPlatform)
    (hasset : call.instruction.asset = asset) (debit : d.mayDebit rowList call source = true) :
    d.runCall rowList b call = pay b source target asset call.instruction.amount.toNat := by
  simp only [runCall, pair, hasset, program, and_self]
  rw [ensure_of trivial, ensure_of debit, ok_bind, ok_bind]

/-- A payout is between the escrow's and the target's shards of the asset. -/
theorem payout_accounts {asset : Asset} {seedId : Bytes 32} {holding target : AccountMeta}
    (amount : U128) (hholding : IsHolding d.toPlatform d.me seedId asset holding)
    (htarget : target.programAccountId = asset.shardProgram d.toPlatform) :
    (payout d.toPlatform asset holding seedId target amount).accounts =
      [⟨holding.accountId, asset.shardProgram d.toPlatform⟩,
        ⟨target.accountId, asset.shardProgram d.toPlatform⟩] := by
  cases asset with
  | native => rfl
  | token definitionId =>
    change [holding.selector, target.selector] = _
    rw [AccountMeta.selector, AccountMeta.selector, hholding.program, htarget]

/-- A payout always carries what it needs; only the funds decide it. -/
theorem runCall_payout {b : Balances} {asset : Asset} {seedId : Bytes 32}
    {holding target : AccountMeta} {amount : U128}
    (hholding : IsHolding d.toPlatform d.me seedId asset holding)
    (htarget : target.programAccountId = asset.shardProgram d.toPlatform) :
    d.runCall rowList b (payout d.toPlatform asset holding seedId target amount) =
      pay b holding.accountId target.accountId asset amount.toNat := by
  -- the escrow's address is derived from the seed the call carries
  have debit : ∀ call : ChainedCall, call.pdaSeeds = [holdingSeed d.toPlatform seedId] →
      d.mayDebit rowList call holding.accountId = true := by
    intro call seeds
    unfold mayDebit
    rw [hholding.account, holdingAccount, if_pos (d.derived_forPublicPda _ _), seeds]
    simp
  have pair := payout_accounts amount hholding htarget
  cases asset with
  | native => exact runCall_eq_pay pair rfl rfl (debit _ rfl)
  | token definitionId => exact runCall_eq_pay pair rfl rfl (debit _ rfl)

end Deployment

/-! ### A sample -/

namespace Sample

/-- A number as 32 bytes, high byte first. -/
def bytes32 (n : ℕ) : Bytes 32 :=
  ⟨(List.range 32).map fun i => BitVec.ofNat 8 (n >>> (8 * (31 - i))), by simp⟩

def batchId : Bytes 32 := List.Vector.replicate 32 15

/-- The escrow of the sample batch. -/
def escrow : AccountId :=
  ⟨bytes32 0x55f4d5407fb3da94fb3de8b506c4dd77c1471e3f7b09761d67e47478520816fa⟩

/-- The schedules of the sample batch. -/
def first : AccountId :=
  ⟨bytes32 0x7eaea029fefb608a8f7a5432ad26320c13748e9c7a55e8996d29e35afef3faa0⟩

def second : AccountId :=
  ⟨bytes32 0x3de16697a389d2d92215661f37e1e2c7d72195e55750c71278558d42358534ee⟩

/-- The digests the sample batch needs, under the address `7, 7, …` of the program. -/
def deployment : Deployment where
  sha256 input :=
    if input = batchId.toList ++ holdingWord.toList then
      bytes32 0x657206ec1f235531573c24ef1e07437cf9e22df9728c46c302f9abdb648ce427
    else if input = batchId.toList ++ (batchIndex 0).toList then
      bytes32 0x5496053e62849bd4063ae66040e67697939ec65f2a32bd63419873ae9b0cf174
    else
      bytes32 0xb9fbdbb29d5a7af1d1ffd0527a9d6792ed8f7215d29b4caed9bc920e372f6c6d
  forPublicPda _ seed :=
    if seed.value = bytes32 0x657206ec1f235531573c24ef1e07437cf9e22df9728c46c302f9abdb648ce427 then
      escrow
    else if
        seed.value = bytes32 0x5496053e62849bd4063ae66040e67697939ec65f2a32bd63419873ae9b0cf174 then
      first
    else
      second
  tokenProgram := account 0x26
  me := account 7
  derived a := decide (a ∈ [escrow, first, second])
  derived_forPublicPda _ seed := by
    rw [decide_eq_true_eq]
    split_ifs
    · exact List.mem_cons_self
    · exact List.mem_cons_of_mem _ List.mem_cons_self
    · exact List.mem_cons_of_mem _ (List.mem_cons_of_mem _ List.mem_cons_self)

/-- A creator with a million units and no schedules yet. -/
def start : World where
  now := 1700000900000
  shard _ := []
  balance purse := if purse = (account 1, .native) then 1000000 else 0

/-- Two schedules in one batch. -/
def creation : Transaction where
  rows := signedBy [account 1]
    (Rows.batch deployment.toPlatform deployment.me batchId 2 .native (account 1))
  ix := .createScheduleBatch batchId [account 2, account 3] .native terms

/-- Fifteen minutes into the schedules of the sample batch. -/
def chain : World := deployment.land start creation

theorem reachable_chain : deployment.Reachable CANCEL_WINDOW_MS chain :=
  .next (.start ⟨fun _ => rfl, by decide⟩) (.transaction start creation)

/-- The first beneficiary's claim of half its total. -/
def claim : Transaction :=
  deployment.claimTransaction (batchScheduleId deployment.toPlatform batchId 0) (some batchId)
    .native 300 1700000900000 (account 4) (account 2)

/-- The creator's cancellation of the second schedule. -/
def cancel : Transaction :=
  deployment.cancelTransaction (batchScheduleId deployment.toPlatform batchId 1) (some batchId)
    .native 1700000900000 300 (account 0xAA) (account 1)

theorem stored_first : chain.shard first = store (record escrow) := by decide +kernel

/-- The batch after the claim on its first schedule and the cancellation of its second. -/
def settled : World := deployment.land (deployment.land chain claim) cancel

theorem reachable_settled : deployment.Reachable CANCEL_WINDOW_MS settled :=
  .next (.next reachable_chain (.transaction _ claim)) (.transaction _ cancel)

/-- The first record with half of it claimed. -/
def halfClaimed : VestingSchedule :=
  { record escrow with claimed := 300, lastSeen := 1700000900000 }

theorem stored_halfClaimed : settled.shard first = store halfClaimed := by decide +kernel

/-- The batch was funded once for both of its schedules, and has paid out a quarter to a
beneficiary and a quarter back. -/
example : chain.balance (escrow, .native) = 1200 ∧ settled.balance (escrow, .native) = 600 := by
  decide +kernel

end Sample

end Vesting

end Antumbra
