/-
# The addresses the app derives

The app derives addresses by itself, on byte strings of any length: several seeds are hashed
together, and an address is the digest of a fixed word, the program and the seed. The ids it
derives are the program's own, and so are the addresses on a platform that derives its own so:
what keeps derived ids from colliding holds of the app's as well.
-/

import Antumbra.Vesting.Seeds

namespace Antumbra

open Antumbra.Math

namespace App

namespace Seeds

section
variable (sha256 : List U8 → Bytes 32)

/-- A text as a seed, filled up with zeros. -/
def textSeed (s : String) : List U8 := utf8 s ++ List.replicate (32 - (utf8 s).length) 0

def combineSeeds : List (List U8) → List U8
  | [one] => one
  | seeds => (sha256 seeds.flatten).toList

def pda (program seed : List U8) : List U8 :=
  (sha256 (textSeed "/LEE/v0.2/AccountId/PDA/" ++ program ++ seed)).toList

def scheduleAccount (program id : List U8) : List U8 :=
  pda sha256 program (combineSeeds sha256 [id])

def holdingAccount (program id : List U8) : List U8 :=
  pda sha256 program (combineSeeds sha256 [id, textSeed "holding"])

/-- The loop that writes the index into a word of zeros, low byte first. -/
def indexWord (i : U32) : List U8 :=
  (List.range 4).foldl (fun idx k => idx.set k ((i >>> (8 * k)).setWidth 8)) (List.replicate 32 0)

def batchScheduleId (batchId : List U8) (i : U32) : List U8 :=
  combineSeeds sha256 [batchId, indexWord i]

end

variable {p : Vesting.Platform}

/-! ### The program's own addresses -/

theorem combineSeeds_eq (seeds : List (Bytes 32)) :
    combineSeeds p.sha256 (seeds.map List.Vector.toList) =
      (Antumbra.combineSeeds p.toAddressing seeds).value.toList := by
  match seeds with
  | [] => rfl
  | [one] => rfl
  | first :: second :: rest =>
    change (p.sha256 ((first :: second :: rest).map List.Vector.toList).flatten).toList =
      (p.sha256 ((first :: second :: rest).flatMap List.Vector.toList)).toList
    rw [List.flatMap_def]

theorem textSeed_holding : textSeed "holding" = holdingWord.toList := rfl

/-- The four bytes of an index, shifted down one after the other, are its stored form. -/
theorem indexWord_eq (i : U32) : indexWord i = (Vesting.batchIndex i).toList := by
  have byte (k : ℕ) : (i >>> (8 * k)).setWidth 8 = BitVec.ofNat 8 (i.toNat / 256 ^ k) := by
    apply word_ext
    rw [BitVec.toNat_setWidth, BitVec.toNat_ushiftRight, Nat.shiftRight_eq_div_pow, pow_mul,
      BitVec.toNat_ofNat]
    rfl
  have stored : (Vesting.batchIndex i).toList =
      [BitVec.ofNat 8 i.toNat, BitVec.ofNat 8 (i.toNat / 256),
        BitVec.ofNat 8 (i.toNat / 256 / 256), BitVec.ofNat 8 (i.toNat / 256 / 256 / 256)] ++
        List.replicate 28 0 := rfl
  have written : indexWord i =
      [BitVec.ofNat 8 (i.toNat / 256 ^ 0), BitVec.ofNat 8 (i.toNat / 256 ^ 1),
        BitVec.ofNat 8 (i.toNat / 256 ^ 2), BitVec.ofNat 8 (i.toNat / 256 ^ 3)] ++
        List.replicate 28 0 := by
    rw [← byte, ← byte, ← byte, ← byte]
    rfl
  rw [stored, written, Nat.div_div_eq_div_mul, Nat.div_div_eq_div_mul, pow_zero, Nat.div_one]
  rfl

theorem batchScheduleId_eq (batchId : Bytes 32) (i : U32) :
    batchScheduleId p.sha256 batchId.toList i = (Vesting.batchScheduleId p batchId i).toList := by
  rw [batchScheduleId, indexWord_eq]
  exact combineSeeds_eq [batchId, Vesting.batchIndex i]

/-- What the digest of an address is taken of. -/
def addressInput (program : AccountId) (seed : PdaSeed) : List U8 :=
  textSeed "/LEE/v0.2/AccountId/PDA/" ++ program.value.toList ++ seed.value.toList

/-- The platform derives its addresses as the app does. -/
def DerivesAddresses (p : Vesting.Platform) : Prop :=
  ∀ program seed, (p.forPublicPda program seed).value = p.sha256 (addressInput program seed)

theorem scheduleAccount_eq (follows : DerivesAddresses p) (program : AccountId) (id : Bytes 32) :
    scheduleAccount p.sha256 program.value.toList id.toList =
      (Vesting.scheduleAccount p program id).value.toList := by
  rw [Vesting.scheduleAccount, follows]
  rfl

theorem holdingAccount_eq (follows : DerivesAddresses p) (program : AccountId) (id : Bytes 32) :
    holdingAccount p.sha256 program.value.toList id.toList =
      (Vesting.holdingAccount p program id).value.toList := by
  have seed := combineSeeds_eq (p := p) [id, holdingWord]
  rw [Vesting.holdingAccount, follows]
  unfold holdingAccount pda addressInput
  rw [textSeed_holding]
  exact congrArg (fun s => (p.sha256 (_ ++ _ ++ s)).toList) seed

end Seeds

/-! ### The result -/

section
open Vesting (AccountMeta ProgramShardSelector Deployment NoCollision BatchInputs memberInput
  escrowInput batchScheduleId scheduleSeed holdingSeed scheduleAccount holdingAccount
  memberAccounts batch_accounts exists_batch derived_of_mem)

/-- Derived ids never collide, as far as the digests and the addresses of the inputs used do
not: the ids of batch members are injective in the batch and the index, none of them is the
seed of an escrow and so none of their accounts is an escrow, an escrow determines its id and
a schedule's account its own, and the accounts of a batch are pairwise distinct: as the builder
lays them out when its creator is another account, and whenever the batch takes effect. The app
derives the same ids, and the same accounts where addresses are digests. -/
theorem derived_ids (d : Deployment) (hashed : Set (List U8)) (derived : Set (AccountId × PdaSeed))
    (h : NoCollision d.toPlatform hashed derived) :
    (∀ batchId batchId' i j, memberInput batchId i ∈ hashed → memberInput batchId' j ∈ hashed →
        batchScheduleId d.toPlatform batchId i = batchScheduleId d.toPlatform batchId' j →
        batchId = batchId' ∧ i = j) ∧
      (∀ batchId i id, memberInput batchId i ∈ hashed → escrowInput id ∈ hashed →
        batchScheduleId d.toPlatform batchId i ≠ (holdingSeed d.toPlatform id).value ∧
        ∀ program program',
          (program, scheduleSeed d.toPlatform (batchScheduleId d.toPlatform batchId i)) ∈ derived →
          (program', holdingSeed d.toPlatform id) ∈ derived →
          scheduleAccount d.toPlatform program (batchScheduleId d.toPlatform batchId i) ≠
            holdingAccount d.toPlatform program' id) ∧
      (∀ program program' id id', escrowInput id ∈ hashed → escrowInput id' ∈ hashed →
        (program, holdingSeed d.toPlatform id) ∈ derived →
        (program', holdingSeed d.toPlatform id') ∈ derived →
        holdingAccount d.toPlatform program id = holdingAccount d.toPlatform program' id' →
        program = program' ∧ id = id') ∧
      (∀ program program' id id', (program, scheduleSeed d.toPlatform id) ∈ derived →
        (program', scheduleSeed d.toPlatform id') ∈ derived →
        scheduleAccount d.toPlatform program id = scheduleAccount d.toPlatform program' id' →
        program = program' ∧ id = id') ∧
      (∀ program batchId n, BatchInputs d.toPlatform hashed derived program batchId n →
        (holdingAccount d.toPlatform program batchId ::
          memberAccounts d.toPlatform program batchId n).Nodup ∧
        ∀ asset creator,
          ((Vesting.Rows.batch d.toPlatform program batchId n asset creator).map
              ProgramShardSelector.account).Nodup ↔
            creator ∉ holdingAccount d.toPlatform program batchId ::
              memberAccounts d.toPlatform program batchId n) ∧
      (∀ w w' rowList batchId beneficiaries asset terms,
        d.execute w ⟨rowList, .createScheduleBatch batchId beneficiaries asset terms⟩ = .ok w' →
        BatchInputs d.toPlatform hashed derived d.me batchId
          (BitVec.ofNat 32 beneficiaries.length) →
        (rowList.map AccountMeta.accountId).Nodup) ∧
      (∀ batchId i, Seeds.batchScheduleId d.sha256 batchId.toList i =
        (batchScheduleId d.toPlatform batchId i).toList) ∧
      (Seeds.DerivesAddresses d.toPlatform → ∀ program id,
        Seeds.scheduleAccount d.sha256 program.value.toList id.toList =
            (scheduleAccount d.toPlatform program id).value.toList ∧
          Seeds.holdingAccount d.sha256 program.value.toList id.toList =
            (holdingAccount d.toPlatform program id).value.toList) := by
  have layout {escrow creator : AccountId} {schedules : List AccountId}
      (distinct : (escrow :: schedules).Nodup) :
      (escrow :: creator :: schedules).Nodup ↔ creator ∉ escrow :: schedules := by
    rw [(List.Perm.swap creator escrow schedules).nodup_iff, List.nodup_cons]
    exact and_iff_left distinct
  refine ⟨fun _ _ _ _ => h.batchScheduleId_inj, fun _ _ _ used used' => ⟨h.batchScheduleId_ne used
    used', fun _ _ => h.scheduleAccount_ne used used'⟩, fun _ _ _ _ => h.holdingAccount_inj,
    fun _ _ _ _ => h.scheduleAccount_inj, fun program batchId n used => ⟨h.nodup used, ?_⟩, ?_,
    Seeds.batchScheduleId_eq, fun follows program id =>
      ⟨Seeds.scheduleAccount_eq follows program id, Seeds.holdingAccount_eq follows program id⟩⟩
  · intro asset creator
    rw [batch_accounts]
    exact layout (h.nodup used)
  · intro w w' rowList batchId beneficiaries asset terms accepted used
    obtain ⟨n, creator, count, accounts, key⟩ := exists_batch accepted
    have counted : BitVec.ofNat 32 beneficiaries.length = n := by
      rw [← count, BitVec.ofNat_toNat, BitVec.setWidth_eq]
    rw [counted] at used
    rw [accounts, layout (h.nodup used)]
    -- a key signs for the batch, and its other accounts belong to programs
    intro mem
    rw [derived_of_mem mem] at key
    cases key

end

section
open Vesting (AccountMeta Deployment batchScheduleId scheduleAccount holdingAccount)
open Vesting.Sample

/-- The sample batch: its schedules are not its escrow, and its rows are distinct. -/
theorem derived_ids_batch :
    scheduleAccount deployment.toPlatform deployment.me
        (batchScheduleId deployment.toPlatform batchId 1) ≠
      holdingAccount deployment.toPlatform deployment.me batchId ∧
      (creation.rows.map AccountMeta.accountId).Nodup := by
  obtain ⟨-, separate, -, -, -, landed, -⟩ := derived_ids deployment _ _ noCollision
  have accepted := Deployment.execute_of_isOk
    (show (deployment.execute start creation).isOk = true by decide +kernel)
  refine ⟨?_, landed start _ creation.rows batchId [account 2, account 3] .native terms accepted
    batchInputs⟩
  exact (separate batchId 1 batchId (batchInputs.members 1 (by decide)) batchInputs.escrow).2 _ _
    (batchInputs.schedules 1 (by decide)) batchInputs.holding

end

end App

end Antumbra
