/-
# Derived ids

The ids of batch members and the seeds of escrows are digests of sixty-four bytes, an id
followed by a word: the index of the member in four bytes and then zeros, or `"holding"` in
seven. The fifth byte of the word tells the two apart, so no two of them are digests of the
same bytes. What is assumed of the digests and the addresses is about the inputs that are
used, since there are more programs and seeds than addresses for them.
-/

import Antumbra.Vesting.Rows
import Mathlib.Data.Set.Finite.List

namespace Antumbra

open Antumbra.Math

namespace Vesting

section
variable {p : Platform} {d : Deployment} {hashed : Set (List U8)}
  {derived : Set (AccountId × PdaSeed)} {program program' : AccountId}
  {batchId batchId' id id' : Bytes 32} {i j n : U32}

/-! ### What is hashed -/

/-- The bytes under the id of a batch member. -/
def memberInput (batchId : Bytes 32) (i : U32) : List U8 :=
  batchId.toList ++ (batchIndex i).toList

/-- The bytes under the seed of an escrow. -/
def escrowInput (id : Bytes 32) : List U8 := id.toList ++ holdingWord.toList

theorem batchScheduleId_eq : batchScheduleId p batchId i = p.sha256 (memberInput batchId i) := by
  rw [batchScheduleId, combineSeeds_two, memberInput]

theorem holdingSeed_value : (holdingSeed p id).value = p.sha256 (escrowInput id) := by
  rw [holdingSeed, combineSeeds_two, escrowInput]

/-- Two words of thirty-two bytes are told apart after an id as they are alone. -/
theorem append_word_inj {word word' : Bytes 32}
    (h : id.toList ++ word.toList = id'.toList ++ word'.toList) : id = id' ∧ word = word' := by
  obtain ⟨first, second⟩ := List.append_inj h (by rw [id.toList_length, id'.toList_length])
  exact ⟨Subtype.ext first, Subtype.ext second⟩

theorem batchIndex_injective : Function.Injective batchIndex := by
  intro i j h
  have words := congrArg Subtype.val h
  exact Codec.u32.encode_injective (List.append_cancel_right words)

/-- The fifth byte of an index is zero, that of the escrow's word is a letter. -/
theorem batchIndex_ne_holdingWord : batchIndex i ≠ holdingWord := by
  intro h
  have fifth := congrArg (fun word : Bytes 32 => word.toList[4]?) h
  have zero : (batchIndex i).toList[4]? = some 0 := by
    change (Codec.u32.encode i ++ List.replicate 28 0)[4]? = some 0
    rw [List.getElem?_append_right (by rw [Codec.u32.length_encode]; rfl), Codec.u32.length_encode]
    rfl
  have letter : holdingWord.toList[4]? = some 0x69 := by decide
  rw [zero, letter] at fifth
  exact absurd fifth (by decide)

theorem memberInput_inj (h : memberInput batchId i = memberInput batchId' j) :
    batchId = batchId' ∧ i = j := by
  obtain ⟨same, index⟩ := append_word_inj h
  exact ⟨same, batchIndex_injective index⟩

theorem escrowInput_inj (h : escrowInput id = escrowInput id') : id = id' := (append_word_inj h).1

theorem memberInput_ne_escrowInput : memberInput batchId i ≠ escrowInput id :=
  fun h => batchIndex_ne_holdingWord (append_word_inj h).2

/-! ### Where nothing collides -/

/-- The digests of these inputs and the addresses of these programs' seeds are all
different. -/
structure NoCollision (p : Platform) (hashed : Set (List U8))
    (derived : Set (AccountId × PdaSeed)) : Prop where
  digests : Set.InjOn p.sha256 hashed
  addresses : Set.InjOn (fun a => p.forPublicPda a.1 a.2) derived

/-- No platform keeps the addresses of all programs and seeds apart. -/
theorem not_injective (p : Platform) :
    ¬ Function.Injective fun a : AccountId × PdaSeed => p.forPublicPda a.1 a.2 := by
  intro apart
  have byte : Finite U8 := Finite.of_injective BitVec.toFin fun _ _ => BitVec.toFin_inj.mp
  have bytes : Finite (Bytes 32) := (List.finite_length_eq U8 32).to_subtype
  have accounts : Finite AccountId := Finite.of_injective AccountId.value fun _ _ => AccountId.ext
  let seed (b : U8) : PdaSeed := ⟨List.Vector.replicate 32 b⟩
  have single : Function.Injective fun program => p.forPublicPda program (seed 0) := by
    intro a b same
    have inputs : (a, seed 0) = (b, seed 0) := apart same
    exact congrArg Prod.fst inputs
  -- one seed alone takes up every address, and leaves none for another
  obtain ⟨program, same⟩ :=
    Finite.surjective_of_injective single (p.forPublicPda AccountId.default (seed 1))
  have inputs : (program, seed 0) = (AccountId.default, seed 1) := apart same
  have heads : (0 : U8) = 1 := congrArg (fun a => a.2.value.head) inputs
  exact absurd heads (by decide)

namespace NoCollision

variable (h : NoCollision p hashed derived)
include h

theorem batchScheduleId_inj (used : memberInput batchId i ∈ hashed)
    (used' : memberInput batchId' j ∈ hashed)
    (same : batchScheduleId p batchId i = batchScheduleId p batchId' j) :
    batchId = batchId' ∧ i = j := by
  rw [batchScheduleId_eq, batchScheduleId_eq] at same
  exact memberInput_inj (h.digests used used' same)

theorem holdingSeed_inj (used : escrowInput id ∈ hashed) (used' : escrowInput id' ∈ hashed)
    (same : holdingSeed p id = holdingSeed p id') : id = id' := by
  have values := congrArg PdaSeed.value same
  rw [holdingSeed_value, holdingSeed_value] at values
  exact escrowInput_inj (h.digests used used' values)

/-- No member's id is an escrow's seed. -/
theorem batchScheduleId_ne (used : memberInput batchId i ∈ hashed)
    (used' : escrowInput id ∈ hashed) : batchScheduleId p batchId i ≠ (holdingSeed p id).value := by
  rw [batchScheduleId_eq, holdingSeed_value]
  exact fun same => memberInput_ne_escrowInput (h.digests used used' same)

/-- The address of a schedule determines its program and its id. -/
theorem scheduleAccount_inj (used : (program, scheduleSeed p id) ∈ derived)
    (used' : (program', scheduleSeed p id') ∈ derived)
    (same : scheduleAccount p program id = scheduleAccount p program' id') :
    program = program' ∧ id = id' := by
  have pair := h.addresses used used' same
  rw [Prod.mk.injEq] at pair
  exact ⟨pair.1, congrArg PdaSeed.value pair.2⟩

theorem holdingAccount_inj (hashes : escrowInput id ∈ hashed) (hashes' : escrowInput id' ∈ hashed)
    (used : (program, holdingSeed p id) ∈ derived)
    (used' : (program', holdingSeed p id') ∈ derived)
    (same : holdingAccount p program id = holdingAccount p program' id') :
    program = program' ∧ id = id' := by
  have pair := h.addresses used used' same
  rw [Prod.mk.injEq] at pair
  exact ⟨pair.1, h.holdingSeed_inj hashes hashes' pair.2⟩

/-- No member's schedule is an escrow, of any schedule or batch of any program. -/
theorem scheduleAccount_ne (hashes : memberInput batchId i ∈ hashed)
    (hashes' : escrowInput id ∈ hashed)
    (used : (program, scheduleSeed p (batchScheduleId p batchId i)) ∈ derived)
    (used' : (program', holdingSeed p id) ∈ derived) :
    scheduleAccount p program (batchScheduleId p batchId i) ≠ holdingAccount p program' id := by
  intro same
  have pair := h.addresses used used' same
  rw [Prod.mk.injEq] at pair
  exact h.batchScheduleId_ne hashes hashes' (congrArg PdaSeed.value pair.2)

end NoCollision

/-! ### The rows of a batch -/

/-- The schedules of a batch of `n`, in order. -/
def memberAccounts (p : Platform) (program : AccountId) (batchId : Bytes 32) (n : U32) :
    List AccountId :=
  (List.range n.toNat).map fun i =>
    scheduleAccount p program (batchScheduleId p batchId (BitVec.ofNat 32 i))

/-- What a batch of `n` hashes and derives is among the inputs. -/
structure BatchInputs (p : Platform) (hashed : Set (List U8)) (derived : Set (AccountId × PdaSeed))
    (program : AccountId) (batchId : Bytes 32) (n : U32) : Prop where
  escrow : escrowInput batchId ∈ hashed
  members : ∀ i < n, memberInput batchId i ∈ hashed
  holding : (program, holdingSeed p batchId) ∈ derived
  schedules : ∀ i < n, (program, scheduleSeed p (batchScheduleId p batchId i)) ∈ derived

theorem batch_accounts (asset : Asset) (creator : AccountId) :
    (Rows.batch p program batchId n asset creator).map ProgramShardSelector.account =
      holdingAccount p program batchId :: creator :: memberAccounts p program batchId n := by
  unfold Rows.batch memberAccounts
  rw [List.map_append, List.map_map]
  rfl

/-- The escrow of a batch and its schedules are pairwise distinct. -/
theorem NoCollision.nodup (h : NoCollision p hashed derived)
    (used : BatchInputs p hashed derived program batchId n) :
    (holdingAccount p program batchId :: memberAccounts p program batchId n).Nodup := by
  have index {i : ℕ} (mem : i ∈ List.range n.toNat) : BitVec.ofNat 32 i < n := by
    have below := List.mem_range.mp mem
    have word := n.isLt
    rw [BitVec.lt_def, BitVec.toNat_ofNat, Nat.mod_eq_of_lt (by omega)]
    exact below
  rw [List.nodup_cons]
  constructor
  · intro mem
    obtain ⟨i, inside, same⟩ := List.mem_map.mp mem
    exact h.scheduleAccount_ne (used.members _ (index inside)) used.escrow
      (used.schedules _ (index inside)) used.holding same
  · refine List.Nodup.map_on ?_ List.nodup_range
    intro i hi j hj same
    have ids := (h.scheduleAccount_inj (used.schedules _ (index hi)) (used.schedules _ (index hj))
      same).2
    have indices := (h.batchScheduleId_inj (used.members _ (index hi))
      (used.members _ (index hj)) ids).2
    have below := List.mem_range.mp hi
    have below' := List.mem_range.mp hj
    have word := n.isLt
    have numbers := congrArg BitVec.toNat indices
    rwa [BitVec.toNat_ofNat, BitVec.toNat_ofNat, Nat.mod_eq_of_lt (by omega),
      Nat.mod_eq_of_lt (by omega)] at numbers

/-- Every account of a batch but its creator belongs to a program. -/
theorem derived_of_mem {a : AccountId}
    (mem : a ∈ holdingAccount d.toPlatform program batchId ::
      memberAccounts d.toPlatform program batchId n) : d.derived a = true := by
  rcases List.mem_cons.mp mem with rfl | member
  · exact d.derived_forPublicPda _ _
  · obtain ⟨i, -, rfl⟩ := List.mem_map.mp member
    exact d.derived_forPublicPda _ _

/-- A batch that takes effect is laid out as the builder does, and paid for by a key. -/
theorem exists_batch {w w' : World} {rowList : List AccountMeta} {beneficiaries : List AccountId}
    {asset : Asset} {terms : Terms}
    (accepted : d.execute w ⟨rowList, .createScheduleBatch batchId beneficiaries asset terms⟩ =
      .ok w') :
    ∃ (n : U32) (creator : AccountId), n.toNat = beneficiaries.length ∧
      rowList.map AccountMeta.accountId =
        holdingAccount d.toPlatform d.me batchId :: creator ::
          memberAccounts d.toPlatform d.me batchId n ∧
      d.derived creator = false := by
  obtain ⟨pl, planned, -, shard, -, balance, paid, -⟩ := Deployment.execute_eq_ok_iff.mp accepted
  obtain ⟨⟨target, handle, n, count, laid⟩, -⟩ :=
    checkRows_eq_ok_iff.mp (checkRows_of_planned planned)
  have accounts := congrArg (List.map ProgramShardSelector.account) laid
  rw [batch_accounts, List.map_map] at accounts
  refine ⟨n, handle, count, accounts, ?_⟩
  cases planned with
  | createScheduleBatch hlength hholding hcreator signed few hsum heffects =>
    rw [List.map_cons, List.map_cons, List.cons.injEq, List.cons.injEq] at accounts
    rw [List.foldlM_cons, bind_eq_ok_iff] at paid
    obtain ⟨_, funding, -⟩ := paid
    rw [← accounts.2.1]
    exact (Deployment.runCall_transferCall funding).1

end

namespace Sample

/-- What the sample batch hashes. -/
def hashedInputs : List (List U8) :=
  [escrowInput batchId, memberInput batchId 0, memberInput batchId 1]

/-- What it derives addresses from. -/
def derivedInputs : List (AccountId × PdaSeed) :=
  [(deployment.me, holdingSeed deployment.toPlatform batchId),
    (deployment.me, scheduleSeed deployment.toPlatform
      (batchScheduleId deployment.toPlatform batchId 0)),
    (deployment.me, scheduleSeed deployment.toPlatform
      (batchScheduleId deployment.toPlatform batchId 1))]

theorem noCollision : NoCollision deployment.toPlatform {x | x ∈ hashedInputs}
    {a | a ∈ derivedInputs} where
  digests := by
    have pairs : ∀ x ∈ hashedInputs, ∀ y ∈ hashedInputs,
        deployment.sha256 x = deployment.sha256 y → x = y := by decide +kernel
    exact fun x hx y hy same => pairs x hx y hy same
  addresses := by
    have pairs : ∀ a ∈ derivedInputs, ∀ b ∈ derivedInputs,
        deployment.forPublicPda a.1 a.2 = deployment.forPublicPda b.1 b.2 → a = b := by
      decide +kernel
    exact fun a ha b hb same => pairs a ha b hb same

theorem batchInputs : BatchInputs deployment.toPlatform {x | x ∈ hashedInputs}
    {a | a ∈ derivedInputs} deployment.me batchId 2 := by
  have below (i : U32) (hi : i < 2) : i = 0 ∨ i = 1 := by
    rw [BitVec.lt_def] at hi
    change i.toNat < 2 at hi
    rcases (by omega : i.toNat = 0 ∨ i.toNat = 1) with zero | one
    · exact .inl (word_ext zero)
    · exact .inr (word_ext one)
  refine ⟨List.mem_cons_self, fun i hi => ?_, List.mem_cons_self, fun i hi => ?_⟩
  · rcases below i hi with rfl | rfl
    · exact List.mem_cons_of_mem _ List.mem_cons_self
    · exact List.mem_cons_of_mem _ (List.mem_cons_of_mem _ List.mem_cons_self)
  · rcases below i hi with rfl | rfl
    · exact List.mem_cons_of_mem _ List.mem_cons_self
    · exact List.mem_cons_of_mem _ (List.mem_cons_of_mem _ List.mem_cons_self)

end Sample

end Vesting

end Antumbra
