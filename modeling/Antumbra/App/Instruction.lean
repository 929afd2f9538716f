/-
# Instructions on the wire

The program's instruction travels as borsh: the number of its variant, then its fields.
The app decodes what it needs of one by hand. It reads back every instruction as it was
written, a batch only up to one more beneficiary than it lists.
-/

import Antumbra.App.Accrual
import Antumbra.App.Listing

namespace Antumbra

open Antumbra.Math

namespace Vesting

/-! ### Borsh -/

/-- A flag is a byte. -/
def flag (b : Bool) : U8 := if b then 1 else 0

def Asset.encode : Asset → List U8
  | .native => Codec.u8.encode 0
  | .token definitionId => Codec.u8.encode 1 ++ definitionId.value.toList

def Terms.encode (t : Terms) : List U8 :=
  Codec.u8.encode t.kind ++ (Codec.u64.encode t.start ++ (Codec.u64.encode t.cliff ++
    (Codec.u64.encode t.end_ ++ (Codec.u128.encode t.total ++ (Codec.u32.encode t.tranches ++
      (Codec.u8.encode (flag t.cancelable) ++ (Codec.u8.encode (flag t.transferable) ++
        (t.cancelAuthority.value.toList ++ (t.milestoneAuthority.value.toList ++
          t.refundTo.value.toList)))))))))

/-- An optional id: a byte that says whether there is one, and then the id. -/
def encodeOptionId : Option (Bytes 32) → List U8
  | none => Codec.u8.encode 0
  | some id => Codec.u8.encode 1 ++ id.toList

def Instruction.encode : Instruction → List U8
  | .createSchedule scheduleId beneficiary asset terms =>
    Codec.u8.encode 0 ++ (scheduleId.toList ++ (beneficiary.value.toList ++ (asset.encode ++
      terms.encode)))
  | .createScheduleBatch batchId beneficiaries asset terms =>
    Codec.u8.encode 1 ++ (batchId.toList ++
      (Codec.u32.encode (BitVec.ofNat 32 beneficiaries.length) ++
        ((beneficiaries.flatMap fun who => who.value.toList) ++ (asset.encode ++ terms.encode))))
  | .claim scheduleId batchId asset amount at_ =>
    Codec.u8.encode 2 ++ (scheduleId.toList ++ (encodeOptionId batchId ++ (asset.encode ++
      (Codec.u128.encode amount ++ Codec.u64.encode at_))))
  | .cancel scheduleId batchId asset at_ refund =>
    Codec.u8.encode 3 ++ (scheduleId.toList ++ (encodeOptionId batchId ++ (asset.encode ++
      (Codec.u64.encode at_ ++ Codec.u128.encode refund))))
  | .makeNonCancelable scheduleId => Codec.u8.encode 4 ++ scheduleId.toList
  | .transferBeneficiary scheduleId newBeneficiary =>
    Codec.u8.encode 5 ++ (scheduleId.toList ++ newBeneficiary.value.toList)
  | .signalMilestone scheduleId index =>
    Codec.u8.encode 6 ++ (scheduleId.toList ++ Codec.u32.encode index)

/-- The borsh encoding: a list of `2 ^ 32` or more has none. -/
def Instruction.borsh : Instruction → Option (List U8)
  | .createScheduleBatch batchId beneficiaries asset terms =>
    if beneficiaries.length < 2 ^ 32 then
      some (Instruction.encode (.createScheduleBatch batchId beneficiaries asset terms))
    else
      none
  | ix => some ix.encode

theorem Instruction.eq_encode_of_borsh {ix : Instruction} {bytes : List U8}
    (encoded : ix.borsh = some bytes) : bytes = ix.encode := by
  cases ix with
  | createScheduleBatch batchId beneficiaries asset terms =>
    rw [borsh, Option.ite_none_right_eq_some] at encoded
    exact (Option.some.inj encoded.2).symm
  | _ => exact (Option.some.inj encoded).symm

end Vesting

namespace App

open Vesting (Asset Terms Instruction)

/-! ### The app's decoder -/

/-- A schedule of which nothing is known. -/
def Schedule.blank : Schedule where
  kind := 0
  start := 0
  cliff := 0
  end_ := 0
  total := 0
  claimed := 0
  lastSeen := 0
  beneficiary := []
  escrow := []
  creator := []
  cancelable := 0
  transferable := 0
  cancelledAt := 0
  signalled := 0
  tranches := 0
  asset := 0
  tokenDefinition := []
  refundTo := []
  cancelAuthority := []
  milestoneAuthority := []

/-- What the app takes from an instruction. -/
structure Ix where
  tag : U8
  sid : List U8 := []
  batch : List U8 := []
  beneficiary : List U8 := []
  newBeneficiary : List U8 := []
  beneficiaries : List (List U8) := []
  /-- The terms and the asset, in the fields a schedule has for them. -/
  terms : Schedule := Schedule.blank
  amount : U128 := 0
  refund : U128 := 0
  at_ : U64 := 0
  index : U32 := 0
  ok : Bool := false

def readAsset (s : Schedule) : Reading Schedule := do
  let asset ← Reader.u8
  if asset = 1 then do
    let tokenDefinition ← Reader.bytes 32
    return { s with asset, tokenDefinition }
  else
    return { s with asset, tokenDefinition := List.replicate 32 0 }

def readTerms (s : Schedule) : Reading Schedule := do
  let kind ← Reader.u8
  let start ← Reader.u64
  let cliff ← Reader.u64
  let end_ ← Reader.u64
  let total ← Reader.u128v
  let tranches ← Reader.u32
  let cancelable ← Reader.u8
  let transferable ← Reader.u8
  let cancelAuthority ← Reader.bytes 32
  let milestoneAuthority ← Reader.bytes 32
  let refundTo ← Reader.bytes 32
  return {
    s with
    kind, start, cliff, end_, total, tranches, cancelable, transferable, cancelAuthority
    milestoneAuthority, refundTo }

/-- At most so many beneficiaries, as long as they fit. -/
def readBeneficiaries : ℕ → Reading (List (List U8))
  | 0 => return []
  | n + 1 => do
    let r ← get
    if r.ok then do
      let who ← Reader.bytes 32
      let rest ← readBeneficiaries n
      return who :: rest
    else
      return []

/-- An id behind a byte that is 1. -/
def readOptionId : Reading (List U8) := do
  let tag ← Reader.u8
  if tag = 1 then Reader.bytes 32 else return []

def readIx : Reading Ix := do
  let tag ← Reader.u8
  match tag.toNat with
  | 0 => do
    let sid ← Reader.bytes 32
    let beneficiary ← Reader.bytes 32
    let terms ← readAsset Schedule.blank
    let terms ← readTerms terms
    return { tag, sid, beneficiary, terms }
  | 1 => do
    let batch ← Reader.bytes 32
    let n ← Reader.u32
    let beneficiaries ← readBeneficiaries (min n.toNat (kBatchMax + 1))
    let terms ← readAsset Schedule.blank
    let terms ← readTerms terms
    return { tag, batch, beneficiaries, terms }
  | 2 => do
    let sid ← Reader.bytes 32
    let batch ← readOptionId
    let terms ← readAsset Schedule.blank
    let amount ← Reader.u128v
    let at_ ← Reader.u64
    return { tag, sid, batch, terms, amount, at_ }
  | 3 => do
    let sid ← Reader.bytes 32
    let batch ← readOptionId
    let terms ← readAsset Schedule.blank
    let at_ ← Reader.u64
    let refund ← Reader.u128v
    return { tag, sid, batch, terms, at_, refund }
  | 4 => do
    let sid ← Reader.bytes 32
    return { tag, sid }
  | 5 => do
    let sid ← Reader.bytes 32
    let newBeneficiary ← Reader.bytes 32
    return { tag, sid, newBeneficiary }
  | 6 => do
    let sid ← Reader.bytes 32
    let index ← Reader.u32
    return { tag, sid, index }
  | _ => Reading.fail { tag }

def decodeIx (d : List U8) : Ix :=
  let (x, r) := readIx { bytes := d, pos := 0, ok := true }
  { x with ok := r.ok }

/-! ### What it takes -/

/-- An asset in a schedule's fields. -/
def withAsset (s : Schedule) (asset : Asset) : Schedule :=
  { s with asset := asset.code.1, tokenDefinition := asset.code.2.toList }

/-- Terms in a schedule's fields. -/
def withTerms (s : Schedule) (t : Terms) : Schedule :=
  { s with
    kind := t.kind
    start := t.start
    cliff := t.cliff
    end_ := t.end_
    total := t.total
    tranches := t.tranches
    cancelable := Vesting.flag t.cancelable
    transferable := Vesting.flag t.transferable
    cancelAuthority := t.cancelAuthority.value.toList
    milestoneAuthority := t.milestoneAuthority.value.toList
    refundTo := t.refundTo.value.toList }

/-- An id, or no bytes. -/
def optionBytes (id : Option (Bytes 32)) : List U8 :=
  match id with
  | some id => id.toList
  | none => []

/-- An instruction as the app holds it. -/
def ofInstruction : Instruction → Ix
  | .createSchedule scheduleId beneficiary asset terms =>
    { tag := 0
      sid := scheduleId.toList
      beneficiary := beneficiary.value.toList
      terms := withTerms (withAsset Schedule.blank asset) terms
      ok := true }
  | .createScheduleBatch batchId beneficiaries asset terms =>
    { tag := 1
      batch := batchId.toList
      beneficiaries := beneficiaries.map fun who => who.value.toList
      terms := withTerms (withAsset Schedule.blank asset) terms
      ok := true }
  | .claim scheduleId batchId asset amount at_ =>
    { tag := 2
      sid := scheduleId.toList
      batch := optionBytes batchId
      terms := withAsset Schedule.blank asset
      amount
      at_
      ok := true }
  | .cancel scheduleId batchId asset at_ refund =>
    { tag := 3
      sid := scheduleId.toList
      batch := optionBytes batchId
      terms := withAsset Schedule.blank asset
      at_
      refund
      ok := true }
  | .makeNonCancelable scheduleId => { tag := 4, sid := scheduleId.toList, ok := true }
  | .transferBeneficiary scheduleId newBeneficiary =>
    { tag := 5
      sid := scheduleId.toList
      newBeneficiary := newBeneficiary.value.toList
      ok := true }
  | .signalMilestone scheduleId index =>
    { tag := 6, sid := scheduleId.toList, index, ok := true }

/-! ### Every instruction reads back -/

open Antumbra.Math.Reading (Reads Takes)

theorem reads_readAsset (s : Schedule) (asset : Asset) :
    Reads (readAsset s) asset.encode (withAsset s asset) := by
  unfold readAsset
  cases asset with
  | native => exact (Reader.reads_u8 0).bind (Reads.pure _)
  | token definitionId => exact (Reader.reads_u8 1).bind ((Reader.reads_bytes _).last _)

theorem reads_readTerms (s : Schedule) (t : Terms) :
    Reads (readTerms s) t.encode (withTerms s t) := by
  unfold readTerms
  exact (Reader.reads_u8 t.kind).bind <| (Reader.reads_u64 t.start).bind <|
    (Reader.reads_u64 t.cliff).bind <| (Reader.reads_u64 t.end_).bind <|
    (Reader.reads_u128v t.total).bind <| (Reader.reads_u32 t.tranches).bind <|
    (Reader.reads_u8 (Vesting.flag t.cancelable)).bind <|
    (Reader.reads_u8 (Vesting.flag t.transferable)).bind <|
    (Reader.reads_bytes t.cancelAuthority.value).bind <|
    (Reader.reads_bytes t.milestoneAuthority.value).bind <|
    (Reader.reads_bytes t.refundTo.value).last _

theorem reads_readOptionId (id : Option (Bytes 32)) :
    Reads readOptionId (Vesting.encodeOptionId id) (optionBytes id) := by
  unfold readOptionId
  cases id with
  | none => exact (Reader.reads_u8 0).bind (Reads.pure _)
  | some id => exact (Reader.reads_u8 1).bind (Reader.reads_bytes id)

/-- The loop takes as many beneficiaries as it is asked for. -/
theorem takes_readBeneficiaries (beneficiaries : List AccountId) :
    Takes (readBeneficiaries beneficiaries.length)
      (beneficiaries.flatMap fun who => who.value.toList)
      (beneficiaries.map fun who => who.value.toList) := by
  induction beneficiaries with
  | nil => exact (Reads.pure _).takes
  | cons who rest ih =>
    have one : Takes (Reader.bytes 32 >>= fun a =>
        readBeneficiaries rest.length >>= fun as => Pure.pure (a :: as))
        (who.value.toList ++ ((rest.flatMap fun who => who.value.toList) ++ [])) _ :=
      (Reader.reads_bytes who.value).takes.bind (ih.bind (Reads.pure _).takes)
    rw [List.append_nil] at one
    intro c after ok here inside
    rw [List.flatMap_cons] at here ⊢
    -- the flag is still set, so the loop goes on
    refine Eq.trans ?_ (one c after ok here inside)
    change (if c.ok = true then (_ : Reading (List (List U8))) else _) c = _
    rw [if_pos ok]

/-- A batch whose beneficiaries the loop takes to the end. -/
def FewBeneficiaries : Instruction → Prop
  | .createScheduleBatch _ beneficiaries _ _ => beneficiaries.length ≤ kBatchMax + 1
  | _ => True

theorem takes_readIx (ix : Instruction) (few : FewBeneficiaries ix) :
    Takes readIx ix.encode { ofInstruction ix with ok := false } := by
  unfold readIx
  cases ix with
  | createSchedule scheduleId beneficiary asset terms =>
    refine (Reader.reads_u8 0).takes.bind (Reads.takes ?_)
    exact (Reader.reads_bytes scheduleId).bind <| (Reader.reads_bytes beneficiary.value).bind <|
      (reads_readAsset _ asset).bind <| (reads_readTerms _ terms).last _
  | createScheduleBatch batchId beneficiaries asset terms =>
    refine (Reader.reads_u8 1).takes.bind ?_
    -- the loop takes at most 501, however many the count announces
    have count : min (BitVec.ofNat 32 beneficiaries.length).toNat (kBatchMax + 1) =
        beneficiaries.length := by
      change beneficiaries.length ≤ 501 at few
      rw [BitVec.toNat_ofNat, show kBatchMax + 1 = 501 from rfl]
      omega
    refine (Reader.reads_bytes batchId).takes.bind <| (Reader.reads_u32 _).takes.bind ?_
    rw [count]
    exact (takes_readBeneficiaries beneficiaries).bind <| Reads.takes <|
      (reads_readAsset _ asset).bind <| (reads_readTerms _ terms).last _
  | claim scheduleId batchId asset amount at_ =>
    refine (Reader.reads_u8 2).takes.bind (Reads.takes ?_)
    exact (Reader.reads_bytes scheduleId).bind <| (reads_readOptionId batchId).bind <|
      (reads_readAsset _ asset).bind <| (Reader.reads_u128v amount).bind <|
      (Reader.reads_u64 at_).last _
  | cancel scheduleId batchId asset at_ refund =>
    refine (Reader.reads_u8 3).takes.bind (Reads.takes ?_)
    exact (Reader.reads_bytes scheduleId).bind <| (reads_readOptionId batchId).bind <|
      (reads_readAsset _ asset).bind <| (Reader.reads_u64 at_).bind <|
      (Reader.reads_u128v refund).last _
  | makeNonCancelable scheduleId =>
    exact (Reader.reads_u8 4).takes.bind ((Reader.reads_bytes scheduleId).last _).takes
  | transferBeneficiary scheduleId newBeneficiary =>
    exact (Reader.reads_u8 5).takes.bind <| Reads.takes <|
      (Reader.reads_bytes scheduleId).bind <| (Reader.reads_bytes newBeneficiary.value).last _
  | signalMilestone scheduleId index =>
    exact (Reader.reads_u8 6).takes.bind <| Reads.takes <|
      (Reader.reads_bytes scheduleId).bind <| (Reader.reads_u32 index).last _

/-- The app decodes an instruction's bytes to the instruction. -/
theorem decodeIx_encode (ix : Instruction) (few : FewBeneficiaries ix) :
    decodeIx ix.encode = ofInstruction ix := by
  have read := takes_readIx ix few { bytes := ix.encode, pos := 0, ok := true } [] rfl
    (List.append_nil _).symm (Nat.zero_le _)
  rw [decodeIx, read]
  cases ix <;> rfl

/-! ### Batches the loop does not take to the end -/

open Antumbra.Math.Reading (Enough)

theorem Reader.enough_u8 : Enough Reader.u8 1 fun _ => True := Enough.field

theorem Reader.enough_u32 : Enough Reader.u32 4 fun _ => True := Enough.field

theorem Reader.enough_u64 : Enough Reader.u64 8 fun _ => True := Enough.field

theorem Reader.enough_u128v : Enough Reader.u128v 16 fun _ => True := Enough.field

theorem Reader.enough_bytes (n : ℕ) : Enough (Reader.bytes n) n fun _ => True := Enough.field

/-- An asset is never longer than a token. -/
theorem enough_readAsset (s : Schedule) : Enough (readAsset s) 33 fun _ => True := by
  unfold readAsset
  change Enough _ (1 + 32) _
  refine Reader.enough_u8.bind fun asset _ => ?_
  split
  · exact (Reader.enough_bytes 32).bind fun _ _ => Enough.pure trivial
  · exact (Enough.pure trivial).mono (by decide)

theorem enough_readTerms (s : Schedule) : Enough (readTerms s) 143 fun _ => True := by
  unfold readTerms
  refine Enough.mono ?_
    (show 1 + (8 + (8 + (8 + (16 + (4 + (1 + (1 + (32 + (32 + (32 + 0)))))))))) ≤ 143 by decide)
  exact Reader.enough_u8.bind fun _ _ => Reader.enough_u64.bind fun _ _ =>
    Reader.enough_u64.bind fun _ _ => Reader.enough_u64.bind fun _ _ =>
    Reader.enough_u128v.bind fun _ _ => Reader.enough_u32.bind fun _ _ =>
    Reader.enough_u8.bind fun _ _ => Reader.enough_u8.bind fun _ _ =>
    (Reader.enough_bytes 32).bind fun _ _ => (Reader.enough_bytes 32).bind fun _ _ =>
    (Reader.enough_bytes 32).bind fun _ _ => Enough.pure trivial

/-- What follows the beneficiaries of a batch. -/
def readBatchRest (tag : U8) (batch : List U8) (beneficiaries : List (List U8)) : Reading Ix := do
  let terms ← readAsset Schedule.blank
  let terms ← readTerms terms
  return { tag, batch, beneficiaries, terms }

theorem enough_readBatchRest (tag : U8) (batch : List U8) (beneficiaries : List (List U8)) :
    Enough (readBatchRest tag batch beneficiaries) 176 fun x =>
      x.beneficiaries = beneficiaries := by
  unfold readBatchRest
  change Enough _ (33 + (143 + 0)) _
  exact (enough_readAsset _).bind fun _ _ => (enough_readTerms _).bind fun _ _ => Enough.pure rfl

theorem length_encode_terms (t : Terms) : t.encode.length = 143 := by
  simp only [Terms.encode, List.length_append, Codec.length_encode, List.Vector.toList_length]
  rfl

theorem length_encode_asset (asset : Asset) : 1 ≤ asset.encode.length := by
  cases asset with
  | native => exact le_rfl
  | token definitionId =>
    rw [Asset.encode, List.length_append, Codec.length_encode]
    exact Nat.le_add_right 1 _

theorem length_flatMap_accounts (accounts : List AccountId) :
    (accounts.flatMap fun who => who.value.toList).length = 32 * accounts.length := by
  induction accounts with
  | nil => rfl
  | cons who rest ih =>
    rw [List.flatMap_cons, List.length_append, who.value.toList_length, ih, List.length_cons]
    omega

/-- Where the app stands in a batch that is too long when its loop ends: it has taken the first
501 beneficiaries, and reads on from the next one. -/
theorem readIx_of_many {batchId : Bytes 32} {beneficiaries : List AccountId} {asset : Asset}
    {terms : Terms} {bytes : List U8}
    (encoded : bytes = Instruction.encode (.createScheduleBatch batchId beneficiaries asset terms))
    (many : kBatchMax + 1 < beneficiaries.length) (fits : beneficiaries.length < 2 ^ 32) :
    ∃ pos, pos + 176 ≤ bytes.length ∧ readIx ⟨bytes, 0, true⟩ =
      readBatchRest 1 batchId.toList
        ((beneficiaries.take (kBatchMax + 1)).map fun who => who.value.toList)
        ⟨bytes, pos, true⟩ := by
  have count : min (BitVec.ofNat 32 beneficiaries.length).toNat (kBatchMax + 1) =
      (beneficiaries.take (kBatchMax + 1)).length := by
    rw [BitVec.toNat_ofNat, Nat.mod_eq_of_lt fits, List.length_take, Nat.min_comm]
  -- the beneficiaries the loop takes, the others, and what follows them all
  have parts : (beneficiaries.flatMap fun who => who.value.toList) =
      ((beneficiaries.take (kBatchMax + 1)).flatMap fun who => who.value.toList) ++
        (beneficiaries.drop (kBatchMax + 1)).flatMap fun who => who.value.toList := by
    rw [← List.flatMap_append, List.take_append_drop]
  have tail : 176 ≤ (((beneficiaries.drop (kBatchMax + 1)).flatMap fun who => who.value.toList) ++
      (asset.encode ++ terms.encode)).length := by
    rw [List.length_append, List.length_append, length_flatMap_accounts, List.length_drop,
      length_encode_terms]
    have := length_encode_asset asset
    omega
  rw [Instruction.encode, parts, List.append_assoc] at encoded
  have here₀ : bytes.drop 0 = _ := encoded
  obtain ⟨here₁, inside₁⟩ := Reading.drop_next here₀ (Nat.zero_le _)
  obtain ⟨here₂, inside₂⟩ := Reading.drop_next here₁ inside₁
  obtain ⟨here₃, inside₃⟩ := Reading.drop_next here₂ inside₂
  obtain ⟨here₄, inside₄⟩ := Reading.drop_next here₃ inside₃
  rw [← here₄, List.length_drop] at tail
  refine ⟨_, Nat.add_le_of_le_sub' inside₄ tail, ?_⟩
  unfold readIx
  refine ((Reader.reads_u8 1).takes.then rfl here₀ (Nat.zero_le _) _).trans ?_
  refine ((Reader.reads_bytes batchId).takes.then rfl here₁ inside₁ _).trans ?_
  refine ((Reader.reads_u32 _).takes.then rfl here₂ inside₂ _).trans ?_
  rw [count]
  exact (takes_readBeneficiaries _).then rfl here₃ inside₃ _

theorem decodeIx_of_read {bytes : List U8} {answer : Ix × Cursor}
    (read : readIx ⟨bytes, 0, true⟩ = answer) :
    decodeIx bytes = { answer.1 with ok := answer.2.ok } := by
  rw [decodeIx, read]

/-- Of a batch that is too long the app takes the first 501 beneficiaries, reads the asset and
the terms where the others stand, and reports success. -/
theorem decodeIx_of_many {batchId : Bytes 32} {beneficiaries : List AccountId} {asset : Asset}
    {terms : Terms} (many : kBatchMax + 1 < beneficiaries.length)
    (fits : beneficiaries.length < 2 ^ 32) :
    (decodeIx (Instruction.encode (.createScheduleBatch batchId beneficiaries asset terms))).ok =
        true ∧
      (decodeIx (Instruction.encode
        (.createScheduleBatch batchId beneficiaries asset terms))).beneficiaries =
          (beneficiaries.take (kBatchMax + 1)).map fun who => who.value.toList := by
  generalize encoded : Instruction.encode
    (.createScheduleBatch batchId beneficiaries asset terms) = bytes
  obtain ⟨pos, room, read⟩ := readIx_of_many encoded.symm many fits
  generalize ((beneficiaries.take (kBatchMax + 1)).map fun who => who.value.toList) = taken at *
  have rest := enough_readBatchRest 1 batchId.toList taken ⟨bytes, pos, true⟩ rfl room
  generalize readBatchRest 1 batchId.toList taken ⟨bytes, pos, true⟩ = answer at read rest
  rw [decodeIx_of_read read]
  exact ⟨rest.2.1, rest.1⟩

/-- A batch that is too long is misread. -/
theorem misread_of_many {batchId : Bytes 32} {beneficiaries : List AccountId} {asset : Asset}
    {terms : Terms} (many : kBatchMax + 1 < beneficiaries.length)
    (fits : beneficiaries.length < 2 ^ 32) :
    ∃ bytes, Instruction.borsh (.createScheduleBatch batchId beneficiaries asset terms) =
        some bytes ∧
      (decodeIx bytes).ok = true ∧ (decodeIx bytes).beneficiaries.length = kBatchMax + 1 ∧
      decodeIx bytes ≠ ofInstruction (.createScheduleBatch batchId beneficiaries asset terms) := by
  obtain ⟨ok, taken⟩ := @decodeIx_of_many batchId beneficiaries asset terms many fits
  have short := congrArg List.length taken
  rw [List.length_map, List.length_take, Nat.min_eq_left many.le] at short
  refine ⟨_, if_pos fits, ok, short, fun same => ?_⟩
  -- the others are missing from the list
  rw [same, ofInstruction, List.length_map] at short
  exact absurd short many.ne'

/-- Of every instruction that has an encoding: the app refuses the encoding or reads every field
back as it was written, if and only if the instruction is no batch of more than 501. -/
theorem decodeIx_sound_iff {ix : Instruction} {bytes : List U8} (encoded : ix.borsh = some bytes) :
    (decodeIx bytes).ok = false ∨ decodeIx bytes = ofInstruction ix ↔ FewBeneficiaries ix := by
  constructor
  · intro sound
    cases ix with
    | createScheduleBatch batchId beneficiaries asset terms =>
      by_contra many
      have fits := (Option.ite_none_right_eq_some.mp encoded).1
      obtain ⟨bytes', encoded', ok, -, differs⟩ :=
        @misread_of_many batchId beneficiaries asset terms (not_le.mp many) fits
      obtain rfl := Option.some.inj (encoded.symm.trans encoded')
      rcases sound with refused | same
      · rw [ok] at refused
        cases refused
      · exact differs same
    | _ => trivial
  · intro few
    obtain rfl := Instruction.eq_encode_of_borsh encoded
    exact .inr (decodeIx_encode ix few)

/-- A batch of two is read back. -/
theorem decodeIx_sound_batch :
    (decodeIx (Instruction.encode (.createScheduleBatch (List.Vector.replicate 32 7)
        [Vesting.Sample.account 2, Vesting.Sample.account 3] .native Vesting.Sample.terms))).ok =
          false ∨
      decodeIx (Instruction.encode (.createScheduleBatch (List.Vector.replicate 32 7)
        [Vesting.Sample.account 2, Vesting.Sample.account 3] .native Vesting.Sample.terms)) =
        ofInstruction (.createScheduleBatch (List.Vector.replicate 32 7)
          [Vesting.Sample.account 2, Vesting.Sample.account 3] .native Vesting.Sample.terms) :=
  (decodeIx_sound_iff rfl).mpr (by decide : 2 ≤ kBatchMax + 1)

/-- A batch of 502: the last beneficiary is lost, what is read for the asset and the terms
begins in its address, and the app reports success. -/
theorem long_batch_misread :
    ∃ bytes, Instruction.borsh (.createScheduleBatch (List.Vector.replicate 32 7)
        (List.replicate 502 AccountId.default) .native Vesting.Sample.terms) = some bytes ∧
      (decodeIx bytes).ok = true ∧ (decodeIx bytes).beneficiaries.length = 501 ∧
      decodeIx bytes ≠ ofInstruction (.createScheduleBatch (List.Vector.replicate 32 7)
        (List.replicate 502 AccountId.default) .native Vesting.Sample.terms) := by
  apply misread_of_many
  · rw [List.length_replicate]
    decide
  · rw [List.length_replicate]
    decide

end App

end Antumbra
