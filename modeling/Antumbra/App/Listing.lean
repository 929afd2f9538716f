/-
# Listing a batch

The app reads the schedules of a batch in blocks of 25, up to 500 of them, and stops at
the first address where it can read no schedule. Both this list and the command line's
show the batch, and nothing but the batch, exactly as long as the first id after it was
not used by anyone.
-/

import Antumbra.App.Accrual
import Antumbra.App.Texts
import Antumbra.Cli.Batch

namespace Antumbra

open Antumbra.Math

namespace App

open Vesting (Platform VestingSchedule Deployment World Batch batchScheduleId scheduleAccount
  holdingAccount store)

def kBatchMax : ℕ := 500

variable (p : Platform) (program : AccountId) (shard : AccountId → List U8)

/-- The schedules at these addresses, an empty object where there is none. -/
def readSchedules (accounts : List AccountId) (now : U64) : List Fields :=
  accounts.map fun account =>
    match decodeSchedule (shard account) with
    | some s => Fields.set (scheduleJson s now) "account" (.str (base58 account.value.toList))
    | none => []

/-- A listed schedule with its id, its batch and its number. -/
def numbered (batchId : Bytes 32) (i : ℕ) (o : Fields) : Fields :=
  (((o.set "scheduleId"
      (.str (idText (batchScheduleId p batchId (BitVec.ofNat 32 i)).toList))).set
    "batchId" (.str (idText batchId.toList))).set
    "index" (.int i)).set
    "label" (.str ("No. " ++ toString (i + 1) ++ " of %2"))

/-- The schedules of a block up to the first empty one, and whether there was one. -/
def takeBlock (batchId : Bytes 32) : (i : ℕ) → List Fields → List Fields × Bool
  | _, [] => ([], false)
  | i, o :: rs =>
    if o = [] then
      ([], true)
    else
      let (items, ended) := takeBlock batchId (i + 1) rs
      (numbered p batchId i o :: items, ended)

/-- The blocks from index `start` on; each reads the clock anew. -/
def listBlocks (batchId : Bytes 32) (clock : ℕ → U64) (start : ℕ) (items : List Fields) :
    List Fields :=
  let accounts := (List.range (min (start + 25) kBatchMax - start)).map fun i =>
    scheduleAccount p program (batchScheduleId p batchId (BitVec.ofNat 32 (start + i)))
  let (block, ended) := takeBlock p batchId start (readSchedules shard accounts (clock start))
  let items := items ++ block
  if ended = false ∧ start + 25 < kBatchMax then
    listBlocks batchId clock (start + 25) items
  else
    items
termination_by kBatchMax - start

/-- A listed schedule with its number out of `n`. -/
def numberedOf (n : ℕ) (o : Fields) : Fields :=
  let index := match o.lookup "index" with
    | some (.int i) => i
    | _ => 0
  o.set "label" (.str ("No. " ++ toString (index + 1) ++ " of " ++ toString n))

/-- What the view is sent for a batch. -/
def listBatch (batchId : Bytes 32) (clock : ℕ → U64) : Fields :=
  let items := listBlocks p program shard batchId clock 0 []
  let n := items.length
  let labelled := items.map (numberedOf n)
  let total := items.foldl (fun total o => total + parseDec (o.str "total")) 0
  let claimable := items.foldl (fun claimable o => claimable + parseDec (o.str "claimable")) 0
  let cancelled := items.countP fun o =>
    match o.lookup "cancelledAt" with
    | some (.double at_) => 0 < at_
    | _ => false
  let unit := match labelled with
    | o :: _ => o.str "unit"
    | [] => "LGO"
  [("kind", .str "list"), ("title", .str ("Batch " ++ idText batchId.toList)),
    ("subtitle", .str (toString n ++ " schedules over one escrow · " ++ fmt total ++ " " ++ unit ++
      " in all · " ++ fmt claimable ++ " claimable now")),
    ("batchId", .str (idText batchId.toList)), ("count", .int n), ("total", .str (dec total)),
    ("claimable", .str (dec claimable)), ("cancelled", .int cancelled),
    ("items", .arr (labelled.map .obj))]

variable {p program shard} {batchId : Bytes 32} {clock : ℕ → U64}

/-! ### The blocks are one scan -/

/-- What is read at an index, on the clock of its block. -/
def rawAt (p : Platform) (program : AccountId) (shard : AccountId → List U8) (batchId : Bytes 32)
    (clock : ℕ → U64) (i : ℕ) : Fields :=
  let account := scheduleAccount p program (batchScheduleId p batchId (BitVec.ofNat 32 i))
  match decodeSchedule (shard account) with
  | some s =>
    Fields.set (scheduleJson s (clock (25 * (i / 25)))) "account"
      (.str (base58 account.value.toList))
  | none => []

/-- The item listed for an index, if there is one. -/
def itemAt (p : Platform) (batchId : Bytes 32) (raw : ℕ → Fields) (i : ℕ) : Option Fields :=
  if raw i = [] then none else some (numbered p batchId i (raw i))

/-- A block is scanned up to its first empty object. -/
theorem takeBlock_eq (p : Platform) (batchId : Bytes 32) (raw : ℕ → Fields) (len i : ℕ) :
    takeBlock p batchId i ((List.range len).map fun k => raw (i + k)) =
      (scan (itemAt p batchId raw) len i,
        decide ((scan (itemAt p batchId raw) len i).length < len)) := by
  induction len generalizing i with
  | zero => rfl
  | succ len ih =>
    have rest : ((List.range (len + 1)).map fun k => raw (i + k)) =
        raw i :: (List.range len).map fun k => raw (i + 1 + k) := by
      rw [List.range_succ_eq_map, List.map_cons, List.map_map, Nat.add_zero]
      refine congrArg _ (List.map_congr_left fun k _ => ?_)
      exact congrArg raw (by simp only [Nat.succ_eq_add_one]; omega)
    rw [rest, takeBlock]
    by_cases empty : raw i = []
    · rw [if_pos empty, scan_of_none _ (if_pos empty)]
      rfl
    · rw [if_neg empty, ih, scan_of_some (if_neg empty)]
      simp

/-- The blocks from a block's start on list what one scan finds. -/
theorem listBlocks_eq {start : ℕ} (aligned : 25 ∣ start) (within : start < kBatchMax)
    (items : List Fields) :
    listBlocks p program shard batchId clock start items =
      items ++ scan (itemAt p batchId (rawAt p program shard batchId clock)) (kBatchMax - start)
        start := by
  generalize left : kBatchMax - start = m
  -- induction on how many indices are left below the limit
  induction m using Nat.strong_induction_on generalizing start items with
  | h m ih =>
    obtain ⟨blocks, rfl⟩ := aligned
    have full : min (25 * blocks + 25) kBatchMax - 25 * blocks = 25 := by
      simp only [kBatchMax] at within ⊢
      omega
    have rows : readSchedules shard
        ((List.range 25).map fun i => scheduleAccount p program
          (batchScheduleId p batchId (BitVec.ofNat 32 (25 * blocks + i))))
        (clock (25 * blocks)) =
        (List.range 25).map fun k => rawAt p program shard batchId clock (25 * blocks + k) := by
      rw [readSchedules, List.map_map]
      refine List.map_congr_left fun k hk => ?_
      have same : (25 * blocks + k) / 25 = blocks := by
        have := List.mem_range.mp hk
        omega
      simp only [Function.comp_apply, rawAt, same]
    have blockLe := length_scan_le (itemAt p batchId (rawAt p program shard batchId clock)) 25
      (25 * blocks)
    obtain ⟨later, rfl⟩ : ∃ later, m = 25 + later := ⟨m - 25, by
      simp only [kBatchMax] at within left
      omega⟩
    rw [listBlocks, full, rows, takeBlock_eq, scan_add]
    dsimp only
    by_cases block : (scan (itemAt p batchId (rawAt p program shard batchId clock)) 25
        (25 * blocks)).length = 25
    · rw [if_pos block, block, ← List.append_assoc]
      by_cases more : 25 * blocks + 25 < kBatchMax
      · rw [if_pos ⟨decide_eq_false (Nat.lt_irrefl 25), more⟩]
        exact ih later (by omega) ⟨blocks + 1, by omega⟩ more _ (by omega)
      · -- the last block
        obtain rfl : later = 0 := by omega
        rw [if_neg fun h => more h.2, scan, List.append_nil]
    · have ended : decide ((scan (itemAt p batchId (rawAt p program shard batchId clock)) 25
          (25 * blocks)).length < 25) = true := decide_eq_true (by omega)
      rw [if_neg block, List.append_nil, ended, if_neg fun h => Bool.noConfusion h.1]

/-! ### The list of a batch on the chain -/

variable {d : Deployment} {w : World} {b : Batch}

/-- The object of a listed schedule. -/
structure Lists (d : Deployment) (b : Batch) (i : ℕ) (s : VestingSchedule) (o : Fields) : Prop where
  account : o.lookup "account" = some (.str (base58 (d.slot b.batchId i).value.toList))
  scheduleId : o.lookup "scheduleId" =
    some (.str (idText (batchScheduleId d.toPlatform b.batchId (BitVec.ofNat 32 i)).toList))
  index : o.lookup "index" = some (.int i)
  beneficiary : o.lookup "beneficiary" = some (.str (base58 s.beneficiary.value.toList))
  escrow : o.lookup "escrow" =
    some (.str (base58 (holdingAccount d.toPlatform d.me b.batchId).value.toList))
  total : o.lookup "total" = some (.str (dec b.terms.total))

/-- The list shows the batch: an item for each schedule its creation stored and no others, all
on its escrow, and their total. -/
structure Shows (d : Deployment) (b : Batch) (w : World) (out : Fields) : Prop where
  count : out.lookup "count" = some (.int b.beneficiaries.length)
  items : ∃ items : List Fields, out.lookup "items" = some (.arr (items.map .obj)) ∧
    items.length = b.beneficiaries.length ∧
      ∀ i < b.beneficiaries.length, ∃ o s, items[i]? = some o ∧ b.Member d w.shard i s ∧
        Lists d b i s o
  total : out.lookup "total" =
    some (.str (dec (BitVec.ofNat 128 (b.beneficiaries.length * b.terms.total.toNat))))

/-- What is read at an index where a record is stored. -/
theorem rawAt_slot {i : ℕ} {s : VestingSchedule} (stored : w.shard (d.slot batchId i) = store s)
    (valid : Vesting.Valid s) :
    rawAt d.toPlatform d.me w.shard batchId clock i =
      Fields.set (scheduleJson (ofStored s) (clock (25 * (i / 25)))) "account"
        (.str (base58 (d.slot batchId i).value.toList)) := by
  have decoded := decodeSchedule_store (kind_le_two valid.wellFormed)
  rw [← stored] at decoded
  simp only [rawAt]
  rw [show decodeSchedule (w.shard (scheduleAccount d.toPlatform d.me
    (batchScheduleId d.toPlatform batchId (BitVec.ofNat 32 i)))) = _ from decoded]
  rfl

theorem itemAt_slot {i : ℕ} {s : VestingSchedule} (stored : w.shard (d.slot batchId i) = store s)
    (valid : Vesting.Valid s) :
    itemAt d.toPlatform batchId (rawAt d.toPlatform d.me w.shard batchId clock) i =
      some (numbered d.toPlatform batchId i (rawAt d.toPlatform d.me w.shard batchId clock i)) := by
  rw [itemAt, if_neg]
  rw [rawAt_slot stored valid]
  exact Fields.set_ne_nil _ _ _

theorem itemAt_empty {i : ℕ} (empty : w.shard (d.slot batchId i) = []) :
    itemAt d.toPlatform batchId (rawAt d.toPlatform d.me w.shard batchId clock) i = none := by
  have raw : rawAt d.toPlatform d.me w.shard batchId clock i = [] := by
    simp only [rawAt]
    rw [show w.shard (scheduleAccount d.toPlatform d.me
      (batchScheduleId d.toPlatform batchId (BitVec.ofNat 32 i))) = [] from empty]
    rfl
  rw [itemAt, if_pos raw]

/-- The item of a member, whatever label it gets. -/
theorem lists_numbered {i : ℕ} {s : VestingSchedule} (member : b.Member d w.shard i s)
    (valid : Vesting.Valid s) (clock : ℕ → U64) :
    Lists d b i s (numbered d.toPlatform b.batchId i
      (rawAt d.toPlatform d.me w.shard b.batchId clock i)) := by
  obtain ⟨escrow, total⟩ := member.fixed
  rw [rawAt_slot member.stored valid, numbered]
  -- later settings leave the earlier fields and the schedule's own ones alone
  exact
    { account := by simp [Fields.lookup_set_of_ne]
      scheduleId := by simp [Fields.lookup_set_of_ne]
      index := by simp [Fields.lookup_set_of_ne]
      beneficiary := by simp [Fields.lookup_set_of_ne]; rfl
      escrow := by simp [Fields.lookup_set_of_ne, ← escrow]; rfl
      total := by simp [Fields.lookup_set_of_ne, ← total]; rfl }

/-- A new label changes no other field. -/
theorem Lists.relabelled {i : ℕ} {s : VestingSchedule} {o : Fields} (h : Lists d b i s o)
    (n : ℕ) : Lists d b i s (numberedOf n o) :=
  { account := (Fields.lookup_set_of_ne _ _ (by decide)).trans h.account
    scheduleId := (Fields.lookup_set_of_ne _ _ (by decide)).trans h.scheduleId
    index := (Fields.lookup_set_of_ne _ _ (by decide)).trans h.index
    beneficiary := (Fields.lookup_set_of_ne _ _ (by decide)).trans h.beneficiary
    escrow := (Fields.lookup_set_of_ne _ _ (by decide)).trans h.escrow
    total := (Fields.lookup_set_of_ne _ _ (by decide)).trans h.total }

theorem Lists.str_total {o : Fields} {i : ℕ} {s : VestingSchedule} (h : Lists d b i s o) :
    parseDec (o.str "total") = b.terms.total := by
  rw [Fields.str, h.total]
  exact parseDec_dec b.terms.total

/-- Adding up one amount over a list. -/
theorem foldl_add_eq {α : Type} (amount : α → U128) {total : U128} {xs : List α}
    (each : ∀ x ∈ xs, amount x = total) (start : U128) :
    xs.foldl (fun sum x => sum + amount x) start =
      start + BitVec.ofNat 128 (xs.length * total.toNat) := by
  induction xs generalizing start with
  | nil => simp
  | cons x xs ih =>
    rw [List.foldl_cons, ih (fun y hy => each y (List.mem_cons_of_mem x hy)),
      each x List.mem_cons_self, List.length_cons, Nat.succ_mul, Nat.add_comm _ total.toNat,
      BitVec.ofNat_add, BitVec.ofNat_toNat, BitVec.setWidth_eq, BitVec.add_assoc]

theorem lookup_count : (listBatch p program shard batchId clock).lookup "count" =
    some (.int (listBlocks p program shard batchId clock 0 []).length) := rfl

theorem lookup_items : (listBatch p program shard batchId clock).lookup "items" =
    some (.arr (((listBlocks p program shard batchId clock 0 []).map
      (numberedOf (listBlocks p program shard batchId clock 0 []).length)).map .obj)) := rfl

theorem lookup_total : (listBatch p program shard batchId clock).lookup "total" =
    some (.str (dec ((listBlocks p program shard batchId clock 0 []).foldl
      (fun total o => total + parseDec (o.str "total")) 0))) := rfl

/-- A batch whose slots hold its members is listed exactly when the next slot is empty. -/
theorem shows_iff (kept : Vesting.Kept d w)
    (members : ∀ i < b.beneficiaries.length, ∃ s, b.Member d w.shard i s)
    (few : b.beneficiaries.length < kBatchMax) (clock : ℕ → U64) :
    Shows d b w (listBatch d.toPlatform d.me w.shard b.batchId clock) ↔
      w.shard (d.slot b.batchId b.beneficiaries.length) = [] := by
  have listed : listBlocks d.toPlatform d.me w.shard b.batchId clock 0 [] =
      scan (itemAt d.toPlatform b.batchId (rawAt d.toPlatform d.me w.shard b.batchId clock))
        kBatchMax 0 := listBlocks_eq ⟨0, rfl⟩ (by decide) []
  constructor
  · intro shows
    by_contra used
    -- the scan goes on past the members
    have past : b.beneficiaries.length <
        (scan (itemAt d.toPlatform b.batchId (rawAt d.toPlatform d.me w.shard b.batchId clock))
          kBatchMax 0).length := by
      refine lt_length_scan (fun i hi => ?_) ?_ few
      · obtain ⟨s, hs⟩ := members i hi
        rw [Nat.zero_add, itemAt_slot hs.stored (kept.record hs.stored).1]
        rfl
      · obtain empty | ⟨s, stored, valid, -⟩ :=
          kept.recorded (d.slot b.batchId b.beneficiaries.length)
        · exact absurd empty used
        · rw [Nat.zero_add, itemAt_slot stored valid]
          rfl
    have count := shows.count
    rw [lookup_count, listed, Option.some.injEq, Json.int.injEq] at count
    omega
  · intro empty
    have records : ∀ i < b.beneficiaries.length, ∃ s, b.Member d w.shard i s ∧ Vesting.Valid s := by
      intro i hi
      obtain ⟨s, hs⟩ := members i hi
      exact ⟨s, hs, (kept.record hs.stored).1⟩
    -- the scan finds the members and stops
    have found : scan (itemAt d.toPlatform b.batchId
        (rawAt d.toPlatform d.me w.shard b.batchId clock)) kBatchMax 0 =
        (List.range b.beneficiaries.length).map fun i => numbered d.toPlatform b.batchId i
          (rawAt d.toPlatform d.me w.shard b.batchId clock i) := by
      refine scan_eq (fun i hi => ?_) ?_ (Nat.le_of_lt few)
      · obtain ⟨s, hs, valid⟩ := records i hi
        rw [Nat.zero_add]
        exact itemAt_slot hs.stored valid
      · rw [Nat.zero_add]
        exact itemAt_empty empty
    rw [found] at listed
    have length : (listBlocks d.toPlatform d.me w.shard b.batchId clock 0 []).length =
        b.beneficiaries.length := by
      rw [listed, List.length_map, List.length_range]
    exact
      { count := by rw [lookup_count, length]
        items := by
          refine ⟨_, lookup_items, by rw [List.length_map, length], fun i hi => ?_⟩
          obtain ⟨s, hs, valid⟩ := records i hi
          refine ⟨_, s, ?_, hs, (lists_numbered hs valid clock).relabelled
            (listBlocks d.toPlatform d.me w.shard b.batchId clock 0 []).length⟩
          rw [List.getElem?_map, listed, List.getElem?_map, List.getElem?_range hi]
          rfl
        total := by
          have each : ∀ o ∈ listBlocks d.toPlatform d.me w.shard b.batchId clock 0 [],
              parseDec (o.str "total") = b.terms.total := by
            rw [listed]
            intro o ho
            obtain ⟨i, hi, rfl⟩ := List.mem_map.mp ho
            obtain ⟨s, hs, valid⟩ := records i (List.mem_range.mp hi)
            exact (lists_numbered hs valid clock).str_total
          rw [lookup_total, foldl_add_eq (fun o => parseDec (Fields.str o "total")) each, length]
          simp }

/-! ### A third schedule behind a batch of two -/

open Vesting (Asset Terms Transaction)

namespace Sample

open Vesting.Sample (account bytes32 terms escrow first second)

/-- What follows the sample batch: the address of its third id, and the escrow that belongs to
that id alone. -/
def third : AccountId :=
  ⟨bytes32 0x94447aff03da1cdf14e9b8d176f8227c2bc264fb99bfb62f5bb0336def3eb467⟩

def thirdEscrow : AccountId :=
  ⟨bytes32 0x19cf46b35f49154bb9d5a8a1885dd41182400c2877bfdcc5b1678dcdfb305992⟩

def fourth : AccountId :=
  ⟨bytes32 0x82930c9b24d7ee5b50fc92d18fe825d74a53c5463e5ec540f5f9ac626d05c609⟩

/-- The digests of the sample batch, its two ids and the two after them. -/
def deployment : Deployment where
  sha256 input :=
    if input = Vesting.Sample.batchId.toList ++ holdingWord.toList then
      bytes32 0x657206ec1f235531573c24ef1e07437cf9e22df9728c46c302f9abdb648ce427
    else if input = Vesting.Sample.batchId.toList ++ (Vesting.batchIndex 0).toList then
      bytes32 0x5496053e62849bd4063ae66040e67697939ec65f2a32bd63419873ae9b0cf174
    else if input = Vesting.Sample.batchId.toList ++ (Vesting.batchIndex 1).toList then
      bytes32 0xb9fbdbb29d5a7af1d1ffd0527a9d6792ed8f7215d29b4caed9bc920e372f6c6d
    else if input = Vesting.Sample.batchId.toList ++ (Vesting.batchIndex 2).toList then
      bytes32 0xb4b6ea5f9e3b61e5939c5cd726f4bdc4dc0fd33a8dfc9113dddcf3d43af77eb0
    else if input = Vesting.Sample.batchId.toList ++ (Vesting.batchIndex 3).toList then
      bytes32 0x8b333eef19b7e8e3cbe9bb39469f066a42976d3427f0cee983c5beecd45e0ae7
    else
      bytes32 0x2ebffa5194be38d5d9ff2000d65d2a1d68ff2ba5fcb5e99c1fc4b0f13c179469
  forPublicPda _ seed :=
    if seed.value = bytes32 0x657206ec1f235531573c24ef1e07437cf9e22df9728c46c302f9abdb648ce427 then
      escrow
    else if
        seed.value = bytes32 0x5496053e62849bd4063ae66040e67697939ec65f2a32bd63419873ae9b0cf174 then
      first
    else if
        seed.value = bytes32 0xb9fbdbb29d5a7af1d1ffd0527a9d6792ed8f7215d29b4caed9bc920e372f6c6d then
      second
    else if
        seed.value = bytes32 0xb4b6ea5f9e3b61e5939c5cd726f4bdc4dc0fd33a8dfc9113dddcf3d43af77eb0 then
      third
    else if
        seed.value = bytes32 0x8b333eef19b7e8e3cbe9bb39469f066a42976d3427f0cee983c5beecd45e0ae7 then
      fourth
    else
      thirdEscrow
  tokenProgram := account 0x26
  me := account 7
  derived a := decide (a ∈ [escrow, first, second, third, fourth, thirdEscrow])
  derived_forPublicPda _ seed := by
    rw [decide_eq_true_eq]
    split_ifs <;> simp

/-- No two of them are the same. -/
example : ([holdingWord, Vesting.batchIndex 0, Vesting.batchIndex 1, Vesting.batchIndex 2,
    Vesting.batchIndex 3].map fun word =>
      deployment.sha256 (Vesting.Sample.batchId.toList ++ word.toList)).Nodup := by
  decide +kernel

/-- Two accounts with a million units each and no schedules yet. -/
def start : World where
  now := 1700000900000
  shard _ := []
  balance purse := if purse ∈ [(account 1, .native), (account 9, .native)] then 1000000 else 0

/-- A batch of two schedules. -/
def creation : Transaction where
  rows := Vesting.signedBy [account 1]
    (Vesting.Rows.batch deployment.toPlatform deployment.me Vesting.Sample.batchId 2 .native
      (account 1))
  ix := .createScheduleBatch Vesting.Sample.batchId [account 2, account 3] .native terms

def created : World := deployment.land start creation

/-- A schedule of someone else's under the third id. -/
def intrusion : Transaction where
  rows := Vesting.signedBy [account 9]
    (Vesting.Rows.create deployment.toPlatform deployment.me
      (Vesting.batchScheduleId deployment.toPlatform Vesting.Sample.batchId 2) .native (account 9))
  ix := .createSchedule (Vesting.batchScheduleId deployment.toPlatform Vesting.Sample.batchId 2)
    (account 9) .native terms

def intruded : World := deployment.land created intrusion

theorem executed_creation : deployment.execute start creation = .ok created :=
  Deployment.execute_of_isOk (by decide +kernel)

theorem executed_intrusion : deployment.execute created intrusion = .ok intruded :=
  Deployment.execute_of_isOk (by decide +kernel)

theorem reachable_start : deployment.Reachable Vesting.CANCEL_WINDOW_MS start :=
  .start ⟨fun _ => rfl, by decide⟩

/-- The sample batch, as its creation named it. -/
def batch : Batch where
  batchId := Vesting.Sample.batchId
  beneficiaries := [account 2, account 3]
  asset := .native
  terms
  creator := account 1

end Sample

/-! ### Every batch, in every later state -/

/-- In every state that follows the creation of a batch, both lists show that batch exactly
when the address of the next id is empty, the client's in either build. -/
theorem batch_lists_iff (d : Deployment) (since : U64) (w₀ w₁ w : World) (tx : Transaction)
    (batchId : Bytes 32) (beneficiaries : List AccountId) (asset : Asset) (terms : Terms)
    (reachable : d.Reachable since w₀) (accepted : d.execute w₀ tx = .ok w₁)
    (batch : tx.ix = .createScheduleBatch batchId beneficiaries asset terms)
    (run : Relation.ReflTransGen d.Step w₁ w) :
    ∃ creator, tx.rows[1]?.map (·.accountId) = some creator ∧
      let b : Batch := ⟨batchId, beneficiaries, asset, terms, creator⟩
      let empty := w.shard (d.slot batchId beneficiaries.length) = []
      (beneficiaries.length < Cli.BATCH_SCAN_LIMIT → ∀ checks now,
        (∃ out, Cli.showBatch checks d.toPlatform d.me w.shard batchId now = .ok out ∧
          Cli.Shows d b w now out) ↔ empty) ∧
      (beneficiaries.length < kBatchMax → ∀ clock,
        Shows d b w (listBatch d.toPlatform d.me w.shard batchId clock) ↔ empty) := by
  obtain ⟨nonempty, fits, -⟩ :=
    Vesting.batch_settled (Deployment.settle_of_execute accepted) batch
  obtain ⟨reached, creator, named, members⟩ := Vesting.batch_later reachable accepted batch run
  have kept := Vesting.kept_of_reachable reached
  rw [Nat.mul_comm] at fits
  exact ⟨creator, named,
    fun few checks now =>
      Cli.shows_iff (b := ⟨batchId, beneficiaries, asset, terms, creator⟩) checks kept nonempty
        members fits few now,
    fun few clock =>
      shows_iff (b := ⟨batchId, beneficiaries, asset, terms, creator⟩) kept members few clock⟩

/-- The sample batch is shown while its third id is free. -/
theorem batch_lists_created :
    ∃ creator, Sample.creation.rows[1]?.map (·.accountId) = some creator ∧
      (∃ out, Cli.showBatch false Sample.deployment.toPlatform Sample.deployment.me
          Sample.created.shard Vesting.Sample.batchId 1700000900000 = .ok out ∧
        Cli.Shows Sample.deployment
          ⟨Vesting.Sample.batchId, [Vesting.Sample.account 2, Vesting.Sample.account 3], .native,
            Vesting.Sample.terms, creator⟩ Sample.created 1700000900000 out) ∧
      Shows Sample.deployment
        ⟨Vesting.Sample.batchId, [Vesting.Sample.account 2, Vesting.Sample.account 3], .native,
          Vesting.Sample.terms, creator⟩ Sample.created
        (listBatch Sample.deployment.toPlatform Sample.deployment.me Sample.created.shard
          Vesting.Sample.batchId fun _ => 1700000900000) := by
  obtain ⟨creator, named, cli, app⟩ := batch_lists_iff Sample.deployment Vesting.CANCEL_WINDOW_MS
    Sample.start Sample.created Sample.created Sample.creation Vesting.Sample.batchId
    [Vesting.Sample.account 2, Vesting.Sample.account 3] .native Vesting.Sample.terms
    Sample.reachable_start Sample.executed_creation rfl .refl
  have empty : Sample.created.shard (Sample.deployment.slot Vesting.Sample.batchId 2) = [] := by
    decide +kernel
  exact ⟨creator, named, (cli (by decide) _ _).mpr empty, (app (by decide) _).mpr empty⟩

/-- Behind the sample batch stands a schedule of account 9, on an escrow of its own, and no list
shows the batch any more. -/
theorem batch_lists_intruded :
    Sample.deployment.Reachable Vesting.CANCEL_WINDOW_MS Sample.start ∧
      Sample.deployment.execute Sample.start Sample.creation = .ok Sample.created ∧
      Sample.deployment.execute Sample.created Sample.intrusion = .ok Sample.intruded ∧
      Sample.batch.creator = Vesting.Sample.account 1 ∧ Sample.batch.beneficiaries.length = 2 ∧
      (∃ s, Sample.intruded.shard (Sample.deployment.slot Sample.batch.batchId 2) = store s ∧
        s.escrow = Sample.thirdEscrow) ∧
      (¬ ∃ out, Cli.showBatch false Sample.deployment.toPlatform Sample.deployment.me
          Sample.intruded.shard Sample.batch.batchId 1700000900000 = .ok out ∧
        Cli.Shows Sample.deployment Sample.batch Sample.intruded 1700000900000 out) ∧
      ¬ Shows Sample.deployment Sample.batch Sample.intruded
        (listBatch Sample.deployment.toPlatform Sample.deployment.me Sample.intruded.shard
          Sample.batch.batchId fun _ => 1700000900000) := by
  have run : Relation.ReflTransGen Sample.deployment.Step Sample.created Sample.intruded :=
    .single (.transaction Sample.created Sample.intrusion)
  obtain ⟨reached, creator, named, members⟩ :=
    Vesting.batch_later Sample.reachable_start Sample.executed_creation rfl run
  obtain rfl : Vesting.Sample.account 1 = creator := Option.some.inj named
  have kept := Vesting.kept_of_reachable reached
  have stored : Sample.intruded.shard (Sample.deployment.slot Sample.batch.batchId 2) =
      store (Vesting.initialState (Vesting.Sample.account 9) Sample.thirdEscrow
        (Vesting.Sample.account 9) .native Vesting.Sample.terms) := by decide +kernel
  have used : Sample.intruded.shard (Sample.deployment.slot Sample.batch.batchId 2) ≠ [] :=
    stored ▸ Vesting.store_ne_nil _
  refine ⟨Sample.reachable_start, Sample.executed_creation, Sample.executed_intrusion, rfl, rfl,
    ⟨_, stored, rfl⟩, ?_, ?_⟩
  · intro shown
    exact used ((Cli.shows_iff (b := Sample.batch) false kept (by decide) members
      (by decide +kernel) (by decide) _).mp shown)
  · intro shows
    exact used ((shows_iff (b := Sample.batch) kept members (by decide) _).mp shows)

end App

end Antumbra
