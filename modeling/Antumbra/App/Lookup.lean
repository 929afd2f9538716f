/-
# Looking up a typed text

What is typed into the app's search is an account when it reads as one, and otherwise the id
of a schedule or a batch. A schedule is shown with its escrow: what the escrow holds, what
the schedule still needs of it, and whether that is covered. On a reachable chain the
printed id leads to what it names, and no escrow is ever shown short.
-/

import Antumbra.App.Ids
import Antumbra.App.Base58
import Antumbra.App.Listing
import Antumbra.Vesting.Log
import Antumbra.Vesting.Single

namespace Antumbra

open Antumbra.Math

namespace App

open Vesting (Platform VestingSchedule Deployment World Asset batchScheduleId scheduleAccount
  holdingAccount store)
open QString (ofText trimmed length_ofText)

/-! ### The search -/

def kNativeShard : String := "11111111111111111111111111111111"

def kTokenProgram : String := "AxDdLwqkWgR9qaSctvABV1ZtvWJJyzXB8199xZueifPj"

/-- What a node answers: the chain's clock, and the bytes of an account's shard by the texts
of the account's and the program's ids, none where there is no such shard. -/
structure Node where
  clock : U64
  shard : String → String → List U8

/-- The account of 32 bytes. -/
def accountOf (bytes : List U8) : Option AccountId :=
  if h : bytes.length = 32 then some ⟨⟨bytes, h⟩⟩ else none

/-- The id a text is read as, if it is read as one. -/
def readId (raw : QString) : Except String (Bytes 32) := do
  let bytes ← idBytes raw
  if h : bytes.length = 32 then return ⟨bytes, h⟩ else throw ""

variable (p : Platform) (program : AccountId) (n : Node)

/-- The program's shard of an account. -/
def Node.schedule (account : AccountId) : List U8 :=
  n.shard (base58 account.value.toList) (base58 program.value.toList)

/-- What an escrow holds of the asset a schedule names. -/
def Node.held (escrow asset : String) : U128 :=
  if asset = "token" then
    let t := n.shard escrow kTokenProgram
    if 49 ≤ t.length ∧ t.head? = some 0 then
      -- behind the tag and the definition
      ((do let _ ← Reader.bytes 33; Reader.u128v : Reading U128) ⟨t, 0, true⟩).1
    else
      0
  else
    let b := n.shard escrow kNativeShard
    if b ≠ [] then (Reader.u128v ⟨b, 0, true⟩).1 else 0

/-- A schedule with its escrow. -/
def withEscrow (s : Fields) (batchId : Option (Bytes 32)) : Fields :=
  let held := n.held (s.str "escrow") (s.str "asset")
  let total := parseDec (s.str "total")
  let claimed := parseDec (s.str "claimed")
  let vested := parseDec (s.str "vested")
  let cancelled := match s.lookup "cancelledAt" with
    | some (.double at_) => decide (0 < at_)
    | _ => false
  let owed :=
    if cancelled then (if claimed < vested then vested - claimed else 0) else total - claimed
  -- a batch shares one escrow, so one schedule cannot judge it; an id's own text always reads
  let shared := batchId.isSome || match s.lookup "scheduleId" with
    | some (.str text) => match readId (ofText text) with
      | .ok id => decide (base58 (holdingAccount p program id).value.toList ≠ s.str "escrow")
      | .error _ => true
    | _ => false
  (((s.set "escrowHeld" (.str (dec held))).set "escrowOwed" (.str (dec owed))).set "escrowShared"
    (.bool shared)).set "escrowCovers" (.bool (decide (owed ≤ held)))

/-- The page of a schedule. -/
def loadDetail (account : AccountId) (scheduleId batchId : Option (Bytes 32)) : Fields :=
  match readSchedules (n.schedule program) [account] n.clock with
  | s :: _ =>
    if s = [] then
      [("kind", .str "none"),
        ("text", .str ("No schedule of this program at " ++ base58 account.value.toList ++ "."))]
    else
      let s := match scheduleId with
        | some id => s.set "scheduleId" (.str (idText id.toList))
        | none => s
      let s := match batchId with
        | some id => s.set "batchId" (.str (idText id.toList))
        | none => s
      [("kind", .str "schedule"), ("schedule", .obj ((withEscrow p program n s batchId).set
        "account" (.str (base58 account.value.toList))))]
  | [] => []

/-- What is shown for a typed text; the search by account is an argument. -/
def lookup (searchAccount : AccountId → Fields) (raw : QString) : Fields :=
  let q := trimmed raw
  if q = [] then
    [("kind", .str "error"), ("text", .str "Type a schedule id, a batch id or an account.")]
  else
    match accountOf (if 32 ≤ q.length then QString.unbase58 q else []) with
    | some account =>
      match decodeSchedule (n.shard q.toText (base58 program.value.toList)) with
      | some _ => loadDetail p program n account none none
      | none => searchAccount account
    | none =>
      match readId q with
      | .error err => [("kind", .str "error"), ("text", .str err)]
      | .ok id =>
        let rs := readSchedules (n.schedule program)
          [scheduleAccount p program id, scheduleAccount p program (batchScheduleId p id 0)] n.clock
        if rs.getD 0 [] ≠ [] then
          loadDetail p program n (scheduleAccount p program id) (some id) none
        else if rs.getD 1 [] ≠ [] then
          listBatch p program (n.schedule program) id fun _ => n.clock
        else
          [("kind", .str "none"), ("text", .str ("No schedule or batch with the id “" ++ q.toText ++
            "” on this program."))]

/-! ### Ids that read as accounts -/

variable {p program n} {bytes : List U8} {id : Bytes 32}

/-- An account's text has at least 32 letters, and as few only of a number of three bytes. -/
theorem leadingZeros_of_short (length : bytes.length = 32)
    (short : (base58 bytes).toList.length ≤ 32) : 29 ≤ leadingZeros bytes := by
  have count := congrArg List.length (map_toNat_eq bytes)
  rw [List.length_map, List.length_append, List.length_replicate, List.length_reverse, length]
    at count
  rw [toList_base58, List.length_map, textDigits, List.length_append, List.length_replicate,
    List.length_reverse] at short
  by_contra few
  -- from four bytes on, a number has more digits to base 58 than bytes
  have room : ∀ b ≤ 32, 4 ≤ b → 58 ^ b ≤ 256 ^ (b - 1) := by decide
  generalize digits : (Nat.digits 256 (number bytes)).length = b at count
  have large : 256 ^ (b - 1) ≤ number bytes :=
    (Nat.lt_digits_length_iff (by decide) _).mp (by omega)
  have small : number bytes < 58 ^ b := (Nat.digits_length_le_iff (by decide) _).mp (by omega)
  exact absurd (Nat.lt_of_le_of_lt large small) (Nat.not_lt.mpr (room b (by omega) (by omega)))

/-- The only printed ids that read as accounts begin with 29 ones. -/
theorem ones_of_accountText (accepted : unbase58 (idText id.toList) ≠ []) :
    id.toList.take 29 = List.replicate 29 0x31 := by
  obtain ⟨length, back⟩ := base58_of_unbase58 accepted
  generalize unbase58 (idText id.toList) = b at length back
  have printable := (id32_idText id).2
  have reads := (idText_reads_back id).2
  rw [← back] at printable reads
  have ascii : ∀ c ∈ (base58 b).toList, c.toNat < 128 := fun c mem => (printable c mem).2
  have units := length_ofText ascii
  rw [utf8_ascii ascii, List.length_map] at units
  rw [idBytes_eq_ok_iff (trimmed_printable printable), utf8_ascii ascii, List.length_map] at reads
  rcases reads with ⟨long, -⟩ | ⟨-, -, short, padded⟩
  · have := (length_base58 length).2
    omega
  · -- the text is the id's own bytes, and its first letters stand for zeros
    have ones := leadingZeros_of_short length short
    have enough : 29 ≤ (base58 b).toList.length := by
      rw [toList_base58, List.length_map, textDigits, List.length_append, List.length_replicate]
      omega
    have first : (base58 b).toList.take 29 = List.replicate 29 '1' := by
      rw [toList_base58, textDigits, List.map_append, List.map_replicate,
        List.take_append_of_le_length (by rwa [List.length_replicate]), List.take_replicate,
        Nat.min_eq_left ones]
      rfl
    rw [← padded, List.take_append_of_le_length (by rwa [List.length_map]), ← List.map_take, first]
    rfl

/-- Every other printed id is read as the id. -/
theorem accountOf_idText (other : id.toList.take 29 ≠ List.replicate 29 0x31) :
    accountOf (if 32 ≤ (ofText (idText id.toList)).length then
      QString.unbase58 (ofText (idText id.toList)) else []) = none := by
  have unread : QString.unbase58 (ofText (idText id.toList)) = [] := by
    rw [QString.unbase58_ofText]
    by_contra accepted
    exact other (ones_of_accountText accepted)
  rw [unread, ite_self]
  rfl

theorem readId_idText (id : Bytes 32) : readId (ofText (idText id.toList)) = .ok id := by
  unfold readId
  rw [(idText_reads_back id).2, ok_bind]
  exact dif_pos id.toList_length

/-! ### A schedule and its escrow -/

variable {d : Deployment} {w : World} {k : AccountId} {s : VestingSchedule} {asset : Asset}
  {held : U128}

/-- The node answers with the state of the chain. -/
structure Node.Of (n : Node) (d : Deployment) (w : World) : Prop where
  clock : n.clock = w.now
  schedule : ∀ k, n.schedule d.me k = w.shard k

/-- What the shards of an account say it holds of an asset: the native shard begins with the
balance, the token shard with a zero, the definition and the balance. -/
inductive Node.Holds (n : Node) (k : AccountId) : Asset → U128 → Prop
  | native {held : U128} {rest : List U8}
      (shard : n.shard (base58 k.value.toList) kNativeShard = Codec.u128.encode held ++ rest) :
      Holds n k .native held
  | noNative (shard : n.shard (base58 k.value.toList) kNativeShard = []) : Holds n k .native 0
  | token {definition : AccountId} {held : U128} {rest : List U8}
      (shard : n.shard (base58 k.value.toList) kTokenProgram =
        (0 :: definition.value.toList) ++ (Codec.u128.encode held ++ rest)) :
      Holds n k (.token definition) held
  | noToken {definition : AccountId}
      (shard : n.shard (base58 k.value.toList) kTokenProgram = []) :
      Holds n k (.token definition) 0

open Antumbra.Math.Reading (Reads)

/-- The app reads what is held. -/
theorem Node.Holds.held_eq (h : n.Holds k asset held)
    (hasset : asset.code = (s.asset, s.tokenDefinition)) :
    n.held (base58 k.value.toList) (if s.asset = 1 then "token" else "native") = held := by
  obtain ⟨code, -⟩ := Prod.mk.inj hasset
  rw [← code]
  unfold Node.held
  cases h with
  | @native held rest shard =>
    have some : Codec.u128.encode held ++ rest ≠ [] := by
      intro none
      exact Codec.u128.encode_ne_nil (by decide) held (List.append_eq_nil_iff.mp none).1
    have read : (Reader.u128v ⟨Codec.u128.encode held ++ rest, 0, true⟩).1 = held :=
      congrArg Prod.fst (Reader.reads_u128v held ⟨_, 0, true⟩ rest rfl (Nat.zero_le _))
    rw [if_neg (by decide), shard]
    dsimp only
    rw [if_pos some, read]
  | noNative shard =>
    rw [if_neg (by decide), shard]
    rfl
  | @token definition held rest shard =>
    have reads : Reads (do let _ ← Reader.bytes 33; Reader.u128v)
        ((0 :: definition.value.toList) ++ Codec.u128.encode held) held :=
      (Reads.raw (by rw [List.length_cons, definition.value.toList_length])).bind
        (Reader.reads_u128v held)
    rw [← List.append_assoc] at shard
    generalize whole : (0 :: definition.value.toList) ++ Codec.u128.encode held ++ rest = t at shard
    have read := congrArg Prod.fst (reads ⟨t, 0, true⟩ rest whole.symm (Nat.zero_le _))
    have long : 49 ≤ t.length ∧ t.head? = some 0 := by
      rw [← whole, List.length_append, List.length_append, List.length_cons,
        definition.value.toList_length, Codec.u128.length_encode]
      exact ⟨Nat.le_add_right 49 _, rfl⟩
    rw [if_pos rfl, shard]
    dsimp only
    rw [if_pos long]
    exact read
  | noToken shard =>
    rw [if_pos rfl, shard]
    rfl

/-- The keys that the page of a schedule adds to its fields. -/
def addedKeys : List String :=
  ["account", "escrowHeld", "escrowOwed", "escrowShared", "escrowCovers"]

/-- They leave the other fields as they were. -/
theorem lookup_added {o : Fields} {key : String} (other : key ∉ addedKeys)
    (held owed shared covers account : Json) :
    (((((o.set "escrowHeld" held).set "escrowOwed" owed).set "escrowShared" shared).set
      "escrowCovers" covers).set "account" account).lookup key = o.lookup key := by
  simp only [addedKeys, List.mem_cons, List.not_mem_nil, or_false, not_or] at other
  obtain ⟨account, held, owed, shared, covers⟩ := other
  rw [Fields.lookup_set_of_ne _ _ account, Fields.lookup_set_of_ne _ _ covers,
    Fields.lookup_set_of_ne _ _ shared, Fields.lookup_set_of_ne _ _ owed,
    Fields.lookup_set_of_ne _ _ held]

/-- What the page of a schedule shows. -/
structure Details (d : Deployment) (w : World) (id : Bytes 32) (s : VestingSchedule) (held : U128)
    (o : Fields) : Prop where
  account : o.lookup "account" =
    some (.str (base58 (scheduleAccount d.toPlatform d.me id).value.toList))
  scheduleId : o.lookup "scheduleId" = some (.str (idText id.toList))
  beneficiary : o.lookup "beneficiary" = some (.str (base58 s.beneficiary.value.toList))
  total : o.lookup "total" = some (.str (dec s.total))
  claimed : o.lookup "claimed" = some (.str (dec s.claimed))
  claimable : ∃ v, Vesting.claimable s w.now = .ok v ∧ o.lookup "claimable" = some (.str (dec v))
  escrowHeld : o.lookup "escrowHeld" = some (.str (dec held))
  escrowOwed : ∃ owed : U128, owed.toNat = s.owed ∧ o.lookup "escrowOwed" = some (.str (dec owed))
  /-- The escrow is that of a batch. -/
  escrowShared : o.lookup "escrowShared" =
    some (.bool (decide (s.escrow ≠ holdingAccount d.toPlatform d.me id)))
  escrowCovers : o.lookup "escrowCovers" = some (.bool true)
  /-- Every other key is that of the record, as the lists show it. -/
  fields : ∀ key ∉ addedKeys, key ≠ "scheduleId" →
    o.lookup key = (scheduleJson (ofStored s) w.now).lookup key

/-- What is still owed is what is left of the total, or of what had vested at a cancellation. -/
theorem owed_eq (valid : Vesting.Valid s) {now : U64} (stopped : s.cancelledAt ≤ now) :
    (if decide (0 < s.cancelledAt.toNat) = true then
        (if s.claimed < vestedAt (ofStored s) now then vestedAt (ofStored s) now - s.claimed else 0)
      else s.total - s.claimed).toNat = s.owed := by
  have most := valid.claimed_le_most
  unfold VestingSchedule.owed
  unfold VestingSchedule.most at most ⊢
  by_cases live : s.cancelledAt = 0
  · rw [if_pos live] at most ⊢
    rw [live, if_neg (by decide), toNat_sub_of_le (BitVec.le_def.mpr most)]
  · -- what the app shows as vested is what had vested when the record was frozen
    have value := (vestedAt_ofStored valid.wellFormed now).2
    have same : s.accrued now.toNat = s.accrued s.cancelledAt.toNat := by
      rw [VestingSchedule.accrued_of_cancelled live, frozen, frozen, Nat.min_self,
        Nat.min_eq_right (BitVec.le_def.mp stopped)]
    have cancelled : decide (0 < s.cancelledAt.toNat) = true :=
      decide_eq_true (Nat.pos_of_ne_zero fun none => live (word_ext none))
    rw [if_neg live] at most ⊢
    rw [if_pos cancelled, ← same, ← value]
    rw [← same, ← value] at most
    split
    · next more => rw [toNat_sub_of_le (BitVec.le_of_lt more)]
    · next none =>
      rw [BitVec.lt_def] at none
      rw [toNat_zero]
      omega

/-- The object of a stored schedule with its id. -/
def pageOf (s : VestingSchedule) (k : AccountId) (id : Bytes 32) (now : U64) : Fields :=
  (Fields.set (scheduleJson (ofStored s) now) "account" (.str (base58 k.value.toList))).set
    "scheduleId" (.str (idText id.toList))

theorem readSchedules_stored (of : n.Of d w) (stored : w.shard k = store s)
    (valid : Vesting.Valid s) : readSchedules (n.schedule d.me) [k] n.clock =
      [Fields.set (scheduleJson (ofStored s) w.now) "account" (.str (base58 k.value.toList))] := by
  have decoded := decodeSchedule_store (kind_le_two valid.wellFormed)
  rw [← stored, ← of.schedule] at decoded
  rw [readSchedules, List.map_cons, List.map_nil, decoded, of.clock]

/-- The page of a stored schedule. -/
theorem loadDetail_stored (of : n.Of d w) (stored : w.shard k = store s)
    (valid : Vesting.Valid s) : loadDetail d.toPlatform d.me n k (some id) none =
      [("kind", .str "schedule"), ("schedule", .obj
        ((withEscrow d.toPlatform d.me n (pageOf s k id w.now) none).set "account"
          (.str (base58 k.value.toList))))] := by
  rw [loadDetail, readSchedules_stored of stored valid]
  exact if_neg (Fields.set_ne_nil _ _ _)

/-- It shows the schedule and its escrow, which covers it. -/
theorem details_page (reachable : d.Reachable Vesting.CANCEL_WINDOW_MS w)
    (hk : k = scheduleAccount d.toPlatform d.me id) (stored : w.shard k = store s)
    (hasset : asset.code = (s.asset, s.tokenDefinition)) (holds : n.Holds s.escrow asset held)
    (holds_eq : held.toNat = w.balance (s.escrow, asset)) :
    Details d w id s held ((withEscrow d.toPlatform d.me n (pageOf s k id w.now) none).set
      "account" (.str (base58 k.value.toList))) := by
  obtain ⟨valid, seen, own⟩ := (Vesting.kept_of_reachable reachable).record stored
  -- the fields the page reads are those of the schedule
  have read : ∀ {key : String}, key ≠ "account" → key ≠ "scheduleId" →
      (pageOf s k id w.now).lookup key = (scheduleJson (ofStored s) w.now).lookup key :=
    fun account scheduleId => (Fields.lookup_set_of_ne _ _ scheduleId).trans
      (Fields.lookup_set_of_ne _ _ account)
  have str : ∀ {key text : String}, key ≠ "account" → key ≠ "scheduleId" →
      (scheduleJson (ofStored s) w.now).lookup key = some (.str text) →
        Fields.str (pageOf s k id w.now) key = text := by
    intro key text account scheduleId field
    rw [Fields.str, read account scheduleId, field]
  have escrow : Fields.str (pageOf s k id w.now) "escrow" = base58 s.escrow.value.toList :=
    str (by decide) (by decide) rfl
  have heldThere := holds.held_eq hasset
  have named : Fields.str (pageOf s k id w.now) "asset" =
      if s.asset = 1 then "token" else "native" := str (by decide) (by decide) rfl
  have total : Fields.str (pageOf s k id w.now) "total" = dec s.total :=
    str (by decide) (by decide) rfl
  have claimed : Fields.str (pageOf s k id w.now) "claimed" = dec s.claimed :=
    str (by decide) (by decide) rfl
  have vested : Fields.str (pageOf s k id w.now) "vested" =
      dec (vestedAt (ofStored s) w.now) := str (by decide) (by decide) rfl
  have cancelled : (pageOf s k id w.now).lookup "cancelledAt" =
      some (.double s.cancelledAt.toNat) := (read (by decide) (by decide)).trans rfl
  have itsId : (pageOf s k id w.now).lookup "scheduleId" = some (.str (idText id.toList)) :=
    Fields.lookup_set_self _ _ _
  have owed := owed_eq valid (Vesting.cancelledAt_le_now reachable stored)
  -- the escrow covers every schedule that draws on it
  have covered : s.owed ≤ held.toNat := by
    obtain ⟨scheduleId, batchId, -, -, address, -⟩ := own
    have one := ((Vesting.sound_of_reachable reachable).solvent
      (Vesting.holdingSeed d.toPlatform (batchId.getD scheduleId)) asset).le k
    rw [stored, Vesting.owedTo_store valid, if_pos ⟨address, hasset⟩] at one
    rw [holds_eq, address]
    exact one
  have page : ∃ owed : U128, owed.toNat = s.owed ∧
      withEscrow d.toPlatform d.me n (pageOf s k id w.now) none =
        ((((pageOf s k id w.now).set "escrowHeld" (.str (dec held))).set "escrowOwed"
          (.str (dec owed))).set "escrowShared"
            (.bool (decide (s.escrow ≠ holdingAccount d.toPlatform d.me id)))).set "escrowCovers"
              (.bool true) := by
    refine ⟨_, owed, ?_⟩
    have covers : decide (_ ≤ held) = true := decide_eq_true (BitVec.le_def.mpr (owed ▸ covered))
    unfold withEscrow
    simp only [escrow, named, heldThere, total, claimed, vested, cancelled, itsId, parseDec_dec,
      readId_idText, covers, Option.isSome_none, Bool.false_or, ne_eq, base58_inj,
      @eq_comm _ (holdingAccount d.toPlatform d.me id)]
  obtain ⟨owedNow, owed_is, page⟩ := page
  rw [page]
  have field : ∀ key ∉ addedKeys, key ≠ "scheduleId" →
      _ = (scheduleJson (ofStored s) w.now).lookup key := fun key other scheduleId =>
    (lookup_added other (.str (dec held)) (.str (dec owedNow))
      (.bool (decide (s.escrow ≠ holdingAccount d.toPlatform d.me id))) (.bool true)
      (.str (base58 k.value.toList))).trans (read (fun same => other (same ▸ by decide)) scheduleId)
  exact
    { account := by rw [Fields.lookup_set_self, hk]
      scheduleId := (lookup_added (by decide) _ _ _ _ _).trans itsId
      beneficiary := (field _ (by decide) (by decide)).trans rfl
      total := (field _ (by decide) (by decide)).trans rfl
      claimed := (field _ (by decide) (by decide)).trans rfl
      claimable := ⟨_, claimable_ofStored valid.wellFormed w.now,
        (field _ (by decide) (by decide)).trans rfl⟩
      escrowHeld := by simp [Fields.lookup_set_of_ne]
      escrowOwed := ⟨owedNow, owed_is, by simp [Fields.lookup_set_of_ne]⟩
      escrowShared := by simp [Fields.lookup_set_of_ne]
      escrowCovers := by simp [Fields.lookup_set_of_ne]
      fields := field }

/-! ### What a printed id leads to -/

/-- On a chain that keeps records, an object is empty exactly when its shard is. -/
theorem readSchedules_eq_nil_iff (kept : Vesting.Kept d w) (k : AccountId) (now : U64) :
    (match decodeSchedule (w.shard k) with
      | some s => Fields.set (scheduleJson s now) "account" (.str (base58 k.value.toList))
      | none => []) = [] ↔ w.shard k = [] := by
  rcases kept.recorded k with empty | ⟨s, stored, valid, -⟩
  · rw [empty]
    exact iff_of_true rfl rfl
  · rw [stored, decodeSchedule_store (kind_le_two valid.wellFormed)]
    exact iff_of_false (Fields.set_ne_nil _ _ _) (Vesting.store_ne_nil s)

/-- A printed id that does not read as an account is looked up at its own address and at that of
the first schedule of a batch of that id. -/
theorem lookup_idText (of : n.Of d w) (kept : Vesting.Kept d w)
    (other : id.toList.take 29 ≠ List.replicate 29 0x31) (searchAccount : AccountId → Fields) :
    lookup d.toPlatform d.me n searchAccount (ofText (idText id.toList)) =
      if w.shard (scheduleAccount d.toPlatform d.me id) ≠ [] then
        loadDetail d.toPlatform d.me n (scheduleAccount d.toPlatform d.me id) (some id) none
      else if w.shard (d.slot id 0) ≠ [] then
        listBatch d.toPlatform d.me w.shard id fun _ => w.now
      else
        [("kind", .str "none"), ("text", .str ("No schedule or batch with the id “" ++
          (ofText (idText id.toList)).toText ++ "” on this program."))] := by
  have trim := trimmed_printable (id32_idText id).2
  have some : ofText (idText id.toList) ≠ [] := by
    intro none
    have read := readId_idText id
    rw [none] at read
    cases read
  have shards : n.schedule d.me = w.shard := funext of.schedule
  have first := readSchedules_eq_nil_iff kept (scheduleAccount d.toPlatform d.me id) w.now
  have second := readSchedules_eq_nil_iff kept (d.slot id 0) w.now
  unfold lookup
  rw [trim, if_neg some, accountOf_idText other, readId_idText, shards, of.clock]
  exact if_congr (not_congr first) rfl (if_congr (not_congr second) rfl rfl)

/-- In every reachable state a printed id leads to what it names: the schedule of that id, with
the balance of its escrow, which covers what is owed; else the batch of that id; else nothing. -/
theorem lookup_shows (d : Deployment) (w : World) (n : Node) (searchAccount : AccountId → Fields)
    (id : Bytes 32) (reachable : d.Reachable Vesting.CANCEL_WINDOW_MS w) (of : n.Of d w)
    (other : id.toList.take 29 ≠ List.replicate 29 0x31) :
    let shown := lookup d.toPlatform d.me n searchAccount (ofText (idText id.toList))
    let k := scheduleAccount d.toPlatform d.me id
    (∀ s asset held, w.shard k = store s → asset.code = (s.asset, s.tokenDefinition) →
      n.Holds s.escrow asset held → held.toNat = w.balance (s.escrow, asset) →
        ∃ o, shown = [("kind", .str "schedule"), ("schedule", .obj o)] ∧ Details d w id s held o) ∧
    (w.shard k = [] → w.shard (d.slot id 0) ≠ [] →
      shown = listBatch d.toPlatform d.me w.shard id fun _ => w.now) ∧
    (w.shard k = [] → w.shard (d.slot id 0) = [] →
      shown = [("kind", .str "none"), ("text", .str ("No schedule or batch with the id “" ++
        (ofText (idText id.toList)).toText ++ "” on this program."))]) := by
  have kept := Vesting.kept_of_reachable reachable
  have found := lookup_idText of kept other searchAccount
  dsimp only
  rw [found]
  refine ⟨?_, ?_, ?_⟩
  · intro s asset held stored hasset holds balance
    have used : w.shard (scheduleAccount d.toPlatform d.me id) ≠ [] := by
      rw [stored]
      exact Vesting.store_ne_nil s
    rw [if_pos used, loadDetail_stored of stored (kept.record stored).1]
    exact ⟨_, rfl, details_page reachable rfl stored hasset holds balance⟩
  · intro empty used
    rw [if_neg (not_not.mpr empty), if_pos used]
  · intro empty unused
    rw [if_neg (not_not.mpr empty), if_neg (not_not.mpr unused)]

namespace Sample

/-- A node of the chain after the sample batch was created, with the escrow's native shard. -/
def node : Node where
  clock := created.now
  shard account program :=
    if program = base58 deployment.me.value.toList then
      (accountOf (unbase58 account)).elim [] created.shard
    else if account = base58 Vesting.Sample.escrow.value.toList ∧ program = kNativeShard then
      Codec.u128.encode 1200
    else
      []

theorem node_of : node.Of deployment created where
  clock := rfl
  schedule k := by
    have length := k.value.toList_length
    unfold Node.schedule node
    dsimp only
    rw [if_pos rfl, unbase58_base58 length, accountOf, dif_pos length]
    rfl

theorem node_holds : node.Holds Vesting.Sample.escrow .native 1200 := by
  have native : kNativeShard ≠ base58 deployment.me.value.toList := by decide +kernel
  have shard : node.shard (base58 Vesting.Sample.escrow.value.toList) kNativeShard =
      Codec.u128.encode 1200 ++ [] := by
    unfold node
    dsimp only
    rw [if_neg native, if_pos ⟨rfl, rfl⟩, List.append_nil]
  exact .native shard

/-- The id of the first schedule of the sample batch. -/
def firstId : Bytes 32 := batchScheduleId deployment.toPlatform Vesting.Sample.batchId 0

end Sample

/-- The first schedule of the sample batch is shown by its id, over an escrow of 1200, and the
batch by its own. -/
theorem lookup_shows_sample :
    (∃ o, lookup Sample.deployment.toPlatform Sample.deployment.me Sample.node (fun _ => [])
        (ofText (idText Sample.firstId.toList)) =
          [("kind", .str "schedule"), ("schedule", .obj o)] ∧
      Details Sample.deployment Sample.created Sample.firstId
        (Vesting.Sample.record Vesting.Sample.escrow) 1200 o) ∧
    lookup Sample.deployment.toPlatform Sample.deployment.me Sample.node (fun _ => [])
        (ofText (idText Vesting.Sample.batchId.toList)) =
      listBatch Sample.deployment.toPlatform Sample.deployment.me Sample.created.shard
        Vesting.Sample.batchId fun _ => Sample.created.now := by
  have reachable := Sample.reachable_start.next (.transaction Sample.start Sample.creation)
  have schedule := (lookup_shows Sample.deployment Sample.created Sample.node (fun _ => [])
    Sample.firstId reachable Sample.node_of (by decide +kernel)).1
  have batch := (lookup_shows Sample.deployment Sample.created Sample.node (fun _ => [])
    Vesting.Sample.batchId reachable Sample.node_of (by decide +kernel)).2.1
  exact ⟨schedule _ .native 1200 (by decide +kernel) rfl Sample.node_holds (by decide +kernel),
    batch (by decide +kernel) (by decide +kernel)⟩

end App

end Antumbra
