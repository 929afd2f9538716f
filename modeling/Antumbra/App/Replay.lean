/-
# Replaying a schedule's transactions

The explorer lists the transactions on a schedule without saying which of them applied.
The app decodes each and replays it against rules of its own, a second copy of the
program's, and shows a verdict. At the end it compares what it arrived at with what the
chain holds.
-/

import Antumbra.App.Base58
import Antumbra.App.Instruction

namespace Antumbra

open Antumbra.Math

namespace App

open Vesting (Platform batchScheduleId scheduleAccount)

/-! ### What the explorer lists -/

/-- A row: an account and the program whose shard of it is meant, both as text. -/
structure Selector where
  accountId : String
  programAccountId : String

/-- What a private transaction shows of its effect on a public account. -/
structure ShownEffect where
  programAccountId : String
  data : List U8

structure PublicAction where
  accountId : String
  effects : List ShownEffect

/-- A transaction as the explorer lists it. -/
inductive Tx
  | isPublic (hash programAccountId : String) (instructionData : List U8)
      (shardSelectors : List Selector)
  | privacyPreserving (hash : String) (publicActions : List PublicAction)

/-! ### The replay -/

/-- What the replay carries from transaction to transaction. -/
structure Replay where
  /-- The schedule as replayed. -/
  st : Schedule
  created : Bool
  privateSeen : Bool
  foundSid : List U8
  foundBatch : List U8
  events : List Fields

def Replay.start : Replay where
  st := Schedule.blank
  created := false
  privateSeen := false
  foundSid := []
  foundBatch := []
  events := []

/-- The verdict on one transaction, and the schedule after it. -/
structure Outcome where
  st : Schedule
  ok : Bool
  what : String
  detail : String

def who (a : List U8) (s : Schedule) : String :=
  if a = s.beneficiary then "the beneficiary"
  else if a = s.creator then "the creator"
  else shortKey (base58 a)

def replayClaim (fin : Schedule) (x : Ix) (rows : List (List U8)) (signer : List U8)
    (st : Schedule) : Outcome :=
  let vested := vestedAt st x.at_
  let owed := if st.claimed < vested then vested - st.claimed else 0
  if signer ≠ st.beneficiary then
    ⟨st, false, "Claim refused", "signed by " ++ who signer st ++ ", not the beneficiary"⟩
  else if x.amount = 0 ∨ owed < x.amount then
    ⟨st, false, "Claim refused", fmt x.amount ++ " asked, more than had vested"⟩
  else if fin.lastSeen < x.at_ then
    -- an applied claim records its time, so this one never applied
    ⟨st, false, "Claim refused", "for a time the chain had not reached"⟩
  else
    ⟨{ st with claimed := st.claimed + x.amount, lastSeen := max st.lastSeen x.at_ }, true,
      "Claimed", fmt x.amount ++ " " ++ unitOf fin ++ " to " ++ shortKey (base58 (rows.getD 2 []))⟩

def replayCancel (fin : Schedule) (x : Ix) (signer : List U8) (st : Schedule) : Outcome :=
  let unvested := st.total - vestedAt st x.at_
  if signer ≠ st.cancelAuthority then
    ⟨st, false, "Cancel refused", "signed by " ++ who signer st ++ ", not the cancel authority"⟩
  else if st.cancelable = 0 then
    ⟨st, false, "Cancel refused", "the schedule is not cancelable"⟩
  else if st.cancelledAt ≠ 0 then
    ⟨st, false, "Cancel refused", "already cancelled"⟩
  else if x.refund ≠ unvested then
    ⟨st, false, "Cancel refused",
      "refund of " ++ fmt x.refund ++ " is not the unvested " ++ fmt unvested⟩
  else
    -- the time may lie before the last one seen
    ⟨{ st with cancelledAt := x.at_, lastSeen := max st.lastSeen x.at_ }, true, "Cancelled",
      fmt x.refund ++ " " ++ unitOf fin ++ " refunded to " ++ shortKey (base58 st.refundTo)⟩

def replayLock (signer : List U8) (st : Schedule) : Outcome :=
  if signer ≠ st.creator then
    ⟨st, false, "Lock refused", "signed by " ++ who signer st ++ ", not the creator"⟩
  else
    -- whether it is still cancelable is not asked
    ⟨{ st with cancelable := 0 }, true, "Made non-cancelable", "by the creator, for good"⟩

def replayTransfer (x : Ix) (signer : List U8) (st : Schedule) : Outcome :=
  if signer ≠ st.beneficiary then
    ⟨st, false, "Transfer refused", "signed by " ++ who signer st ++ ", not the beneficiary"⟩
  else if st.transferable = 0 then
    ⟨st, false, "Transfer refused", "the schedule is not transferable"⟩
  else
    ⟨{ st with beneficiary := x.newBeneficiary }, true, "Transferred",
      "to " ++ shortKey (base58 x.newBeneficiary)⟩

def replaySignal (x : Ix) (signer : List U8) (st : Schedule) : Outcome :=
  let number := toString (x.index + 1).toNat
  if signer ≠ st.milestoneAuthority then
    ⟨st, false, "Signal refused",
      "signed by " ++ who signer st ++ ", not the milestone authority"⟩
  else if st.tranches ≤ x.index ∨ 64 ≤ x.index then
    ⟨st, false, "Signal refused", "there is no milestone " ++ number⟩
  else if st.signalled.getLsbD x.index.toNat then
    ⟨st, false, "Signal refused", "milestone " ++ number ++ " was already signalled"⟩
  else
    -- a cancellation in between does not stop the signal here
    ⟨{ st with signalled := st.signalled ||| bitAt 64 x.index.toNat }, true,
      "Milestone " ++ number ++ " signalled", "by " ++ shortKey (base58 signer)⟩

/-- An instruction on the replayed schedule, nothing for a creation. -/
def replayAct (fin : Schedule) (x : Ix) (rows : List (List U8)) (signer : List U8)
    (st : Schedule) : Option Outcome :=
  match x.tag.toNat with
  | 2 => some (replayClaim fin x rows signer st)
  | 3 => some (replayCancel fin x signer st)
  | 4 => some (replayLock signer st)
  | 5 => some (replayTransfer x signer st)
  | 6 => some (replaySignal x signer st)
  | _ => none

/-- How long a time-based schedule runs, in words. -/
def duration (st : Schedule) : String :=
  let mins := (st.end_ - st.start) / 60000
  if 2880 ≤ mins then toString (mins / 1440).toNat ++ " days"
  else if 120 ≤ mins then toString (mins / 60).toNat ++ " h"
  else toString mins.toNat ++ " min"

def createdDetail (fin : Schedule) (x : Ix) (st : Schedule) : String :=
  let plan :=
    if st.kind = 2 then
      "in " ++ toString st.tranches.toNat ++ " milestones"
    else
      (if st.kind = 0 then "cliff + linear over " else "linear over ") ++ duration st
  let batch :=
    if x.tag = 1 then ", in a batch of " ++ toString x.beneficiaries.length else ""
  fmt st.total ++ " " ++ unitOf fin ++ ", " ++ plan ++ batch

/-- A member of a batch at this address: its beneficiary and its id. -/
def findMember (p : Platform) (program scheduleAcc : AccountId) (batch : Bytes 32)
    (beneficiaries : List (List U8)) : Option (List U8 × Bytes 32) :=
  beneficiaries.zipIdx.foldl
    (fun found (ben, i) =>
      let sid := batchScheduleId p batch (BitVec.ofNat 32 i)
      -- a match does not end the loop
      if scheduleAccount p program sid = scheduleAcc then some (ben, sid) else found)
    none

/-- An authority that is all zeros is the creator. -/
def orCreator (authority creator : List U8) : List U8 :=
  if authority = List.replicate 32 0 then creator else authority

/-- The schedule a creation starts the replay from. -/
def createdSchedule (x : Ix) (ben creator : List U8) : Schedule :=
  { x.terms with
    beneficiary := ben
    creator
    claimed := 0
    cancelledAt := 0
    signalled := 0
    lastSeen := 0
    cancelAuthority := orCreator x.terms.cancelAuthority creator
    milestoneAuthority := orCreator x.terms.milestoneAuthority creator }

/-- A creation: the first one starts the replay, any other was refused. -/
def replayCreation (fin : Schedule) (x : Ix) (ben creator : List U8) (r : Replay) : Outcome :=
  if r.created then
    ⟨r.st, false, "Create refused", "this schedule id already exists"⟩
  else
    let st := createdSchedule x ben creator
    ⟨st, true, "Created", createdDetail fin x st⟩

/-- An event: the transaction, and what is shown of it. -/
def event (hash : String) (at_ : U64) (isPrivate : Bool) (o : Outcome) : Fields :=
  [("tx", .str hash), ("at", .double at_.toNat), ("private", .bool isPrivate),
    ("what", .str o.what), ("detail", .str o.detail), ("ok", .bool o.ok)]

/-- Whether the bytes of an id are an id. -/
def asId (bytes : List U8) : Option (Bytes 32) :=
  if h : bytes.length = 32 then some ⟨bytes, h⟩ else none

/-- A public transaction of the program, decoded. -/
def replayPublic (p : Platform) (program scheduleAcc : AccountId) (fin : Schedule) (hash : String)
    (x : Ix) (rows : List (List U8)) (signer : List U8) (r : Replay) : Replay :=
  if x.tag = 0 then
    let o := replayCreation fin x x.beneficiary (rows.getD 2 []) r
    { r with
      st := o.st
      created := true
      foundSid := x.sid
      events := r.events ++ [event hash 0 false o] }
  else if x.tag = 1 then
    let member := (asId x.batch).bind fun batch =>
      findMember p program scheduleAcc batch x.beneficiaries
    let ben := (member.map Prod.fst).getD []
    let o := replayCreation fin x ben (rows.getD 1 []) r
    { r with
      st := o.st
      created := true
      foundSid := (member.map fun m => m.2.toList).getD r.foundSid
      foundBatch := (member.map fun _ => x.batch).getD r.foundBatch
      events := r.events ++ [event hash 0 false o] }
  else
    let foundSid := if x.sid = [] then r.foundSid else x.sid
    let foundBatch := if x.batch = [] then r.foundBatch else x.batch
    -- without its creation the schedule is replayed from what the chain holds
    let st :=
      if r.created then
        r.st
      else
        { fin with claimed := 0, cancelledAt := 0, signalled := 0, lastSeen := 0 }
    let r := { r with st, created := true, foundSid, foundBatch }
    match replayAct fin x rows signer st with
    | some o =>
      let at_ := if x.tag = 2 ∨ x.tag = 3 then x.at_ else 0
      { r with st := o.st, events := r.events ++ [event hash at_ false o] }
    | none => r

/-- The claim that an effect of a private transaction records, if it records one. -/
def readPrivateClaim (data : List U8) : Option (U128 × U64) :=
  let read : Reading (U8 × U128 × U64) := do
    let tag ← Reader.u8
    let _ ← Reader.bytes 32
    let _ ← Reader.bytes 32
    let _ ← readAsset Schedule.blank
    let amount ← Reader.u128v
    let at_ ← Reader.u64
    return (tag, amount, at_)
  let ((tag, amount, at_), r) := read { bytes := data, pos := 0, ok := true }
  if tag = 1 ∧ r.ok then some (amount, at_) else none

/-- A claim recorded by a private transaction has been proved, so it applied. -/
def replayPrivateClaim (fin : Schedule) (hash : String) (found : Replay × Option Fields)
    (claim : U128 × U64) : Replay × Option Fields :=
  let r := found.1
  let (amount, at_) := claim
  let st :=
    { r.st with claimed := r.st.claimed + amount, lastSeen := max r.st.lastSeen at_ }
  ({ r with st, privateSeen := true },
    some (event hash at_ true ⟨st, true, "Claimed privately",
      fmt amount ++ " " ++ unitOf fin ++ " into a shielded account"⟩))

/-- One transaction of the list. -/
def replayTx (p : Platform) (program scheduleAcc : AccountId) (fin : Schedule) (r : Replay) :
    Tx → Replay
  | .isPublic hash programAccountId instructionData shardSelectors =>
    let prog := base58 program.value.toList
    let x := decodeIx instructionData
    if programAccountId ≠ prog ∨ x.ok = false then
      r
    else
      let rows := shardSelectors.map fun row => unbase58 row.accountId
      -- the rows of this program's shard are the schedule's own and the signer's
      let handles := (shardSelectors.filter fun row =>
        row.programAccountId = prog ∧ unbase58 row.accountId ≠ scheduleAcc.value.toList).map
          fun row => unbase58 row.accountId
      replayPublic p program scheduleAcc fin hash x rows (handles.getLastD []) r
  | .privacyPreserving hash publicActions =>
    let self := base58 scheduleAcc.value.toList
    let prog := base58 program.value.toList
    let effects := (publicActions.filter fun action => action.accountId = self).flatMap
      fun action => action.effects.filter fun effect => effect.programAccountId = prog
    let claims := effects.filterMap fun effect => readPrivateClaim effect.data
    let (r, shown) := claims.foldl (replayPrivateClaim fin hash) (r, none)
    { r with events := r.events ++ shown.toList }

/-- The replay agrees with the chain on what it kept track of. -/
def Replay.agrees (r : Replay) (fin : Schedule) : Bool :=
  r.created && decide (r.st.claimed = fin.claimed) && decide (r.st.cancelledAt = fin.cancelledAt) &&
    decide (r.st.signalled = fin.signalled) && decide (r.st.beneficiary = fin.beneficiary) &&
      decide (r.st.cancelable = fin.cancelable)

/-- What the view is sent of a schedule's transactions. -/
def replayActivity (p : Platform) (txs : List Tx) (program scheduleAcc : AccountId)
    (fin : Schedule) : Fields :=
  let r := txs.foldl (replayTx p program scheduleAcc fin) Replay.start
  let consistent := r.agrees fin
  let note :=
    if r.events = [] then
      "The explorer has no transactions for this schedule yet. Its index can trail the chain " ++
        "by up to two hours."
    else if consistent then
      "Replayed against the schedule's rules; the result matches what the chain holds."
    else
      "Replaying these against the schedule's rules does not give what the chain holds, so " ++
        "some verdicts may be wrong. The explorer's index can trail the chain by up to two hours."
  [("events", .arr (r.events.map .obj)), ("consistent", .bool (consistent && !r.events.isEmpty)),
    ("note", .str note), ("private", .bool r.privateSeen)] ++
  (if r.foundSid = [] then [] else [("scheduleId", .str (idText r.foundSid))]) ++
  (if r.foundBatch = [] then [] else [("batchId", .str (idText r.foundBatch))])

end App

end Antumbra
