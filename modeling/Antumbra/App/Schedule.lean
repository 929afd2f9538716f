/-
# The app's schedule

The app reads a stored schedule off the chain's bytes, computes what has vested with a
rule of its own, and shows the result as JSON. Its division never forms a product
beyond 128 bits: it multiplies the quotient and the remainder of the total apart.
-/

import Antumbra.Math.Bits
import Antumbra.Math.Reading
import Mathlib.Data.Nat.Digits.Defs

namespace Antumbra

open Antumbra.Math

namespace App

/-! ### Reading borsh -/

namespace Reader

def u8 : Reading U8 := Reading.field 1 (fun bs => bs.headD 0) 0
def u32 : Reading U32 := Reading.field 4 (Reading.shiftIn 32) 0
def u64 : Reading U64 := Reading.field 8 (Reading.shiftIn 64) 0
def u128v : Reading U128 := Reading.field 16 (Reading.shiftIn 128) 0
def bytes (n : ℕ) : Reading (List U8) := Reading.field n id []

end Reader

/-- A schedule as the app holds it. -/
structure Schedule where
  /-- 0 is cliff and linear, 1 linear, 2 milestones. -/
  kind : U8
  start : U64
  cliff : U64
  end_ : U64
  total : U128
  claimed : U128
  lastSeen : U64
  beneficiary : List U8
  escrow : List U8
  creator : List U8
  cancelable : U8
  transferable : U8
  cancelledAt : U64
  signalled : U64
  tranches : U32
  /-- 0 native, 1 token. -/
  asset : U8
  tokenDefinition : List U8
  refundTo : List U8
  cancelAuthority : List U8
  milestoneAuthority : List U8
  deriving DecidableEq

def kScheduleLen : ℕ := 312

/-- The fields of a stored schedule in their order. -/
def readSchedule : Reading Schedule := do
  let kind ← Reader.u8
  let start ← Reader.u64
  let cliff ← Reader.u64
  let end_ ← Reader.u64
  let total ← Reader.u128v
  let claimed ← Reader.u128v
  let lastSeen ← Reader.u64
  let beneficiary ← Reader.bytes 32
  let escrow ← Reader.bytes 32
  let creator ← Reader.bytes 32
  let cancelable ← Reader.u8
  let transferable ← Reader.u8
  let cancelledAt ← Reader.u64
  let signalled ← Reader.u64
  let tranches ← Reader.u32
  let asset ← Reader.u8
  let tokenDefinition ← Reader.bytes 32
  let refundTo ← Reader.bytes 32
  let cancelAuthority ← Reader.bytes 32
  let milestoneAuthority ← Reader.bytes 32
  return {
    kind, start, cliff, end_, total, claimed, lastSeen, beneficiary, escrow, creator, cancelable
    transferable, cancelledAt, signalled, tranches, asset, tokenDefinition, refundTo
    cancelAuthority, milestoneAuthority }

/-- Nothing when the bytes are not a schedule. -/
def decodeSchedule (b : List U8) : Option Schedule :=
  if b.length ≠ kScheduleLen then
    none
  else
    let (s, r) := readSchedule { bytes := b, pos := 0, ok := true }
    if r.ok ∧ r.pos = b.length ∧ s.kind ≤ 2 then some s else none

/-! ### What has vested -/

/-- `floor (a * n / d)` for `n < d`, without a product beyond the word. -/
def mulDivFloor (a n d : U128) : U128 := (a / d) * n + ((a % d) * n) / d

/-- What has vested by `now`. -/
def vestedAt (s : Schedule) (now : U64) : U128 :=
  if s.kind = 2 then
    if s.tranches = 0 then
      0
    else
      let done := countOnes s.signalled
      -- `int (tranches)`: from `2 ^ 31` on the count is negative
      if s.tranches.toInt ≤ done then
        s.total
      else
        mulDivFloor s.total (BitVec.ofNat 128 done) (s.tranches.setWidth 128)
  else
    let t := if s.cancelledAt ≠ 0 then min now s.cancelledAt else now
    if s.kind = 0 ∧ t < s.cliff then
      0
    else if t ≤ s.start then
      0
    else if s.end_ ≤ t then
      s.total
    else
      mulDivFloor s.total ((t - s.start).setWidth 128) ((s.end_ - s.start).setWidth 128)

/-! ### Texts -/

/-- The decimal text of an amount: the loop divides by ten until nothing is left. -/
def dec (v : U128) : String :=
  if v = 0 then
    "0"
  else
    String.ofList ((Nat.digits 10 v.toNat).reverse.map fun d => Char.ofNat ('0'.toNat + d))

def kAlphabet : List Char :=
  "123456789ABCDEFGHJKLMNPQRSTUVWXYZabcdefghijkmnopqrstuvwxyz".toList

/-- Multiply base-58 digits, low end first, by 256 and add a carry: the digits and what
is carried out. -/
def base58Carry (carry : ℕ) : List ℕ → List ℕ × ℕ
  | [] => ([], carry)
  | d :: digits =>
    let carry := carry + d * 256
    let (rest, out) := base58Carry (carry / 58) digits
    (carry % 58 :: rest, out)

/-- The base-58 digits of a string of bytes, low end first. -/
def base58Digits (bytes : List U8) : List ℕ :=
  bytes.foldl
    (fun digits c =>
      let (digits, carry) := base58Carry c.toNat digits
      digits ++ Nat.digits 58 carry)
    []

/-- One `1` for every leading zero byte, then the digits from the high end. -/
def base58 (bytes : List U8) : String :=
  String.ofList (List.replicate (bytes.takeWhile (· = 0)).length '1' ++
    (base58Digits bytes).reverse.map fun d => kAlphabet.getD d '1')

def shortKey (k : String) : String :=
  if 10 < k.length then
    String.ofList (k.toList.take 4 ++ Char.ofNat 0x2026 :: k.toList.drop (k.length - 4))
  else
    k

def unitOf (s : Schedule) : String := if s.asset = 1 then "tokens" else "LGO"

/-! ### The view's JSON -/

/-- What the view is sent. -/
inductive Json
  | str (text : String)
  | int (value : ℤ)
  /-- The double nearest to the number. -/
  | double (value : ℕ)
  | bool (value : Bool)
  | arr (items : List Json)
  | obj (fields : List (String × Json))

def chip (text tone : String) : Json := .obj [("text", .str text), ("tone", .str tone)]

/-- Which of a schedule's milestones are signalled, as far as its tranches go. -/
def litTranches (s : Schedule) : List Bool :=
  (List.range (min s.tranches.toNat 64)).map fun i => s.signalled.getLsbD i

/-- The state a schedule is in, and the tone it is shown in. -/
def stateAndTone (s : Schedule) (now : U64) : String × String :=
  let signalledCount := (litTranches s).count true
  if s.cancelledAt ≠ 0 then
    ("Cancelled", "bad")
  else if 0 < s.total ∧ s.claimed = s.total then
    ("Fully claimed", "dim")
  else if s.kind = 2 then
    if (signalledCount : ℤ) = s.tranches.toInt then
      ("All milestones signalled", "ok")
    else
      (toString signalledCount ++ " of " ++ toString s.tranches.toNat ++ " signalled", "accent")
  else if now < s.start then
    ("Not started", "dim")
  else if s.kind = 0 ∧ now < s.cliff then
    ("Before the cliff", "warn")
  else if now < s.end_ then
    ("Vesting", "accent")
  else
    ("Fully vested", "ok")

def kindLabel (s : Schedule) : String :=
  if s.kind = 0 then "Cliff + linear" else if s.kind = 1 then "Linear" else "Milestones"

/-- The status chips of a schedule. -/
def statusChips (s : Schedule) (now : U64) : List Json :=
  let (state, tone) := stateAndTone s now
  [chip state tone, chip (kindLabel s) "dim",
    chip (if s.asset = 1 then "Token " ++ shortKey (base58 s.tokenDefinition) else "Native LGO")
      "dim"] ++
  (if s.cancelledAt = 0 then
    [if s.cancelable ≠ 0 then chip "Cancelable" "warn" else chip "Non-cancelable" "ok"]
  else
    []) ++
  [chip (if s.transferable ≠ 0 then "Transferable" else "Not transferable") "dim"]

/-- The view's JSON for a schedule. -/
def scheduleJson (s : Schedule) (now : U64) : List (String × Json) :=
  let vested := vestedAt s now
  let claimable := if s.claimed < vested then vested - s.claimed else 0
  let (state, tone) := stateAndTone s now
  [("kind", .int s.kind.toNat), ("kindLabel", .str (kindLabel s)),
    ("start", .double s.start.toNat), ("cliff", .double s.cliff.toNat),
    ("end", .double s.end_.toNat), ("cancelledAt", .double s.cancelledAt.toNat),
    ("lastSeen", .double s.lastSeen.toNat), ("total", .str (dec s.total)),
    ("claimed", .str (dec s.claimed)), ("vested", .str (dec vested)),
    ("claimable", .str (dec claimable)), ("unvested", .str (dec (s.total - vested))),
    ("totalF", .double s.total.toNat), ("claimedF", .double s.claimed.toNat),
    ("vestedF", .double vested.toNat),
    ("perTranche", .str (if s.tranches ≠ 0 then dec (s.total / s.tranches.setWidth 128) else "0")),
    ("tranches", .arr ((litTranches s).map .bool)),
    ("signalledCount", .int ((litTranches s).count true)),
    ("cancelable", .bool (s.cancelable ≠ 0)), ("transferable", .bool (s.transferable ≠ 0)),
    ("asset", .str (if s.asset = 1 then "token" else "native")), ("unit", .str (unitOf s)),
    ("tokenDefinition", .str (if s.asset = 1 then base58 s.tokenDefinition else "")),
    ("beneficiary", .str (base58 s.beneficiary)), ("creator", .str (base58 s.creator)),
    ("escrow", .str (base58 s.escrow)), ("refundTo", .str (base58 s.refundTo)),
    ("cancelAuthority", .str (base58 s.cancelAuthority)),
    ("milestoneAuthority", .str (base58 s.milestoneAuthority)), ("state", .str state),
    ("tone", .str tone), ("chips", .arr (statusChips s now)), ("now", .double now.toNat)]

end App

end Antumbra
