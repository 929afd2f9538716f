/-
# What the command line sends

A signing command reads the ids and times it was given, and for a claim or a cancellation the
schedule, and sends one instruction with the rows it needs. Unless it is forced it first checks
a claim against what is claimable, and a cancellation against what has not vested. These checks
hold back nothing that the program would take, and what passes them is refused only for what
they do not look at.
-/

import Antumbra.App.Ids
import Antumbra.Cli.Ids
import Antumbra.Cli.Send
import Antumbra.Cli.Time
import Antumbra.Vesting.Acceptance
import Antumbra.Vesting.Freeze
import Antumbra.Vesting.Refinement

namespace Antumbra

open Antumbra.Math

namespace Cli

open Vesting (Platform VestingSchedule Deployment World Asset Terms Instruction Register Rule
  Transaction AccountMeta Represents signedBy batchScheduleId scheduleAccount holdingAccount store)

/-! ### The commands -/

inductive KindArg
  | cliff
  | linear
  | milestones

structure TermsArgs where
  kind : KindArg
  start : String
  cliff : Option String
  end_ : String
  total : U128
  tranches : U32
  nonCancelable : Bool
  transferable : Bool
  cancelAuthority : Option AccountId
  milestoneAuthority : Option AccountId
  refundTo : AccountId
  /-- A token definition; none for native balance. -/
  token : Option AccountId

/-- The commands that send an instruction. -/
inductive Cmd
  | create (scheduleId : String) (beneficiary creator : AccountId) (terms : TermsArgs)
  | batch (batchId : String) (beneficiaries : List AccountId) (repeat_ : U32)
      (creator : AccountId) (terms : TermsArgs)
  | claim (scheduleId : String) (batchId : Option String) (beneficiary : AccountId) (to_ : String)
      (amount : Option U128) (at_ : String)
  | cancel (scheduleId : String) (batchId : Option String) (authority : AccountId) (at_ : String)
      (refund : Option U128)
  | makeNonCancelable (scheduleId : String) (creator : AccountId)
  | transfer (scheduleId : String) (beneficiary to_ : AccountId)
  | signal (scheduleId : String) (authority : AccountId) (index : U32)

/-- Who a command names as its signer. -/
def Cmd.signer : Cmd → AccountId
  | .create _ _ creator _ => creator
  | .batch _ _ _ creator _ => creator
  | .claim _ _ beneficiary _ _ _ => beneficiary
  | .cancel _ _ authority _ _ => authority
  | .makeNonCancelable _ creator => creator
  | .transfer _ beneficiary _ => beneficiary
  | .signal _ authority _ => authority

/-- How a command ends without a transaction. -/
inductive Failure
  | stop (stop : Stop)
  | panicked (why : Vesting.Panic)
  | undecodable
  | notAnAccount
  deriving DecidableEq, Repr

def Failure.text (text : String) : Failure := .stop (.error text)

/-- What a command reads. A time is read on the clock of its own moment, and `fromStr` is how the
platform reads the text of an account. -/
structure Ctx where
  checks : Bool
  clock : ℕ → U64
  shard : AccountId → List U8
  fromStr : String → Option AccountId
  force : Bool

/-- What a command sends: an instruction, and the rows as the wallet is to name them. -/
inductive Sending
  | sendPublic (op : String) (ix : Instruction) (mentions : List AccountMeta) (watch : Bytes 32)
  /-- The destination's row is shielded. -/
  | sendPrivate (op : String) (ix : Instruction) (custody : List AccountMeta)
      (destination : AccountId) (signer : AccountMeta) (watch : Bytes 32)

def readId (s : String) : Except Failure (Bytes 32) := (id32 s).mapError .text

def readOptionalId : Option String → Except Failure (Option (Bytes 32))
  | none => return none
  | some s => do
    let id ← readId s
    return some id

/-- The texts before and after the first such character. -/
def splitOnce (c : Char) (s : String) : Option (String × String) :=
  if c ∈ s.toList then
    some (String.ofList (s.toList.takeWhile (· ≠ c)),
      String.ofList ((s.toList.dropWhile (· ≠ c)).drop 1))
  else
    none

def assetOf (s : VestingSchedule) : Asset :=
  if s.asset = 0 then .native else .token ⟨s.tokenDefinition⟩

variable (p : Platform) (program : AccountId) (c : Ctx)

/-- The `i`-th time that was given. -/
def Ctx.time (i : ℕ) (s : String) : Except Failure U64 :=
  (Cli.time c.checks (c.clock i) s).mapError .stop

def Ctx.schedule (sid : Bytes 32) : Except Failure VestingSchedule := do
  let bytes := c.shard (scheduleAccount p program sid)
  ensure (bytes ≠ []) (.text ("no schedule at id " ++ App.toHex sid.toList))
  okOr .undecodable (Vesting.scheduleCodec.readAll bytes)

def Ctx.terms (t : TermsArgs) : Except Failure (Terms × Asset) := do
  let kind := match t.kind with
    | .cliff => 0
    | .linear => 1
    | .milestones => 2
  let start ← c.time 0 t.start
  let cliff ← match t.cliff with
    | some s => c.time 1 s
    | none => pure start
  let end_ ← c.time 2 t.end_
  let terms : Terms :=
    { kind
      start
      cliff
      end_
      total := t.total
      tranches := t.tranches
      cancelable := !t.nonCancelable
      transferable := t.transferable
      cancelAuthority := t.cancelAuthority.getD AccountId.default
      milestoneAuthority := t.milestoneAuthority.getD AccountId.default
      refundTo := t.refundTo }
  let asset := match t.token with
    | some definitionId => .token definitionId
    | none => .native
  return (terms, asset)

/-- Whether a destination is private, and its account. -/
def Ctx.destination (to_ : String) : Except Failure (Bool × AccountId) :=
  match splitOnce '/' to_ with
  | some ("Private", id) => do
    let id ← okOr .notAnAccount (c.fromStr id)
    return (true, id)
  | some ("Public", id) => do
    let id ← okOr .notAnAccount (c.fromStr id)
    return (false, id)
  | _ => throw (.text "--to is Public/<id> or Private/<id>")

/-- What a command sends, or why it sends nothing. -/
def run : Cmd → Except Failure Sending
  | .create scheduleId beneficiary creator t => do
    let sid ← readId scheduleId
    let (terms, asset) ← c.terms t
    let rows := Vesting.Rows.create p program sid asset creator
    return .sendPublic "create" (.createSchedule sid beneficiary asset terms)
      (signedBy [creator] rows) sid
  | .batch batchId beneficiaries repeat_ creator t => do
    let bid ← readId batchId
    let (terms, asset) ← c.terms t
    let bens := (List.replicate repeat_.toNat beneficiaries).flatten
    ensure (bens.length < 2 ^ 32) (.text "out of range integral type conversion attempted")
    let rows := Vesting.Rows.batch p program bid (BitVec.ofNat 32 bens.length) asset creator
    return .sendPublic ("batch[" ++ toString bens.length ++ "]")
      (.createScheduleBatch bid bens asset terms) (signedBy [creator] rows)
      (batchScheduleId p bid 0)
  | .claim scheduleId batchId beneficiary to_ amount at_ => do
    let sid ← readId scheduleId
    let bid ← readOptionalId batchId
    let s ← c.schedule p program sid
    let asset := assetOf s
    let at_ ← c.time 0 at_
    let owed ← (Vesting.claimable s at_).mapError .panicked
    let amount := amount.getD owed
    ensure (c.force ∨ ¬ (amount = 0 ∨ owed < amount)) (.text
      ("claimable at " ++ toString at_.toNat ++ " is " ++ toString owed.toNat ++
        "; refusing to send " ++ toString amount.toNat ++ " (use --force to send anyway)"))
    let ix := .claim sid bid asset amount at_
    let (isPrivate, dest) ← c.destination to_
    let rows := Vesting.Rows.claim p program sid bid asset dest beneficiary
    if isPrivate then
      return .sendPrivate "claim-private" ix (signedBy [] (rows.take 2)) dest
        ⟨beneficiary, program, true⟩ sid
    else
      return .sendPublic "claim" ix (signedBy [beneficiary] rows) sid
  | .cancel scheduleId batchId authority at_ refund => do
    let sid ← readId scheduleId
    let bid ← readOptionalId batchId
    let s ← c.schedule p program sid
    let asset := assetOf s
    let at_ ← c.time 0 at_
    let exact_ ← (Vesting.unvested s at_).mapError .panicked
    let refund := refund.getD exact_
    ensure (c.force ∨ refund = exact_) (.text
      ("the unvested part at " ++ toString at_.toNat ++ " is " ++ toString exact_.toNat ++
        "; refusing to send " ++ toString refund.toNat))
    let rows := Vesting.Rows.cancel p program sid bid asset s.refundTo authority
    return .sendPublic "cancel" (.cancel sid bid asset at_ refund) (signedBy [authority] rows) sid
  | .makeNonCancelable scheduleId creator => do
    let sid ← readId scheduleId
    return .sendPublic "make-non-cancelable" (.makeNonCancelable sid)
      (signedBy [creator] (Vesting.Rows.handle p program sid creator)) sid
  | .transfer scheduleId beneficiary to_ => do
    let sid ← readId scheduleId
    return .sendPublic "transfer" (.transferBeneficiary sid to_)
      (signedBy [beneficiary] (Vesting.Rows.handle p program sid beneficiary)) sid
  | .signal scheduleId authority index => do
    let sid ← readId scheduleId
    return .sendPublic "signal" (.signalMilestone sid index)
      (signedBy [authority] (Vesting.Rows.handle p program sid authority)) sid

/-! ### What is sent -/

variable {p program c} {cmd : Cmd} {op : String} {ix : Instruction} {rows : List AccountMeta}
  {watch : Bytes 32}

theorem selectors_signedBy (signers : List AccountId)
    (selectors : List Vesting.ProgramShardSelector) :
    (signedBy signers selectors).map AccountMeta.selector = selectors := by
  rw [signedBy, List.map_map]
  exact List.map_id selectors

/-- The row a command's signer is named in is authorised. -/
theorem signed_signedBy {signer account : AccountId}
    {selectors : List Vesting.ProgramShardSelector}
    (here : selectors[ix.signerRow]? = some ⟨signer, account⟩) :
    ix.Signed (signedBy [signer] selectors) := by
  refine ⟨Vesting.signedRow [signer] ⟨signer, account⟩, ?_,
    decide_eq_true (List.mem_singleton_self _)⟩
  rw [signedBy, List.getElem?_map, here]
  rfl

theorem Ctx.schedule_eq_ok_iff {sid : Bytes 32} {s : VestingSchedule} :
    c.schedule p program sid = .ok s ↔ c.shard (scheduleAccount p program sid) = store s := by
  simp only [Ctx.schedule, bind_eq_ok_iff, ensure_eq_ok_iff, exists_const, okOr_eq_ok_iff,
    Codec.readAll_eq_some_iff]
  exact and_iff_right_of_imp fun stored => stored ▸ Vesting.store_ne_nil s

/-- A public claim is one of an amount within what is claimable, unless it was forced. -/
theorem claim_sent {scheduleId : String} {batchId : Option String} {who : AccountId}
    {to_ time : String} {asked : Option U128} : run p program c
      (.claim scheduleId batchId who to_ asked time) = .ok (.sendPublic op ix rows watch) ↔
    ∃ sid bid s at_ owed dest, readId scheduleId = .ok sid ∧ readOptionalId batchId = .ok bid ∧
      c.shard (scheduleAccount p program sid) = store s ∧ c.time 0 time = .ok at_ ∧
        Vesting.claimable s at_ = .ok owed ∧
          (c.force = true ∨ asked.getD owed ≠ 0 ∧ asked.getD owed ≤ owed) ∧
            c.destination to_ = .ok (false, dest) ∧ op = "claim" ∧
              ix = .claim sid bid (assetOf s) (asked.getD owed) at_ ∧
                rows = signedBy [who]
                  (Vesting.Rows.claim p program sid bid (assetOf s) dest who) ∧ watch = sid := by
  simp only [run, bind_eq_ok_iff, ensure_eq_ok_iff, mapError_eq_ok_iff, Ctx.schedule_eq_ok_iff,
    not_or, BitVec.not_lt, exists_const]
  constructor
  · rintro ⟨sid, read, bid, readBatch, s, stored, at_, timed, owed, claimable, passed,
      ⟨isPrivate, dest⟩, destination, sent⟩
    cases isPrivate with
    | true => cases sent
    | false =>
      cases sent
      exact ⟨_, bid, s, at_, owed, dest, read, readBatch, stored, timed, claimable, passed,
        destination, rfl, rfl, rfl, rfl⟩
  · rintro ⟨sid, bid, s, at_, owed, dest, read, readBatch, stored, timed, claimable, passed,
      destination, rfl, rfl, rfl, rfl⟩
    exact ⟨_, read, bid, readBatch, s, stored, at_, timed, owed, claimable, passed,
      (false, dest), destination, rfl⟩

/-- A cancellation is one with the exact refund, unless it was forced. -/
theorem cancel_sent {scheduleId : String} {batchId : Option String} {who : AccountId}
    {time : String} {asked : Option U128} : run p program c
      (.cancel scheduleId batchId who time asked) = .ok (.sendPublic op ix rows watch) ↔
    ∃ sid bid s at_ rest, readId scheduleId = .ok sid ∧ readOptionalId batchId = .ok bid ∧
      c.shard (scheduleAccount p program sid) = store s ∧ c.time 0 time = .ok at_ ∧
        Vesting.unvested s at_ = .ok rest ∧ (c.force = true ∨ asked.getD rest = rest) ∧
          op = "cancel" ∧ ix = .cancel sid bid (assetOf s) at_ (asked.getD rest) ∧
            rows = signedBy [who]
              (Vesting.Rows.cancel p program sid bid (assetOf s) s.refundTo who) ∧
                watch = sid := by
  simp only [run, bind_eq_ok_iff, ensure_eq_ok_iff, mapError_eq_ok_iff, Ctx.schedule_eq_ok_iff,
    exists_const]
  constructor
  · rintro ⟨sid, read, bid, readBatch, s, stored, at_, timed, rest, unvested, passed, sent⟩
    cases sent
    exact ⟨_, bid, s, at_, rest, read, readBatch, stored, timed, unvested, passed, rfl, rfl, rfl,
      rfl⟩
  · rintro ⟨sid, bid, s, at_, rest, read, readBatch, stored, timed, unvested, passed, rfl, rfl, rfl,
      rfl⟩
    exact ⟨_, read, bid, readBatch, s, stored, at_, timed, rest, unvested, passed, rfl⟩

/-- What is sent is laid out as the program takes it, signed by the command's signer, and judged
by the schedule it is about. -/
theorem run_laid (sent : run p program c cmd = .ok (.sendPublic op ix rows watch)) :
    (∃ target, Vesting.Laid p program target cmd.signer ix (rows.map AccountMeta.selector)) ∧
      ix.Signed rows ∧ watch = watched p ix := by
  cases cmd with
  | create scheduleId beneficiary creator t =>
    simp only [run, bind_eq_ok_iff, pure_eq_ok, Except.ok.injEq] at sent
    obtain ⟨sid, -, ⟨terms, asset⟩, -, sent⟩ := sent
    cases sent
    exact ⟨⟨AccountId.default, selectors_signedBy _ _⟩, signed_signedBy rfl, rfl⟩
  | batch batchId beneficiaries repeat_ creator t =>
    simp only [run, bind_eq_ok_iff, ensure_eq_ok_iff, pure_eq_ok, Except.ok.injEq] at sent
    obtain ⟨bid, -, ⟨terms, asset⟩, -, _, few, sent⟩ := sent
    cases sent
    refine ⟨⟨AccountId.default, _, ?_, selectors_signedBy _ _⟩, signed_signedBy rfl, rfl⟩
    rw [BitVec.toNat_ofNat, Nat.mod_eq_of_lt few]
  | claim scheduleId batchId beneficiary to_ amount at_ =>
    obtain ⟨sid, bid, s, at_, owed, dest, -, -, -, -, -, -, -, -, rfl, rfl, rfl⟩ :=
      claim_sent.mp sent
    exact ⟨⟨dest, selectors_signedBy _ _⟩, signed_signedBy rfl, rfl⟩
  | cancel scheduleId batchId authority at_ refund =>
    obtain ⟨sid, bid, s, at_, rest, -, -, -, -, -, -, -, rfl, rfl, rfl⟩ := cancel_sent.mp sent
    exact ⟨⟨s.refundTo, selectors_signedBy _ _⟩, signed_signedBy rfl, rfl⟩
  | makeNonCancelable scheduleId creator =>
    simp only [run, bind_eq_ok_iff, pure_eq_ok, Except.ok.injEq] at sent
    obtain ⟨sid, -, sent⟩ := sent
    cases sent
    exact ⟨⟨AccountId.default, selectors_signedBy _ _⟩, signed_signedBy rfl, rfl⟩
  | transfer scheduleId beneficiary to_ =>
    simp only [run, bind_eq_ok_iff, pure_eq_ok, Except.ok.injEq] at sent
    obtain ⟨sid, -, sent⟩ := sent
    cases sent
    exact ⟨⟨AccountId.default, selectors_signedBy _ _⟩, signed_signedBy rfl, rfl⟩
  | signal scheduleId authority index =>
    simp only [run, bind_eq_ok_iff, pure_eq_ok, Except.ok.injEq] at sent
    obtain ⟨sid, -, sent⟩ := sent
    cases sent
    exact ⟨⟨AccountId.default, selectors_signedBy _ _⟩, signed_signedBy rfl, rfl⟩

/-! ### What becomes of it -/

open Vesting (CANCEL_WINDOW_MS OneWay)

variable {d : Deployment} {w w' : World} {l : Register} {target handle : AccountId}
  {sid : Bytes 32} {bid : Option (Bytes 32)} {asset : Asset} {s s' : VestingSchedule} {at_ : U64}

theorem assetOf_eq (hasset : asset.code = (s.asset, s.tokenDefinition)) : assetOf s = asset := by
  obtain ⟨code, definition⟩ := Prod.mk.inj hasset
  rw [assetOf, ← code, ← definition]
  cases asset <;> rfl

/-- The asset read off a record is that of every later one. -/
theorem code_assetOf {k : AccountId} (own : Vesting.Own d k s) (oneWay : OneWay s s') :
    (assetOf s).code = (s'.asset, s'.tokenDefinition) := by
  obtain ⟨-, -, asset, -, -, hasset⟩ := own
  have fixed := oneWay.fixed
  simp only [VestingSchedule.fixed, Prod.mk.injEq] at fixed
  obtain ⟨-, -, -, -, -, -, -, -, -, code, definition, -⟩ := fixed
  rw [assetOf_eq hasset, hasset, code, definition]

theorem execute_iff_rule (reachable : d.Reachable CANCEL_WINDOW_MS w) (h : Represents w l)
    (laid : Vesting.Laid d.toPlatform d.me target handle ix (rows.map AccountMeta.selector))
    (signed : ix.Signed rows) : d.execute w ⟨rows, ix⟩ = .ok w' ↔
      ∃ l', Rule d target handle l ix l' ∧ Represents w' l' := by
  rw [Vesting.execute_allowed_iff h (Vesting.sound_of_reachable reachable)]
  simp only [Vesting.allowed_iff_rule laid signed]

theorem accepts_iff_rule (reachable : d.Reachable CANCEL_WINDOW_MS w) (h : Represents w l)
    (laid : Vesting.Laid d.toPlatform d.me target handle ix (rows.map AccountMeta.selector))
    (signed : ix.Signed rows) : d.Accepts w ⟨rows, ix⟩ ↔ ∃ l', Rule d target handle l ix l' := by
  constructor
  · rintro ⟨w', accepted⟩
    obtain ⟨l', rule, -⟩ := (execute_iff_rule reachable h laid signed).mp accepted
    exact ⟨l', rule⟩
  · rintro ⟨l', rule⟩
    obtain ⟨w', represents⟩ := Vesting.exists_represented l'
    exact ⟨w', (execute_iff_rule reachable h laid signed).mpr ⟨l', rule, represents⟩⟩

/-- A claim on a stored schedule with its rows is accepted exactly on these conditions. -/
theorem accepts_claim_iff {amount : U128} (reachable : d.Reachable CANCEL_WINDOW_MS w)
    (stored : w.shard (scheduleAccount d.toPlatform d.me sid) = store s)
    (hrows : rows = signedBy [handle]
      (Vesting.Rows.claim d.toPlatform d.me sid bid asset target handle)) :
    d.Accepts w ⟨rows, .claim sid bid asset amount at_⟩ ↔ s.beneficiary = handle ∧
      s.escrow = holdingAccount d.toPlatform d.me (bid.getD sid) ∧
        asset.code = (s.asset, s.tokenDefinition) ∧ 0 < amount ∧ at_ ≤ w.now ∧
          s.claimed.toNat + amount.toNat ≤ s.accrued at_.toNat := by
  obtain ⟨l, represents⟩ := Vesting.exists_represents (Vesting.kept_of_reachable reachable)
  have recorded := represents.stored_iff.mp stored
  have laid : Vesting.Laid d.toPlatform d.me target handle (.claim sid bid asset amount at_)
      (rows.map AccountMeta.selector) := hrows ▸ selectors_signedBy _ _
  rw [accepts_iff_rule reachable represents laid (hrows ▸ signed_signedBy rfl), represents.now]
  constructor
  · rintro ⟨l', rule⟩
    cases rule with
    | claim stored beneficiary escrow hasset positive inTime earned =>
      obtain rfl := Option.some.inj (recorded.symm.trans stored)
      exact ⟨beneficiary, escrow, hasset, positive, inTime, earned⟩
  · rintro ⟨beneficiary, escrow, hasset, positive, inTime, earned⟩
    exact ⟨_, .claim recorded beneficiary escrow hasset positive inTime earned⟩

/-- A cancellation of a stored schedule with its rows is accepted exactly on these conditions. -/
theorem accepts_cancel_iff {refund : U128} (reachable : d.Reachable CANCEL_WINDOW_MS w)
    (stored : w.shard (scheduleAccount d.toPlatform d.me sid) = store s)
    (hrows : rows = signedBy [handle]
      (Vesting.Rows.cancel d.toPlatform d.me sid bid asset target handle)) :
    d.Accepts w ⟨rows, .cancel sid bid asset at_ refund⟩ ↔ s.cancelAuthority = handle ∧
      s.cancelable ≠ 0 ∧ s.cancelledAt = 0 ∧ s.refundTo = target ∧
        s.escrow = holdingAccount d.toPlatform d.me (bid.getD sid) ∧
          asset.code = (s.asset, s.tokenDefinition) ∧
            at_.toNat + CANCEL_WINDOW_MS.toNat < 2 ^ 64 ∧
              (at_ ≤ w.now ∧ w.now.toNat < at_.toNat + CANCEL_WINDOW_MS.toNat) ∧
                s.lastSeen ≤ at_ ∧ refund.toNat = s.total.toNat - s.accrued at_.toNat := by
  obtain ⟨l, represents⟩ := Vesting.exists_represents (Vesting.kept_of_reachable reachable)
  have recorded := represents.stored_iff.mp stored
  have laid : Vesting.Laid d.toPlatform d.me target handle (.cancel sid bid asset at_ refund)
      (rows.map AccountMeta.selector) := hrows ▸ selectors_signedBy _ _
  rw [accepts_iff_rule reachable represents laid (hrows ▸ signed_signedBy rfl), represents.now]
  constructor
  · rintro ⟨l', rule⟩
    cases rule with
    | cancel stored authority cancelable live refundTo escrow hasset fits inTime forward rest =>
      obtain rfl := Option.some.inj (recorded.symm.trans stored)
      exact ⟨authority, cancelable, live, refundTo, escrow, hasset, fits, inTime, forward, rest⟩
  · rintro ⟨authority, cancelable, live, refundTo, escrow, hasset, fits, inTime, forward, rest⟩
    exact ⟨_, .cancel recorded authority cancelable live refundTo escrow hasset fits inTime forward
      rest⟩

/-- While nothing is claimed and the schedule is not cancelled in between, the claim is refused
only for its holder, its escrow or its time. -/
def ClaimLands (d : Deployment) (w w' : World) (who : AccountId) (ix : Instruction)
    (rows : List AccountMeta) : Prop :=
  ∃ sid bid asset amount at_ s s', ix = .claim sid bid asset amount at_ ∧
    w.shard (scheduleAccount d.toPlatform d.me sid) = store s ∧
      w'.shard (scheduleAccount d.toPlatform d.me sid) = store s' ∧
        (s'.claimed = s.claimed → s'.cancelledAt = s.cancelledAt → (d.Accepts w' ⟨rows, ix⟩ ↔
          s'.beneficiary = who ∧ s'.escrow = holdingAccount d.toPlatform d.me (bid.getD sid) ∧
            at_ ≤ w'.now))

/-- While no milestone is signalled in between, the cancellation is refused only for its
authority, its escrow or its time, or as not possible any more. -/
def CancelLands (d : Deployment) (w w' : World) (who : AccountId) (ix : Instruction)
    (rows : List AccountMeta) : Prop :=
  ∃ sid bid asset at_ refund s s', ix = .cancel sid bid asset at_ refund ∧
    w.shard (scheduleAccount d.toPlatform d.me sid) = store s ∧
      w'.shard (scheduleAccount d.toPlatform d.me sid) = store s' ∧
        (s'.signalled = s.signalled → (d.Accepts w' ⟨rows, ix⟩ ↔
          s'.cancelAuthority = who ∧ s'.cancelable ≠ 0 ∧ s'.cancelledAt = 0 ∧
            s'.escrow = holdingAccount d.toPlatform d.me (bid.getD sid) ∧
              at_.toNat + CANCEL_WINDOW_MS.toNat < 2 ^ 64 ∧
                (at_ ≤ w'.now ∧ w'.now.toNat < at_.toNat + CANCEL_WINDOW_MS.toNat) ∧
                  s'.lastSeen ≤ at_))

/-- What its check promises of a command sent from one state and judged in another. -/
def Cmd.Lands (d : Deployment) (w w' : World) (ix : Instruction) (rows : List AccountMeta) :
    Cmd → Prop
  | .claim _ _ beneficiary _ _ _ => ClaimLands d w w' beneficiary ix rows
  | .cancel _ _ authority _ _ => CancelLands d w w' authority ix rows
  | _ => True

theorem claim_lands {scheduleId : String} {batchId : Option String} {who : AccountId}
    {to_ time : String} {asked : Option U128} (reachable : d.Reachable CANCEL_WINDOW_MS w)
    (later : Relation.ReflTransGen d.Step w w') (reads : c.shard = w.shard)
    (unforced : c.force = false) (sent : run d.toPlatform d.me c
      (.claim scheduleId batchId who to_ asked time) = .ok (.sendPublic op ix rows watch)) :
    ClaimLands d w w' who ix rows := by
  obtain ⟨sid, bid, s, at_, owed, dest, -, -, stored, -, hclaimable, passed, -, -, rfl, hrows, -⟩ :=
    claim_sent.mp sent
  rw [reads] at stored
  obtain ⟨nonzero, covered⟩ := passed.resolve_left fun forced => by
    rw [unforced] at forced
    cases forced
  obtain ⟨reached, s', stored', oneWay⟩ := Vesting.record_run reachable later stored
  refine ⟨sid, bid, assetOf s, asked.getD owed, at_, s, s', rfl, stored, stored',
    fun claimed same => ?_⟩
  obtain ⟨valid, -, own⟩ := (Vesting.kept_of_reachable reachable).record stored
  have hasset := code_assetOf own oneWay
  have positive := toNat_pos_iff.mp nonzero
  -- and what was claimable is still earned, and not claimed
  have earned : s'.claimed.toNat + (asked.getD owed).toNat ≤ s'.accrued at_.toNat := by
    have value := (Vesting.claimable_eq_ok_iff valid.wellFormed).mp hclaimable
    have grown := Vesting.accrued_signal_le oneWay.gains at_.toNat
    rw [← oneWay.accrued_signalled same] at grown
    rw [BitVec.le_def] at covered
    rw [claimed]
    omega
  rw [accepts_claim_iff reached stored' hrows]
  exact ⟨fun ⟨beneficiary, escrow, _, _, inTime, _⟩ => ⟨beneficiary, escrow, inTime⟩,
    fun ⟨beneficiary, escrow, inTime⟩ => ⟨beneficiary, escrow, hasset,
      BitVec.lt_def.mpr positive, inTime, earned⟩⟩

theorem cancel_lands {scheduleId : String} {batchId : Option String} {who : AccountId}
    {time : String} {asked : Option U128} (reachable : d.Reachable CANCEL_WINDOW_MS w)
    (later : Relation.ReflTransGen d.Step w w') (reads : c.shard = w.shard)
    (unforced : c.force = false) (sent : run d.toPlatform d.me c
      (.cancel scheduleId batchId who time asked) = .ok (.sendPublic op ix rows watch)) :
    CancelLands d w w' who ix rows := by
  obtain ⟨sid, bid, s, at_, rest, -, -, stored, -, hunvested, passed, -, rfl, hrows, -⟩ :=
    cancel_sent.mp sent
  rw [reads] at stored
  have exactly := passed.resolve_left fun forced => by
    rw [unforced] at forced
    cases forced
  obtain ⟨reached, s', stored', oneWay⟩ := Vesting.record_run reachable later stored
  refine ⟨sid, bid, assetOf s, at_, asked.getD rest, s, s', rfl, stored, stored',
    fun signalled => ?_⟩
  obtain ⟨valid, -, own⟩ := (Vesting.kept_of_reachable reachable).record stored
  have hasset := code_assetOf own oneWay
  have fixed := oneWay.fixed
  simp only [VestingSchedule.fixed, Prod.mk.injEq] at fixed
  obtain ⟨-, -, -, -, total, -, -, -, -, -, -, refundTo, -⟩ := fixed
  -- a schedule that is still live has earned what it had when the check was made
  have remaining (live : s'.cancelledAt = 0) :
      (asked.getD rest).toNat = s'.total.toNat - s'.accrued at_.toNat := by
    have same := oneWay.cancelledAt.resolve_right fun stopped => stopped.2 live
    rw [exactly, (Vesting.unvested_eq_ok_iff valid.wellFormed (same.symm.trans live)).mp hunvested,
      oneWay.accrued_signalled same, signalled, total]
  rw [accepts_cancel_iff reached stored' hrows]
  constructor
  · rintro ⟨authority, cancelable, live, -, escrow, -, fits, inTime, forward, -⟩
    exact ⟨authority, cancelable, live, escrow, fits, inTime, forward⟩
  · rintro ⟨authority, cancelable, live, escrow, fits, inTime, forward⟩
    exact ⟨authority, cancelable, live, refundTo, escrow, hasset, fits, inTime, forward,
      remaining live⟩

/-- The checks hold back nothing that the program would take. -/
theorem unforced_sent (reachable : d.Reachable CANCEL_WINDOW_MS w) (reads : c.shard = w.shard)
    (sent : run d.toPlatform d.me c cmd = .ok (.sendPublic op ix rows watch))
    (accepted : d.Accepts w ⟨rows, ix⟩) :
    run d.toPlatform d.me { c with force := false } cmd =
      .ok (.sendPublic op ix rows watch) := by
  cases cmd with
  | claim scheduleId batchId who to_ asked time =>
    obtain ⟨sid, bid, s, at_, owed, dest, read, readBatch, stored, timed, hclaimable, -,
      destination, rfl, rfl, hrows, rfl⟩ := claim_sent.mp sent
    obtain ⟨valid, -, -⟩ :=
      (Vesting.kept_of_reachable reachable).record (reads ▸ stored)
    obtain ⟨-, -, -, positive, -, earned⟩ :=
      (accepts_claim_iff reachable (reads ▸ stored) hrows).mp accepted
    have value := (Vesting.claimable_eq_ok_iff valid.wellFormed).mp hclaimable
    refine claim_sent.mpr ⟨_, bid, s, at_, owed, dest, read, readBatch, stored, timed,
      hclaimable, .inr ⟨toNat_pos_iff.mpr (BitVec.lt_def.mp positive), ?_⟩, destination, rfl, rfl,
        hrows, rfl⟩
    rw [BitVec.le_def]
    omega
  | cancel scheduleId batchId who time asked =>
    obtain ⟨sid, bid, s, at_, rest, read, readBatch, stored, timed, hunvested, -, rfl, rfl, hrows,
      rfl⟩ := cancel_sent.mp sent
    obtain ⟨valid, -, -⟩ :=
      (Vesting.kept_of_reachable reachable).record (reads ▸ stored)
    obtain ⟨-, -, live, -, -, -, -, -, -, remaining⟩ :=
      (accepts_cancel_iff reachable (reads ▸ stored) hrows).mp accepted
    have value := (Vesting.unvested_eq_ok_iff valid.wellFormed live).mp hunvested
    exact cancel_sent.mpr ⟨_, bid, s, at_, rest, read, readBatch, stored, timed, hunvested,
      .inr (word_ext (remaining.trans value.symm)), rfl, rfl, hrows, rfl⟩
  | _ => exact sent

/-- What a command sends is judged by the schedule it reads before and after, and is laid out and
signed so that in every later state it lands exactly as the rule book allows its instruction to
the command's signer. Its check holds back nothing that the program would take, and a claim or a
cancellation that passed it is refused later only for what it does not look at. -/
theorem commands_land (d : Deployment) (w w' : World) (c : Ctx) (cmd : Cmd) (op : String)
    (ix : Instruction) (rows : List AccountMeta) (watch : Bytes 32)
    (reachable : d.Reachable CANCEL_WINDOW_MS w) (later : Relation.ReflTransGen d.Step w w')
    (reads : c.shard = w.shard)
    (sent : run d.toPlatform d.me c cmd = .ok (.sendPublic op ix rows watch)) :
    watch = watched d.toPlatform ix ∧
    (∃ target, ∀ l w'', Represents w' l → (d.execute w' ⟨rows, ix⟩ = .ok w'' ↔
      ∃ l', Rule d target cmd.signer l ix l' ∧ Represents w'' l')) ∧
    (d.Accepts w ⟨rows, ix⟩ → run d.toPlatform d.me { c with force := false } cmd =
      .ok (.sendPublic op ix rows watch)) ∧
    (c.force = false → cmd.Lands d w w' ix rows) := by
  obtain ⟨⟨target, laid⟩, signed, judged⟩ := run_laid sent
  have reached : d.Reachable CANCEL_WINDOW_MS w' := by
    obtain ⟨w₀, start, before⟩ := reachable
    exact ⟨w₀, start, before.trans later⟩
  refine ⟨judged, ⟨target, fun l w'' represents => execute_iff_rule reached represents laid signed⟩,
    unforced_sent reachable reads sent, fun unforced => ?_⟩
  cases cmd with
  | claim => exact claim_lands reachable later reads unforced sent
  | cancel => exact cancel_lands reachable later reads unforced sent
  | _ => trivial

namespace Sample

open Vesting.Sample (account batchId chain deployment)

/-- A client of the sample chain, with one account it can read. -/
def client : Ctx where
  checks := true
  clock _ := 1700000900000
  shard := chain.shard
  fromStr s := if s = "4" then some (account 4) else none
  force := false

def firstId : Bytes 32 := batchScheduleId deployment.toPlatform batchId 0

/-- A claim of all there is on the first schedule of the sample batch. -/
def claimAll : Cmd :=
  .claim (App.toHex firstId.toList) (some (App.toHex batchId.toList)) (account 2) "Public/4" none
    "now"

theorem claimAll_sent : run deployment.toPlatform deployment.me client claimAll =
    .ok (.sendPublic "claim" (.claim firstId (some batchId) .native 300 1700000900000)
      (signedBy [account 2] (Vesting.Rows.claim deployment.toPlatform deployment.me firstId
        (some batchId) .native (account 4) (account 2))) firstId) := by
  have ids (id : Bytes 32) : readId (App.toHex id.toList) = .ok id := by
    rw [readId, App.id32_toHex]
    rfl
  have batch : readOptionalId (some (App.toHex batchId.toList)) = .ok (some batchId) := by
    rw [readOptionalId, ids]
    rfl
  exact claim_sent.mpr ⟨firstId, some batchId, _, 1700000900000, 300, account 4, ids firstId, batch,
    Vesting.Sample.stored_first, by decide, by decide +kernel, .inr (by decide), by decide, rfl,
    rfl, rfl, rfl⟩

end Sample

open Vesting.Sample (deployment chain) in
/-- The claim of all there is on the first schedule of the sample batch is accepted. -/
theorem commands_land_sample : ∃ op ix rows watch,
    run deployment.toPlatform deployment.me Sample.client Sample.claimAll =
      .ok (.sendPublic op ix rows watch) ∧ deployment.Accepts chain ⟨rows, ix⟩ := by
  obtain ⟨-, -, -, lands⟩ := commands_land deployment chain chain Sample.client Sample.claimAll _ _
    _ _ Vesting.Sample.reachable_chain .refl rfl Sample.claimAll_sent
  obtain ⟨sid, bid, asset, amount, at_, s, s', same, stored, stored', verdict⟩ := lands rfl
  cases same
  obtain rfl := Vesting.store_injective (stored.symm.trans stored')
  obtain rfl := Vesting.store_injective (stored.symm.trans Vesting.Sample.stored_first)
  exact ⟨_, _, _, _, Sample.claimAll_sent, (verdict rfl rfl).mpr (by decide +kernel)⟩

end Cli

end Antumbra
