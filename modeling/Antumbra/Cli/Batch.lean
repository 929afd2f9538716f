/-
# Showing a batch

`show --batch` reads the schedules of a batch in the order of their index and stops at
the first id with no schedule. It prints a line for each and then the totals.
-/

import Antumbra.Math.Scan
import Antumbra.Vesting.Batch

namespace Antumbra

open Antumbra.Math

namespace Cli

open Vesting (Platform VestingSchedule Panic batchScheduleId scheduleAccount holdingAccount store)

/-- A schedule of the batch, as it is printed. -/
structure Line where
  index : U32
  scheduleId : Bytes 32
  schedule : AccountId
  beneficiary : AccountId
  total : U128
  claimed : U128
  vested : U128
  claimable : U128
  cancelledAt : U64

/-- The batch's totals, as they are printed. -/
structure Summary where
  batchId : Bytes 32
  holding : AccountId
  schedules : U32
  total : U128
  claimed : U128
  claimable : U128
  clock : U64

inductive ShowError
  | undecodable
  | panicked (why : Panic)
  | noSchedule
  deriving DecidableEq, Repr

/-- What the loop carries: the lines printed so far and three sums. -/
structure Totals where
  lines : List Line
  total : U128
  claimed : U128
  owed : U128

def BATCH_SCAN_LIMIT : ℕ := 4096

/-- A sum that leaves its word stops a build that checks and wraps in one that does not. -/
def addTo (checks : Bool) (sum v : U128) : Except ShowError U128 :=
  match checkedAdd sum v with
  | some sum => .ok sum
  | none => if checks then .error (.panicked .arithmetic) else .ok (sum + v)

variable (checks : Bool) (p : Platform) (program : AccountId) (shard : AccountId → List U8)

/-- One schedule: its line, and what it adds to the totals. -/
def showMember (bid : Bytes 32) (now : U64) (n : ℕ) (bytes : List U8) (sums : Totals) :
    Except ShowError Totals := do
  let sid := batchScheduleId p bid (BitVec.ofNat 32 n)
  let s ← okOr .undecodable (Vesting.scheduleCodec.readAll bytes)
  let c ← (Vesting.claimable s now).mapError .panicked
  let v ← (Vesting.vested s now).mapError .panicked
  let line : Line :=
    { index := BitVec.ofNat 32 n
      scheduleId := sid
      schedule := scheduleAccount p program sid
      beneficiary := s.beneficiary
      total := s.total
      claimed := s.claimed
      vested := v
      claimable := c
      cancelledAt := s.cancelledAt }
  -- the sums of a batch that exists never leave their words
  let total ← addTo checks sums.total s.total
  let claimed ← addTo checks sums.claimed s.claimed
  let owed ← addTo checks sums.owed c
  return { lines := sums.lines ++ [line], total, claimed, owed }

/-- The loop from index `n` on, with `remaining` indices left below the limit. -/
def showMembers (bid : Bytes 32) (now : U64) : (remaining n : ℕ) → Totals →
    Except ShowError (ℕ × Totals)
  | 0, n, sums => .ok (n, sums)
  | remaining + 1, n, sums =>
    let bytes := shard (scheduleAccount p program (batchScheduleId p bid (BitVec.ofNat 32 n)))
    if bytes = [] then
      .ok (n, sums)
    else do
      let sums ← showMember checks p program bid now n bytes sums
      showMembers bid now remaining (n + 1) sums

/-- The line with the totals of `n` schedules. -/
def summary (bid : Bytes 32) (now : U64) (n : ℕ) (sums : Totals) : Summary where
  batchId := bid
  holding := holdingAccount p program bid
  schedules := BitVec.ofNat 32 n
  total := sums.total
  claimed := sums.claimed
  claimable := sums.owed
  clock := now

/-- Every schedule of a batch, and then the batch's totals. -/
def showBatch (bid : Bytes 32) (now : U64) : Except ShowError (List Line × Summary) := do
  let (n, sums) ← showMembers checks p program shard bid now BATCH_SCAN_LIMIT 0 ⟨[], 0, 0, 0⟩
  ensure (n ≠ 0) .noSchedule
  return (sums.lines, summary p program bid now n sums)

variable {checks p program shard} {bid : Bytes 32} {now : U64} {n : ℕ} {s : VestingSchedule}

/-! ### What is printed -/

/-- The line printed for a record. -/
structure Prints (p : Platform) (program : AccountId) (bid : Bytes 32) (now : U64) (n : ℕ)
    (s : VestingSchedule) (line : Line) : Prop where
  index : line.index = BitVec.ofNat 32 n
  scheduleId : line.scheduleId = batchScheduleId p bid (BitVec.ofNat 32 n)
  schedule : line.schedule = scheduleAccount p program line.scheduleId
  beneficiary : line.beneficiary = s.beneficiary
  total : line.total = s.total
  claimed : line.claimed = s.claimed
  vested : Vesting.vested s now = .ok line.vested
  claimable : Vesting.claimable s now = .ok line.claimable
  cancelledAt : line.cancelledAt = s.cancelledAt

/-- The sums so far: what was claimed or can be claimed is part of the total. -/
structure Totals.Sound (sums : Totals) : Prop where
  claimed_le : sums.claimed.toNat ≤ sums.total.toNat
  owed_le : sums.owed.toNat ≤ sums.total.toNat

theorem empty_sound : Totals.Sound ⟨[], 0, 0, 0⟩ :=
  ⟨Nat.le_refl _, Nat.le_refl _⟩

theorem addTo_of_fits {sum v : U128} (fits : sum.toNat + v.toNat < 2 ^ 128) :
    addTo checks sum v = .ok (sum + v) := by
  rw [addTo, checkedAdd_eq_some_iff_fits.mpr ⟨fits, rfl⟩]

theorem showMember_ok (checks : Bool) (p : Platform) (program : AccountId) (bid : Bytes 32)
    (now : U64) (n : ℕ) (valid : Vesting.Valid s) {sums : Totals} (sound : sums.Sound)
    (fits : sums.total.toNat + s.total.toNat < 2 ^ 128) :
    ∃ line sums', showMember checks p program bid now n (store s) sums = .ok sums' ∧
      sums'.lines = sums.lines ++ [line] ∧ Prints p program bid now n s line ∧ sums'.Sound ∧
        sums'.total.toNat = sums.total.toNat + s.total.toNat := by
  obtain ⟨v, vested, value⟩ := Vesting.exists_vested valid.wellFormed now
  obtain ⟨c, claimable⟩ := Vesting.exists_claimable valid.wellFormed now
  have owed := (Vesting.claimable_eq_ok_iff valid.wellFormed).mp claimable
  have le := valid.wellFormed.accrued_le now.toNat
  have claimed_le := valid.claimed_le
  obtain ⟨claimed_sum, owed_sum⟩ := sound
  have read : Vesting.scheduleCodec.readAll (store s) = some s :=
    Codec.readAll_encode _ s
  -- claimed and claimable amounts are parts of the total, and so are their sums
  have totals := @addTo_of_fits checks _ _ fits
  have claims := @addTo_of_fits checks sums.claimed s.claimed (by omega)
  have owes := @addTo_of_fits checks sums.owed c (by omega)
  simp only [showMember, bind_eq_ok_iff, mapError_eq_ok_iff, okOr_eq_ok_iff, pure_eq_ok,
    Except.ok.injEq]
  refine ⟨_, _, ⟨s, read, c, claimable, v, vested, _, totals, _, claims, _, owes, rfl⟩, rfl,
    ⟨rfl, rfl, rfl, rfl, rfl, rfl, vested, claimable, rfl⟩, ⟨?_, ?_⟩, BitVec.toNat_add_of_lt fits⟩
  · dsimp only
    rw [BitVec.toNat_add_of_lt fits, BitVec.toNat_add_of_lt (by omega)]
    omega
  · dsimp only
    rw [BitVec.toNat_add_of_lt fits, BitVec.toNat_add_of_lt (by omega)]
    omega

/-! ### The loop -/

/-- The bytes at the address of an index, if there are any. -/
def slotBytes (p : Platform) (program : AccountId) (shard : AccountId → List U8) (bid : Bytes 32)
    (n : ℕ) : Option (List U8) :=
  let bytes := shard (scheduleAccount p program (batchScheduleId p bid (BitVec.ofNat 32 n)))
  if bytes = [] then none else some bytes

theorem slotBytes_eq_none_iff : slotBytes p program shard bid n = none ↔
    shard (scheduleAccount p program (batchScheduleId p bid (BitVec.ofNat 32 n))) = [] := by
  simp [slotBytes]

theorem slotBytes_eq_some_iff {bytes : List U8} :
    slotBytes p program shard bid n = some bytes ↔
      shard (scheduleAccount p program (batchScheduleId p bid (BitVec.ofNat 32 n))) ≠ [] ∧
        shard (scheduleAccount p program (batchScheduleId p bid (BitVec.ofNat 32 n))) = bytes := by
  simp [slotBytes]

theorem length_showMember {bytes : List U8} {sums sums' : Totals}
    (h : showMember checks p program bid now n bytes sums = .ok sums') :
    sums'.lines.length = sums.lines.length + 1 := by
  simp only [showMember, bind_eq_ok_iff, mapError_eq_ok_iff, okOr_eq_ok_iff, pure_eq_ok,
    Except.ok.injEq] at h
  obtain ⟨_, -, _, -, _, -, _, -, _, -, _, -, rfl⟩ := h
  rw [List.length_append, List.length_singleton]

/-- What the loop prints, where it answers, is what a scan of the slots finds. -/
theorem length_showMembers {remaining n' : ℕ} {sums sums' : Totals}
    (h : showMembers checks p program shard bid now remaining n sums = .ok (n', sums')) :
    sums'.lines.length = sums.lines.length +
      (scan (slotBytes p program shard bid) remaining n).length := by
  induction remaining generalizing n sums with
  | zero =>
    obtain ⟨rfl, rfl⟩ := Prod.mk.inj (Except.ok.inj h)
    rfl
  | succ remaining ih =>
    rw [showMembers] at h
    split at h
    · next empty =>
      obtain ⟨rfl, rfl⟩ := Prod.mk.inj (Except.ok.inj h)
      rw [scan_of_none _ (by rw [slotBytes, if_pos empty])]
      rfl
    · next used =>
      obtain ⟨mid, first, rest⟩ := bind_eq_ok_iff.mp h
      rw [ih rest, length_showMember first,
        scan_of_some (by rw [slotBytes, if_neg used]), List.length_cons]
      omega

/-- Over slots that hold valid records of one total, up to an empty one, the loop prints a
line for each. -/
theorem showMembers_ok (now : U64) {total : U128} {m remaining : ℕ} {sums : Totals}
    (sound : sums.Sound)
    (members : ∀ i < m, ∃ s, slotBytes p program shard bid (n + i) = some (store s) ∧
      Vesting.Valid s ∧ s.total = total)
    (last : slotBytes p program shard bid (n + m) = none) (within : m ≤ remaining)
    (fits : sums.total.toNat + m * total.toNat < 2 ^ 128) :
    ∃ lines sums',
      showMembers checks p program shard bid now remaining n sums = .ok (n + m, sums') ∧
      sums'.lines = sums.lines ++ lines ∧ lines.length = m ∧
      (∀ i < m, ∃ line s, lines[i]? = some line ∧
        slotBytes p program shard bid (n + i) = some (store s) ∧
        Prints p program bid now (n + i) s line) ∧
      sums'.total.toNat = sums.total.toNat + m * total.toNat := by
  induction m generalizing n remaining sums with
  | zero =>
    refine ⟨[], sums, ?_, by simp, rfl, fun i hi => absurd hi (Nat.not_lt_zero i), by omega⟩
    cases remaining with
    | zero => rfl
    | succ remaining =>
      rw [Nat.add_zero] at last
      rw [showMembers, if_pos (slotBytes_eq_none_iff.mp last), Nat.add_zero]
  | succ m ih =>
    obtain ⟨remaining, rfl⟩ : ∃ r, remaining = r + 1 := ⟨remaining - 1, by omega⟩
    -- the first slot's record, then the rest from the next index on
    obtain ⟨s, first, valid, rfl⟩ := members 0 (Nat.succ_pos m)
    rw [Nat.add_zero] at first
    obtain ⟨used, stored⟩ := slotBytes_eq_some_iff.mp first
    rw [Nat.succ_mul] at fits
    obtain ⟨line, mid, printed, lines_eq, prints, sound', total_eq⟩ :=
      showMember_ok checks p program bid now n valid sound (by omega)
    have shift : ∀ i, n + 1 + i = n + (i + 1) := fun i => by omega
    obtain ⟨lines, sums', run, lines_eq', length_eq, prints', total_eq'⟩ :=
      @ih (n + 1) remaining mid sound'
        (fun i hi => shift i ▸ members (i + 1) (by omega)) (shift m ▸ last) (by omega) (by omega)
    refine ⟨line :: lines, sums', ?_, ?_, congrArg (· + 1) length_eq, ?_, ?_⟩
    · rw [showMembers, if_neg used, stored, printed, ok_bind, run, shift]
    · rw [lines_eq', lines_eq, List.append_assoc, List.singleton_append]
    · rintro (_ | i) hi
      · exact ⟨line, s, rfl, first, prints⟩
      · obtain ⟨line', s', found, stored', prints''⟩ := prints' i (by omega)
        rw [shift] at stored' prints''
        exact ⟨line', s', found, stored', prints''⟩
    · rw [total_eq', total_eq, Nat.succ_mul]
      omega

/-! ### The listing of a batch on the chain -/

open Vesting (Deployment World Batch)

variable {d : Deployment} {w : World} {b : Batch}

/-- The listing shows the batch: a line for each schedule its creation stored and no others,
all on its escrow, and their total. -/
structure Shows (d : Deployment) (b : Batch) (w : World) (now : U64) (out : List Line × Summary) :
    Prop where
  length : out.1.length = b.beneficiaries.length
  members : ∀ i < b.beneficiaries.length, ∃ line s, out.1[i]? = some line ∧
    b.Member d w.shard i s ∧ s.escrow = out.2.holding ∧
      Prints d.toPlatform d.me b.batchId now i s line
  holding : out.2.holding = holdingAccount d.toPlatform d.me b.batchId
  schedules : out.2.schedules.toNat = b.beneficiaries.length
  total : out.2.total.toNat = b.beneficiaries.length * b.terms.total.toNat

theorem slotBytes_slot (d : Deployment) (w : World) (bid : Bytes 32) (i : ℕ) :
    slotBytes d.toPlatform d.me w.shard bid i =
      if w.shard (d.slot bid i) = [] then none else some (w.shard (d.slot bid i)) := rfl

theorem Member.slotBytes {i : ℕ} {s : VestingSchedule} (h : b.Member d w.shard i s) :
    slotBytes d.toPlatform d.me w.shard b.batchId i = some (store s) := by
  rw [slotBytes_slot, if_neg (by rw [h.stored]; exact Vesting.store_ne_nil s), h.stored]

/-- A batch whose slots hold its members is shown exactly when the next slot is empty, with
overflow checks or without. -/
theorem shows_iff (checks : Bool) (kept : Vesting.Kept d w) (nonempty : 1 ≤ b.beneficiaries.length)
    (members : ∀ i < b.beneficiaries.length, ∃ s, b.Member d w.shard i s)
    (fits : b.beneficiaries.length * b.terms.total.toNat < 2 ^ 128)
    (few : b.beneficiaries.length < BATCH_SCAN_LIMIT) (now : U64) :
    (∃ out, showBatch checks d.toPlatform d.me w.shard b.batchId now = .ok out ∧
        Shows d b w now out) ↔
      w.shard (d.slot b.batchId b.beneficiaries.length) = [] := by
  constructor
  · rintro ⟨out, shown, shows⟩
    by_contra used
    simp only [showBatch, bind_eq_ok_iff, ensure_eq_ok_iff, pure_eq_ok, Except.ok.injEq] at shown
    obtain ⟨⟨n, sums⟩, run, -, -, rfl⟩ := shown
    -- the scan goes on past the members
    have more := length_showMembers run
    have past : b.beneficiaries.length <
        (scan (slotBytes d.toPlatform d.me w.shard b.batchId) BATCH_SCAN_LIMIT 0).length := by
      refine lt_length_scan (fun i hi => ?_) ?_ few
      · obtain ⟨s, hs⟩ := members i hi
        rw [Nat.zero_add, Member.slotBytes hs]
        rfl
      · rw [Nat.zero_add, slotBytes_slot, if_neg used]
        rfl
    have length := shows.length
    rw [more] at length
    dsimp only [List.length_nil] at length
    omega
  · intro empty
    -- each slot up to the empty one holds a valid record of the batch's total
    have found : ∀ i < b.beneficiaries.length, ∃ s,
        slotBytes d.toPlatform d.me w.shard b.batchId (0 + i) = some (store s) ∧
          Vesting.Valid s ∧ s.total = b.terms.total := by
      intro i hi
      obtain ⟨s, hs⟩ := members i hi
      rw [Nat.zero_add]
      exact ⟨s, Member.slotBytes hs, (kept.record hs.stored).1, hs.fixed.2⟩
    have last : slotBytes d.toPlatform d.me w.shard b.batchId (0 + b.beneficiaries.length) =
        none := by
      rw [Nat.zero_add, slotBytes_slot, if_pos empty]
    obtain ⟨lines, sums, run, lines_eq, length_eq, prints, total⟩ :=
      showMembers_ok now empty_sound found last (Nat.le_of_lt few) (by simpa using fits)
    rw [Nat.zero_add] at run
    rw [List.nil_append] at lines_eq
    have count : (BitVec.ofNat 32 b.beneficiaries.length).toNat = b.beneficiaries.length := by
      rw [BitVec.toNat_ofNat, Nat.mod_eq_of_lt (Nat.lt_trans few (by decide))]
    refine ⟨(sums.lines, summary d.toPlatform d.me b.batchId now b.beneficiaries.length sums),
      ?_, ?_⟩
    · rw [showBatch, run, ok_bind]
      dsimp only
      rw [ensure_of (Nat.ne_of_gt nonempty), ok_bind, pure_eq_ok]
    exact
      { length := by rw [lines_eq, length_eq]
        members := by
          intro i hi
          obtain ⟨line, s, printed, stored, matches_⟩ := prints i hi
          obtain ⟨s', hs⟩ := members i hi
          rw [Nat.zero_add] at stored matches_
          -- the record that was printed is the member's
          obtain rfl := Vesting.store_injective
            (Option.some.inj ((Member.slotBytes hs).symm.trans stored))
          exact ⟨line, s', lines_eq ▸ printed, hs, hs.fixed.1, matches_⟩
        holding := rfl
        schedules := count
        total := by simpa [summary] using total }

end Cli

end Antumbra
