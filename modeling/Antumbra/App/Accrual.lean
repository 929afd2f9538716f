/-
# The app's accrual against the program's

For every record the program can store, the app decodes the stored bytes to the same
fields and computes the same vested amount at every time, although its division is a
different one and takes the branches in another order. No step of that division leaves
the word.
-/

import Antumbra.App.Schedule
import Antumbra.Vesting.Life

namespace Antumbra

open Antumbra.Math

namespace App

open Antumbra.Vesting (VestingSchedule Effect scheduleCodec load store applied)

/-! ### Decoding -/

/-- A stored record as the app holds it. -/
def ofStored (s : VestingSchedule) : Schedule where
  kind := s.kind
  start := s.start
  cliff := s.cliff
  end_ := s.end_
  total := s.total
  claimed := s.claimed
  lastSeen := s.lastSeen
  beneficiary := s.beneficiary.value.toList
  escrow := s.escrow.value.toList
  creator := s.creator.value.toList
  cancelable := s.cancelable
  transferable := s.transferable
  cancelledAt := s.cancelledAt
  signalled := s.signalled
  tranches := s.tranches
  asset := s.asset
  tokenDefinition := s.tokenDefinition.toList
  refundTo := s.refundTo.value.toList
  cancelAuthority := s.cancelAuthority.value.toList
  milestoneAuthority := s.milestoneAuthority.value.toList

namespace Reader

open Antumbra.Math.Reading (Reads)

theorem reads_u8 (x : U8) : Reads u8 (Codec.u8.encode x) x := by
  have reads : Reads u8 (Codec.u8.encode x) _ := Reads.field (Codec.u8.length_encode x)
  have value : (Codec.u8.encode x).headD 0 = x := by
    change BitVec.ofNat 8 x.toNat = x
    rw [BitVec.ofNat_toNat, BitVec.setWidth_eq]
  rwa [value] at reads

theorem reads_u32 (x : U32) : Reads u32 (Codec.u32.encode x) x := Reads.uint 4 x 0

theorem reads_u64 (x : U64) : Reads u64 (Codec.u64.encode x) x := Reads.uint 8 x 0

theorem reads_u128v (x : U128) : Reads u128v (Codec.u128.encode x) x := Reads.uint 16 x 0

theorem reads_bytes {n : ℕ} (x : Bytes n) : Reads (bytes n) x.toList x.toList :=
  Reads.raw x.toList_length

end Reader

/-- The app's reader takes a stored record field by field. -/
theorem reads_readSchedule (s : VestingSchedule) :
    Reading.Reads readSchedule (store s) (ofStored s) := by
  unfold readSchedule
  exact (Reader.reads_u8 s.kind).bind <| (Reader.reads_u64 s.start).bind <|
    (Reader.reads_u64 s.cliff).bind <| (Reader.reads_u64 s.end_).bind <|
    (Reader.reads_u128v s.total).bind <| (Reader.reads_u128v s.claimed).bind <|
    (Reader.reads_u64 s.lastSeen).bind <| (Reader.reads_bytes s.beneficiary.value).bind <|
    (Reader.reads_bytes s.escrow.value).bind <| (Reader.reads_bytes s.creator.value).bind <|
    (Reader.reads_u8 s.cancelable).bind <| (Reader.reads_u8 s.transferable).bind <|
    (Reader.reads_u64 s.cancelledAt).bind <| (Reader.reads_u64 s.signalled).bind <|
    (Reader.reads_u32 s.tranches).bind <| (Reader.reads_u8 s.asset).bind <|
    (Reader.reads_bytes s.tokenDefinition).bind <| (Reader.reads_bytes s.refundTo.value).bind <|
    (Reader.reads_bytes s.cancelAuthority.value).bind <|
    (Reader.reads_bytes s.milestoneAuthority.value).last _

/-- Every stored record of a known kind decodes to its own fields. -/
theorem decodeSchedule_store {s : VestingSchedule} (kind : s.kind ≤ 2) :
    decodeSchedule (store s) = some (ofStored s) := by
  have length : (store s).length = kScheduleLen := Vesting.scheduleCodec.length_encode s
  have read := reads_readSchedule s { bytes := store s, pos := 0, ok := true } []
    (List.append_nil _).symm (Nat.zero_le _)
  rw [decodeSchedule, if_neg (not_not.mpr length), read]
  exact if_pos ⟨rfl, Nat.zero_add _, kind⟩

/-- Every 312 bytes are a stored record. -/
theorem exists_store {bytes : List U8} (len : bytes.length = kScheduleLen) :
    ∃ s, bytes = store s := by
  have account : accountIdCodec.Total := (Codec.total_bytes 32).map _
  have word (n : ℕ) : (Codec.uint n).Total := Codec.total_uint n
  have total : scheduleCodec.Total :=
    ((word 1).prod <| (word 8).prod <| (word 8).prod <| (word 8).prod <| (word 16).prod <|
      (word 16).prod <| (word 8).prod <| account.prod <| account.prod <| account.prod <|
      (word 1).prod <| (word 1).prod <| (word 8).prod <| (word 8).prod <| (word 4).prod <|
      (word 1).prod <| (Codec.total_bytes 32).prod <| account.prod <| account.prod account).map _
  exact total.exists_encode len

/-- The app decodes stored records of the known kinds, to their own fields, and nothing else. -/
theorem decodeSchedule_eq_some_iff {bytes : List U8} {x : Schedule} :
    decodeSchedule bytes = some x ↔ ∃ s, s.kind ≤ 2 ∧ bytes = store s ∧ x = ofStored s := by
  constructor
  · intro decoded
    have len : bytes.length = kScheduleLen := by
      by_contra other
      rw [decodeSchedule, if_pos other] at decoded
      cases decoded
    obtain ⟨s, rfl⟩ := exists_store len
    have read := reads_readSchedule s { bytes := store s, pos := 0, ok := true } []
      (List.append_nil _).symm (Nat.zero_le _)
    rw [decodeSchedule, if_neg (not_not.mpr len), read] at decoded
    obtain ⟨⟨-, -, kind⟩, same⟩ := Option.ite_none_right_eq_some.mp decoded
    exact ⟨s, kind, rfl, (Option.some.inj same).symm⟩
  · rintro ⟨s, kind, rfl, rfl⟩
    exact decodeSchedule_store kind

/-- The app's fields say which record they were read from. -/
theorem ofStored_injective : Function.Injective ofStored := by
  intro s t same
  have account {a b : AccountId} (h : a.value.toList = b.value.toList) : a = b :=
    AccountId.ext (List.Vector.eq _ _ h)
  simp only [ofStored, Schedule.mk.injEq] at same
  obtain ⟨kind, start, cliff, end_, total, claimed, lastSeen, beneficiary, escrow, creator,
    cancelable, transferable, cancelledAt, signalled, tranches, asset, tokenDefinition, refundTo,
    cancelAuthority, milestoneAuthority⟩ := same
  cases s
  cases t
  rw [VestingSchedule.mk.injEq]
  exact ⟨kind, start, cliff, end_, total, claimed, lastSeen, account beneficiary, account escrow,
    account creator, cancelable, transferable, cancelledAt, signalled, tranches, asset,
    List.Vector.eq _ _ tokenDefinition, account refundTo, account cancelAuthority,
    account milestoneAuthority⟩

/-- Of every record of a known kind: it is stored in 312 bytes, which the program loads and the
app decodes to its own fields. And of all bytes the app decodes: they are those of exactly one
record, the program loads it, no other bytes decode to the same, and they are 312. -/
theorem stored_round_trip (s : VestingSchedule) (bytes bytes' : List U8) (x : Schedule) :
    (s.kind ≤ 2 → (store s).length = 312 ∧ load (store s) = .ok s ∧
        decodeSchedule (store s) = some (ofStored s)) ∧
      (decodeSchedule bytes = some x →
        bytes.length = 312 ∧
        (∃ r, (bytes = store r ∧ load bytes = .ok r ∧ x = ofStored r) ∧
          ∀ r', bytes = store r' → r' = r) ∧
        (decodeSchedule bytes' = some x → bytes' = bytes)) := by
  refine ⟨fun kind => ⟨scheduleCodec.length_encode s, Vesting.load_eq_ok_iff.mpr rfl,
    decodeSchedule_store kind⟩, fun decoded => ?_⟩
  obtain ⟨r, -, rfl, rfl⟩ := decodeSchedule_eq_some_iff.mp decoded
  refine ⟨scheduleCodec.length_encode r, ⟨r, ⟨rfl, Vesting.load_eq_ok_iff.mpr rfl, rfl⟩,
    fun r' stored => Vesting.store_injective stored.symm⟩, fun decoded' => ?_⟩
  obtain ⟨r', -, rfl, same⟩ := decodeSchedule_eq_some_iff.mp decoded'
  rw [ofStored_injective same]

/-! ### The division -/

/-- `mulDivFloor` with every multiplication and addition checked. -/
def mulDivFloorChecked (a n d : U128) : Option U128 := do
  let whole ← checkedMul (a / d) n
  let part ← checkedMul (a % d) n
  checkedAdd whole (part / d)

/-- For a factor below a divisor of 64 bits the division is exact and nothing in it
leaves the word. -/
theorem mulDivFloor_exact {a n d : U128} (below : n.toNat < d.toNat) (narrow : d.toNat ≤ 2 ^ 64) :
    mulDivFloorChecked a n d = some (mulDivFloor a n d) ∧
      (mulDivFloor a n d).toNat = a.toNat * n.toNat / d.toNat := by
  have ha := a.isLt
  have pos : 0 < d.toNat := by omega
  have digits := Nat.div_add_mod a.toNat d.toNat
  have rem_lt := Nat.mod_lt a.toNat pos
  have quotient := BitVec.toNat_udiv (x := a) (y := d)
  have remainder := BitVec.toNat_umod (x := a) (y := d)
  -- the quotient times the factor stays below the dividend, the remainder times it below
  -- the square of the divisor
  have whole_le : a.toNat / d.toNat * n.toNat ≤ d.toNat * (a.toNat / d.toNat) := by
    rw [Nat.mul_comm d.toNat]
    exact Nat.mul_le_mul_left _ (by omega)
  have part_lt : a.toNat % d.toNat * n.toNat < 2 ^ 64 * 2 ^ 64 :=
    Nat.mul_lt_mul'' (by omega) (by omega)
  have part_div : a.toNat % d.toNat * n.toNat / d.toNat ≤ a.toNat % d.toNat := by
    refine Nat.div_le_of_le_mul ?_
    rw [Nat.mul_comm d.toNat]
    exact Nat.mul_le_mul_left _ (by omega)
  have exact : a.toNat * n.toNat / d.toNat =
      a.toNat / d.toNat * n.toNat + a.toNat % d.toNat * n.toNat / d.toNat := by
    conv_lhs => rw [← digits, Nat.add_mul, Nat.mul_assoc]
    rw [Nat.mul_add_div pos]
  have whole : (a / d * n).toNat = a.toNat / d.toNat * n.toNat := by
    rw [BitVec.toNat_mul, quotient, Nat.mod_eq_of_lt (by omega)]
  have part : (a % d * n).toNat = a.toNat % d.toNat * n.toNat := by
    rw [BitVec.toNat_mul, remainder, Nat.mod_eq_of_lt (by omega)]
  have sum : (mulDivFloor a n d).toNat = a.toNat * n.toNat / d.toNat := by
    rw [mulDivFloor, BitVec.toNat_add, BitVec.toNat_udiv, whole, part, ← exact,
      Nat.mod_eq_of_lt (by omega)]
  refine ⟨?_, sum⟩
  have first : checkedMul (a / d) n = some (a / d * n) := by
    rw [checkedMul_eq_some_iff, whole, quotient]
  have second : checkedMul (a % d) n = some (a % d * n) := by
    rw [checkedMul_eq_some_iff, part, remainder]
  have third : checkedAdd (a / d * n) (a % d * n / d) = some (mulDivFloor a n d) := by
    rw [checkedAdd_eq_some_iff, sum, BitVec.toNat_udiv, whole, part, exact]
  rw [mulDivFloorChecked, first, Option.bind_eq_bind, Option.bind_some, second, Option.bind_some,
    third]

/-! ### The rule -/

/-- `vestedAt` with the checked division. -/
def vestedAtChecked (s : Schedule) (now : U64) : Option U128 :=
  if s.kind = 2 then
    if s.tranches = 0 then
      some 0
    else
      let done := countOnes s.signalled
      if s.tranches.toInt ≤ done then
        some s.total
      else
        mulDivFloorChecked s.total (BitVec.ofNat 128 done) (s.tranches.setWidth 128)
  else
    let t := if s.cancelledAt ≠ 0 then min now s.cancelledAt else now
    if s.kind = 0 ∧ t < s.cliff then
      some 0
    else if t ≤ s.start then
      some 0
    else if s.end_ ≤ t then
      some s.total
    else
      mulDivFloorChecked s.total ((t - s.start).setWidth 128) ((s.end_ - s.start).setWidth 128)

variable {s : VestingSchedule}

/-- Between the two ends the division is exact. -/
theorem mulDivFloor_between {from_ to_ now : U64} (total : U128) (after : from_ < now)
    (before : now < to_) :
    mulDivFloorChecked total ((now - from_).setWidth 128) ((to_ - from_).setWidth 128) =
        some (mulDivFloor total ((now - from_).setWidth 128) ((to_ - from_).setWidth 128)) ∧
      (mulDivFloor total ((now - from_).setWidth 128) ((to_ - from_).setWidth 128)).toNat =
        total.toNat * (now.toNat - from_.toNat) / (to_.toNat - from_.toNat) := by
  have hto := to_.isLt
  rw [BitVec.lt_def] at after before
  have elapsed : ((now - from_).setWidth 128).toNat = now.toNat - from_.toNat :=
    toNat_widened_sub (by decide) (by omega)
  have span : ((to_ - from_).setWidth 128).toNat = to_.toNat - from_.toNat :=
    toNat_widened_sub (by decide) (by omega)
  obtain ⟨checked, value⟩ := mulDivFloor_exact (a := total)
    (show ((now - from_).setWidth 128).toNat < ((to_ - from_).setWidth 128).toNat by omega)
    (by omega)
  rw [elapsed, span] at value
  exact ⟨checked, value⟩

/-- The straight line the app computes once the cliff is behind it. -/
theorem straight_eq (start end_ t : U64) (total : U128) :
    (if t ≤ start then some 0
      else if end_ ≤ t then some total
      else mulDivFloorChecked total ((t - start).setWidth 128) ((end_ - start).setWidth 128)) =
        some (if t ≤ start then 0
          else if end_ ≤ t then total
          else mulDivFloor total ((t - start).setWidth 128) ((end_ - start).setWidth 128)) ∧
      (if t ≤ start then (0 : U128)
        else if end_ ≤ t then total
        else mulDivFloor total ((t - start).setWidth 128) ((end_ - start).setWidth 128)).toNat =
          linear start.toNat end_.toNat total.toNat t.toNat := by
  unfold linear
  simp only [BitVec.le_def]
  split_ifs with early late
  · exact ⟨rfl, rfl⟩
  · exact ⟨rfl, rfl⟩
  · exact mulDivFloor_between total (by rw [BitVec.lt_def]; omega) (by rw [BitVec.lt_def]; omega)

theorem readTime_ofStored (s : VestingSchedule) (now : U64) :
    (if (ofStored s).cancelledAt ≠ 0 then min now (ofStored s).cancelledAt else now) =
      s.readTime now := by
  unfold VestingSchedule.readTime
  by_cases live : s.cancelledAt = 0
  · rw [if_pos live]
    exact if_neg (not_not.mpr live)
  · rw [if_neg live]
    exact if_pos live

/-- All tranches of a milestone schedule fit a signed word of 32 bits. -/
theorem toInt_tranches (le : s.tranches ≤ Vesting.MAX_TRANCHES) :
    s.tranches.toInt = s.tranches.toNat := by
  rw [BitVec.le_def, show Vesting.MAX_TRANCHES.toNat = 64 from rfl] at le
  rw [BitVec.toInt_eq_toNat_cond, if_pos (by omega)]

/-- The app computes the rule, within the word throughout. -/
theorem vestedAt_ofStored (h : s.WellFormed) (now : U64) :
    vestedAtChecked (ofStored s) now = some (vestedAt (ofStored s) now) ∧
      (vestedAt (ofStored s) now).toNat = s.accrued now.toNat := by
  rw [← s.base_readTime]
  cases h with
  | cliffLinear kind =>
    have timed : ¬ (ofStored s).kind = 2 := by change ¬ s.kind = 2; rw [kind]; decide
    obtain ⟨checked, value⟩ := straight_eq s.start s.end_ (s.readTime now) s.total
    rw [vestedAtChecked, vestedAt, if_neg timed, if_neg timed,
      VestingSchedule.base_of_cliffLinear kind, delayed]
    simp only [readTime_ofStored, ← BitVec.lt_def]
    by_cases held : s.readTime now < s.cliff
    · rw [if_pos held]
      have both : (ofStored s).kind = 0 ∧ s.readTime now < (ofStored s).cliff := ⟨kind, held⟩
      rw [if_pos both, if_pos both]
      exact ⟨rfl, rfl⟩
    · rw [if_neg held]
      have past : ¬ ((ofStored s).kind = 0 ∧ s.readTime now < (ofStored s).cliff) :=
        fun both => held both.2
      rw [if_neg past, if_neg past]
      exact ⟨checked, value⟩
  | linear kind =>
    have timed : ¬ (ofStored s).kind = 2 := by change ¬ s.kind = 2; rw [kind]; decide
    have noCliff : ¬ ((ofStored s).kind = 0 ∧ s.readTime now < (ofStored s).cliff) := by
      rintro ⟨zero, -⟩
      exact absurd (kind.symm.trans zero) (by decide)
    rw [vestedAtChecked, vestedAt, if_neg timed, if_neg timed,
      VestingSchedule.base_of_linear kind]
    simp only [readTime_ofStored]
    rw [if_neg noCliff, if_neg noCliff]
    exact straight_eq s.start s.end_ (s.readTime now) s.total
  | milestones kind total some_tranches tranches_le signalled =>
    have done_le := countOnes_le signalled
    -- the app compares with the tranches as a signed number, which is the same up to 64
    have all := toInt_tranches tranches_le
    rw [BitVec.le_def, show Vesting.MAX_TRANCHES.toNat = 64 from rfl] at tranches_le
    have milestones : (ofStored s).kind = 2 := kind
    have parted : ¬ (ofStored s).tranches = 0 := some_tranches
    rw [vestedAtChecked, vestedAt, if_pos milestones, if_pos milestones, if_neg parted,
      if_neg parted, VestingSchedule.base_of_milestones kind]
    change (if s.tranches.toInt ≤ countOnes s.signalled then _ else _) = some
      (if s.tranches.toInt ≤ countOnes s.signalled then _ else _) ∧
      BitVec.toNat (if s.tranches.toInt ≤ countOnes s.signalled then _ else _) = _
    by_cases whole : s.tranches.toInt ≤ countOnes s.signalled
    · have same : countOnes s.signalled = s.tranches.toNat := by omega
      have pos : 0 < s.tranches.toNat := by
        rw [Nat.pos_iff_ne_zero]
        exact fun none => some_tranches (word_ext none)
      rw [if_pos whole, if_pos whole, same, Nat.mul_div_cancel _ pos]
      exact ⟨rfl, rfl⟩
    · have done : (BitVec.ofNat 128 (countOnes s.signalled)).toNat = countOnes s.signalled := by
        rw [BitVec.toNat_ofNat, Nat.mod_eq_of_lt (by omega)]
      have parts : (s.tranches.setWidth 128).toNat = s.tranches.toNat := by
        rw [BitVec.toNat_setWidth, Nat.mod_eq_of_lt (by omega)]
      rw [if_neg whole, if_neg whole]
      obtain ⟨checked, value⟩ := mulDivFloor_exact (a := s.total)
        (show (BitVec.ofNat 128 (countOnes s.signalled)).toNat < (s.tranches.setWidth 128).toNat by
          omega) (by omega)
      rw [done, parts] at value
      exact ⟨checked, value⟩

/-! ### The result -/

/-- A record of a known kind. -/
theorem kind_le_two (h : s.WellFormed) : s.kind ≤ 2 := by
  cases h with
  | cliffLinear kind => rw [kind]; decide
  | linear kind => rw [kind]; decide
  | milestones kind => rw [kind]; decide

/-- The app subtracts only where something is left, as the program does. -/
theorem claimable_ofStored (h : s.WellFormed) (now : U64) :
    Vesting.claimable s now =
      .ok (if s.claimed < vestedAt (ofStored s) now then vestedAt (ofStored s) now - s.claimed
        else 0) := by
  have vested := (Vesting.vested_eq_ok_iff h).mpr (vestedAt_ofStored h now).2
  have shown : saturatingSub (vestedAt (ofStored s) now) s.claimed =
      if s.claimed < vestedAt (ofStored s) now then vestedAt (ofStored s) now - s.claimed
      else 0 := by
    refine word_ext ?_
    rw [toNat_saturatingSub]
    split
    · next some =>
      rw [toNat_sub_of_le (BitVec.le_of_lt some)]
    · next none =>
      rw [BitVec.lt_def] at none
      rw [toNat_zero]
      omega
  rw [Vesting.claimable, vested, ok_bind, pure_eq_ok, shown]

/-- What the app takes from the total is what a cancellation must refund. -/
theorem unvested_ofStored (h : s.WellFormed) (live : s.cancelledAt = 0) (now : U64) :
    Vesting.unvested s now = .ok (s.total - vestedAt (ofStored s) now) := by
  have value := (vestedAt_ofStored h now).2
  have le := h.accrued_le now.toNat
  rw [Vesting.unvested_eq_ok_iff h live, toNat_sub_of_le (BitVec.le_def.mpr (value ▸ le)), value]

/-- The app's accrual is the program's. For every record the program can store and every
time, the app decodes the stored bytes to the record's fields, computes the vested amount
the program computes with nothing leaving the word, and shows what the program would let
be claimed and what has not vested. -/
theorem app_accrual_eq (run : List Effect) (genuine : ∀ e ∈ run, e.Genuine) (s : VestingSchedule)
    (stored : run.foldl applied [] = store s) (now : U64) :
    decodeSchedule (store s) = some (ofStored s) ∧
      Vesting.vested s now = .ok (vestedAt (ofStored s) now) ∧
      vestedAtChecked (ofStored s) now = some (vestedAt (ofStored s) now) ∧
      vestedAt (ofStored s) now ≤ s.total ∧
      (scheduleJson (ofStored s) now).lookup "unvested" =
        some (.str (dec (s.total - vestedAt (ofStored s) now))) ∧
      ∃ owed, Vesting.claimable s now = .ok owed ∧
        (scheduleJson (ofStored s) now).lookup "claimable" = some (.str (dec owed)) := by
  have wellFormed := (Vesting.valid_of_run genuine (.inl rfl) stored).wellFormed
  obtain ⟨checked, value⟩ := vestedAt_ofStored wellFormed now
  have vested := (Vesting.vested_eq_ok_iff wellFormed).mpr value
  have le := wellFormed.accrued_le now.toNat
  rw [← value] at le
  exact ⟨decodeSchedule_store (kind_le_two wellFormed), vested, checked, BitVec.le_def.mpr le,
    rfl, _, claimable_ofStored wellFormed now, rfl⟩

/-- The sample two minutes after its start: 40 can be claimed, 560 have not vested. -/
theorem app_accrual_eq_sample :
    let s := Vesting.Sample.record (Vesting.Sample.account 4)
    decodeSchedule (store s) = some (ofStored s) ∧
      vestedAt (ofStored s) 1700000120000 = 40 := by
  intro s
  have genuine : ∀ e ∈ [Effect.create s], e.Genuine :=
    Vesting.genuine_create (Vesting.Sample.newState_record _) (by simp)
  obtain ⟨decoded, -⟩ := app_accrual_eq [.create s] genuine s rfl 1700000120000
  exact ⟨decoded, by decide +kernel⟩

end App

end Antumbra
