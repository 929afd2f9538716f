/-
# A record beside the library's schedule

The library keeps a vesting position of its own, and its split of a cancellation misses
the total when a claim before it named a later time. The program keeps a record and takes
from the library only the rule. Here a schedule of the library with the record's terms takes a
call for every event of the record. The two vest the same at every time and accept the same
acts, and since the program refuses a cancellation before the last time a claim named, every
split the library computes makes the total.
-/

import Antumbra.Vesting.Log
import Antumbra.Vesting.Split
import Mathlib.Data.Nat.Count

namespace Antumbra

open Antumbra.Math

namespace Schedule

variable {s : Schedule} {now : U64} {index : U32} {v : U128}

/-! ### What the library accepts -/

/-- Adding up amounts that are not zero, by a step that adds within the word. -/
theorem foldlM_eq_ok {step : U128 → U128 → Except CurveError U128}
    (adds : ∀ x t, t ≠ 0 → x.toNat + t.toNat < 2 ^ 128 → step x t = .ok (x + t))
    {tranches : List U128} {x total : U128} (nonzero : ∀ t ∈ tranches, t ≠ 0)
    (sum : x.toNat + (tranches.map BitVec.toNat).sum = total.toNat) :
    tranches.foldlM step x = .ok total := by
  induction tranches generalizing x with
  | nil => rw [List.foldlM_nil, pure_eq_ok, word_ext sum]
  | cons t tranches ih =>
    have htotal := total.isLt
    rw [List.map_cons, List.sum_cons] at sum
    have fits : x.toNat + t.toNat < 2 ^ 128 := by omega
    rw [List.foldlM_cons, adds x t (nonzero t List.mem_cons_self) fits]
    refine ih (fun u mem => nonzero u (List.mem_cons_of_mem t mem)) ?_
    rw [Vesting.toNat_add_of_fits fits]
    omega

/-- Tranches that are not zero and make the total are accepted, as many as the bitmap has. -/
theorem milestone_eq_ok {tranches : List U128} {total : U128} (some : tranches ≠ [])
    (count : tranches.length ≤ MAX_MILESTONES) (nonzero : ∀ t ∈ tranches, t ≠ 0)
    (sum : (tranches.map BitVec.toNat).sum = total.toNat) :
    milestone tranches = .ok (created .milestone 0 0 0 total tranches) := by
  have short : ¬ (tranches = [] ∨ MAX_MILESTONES < tranches.length % 2 ^ 32) := by
    unfold MAX_MILESTONES at count ⊢
    simp only [some, false_or]
    omega
  rw [milestone, if_neg short]
  refine bind_eq_ok_iff.mpr ⟨total, foldlM_eq_ok ?_ nonzero (by rw [toNat_zero]; omega), rfl⟩
  intro x t nonzero fits
  rw [if_neg nonzero, checkedAdd_eq_some_iff_fits.mpr ⟨fits, rfl⟩]

/-- A cancellation is accepted while one is possible and none happened. -/
theorem cancel_eq (vested : s.vestedAt now = some v) (le : v ≤ s.total) :
    s.cancel now = some (if s.cancelable = true ∧ s.cancelledAt = none then
      (.ok ⟨s.claimed, saturatingSub v s.claimed, s.total - v⟩, { s with cancelledAt := some now })
    else (.error .zeroAmount, s)) := by
  have rest : checkedSub s.total v = some (s.total - v) := by
    rw [checkedSub_eq_some_iff, toNat_sub_of_le le]
    rw [BitVec.le_def] at le
    omega
  unfold cancel
  cases permanent : s.cancelable with
  | false => simp
  | true =>
    cases live : s.cancelledAt with
    | some c => simp
    | none => simp [vested, rest]

/-- A schedule is made permanent once. -/
theorem makeNonCancelable_ok_iff :
    (∃ after, s.makeNonCancelable = (.ok (), after)) ↔ s.cancelable = true := by
  unfold makeNonCancelable
  split_ifs with cancelable
  · simp [cancelable]
  · simp [cancelable]

/-- A signal is accepted of a tranche of a live milestone schedule, once. -/
theorem Sound.signalMilestone_ok_iff (h : s.Sound) :
    (∃ amount after, s.signalMilestone index = some (.ok amount, after)) ↔
      s.kind = .milestone ∧ s.cancelledAt = none ∧ index.toNat < s.tranches.length ∧
        s.signalled.getLsbD index.toNat = false := by
  by_cases inside : s.kind = .milestone ∧ s.cancelledAt = none ∧ index.toNat < s.tranches.length
  · obtain ⟨milestone, live, below⟩ := inside
    have fits : index.toNat < 64 := by
      cases h with
      | cliffLinear kind => exact absurd (kind.symm.trans milestone) (by decide)
      | linear kind => exact absurd (kind.symm.trans milestone) (by decide)
      | milestone _ count => exact Nat.lt_of_lt_of_le below count
    rw [signalMilestone, if_neg (not_not.mpr milestone), if_neg (by rw [live]; decide),
      List.getElem?_eq_getElem below]
    simp only [if_neg (Nat.not_le.mpr fits), ne_eq, and_bitAt_eq_zero_iff fits, milestone, live,
      below, true_and]
    split_ifs with set
    · simpa using set
    · simpa using set
  · obtain ⟨e, refused⟩ := signalMilestone_refused inside
    rw [refused]
    constructor
    · rintro ⟨amount, after, accepted⟩
      cases accepted
    · rintro ⟨kind, live, below, -⟩
      exact absurd ⟨kind, live, below⟩ inside

/-- Equal tranches pay one of them for every bit. -/
theorem signalledFrom_replicate (x : U64) (each : U128) (i n : ℕ) :
    signalledFrom x i (List.replicate n each) =
      each.toNat * Nat.count (fun j => x.getLsbD (i + j) = true) n := by
  induction n generalizing i with
  | zero => rfl
  | succ n ih =>
    rw [List.replicate_succ, signalledFrom, ih (i + 1), Nat.count_succ', Nat.mul_add, Nat.add_comm]
    congr 1
    · simp only [Nat.add_assoc, Nat.add_comm 1]
    · rw [Nat.add_zero]
      split <;> simp

end Schedule

namespace Vesting

variable {d : Deployment} {k : AccountId} {s s' s₀ : VestingSchedule} {c : U128} {e : Event}
  {effect : Effect} {slot : Option VestingSchedule} {es : List Event}

/-! ### The same terms in the library -/

/-- The milestones of the record share its total equally. -/
def VestingSchedule.Even (s : VestingSchedule) : Prop :=
  s.kind = 2 → s.tranches.toNat ∣ s.total.toNat

/-- The library's schedule of the record's terms, by the constructor of its kind. -/
def constructed (s : VestingSchedule) : Except CurveError Schedule :=
  if s.kind = 2 then
    Schedule.milestone (List.replicate s.tranches.toNat (s.total / s.tranches.setWidth 128))
  else if s.kind = 0 then
    Schedule.cliffLinear s.start s.cliff s.end_ s.total
  else
    Schedule.linear s.start s.end_ s.total

/-- The library's schedule of the record's terms, permanent where the record is. -/
def inLibrary (s : VestingSchedule) : Except CurveError Schedule := do
  let schedule ← constructed s
  if s.cancelable = 0 then
    return schedule.makeNonCancelable.2
  else
    return schedule

/-- What a constructor of the library makes of the record's terms. -/
def VestingSchedule.opened (s : VestingSchedule) : Schedule :=
  if s.kind = 2 then
    .created .milestone 0 0 0 s.total
      (List.replicate s.tranches.toNat (s.total / s.tranches.setWidth 128))
  else if s.kind = 0 then
    .created .cliffLinear s.start s.cliff s.end_ s.total []
  else
    .created .linear s.start s.start s.end_ s.total []

/-- The library's schedule in the record's state, with its own claims. -/
def VestingSchedule.mirrored (s : VestingSchedule) (claimed : U128) : Schedule :=
  { s.opened with
    claimed
    cancelable := s.cancelable ≠ 0
    cancelledAt := if s.cancelledAt = 0 then none else some s.cancelledAt
    signalled := s.signalled }

theorem opened_of_milestones (kind : s.kind = 2) :
    s.opened = .created .milestone 0 0 0 s.total
      (List.replicate s.tranches.toNat (s.total / s.tranches.setWidth 128)) := if_pos kind

theorem opened_of_cliffLinear (kind : s.kind = 0) :
    s.opened = .created .cliffLinear s.start s.cliff s.end_ s.total [] := by
  rw [VestingSchedule.opened, if_neg (by rw [kind]; decide), if_pos kind]

theorem opened_of_linear (kind : s.kind = 1) :
    s.opened = .created .linear s.start s.start s.end_ s.total [] := by
  rw [VestingSchedule.opened, if_neg (by rw [kind]; decide), if_neg (by rw [kind]; decide)]

/-- One of the equal tranches. -/
theorem toNat_each (tranches : U32) (total : U128) :
    (total / tranches.setWidth 128).toNat = total.toNat / tranches.toNat := by
  have := tranches.isLt
  rw [BitVec.toNat_udiv, BitVec.toNat_setWidth, Nat.mod_eq_of_lt (by omega)]

theorem sum_each (h : s.tranches.toNat ∣ s.total.toNat) :
    ((List.replicate s.tranches.toNat (s.total / s.tranches.setWidth 128)).map BitVec.toNat).sum =
      s.total.toNat := by
  rw [List.map_replicate, List.sum_replicate, smul_eq_mul, toNat_each, Nat.mul_div_cancel' h]

/-- The record's terms are ones the library takes. -/
theorem constructed_eq (h : s.WellFormed) (even : s.Even) : constructed s = .ok s.opened := by
  unfold constructed
  cases h with
  | cliffLinear kind start_le cliff_lt total =>
    rw [if_neg (by rw [kind]; decide), if_pos kind, opened_of_cliffLinear kind]
    exact Schedule.cliffLinear_eq_ok total start_le cliff_lt
  | linear kind start_lt total =>
    rw [if_neg (by rw [kind]; decide), if_neg (by rw [kind]; decide), opened_of_linear kind]
    exact Schedule.linear_eq_ok total start_lt
  | milestones kind total some_tranches tranches_le =>
    have whole := sum_each (even kind)
    have positive := toNat_pos_iff.mp total
    rw [if_pos kind, opened_of_milestones kind]
    refine Schedule.milestone_eq_ok ?_ ?_ ?_ whole
    · rw [ne_eq, List.replicate_eq_nil_iff]
      exact fun none => some_tranches (word_ext none)
    · rw [List.length_replicate]
      exact BitVec.le_def.mp tranches_le
    · -- tranches of nothing would make a total of nothing
      intro t mem zero
      obtain rfl := List.eq_of_mem_replicate mem
      rw [zero, List.map_replicate, List.sum_replicate, toNat_zero, smul_zero] at whole
      omega

theorem inLibrary_eq (h : s.WellFormed) (even : s.Even) :
    inLibrary s = .ok { s.opened with cancelable := s.cancelable ≠ 0 } := by
  rw [inLibrary, constructed_eq h even, ok_bind, Schedule.makeNonCancelable_eq]
  by_cases permanent : s.cancelable = 0
  · rw [if_pos permanent, permanent]
    rfl
  · have cancelable : s.opened.cancelable = true := by
      unfold VestingSchedule.opened
      split_ifs <;> rfl
    rw [if_neg permanent, decide_eq_true permanent, ← cancelable]
    rfl

/-- A record that its creation wrote is mirrored by the library's schedule as it begins. -/
theorem inLibrary_initialState {creator escrow who : AccountId} {asset : Asset} {terms : Terms}
    (h : (initialState creator escrow who asset terms).WellFormed)
    (even : (initialState creator escrow who asset terms).Even) :
    inLibrary (initialState creator escrow who asset terms) =
      .ok ((initialState creator escrow who asset terms).mirrored 0) := by
  rw [inLibrary_eq h even, VestingSchedule.mirrored, if_pos (by rfl)]
  cases h with
  | cliffLinear kind => rw [opened_of_cliffLinear kind]; rfl
  | linear kind => rw [opened_of_linear kind]; rfl
  | milestones kind => rw [opened_of_milestones kind]; rfl

/-! ### The same rule -/

theorem sound_mirrored (h : s.WellFormed) (even : s.Even) (c : U128) : (s.mirrored c).Sound := by
  cases h with
  | cliffLinear kind start_le cliff_lt =>
    rw [VestingSchedule.mirrored, opened_of_cliffLinear kind]
    exact .cliffLinear rfl start_le cliff_lt
  | linear kind start_lt =>
    rw [VestingSchedule.mirrored, opened_of_linear kind]
    exact .linear rfl rfl start_lt
  | milestones kind total some_tranches tranches_le =>
    rw [VestingSchedule.mirrored, opened_of_milestones kind]
    refine .milestone rfl ?_ (sum_each (even kind))
    rw [BitVec.le_def] at tranches_le
    exact Nat.le_trans (Nat.le_of_eq List.length_replicate) tranches_le

/-- Equal tranches of a total earn the signalled fraction of it. -/
theorem base_mirrored (h : s.WellFormed) (even : s.Even) (c : U128) :
    (s.mirrored c).base = s.base := by
  cases h with
  | cliffLinear kind =>
    rw [VestingSchedule.base_of_cliffLinear kind, VestingSchedule.mirrored,
      opened_of_cliffLinear kind]
    rfl
  | linear kind =>
    rw [VestingSchedule.base_of_linear kind, VestingSchedule.mirrored, opened_of_linear kind]
    rfl
  | milestones kind total some_tranches tranches_le signalled =>
    funext t
    rw [VestingSchedule.base_of_milestones kind, VestingSchedule.mirrored,
      opened_of_milestones kind]
    change Schedule.signalledFrom s.signalled 0 (List.replicate s.tranches.toNat _) = _
    -- no bit is set from the number of tranches on
    have ones : Nat.count (fun j => s.signalled.getLsbD (0 + j) = true) s.tranches.toNat =
        countOnes s.signalled := by
      rw [countOnes_eq_card, Nat.count_eq_card_filter_range]
      congr 1
      ext i
      rw [Finset.mem_filter, Finset.mem_range, mem_onesOf, Nat.zero_add, and_iff_right_iff_imp]
      intro set
      by_contra above
      rw [signalled i (by omega)] at set
      cases set
    rw [Schedule.signalledFrom_replicate, ones, toNat_each, Nat.div_mul_right_comm (even kind)]

theorem earned_mirrored (h : s.WellFormed) (even : s.Even) (c : U128) :
    (s.mirrored c).earned = s.accrued := by
  rw [Schedule.earned, base_mirrored h even c, VestingSchedule.accrued]
  congr 1
  unfold VestingSchedule.mirrored VestingSchedule.freeze
  split_ifs <;> rfl

/-- The library and the program vest the same. -/
theorem vestedAt_mirrored_iff (h : s.WellFormed) (even : s.Even) (c : U128) {t : U64} {v : U128} :
    (s.mirrored c).vestedAt t = some v ↔ vested s t = .ok v := by
  rw [Schedule.vestedAt_eq_some_iff (sound_mirrored h even c), vested_eq_ok_iff h,
    earned_mirrored h even c]

/-! ### The same acts -/

/-- The record and the library's schedule, which claimed at least as much, answer alike. -/
structure Agree (s : VestingSchedule) (schedule : Schedule) : Prop where
  vested : ∀ t v, schedule.vestedAt t = some v ↔ Vesting.vested s t = .ok v
  claimed : s.claimed ≤ schedule.claimed
  /-- The library never paid more than had vested by the last time a claim named. -/
  seen : ∃ v, Vesting.vested s s.lastSeen = .ok v ∧ schedule.claimed ≤ v
  /-- From that time on, a cancellation of the library refunds what the program's does, and its
  split makes the total. -/
  cancel : ∀ at_ refund, s.lastSeen ≤ at_ →
    ((∃ split after, schedule.cancel at_ = some (.ok split, after) ∧ split.toCreator = refund ∧
      split.sum = some s.total) ↔
        s.cancelable ≠ 0 ∧ s.cancelledAt = 0 ∧ unvested s at_ = .ok refund)
  signal : ∀ index, (∃ amount after, schedule.signalMilestone index = some (.ok amount, after)) ↔
    s.kind = 2 ∧ s.cancelledAt = 0 ∧ index.toNat < s.tranches.toNat ∧
      s.signalled.getLsbD index.toNat = false
  lock : (∃ after, schedule.makeNonCancelable = (.ok (), after)) ↔ s.cancelable ≠ 0

/-- The library's schedule in the record's state. -/
structure Mirrors (s : VestingSchedule) (schedule : Schedule) : Prop where
  same : schedule = s.mirrored schedule.claimed
  claimed : s.claimed.toNat ≤ schedule.claimed.toNat
  seen : schedule.claimed.toNat ≤ s.accrued s.lastSeen.toNat

theorem total_mirrored (s : VestingSchedule) (c : U128) : (s.mirrored c).total = s.total := by
  unfold VestingSchedule.mirrored VestingSchedule.opened
  split_ifs <;> rfl

theorem kind_mirrored_iff : (s.mirrored c).kind = .milestone ↔ s.kind = 2 := by
  unfold VestingSchedule.mirrored VestingSchedule.opened
  by_cases milestones : s.kind = 2
  · simp only [milestones, if_true, Schedule.created]
  · simp only [milestones, if_false, iff_false]
    split_ifs <;> exact Kind.noConfusion

theorem length_mirrored (kind : s.kind = 2) :
    (s.mirrored c).tranches.length = s.tranches.toNat := by
  rw [VestingSchedule.mirrored, opened_of_milestones kind]
  exact List.length_replicate

theorem live_mirrored_iff : (s.mirrored c).cancelledAt = none ↔ s.cancelledAt = 0 := by
  unfold VestingSchedule.mirrored
  by_cases live : s.cancelledAt = 0
  · simp only [live, if_true]
  · simp only [live, if_false, iff_false]
    exact Option.some_ne_none _

theorem cancelable_mirrored_iff : (s.mirrored c).cancelable = true ↔ s.cancelable ≠ 0 :=
  decide_eq_true_iff

/-- A cancellation of the mirrored schedule that no claim overtook splits the total exactly. -/
theorem cancel_mirrored (h : s.WellFormed) (even : s.Even) {at_ : U64} {refund : U128}
    (cancelable : s.cancelable ≠ 0) (live : s.cancelledAt = 0)
    (within : c.toNat ≤ s.accrued at_.toNat) (hrefund : unvested s at_ = .ok refund) :
    ∃ split, (s.mirrored c).cancel at_ =
        some (.ok split, { s.mirrored c with cancelledAt := some at_ }) ∧
      split.toCreator = refund ∧ split.sum = some s.total ∧
        split.alreadyClaimed.toNat + split.toBeneficiary.toNat = s.accrued at_.toNat := by
  obtain ⟨v, computed, value⟩ := exists_vested h at_
  have most := h.accrued_le at_.toNat
  rw [unvested_eq_ok_iff h live] at hrefund
  have accepted := Schedule.cancel_eq ((vestedAt_mirrored_iff h even c).mpr computed)
    (by rw [total_mirrored, BitVec.le_def]; omega)
  rw [if_pos ⟨cancelable_mirrored_iff.mpr cancelable, live_mirrored_iff.mpr live⟩] at accepted
  have rest : ((s.mirrored c).total - v).toNat = s.total.toNat - v.toNat := by
    rw [total_mirrored]
    exact toNat_sub_of_le (by rw [BitVec.le_def]; omega)
  refine ⟨_, accepted, word_ext ?_, Schedule.CancelSplit.sum_eq_some_iff.mpr ?_, ?_⟩
  · rw [rest, hrefund, value]
  · rw [toNat_saturatingSub, rest]
    change c.toNat + (v.toNat - c.toNat) + _ = _
    omega
  · rw [toNat_saturatingSub]
    change c.toNat + (v.toNat - c.toNat) = _
    omega

theorem Mirrors.agree {schedule : Schedule} (m : Mirrors s schedule) (h : s.WellFormed)
    (even : s.Even) : Agree s schedule := by
  obtain ⟨v, computed, value⟩ := exists_vested h s.lastSeen
  have seen := m.seen
  have same := m.same
  generalize hc : schedule.claimed = c at same seen
  subst same
  refine ⟨fun t v => vestedAt_mirrored_iff h even c, ?_, ⟨v, computed, ?_⟩, ?_, ?_, ?_⟩
  · exact BitVec.le_def.mpr m.claimed
  · rw [BitVec.le_def, hc]
    omega
  · intro at_ refund forward
    constructor
    · rintro ⟨split, after, accepted, rfl, -⟩
      have cancelable : s.cancelable ≠ 0 := by
        rw [← cancelable_mirrored_iff (c := c)]
        by_contra permanent
        rw [Schedule.cancel, if_pos (Bool.not_eq_true _ ▸ permanent)] at accepted
        cases accepted
      obtain ⟨live, -, v, atTime, -, -, total⟩ := Schedule.eq_of_cancel accepted
      rw [live_mirrored_iff] at live
      rw [vestedAt_mirrored_iff h even, vested_eq_ok_iff h] at atTime
      rw [total_mirrored] at total
      refine ⟨cancelable, live, (unvested_eq_ok_iff h live).mpr ?_⟩
      omega
    · rintro ⟨cancelable, live, hrefund⟩
      have later := s.accrued_mono (BitVec.le_def.mp forward)
      obtain ⟨split, accepted, refunded, sum, -⟩ :=
        cancel_mirrored h even cancelable live (Nat.le_trans seen later) hrefund
      exact ⟨split, _, accepted, refunded, sum⟩
  · intro index
    rw [(sound_mirrored h even c).signalMilestone_ok_iff, kind_mirrored_iff, live_mirrored_iff]
    refine and_congr_right fun kind => and_congr_right fun _ => ?_
    rw [length_mirrored kind]
    exact Iff.rfl
  · rw [Schedule.makeNonCancelable_ok_iff, cancelable_mirrored_iff]

/-! ### The books -/

/-- The library's schedule and the splits of its cancellations. -/
structure Books where
  schedule : Schedule
  splits : List Schedule.CancelSplit

/-- The library's call for an event: a claim takes all that has vested by the time the event
names, and may find nothing new; `none` where the library refuses or stops the program. -/
def Books.enter (b : Books) : Event → Option Books
  | .claimed _ _ at_ _ => do
    let (answer, schedule) ← b.schedule.claim at_
    match answer with
    | .ok _ => return { b with schedule }
    | .error .zeroAmount => return { b with schedule }
    | .error _ => none
  | .cancelled _ at_ _ _ => do
    let (answer, schedule) ← b.schedule.cancel at_
    match answer with
    | .ok split => return ⟨schedule, b.splits ++ [split]⟩
    | .error _ => none
  | .madeNonCancelable _ =>
    match b.schedule.makeNonCancelable with
    | (.ok (), schedule) => some { b with schedule }
    | (.error _, _) => none
  | .milestoneSignalled _ index => do
    let (answer, schedule) ← b.schedule.signalMilestone index
    match answer with
    | .ok _ => return { b with schedule }
    | .error _ => none
  -- the library has no beneficiary
  | .beneficiaryTransferred _ _ _ => some b
  | .scheduleCreated _ _ _ _ _ _ => none
  | .batchCreated _ _ _ _ _ => none

/-- The refund an event names. -/
def Event.refund : Event → Option U128
  | .cancelled _ _ refund _ => some refund
  | _ => none

/-- The books after the events that led to a record. -/
structure KeepsPace (es : List Event) (s : VestingSchedule) (b : Books) : Prop where
  mirrors : Mirrors s b.schedule
  refunds : b.splits.map (·.toCreator) = es.filterMap Event.refund
  exact : ∀ split ∈ b.splits, s.cancelledAt ≠ 0 ∧ split.sum = some s.total ∧
    split.alreadyClaimed.toNat + split.toBeneficiary.toNat = s.most

variable {b : Books}

theorem refunds_append :
    (es ++ [e]).filterMap Event.refund = es.filterMap Event.refund ++ e.refund.toList := by
  rw [List.filterMap_append]
  cases h : e.refund <;> simp [h]

theorem Acts.even_iff (h : Acts effect s s') : s'.Even ↔ s.Even := by
  cases h <;> exact Iff.rfl

theorem Mirrors.of_eq {schedule : Schedule} (same : schedule = s.mirrored c)
    (claimed : s.claimed.toNat ≤ c.toNat) (seen : c.toNat ≤ s.accrued s.lastSeen.toNat) :
    Mirrors s schedule := by
  subst same
  exact ⟨rfl, claimed, seen⟩

/-- A claim of the library brings its claims up to what has vested. -/
theorem claim_mirrored (h : s.WellFormed) (even : s.Even) (c : U128) (at_ : U64) :
    ∃ answer c', (s.mirrored c).claim at_ = some (answer, s.mirrored c') ∧
      (answer = .error .zeroAmount ∨ ∃ amount, answer = .ok amount) ∧
        c'.toNat = max c.toNat (s.accrued at_.toNat) := by
  obtain ⟨v, computed, value⟩ := exists_vested h at_
  have called := Schedule.claim_eq ((vestedAt_mirrored_iff h even c).mpr computed)
  split_ifs at called with nothing
  · refine ⟨_, c, called, .inl rfl, ?_⟩
    rw [BitVec.le_def] at nothing
    change v.toNat ≤ c.toNat at nothing
    omega
  · refine ⟨_, v, called, .inr ⟨_, rfl⟩, ?_⟩
    rw [BitVec.le_def] at nothing
    change ¬ v.toNat ≤ c.toNat at nothing
    omega

/-- A signal the program takes is one the library takes. -/
theorem signalMilestone_mirrored (h : s.WellFormed) (even : s.Even) (c : U128) {index : U32}
    (kind : s.kind = 2) (live : s.cancelledAt = 0) (below : index.toNat < s.tranches.toNat)
    (clear : s.signalled.getLsbD index.toNat = false) :
    ∃ amount, (s.mirrored c).signalMilestone index = some (.ok amount,
      { s with signalled := s.signalled ||| bitAt 64 index.toNat }.mirrored c) := by
  have sound := sound_mirrored h even c
  have inside : (s.mirrored c).kind = .milestone ∧ (s.mirrored c).cancelledAt = none ∧
      index.toNat < (s.mirrored c).tranches.length := by
    rw [length_mirrored kind]
    exact ⟨kind_mirrored_iff.mpr kind, live_mirrored_iff.mpr live, below⟩
  obtain ⟨amount, after, accepted⟩ :=
    sound.signalMilestone_ok_iff.mpr ⟨inside.1, inside.2.1, inside.2.2, clear⟩
  obtain ⟨answer, called⟩ := Schedule.exists_signalMilestone sound index
  rw [Schedule.signalledAfter, if_pos inside] at called
  rw [called] at accepted
  cases accepted
  exact ⟨amount, called⟩

theorem max_one_of_ne_zero {t : U64} (positive : t ≠ 0) : max t 1 = t := by
  have pos : t.toNat ≠ 0 := fun zero => positive (word_ext zero)
  refine word_ext ?_
  rw [toNat_max, show (1 : U64).toNat = 1 from rfl]
  omega

/-- What a cancellation leaves, at a time that can be stored. -/
theorem cancelled_mirrored (s : VestingSchedule) (c : U128) {at_ : U64} (positive : at_ ≠ 0) :
    { s.mirrored c with cancelledAt := some at_ } =
      { s with cancelledAt := max at_ 1, lastSeen := at_ }.mirrored c := by
  rw [max_one_of_ne_zero positive]
  simp only [VestingSchedule.mirrored, if_neg positive]
  rfl

/-- What had accrued at a cancellation is the most it will ever be. -/
theorem most_cancelled (live : s.cancelledAt = 0) {at_ : U64} (positive : at_ ≠ 0) :
    { s with cancelledAt := max at_ 1, lastSeen := at_ }.accrued at_.toNat =
        s.accrued at_.toNat ∧
      { s with cancelledAt := max at_ 1, lastSeen := at_ }.most = s.accrued at_.toNat := by
  rw [max_one_of_ne_zero positive]
  have here : { s with cancelledAt := at_, lastSeen := at_ }.accrued at_.toNat =
      s.accrued at_.toNat := accrued_frozen_at live positive (BitVec.le_refl at_)
  exact ⟨here, (if_neg positive).trans here⟩

/-- One more event: the library takes it, and keeps pace. -/
theorem KeepsPace.next (h : KeepsPace es s b) (valid : Valid s) (even : s.Even)
    (reports : Reports e effect) (acts : Acts effect s s') (timely : effect.Timely) :
    ∃ b', b.enter e = some b' ∧ KeepsPace (es ++ [e]) s' b' := by
  obtain ⟨⟨same, claimed, seen⟩, refunds, exact⟩ := h
  obtain ⟨schedule, splits⟩ := b
  generalize hc : schedule.claimed = c at same claimed seen
  subst same
  have wellFormed := valid.wellFormed
  have unsplit : ∀ e : Event, e.refund = none →
      splits.map (·.toCreator) = (es ++ [e]).filterMap Event.refund := by
    intro e none
    rw [refunds_append, none, Option.toList_none, List.append_nil]
    exact refunds
  cases reports with
  | @claimed scheduleId amount at_ =>
    cases acts with
    | claim _ _ _ howed hamount fits =>
      obtain ⟨answer, c', called, answers, value⟩ := claim_mirrored wellFormed even c at_
      rw [claimable_eq_ok_iff wellFormed] at howed
      rw [BitVec.le_def] at hamount
      have past := s.accrued_mono (Nat.le_max_left s.lastSeen.toNat at_.toNat)
      have now := s.accrued_mono (Nat.le_max_right s.lastSeen.toNat at_.toNat)
      refine ⟨⟨s.mirrored c', splits⟩, ?_, .of_eq rfl ?_ ?_, unsplit _ rfl, exact⟩
      · rw [Books.enter, called]
        rcases answers with rfl | ⟨amount, rfl⟩ <;> rfl
      · rw [toNat_add_of_fits fits]
        omega
      · change c'.toNat ≤ s.accrued (max s.lastSeen at_).toNat
        rw [toNat_max]
        omega
  | @cancelled scheduleId at_ refund =>
    cases acts with
    | cancel _ cancelable live _ _ _ forward hrefund =>
      have later := s.accrued_mono (BitVec.le_def.mp forward)
      obtain ⟨split, called, refunded, sum, kept⟩ :=
        cancel_mirrored wellFormed even cancelable live (Nat.le_trans seen later) hrefund
      obtain ⟨here, most⟩ := most_cancelled live timely
      -- a live record was not split before
      have first : splits = [] := List.eq_nil_iff_forall_not_mem.mpr fun split mem =>
        (exact split mem).1 live
      refine ⟨⟨_, splits ++ [split]⟩, ?_, .of_eq (cancelled_mirrored s c timely) claimed ?_, ?_, ?_⟩
      · rw [Books.enter, called]
        rfl
      · rw [here]
        exact Nat.le_trans seen later
      · rw [refunds_append, ← refunds, List.map_append, List.map_singleton, refunded]
        rfl
      · rw [first, List.nil_append]
        rintro split' mem
        obtain rfl := List.mem_singleton.mp mem
        exact ⟨max_one_ne_zero at_, sum, kept.trans most.symm⟩
  | madeNonCancelable =>
    cases acts with
    | makeNonCancelable _ cancelable =>
      refine ⟨⟨{ s.mirrored c with cancelable := false }, splits⟩, ?_, .of_eq rfl claimed seen,
        unsplit _ rfl, exact⟩
      rw [Books.enter, Schedule.makeNonCancelable,
        if_pos (cancelable_mirrored_iff.mpr cancelable)]
  | beneficiaryTransferred =>
    cases acts with
    | transferBeneficiary =>
      exact ⟨_, rfl, .of_eq rfl claimed seen, unsplit _ rfl, exact⟩
  | @milestoneSignalled scheduleId index =>
    cases acts with
    | signalMilestone _ kind live below clear =>
      obtain ⟨amount, called⟩ := signalMilestone_mirrored wellFormed even c kind live
        (index_lt_64 below).2 clear
      have more := accrued_or_le s (bitAt 64 index.toNat) s.lastSeen.toNat
      refine ⟨⟨_, splits⟩, ?_, .of_eq rfl claimed (Nat.le_trans seen more), unsplit _ rfl, ?_⟩
      · rw [Books.enter, called]
        rfl
      · intro split mem
        exact absurd live (exact split mem).1

/-- A fresh record and the library's schedule of its terms begin together. -/
theorem keepsPace_of_announced (h : Announced d k s e) (even : s.Even) :
    inLibrary s = .ok (s.mirrored 0) ∧ KeepsPace [] s ⟨s.mirrored 0, []⟩ := by
  obtain ⟨-, creator, escrow, beneficiary, asset, terms, built⟩ := h.built
  obtain ⟨rfl, wellFormed⟩ := newState_eq_ok built
  exact ⟨inLibrary_initialState wellFormed even, .of_eq rfl (Nat.zero_le _) (Nat.zero_le _), rfl,
    fun _ mem => absurd mem List.not_mem_nil⟩

/-- A life from a record on, and the library's beside it. -/
theorem KeepsPace.run (valid : Valid s₀) (start : s₀.Even → KeepsPace [] s₀ b)
    (run : Trace (Lifeline d k) (some s₀) es slot) :
    ∃ s, slot = some s ∧ Valid s ∧ (s.Even ↔ s₀.Even) ∧
      (s₀.Even → ∃ b', es.foldlM Books.enter b = some b' ∧ KeepsPace es s b') := by
  refine run.invariant (fun es slot => ∃ s, slot = some s ∧ Valid s ∧ (s.Even ↔ s₀.Even) ∧
      (s₀.Even → ∃ b', es.foldlM Books.enter b = some b' ∧ KeepsPace es s b'))
    ⟨s₀, rfl, valid, Iff.rfl, fun even => ⟨b, rfl, start even⟩⟩ ?_
  rintro es _ e _ ⟨s, rfl, valid, same, before⟩ last
  cases last with
  | acted reports acts timely =>
    refine ⟨_, rfl, acts.valid valid, acts.even_iff.trans same, fun even => ?_⟩
    obtain ⟨b₁, entered, pace⟩ := before even
    obtain ⟨b₂, taken, next⟩ := pace.next valid (same.mpr even) reports acts timely
    refine ⟨b₂, ?_, next⟩
    rw [List.foldlM_append, entered]
    exact (congrArg (· >>= pure) taken).trans (bind_pure _)

/-- The library keeps pace with every chain. In every run of a chain from no schedules, at block
times from the end of the first window on, and for each stored record, time-based or with
milestones that share the total equally: the library's constructor takes the terms that were
announced, and its schedule takes a call for every event since, none refused but a claim with
nothing new. The two then vest the same at every time and accept the same signals, the same lock
and the same cancellation from the last time seen on. For each cancellation of the log the library
computed one split, whose part for the creator was the refund, whose sum is the total and whose
other two parts are what the record claimed and what it still owes. -/
theorem library_keeps_pace (d : Deployment) (w w' : World) (es : List LogEntry) (fresh : Fresh w)
    (run : Trace (Logged d) w es w') (k : AccountId) (s : VestingSchedule)
    (stored : w'.shard k = store s) (even : s.Even) :
    ∃ opening acts s₀ schedule b, logAbout d k es = opening :: acts ∧ Announced d k s₀ opening ∧
      inLibrary s₀ = .ok schedule ∧ acts.foldlM Books.enter ⟨schedule, []⟩ = some b ∧
        Agree s b.schedule ∧ b.splits.map (·.toCreator) = acts.filterMap Event.refund ∧
          ∀ split ∈ b.splits, split.sum = some s.total ∧
            split.alreadyClaimed.toNat + split.toBeneficiary.toNat =
              s.claimed.toNat + stillOwed s := by
  obtain ⟨slot, life, held⟩ := fresh.lifeline run k
  cases slot with
  | none => exact absurd (stored.symm.trans held) (store_ne_nil s)
  | some s₁ =>
    obtain rfl := store_injective (stored.symm.trans held)
    cases log : logAbout d k es with
    | nil =>
      rw [log] at life
      cases trace_nil_iff.mp life
    | cons opening acts =>
      rw [log] at life
      obtain ⟨_, first, rest⟩ := life.cons
      cases first with
      | @opened _ s₀ announced =>
        obtain ⟨_, same, valid, terms, pace⟩ := KeepsPace.run (told_of_announced announced).valid
          (fun even => (keepsPace_of_announced announced even).2) rest
        obtain rfl := Option.some.inj same
        obtain ⟨b, entered, mirrors, refunds, exact⟩ := pace (terms.mp even)
        refine ⟨opening, acts, s₀, _, b, rfl, announced,
          (keepsPace_of_announced announced (terms.mp even)).1, entered,
          mirrors.agree valid.wellFormed even, refunds, fun split mem => ?_⟩
        obtain ⟨-, sum, kept⟩ := exact split mem
        refine ⟨sum, ?_⟩
        have within := valid.claimed_le_most
        rw [stillOwed_eq valid, VestingSchedule.owed, kept]
        omega

namespace Sample

/-- The creator's cancellation of the first schedule after the claim on it. -/
def cancelFirst : Transaction :=
  deployment.cancelTransaction (batchScheduleId deployment.toPlatform batchId 0) (some batchId)
    .native 1700000900000 300 (account 0xAA) (account 1)

/-- The first beneficiary's claim and then the cancellation. -/
theorem split_run : Trace (Logged deployment) start
    [.landed (planOf creation), .landed (planOf claim), .landed (planOf cancelFirst)]
    (deployment.land (deployment.land chain claim) cancelFirst) :=
  log_run.next (logged (by decide +kernel) (by decide +kernel))

/-- The first record with half of it claimed and then cancelled. -/
def split : VestingSchedule :=
  { record escrow with claimed := 300, lastSeen := 1700000900000, cancelledAt := 1700000900000 }

end Sample

/-- In the sample the library splits the first schedule into the half claimed and the half
refunded. -/
theorem library_keeps_pace_sample :
    ∃ opening acts s₀ schedule b, logAbout Sample.deployment Sample.first
        [.landed (Sample.planOf Sample.creation), .landed (Sample.planOf Sample.claim),
          .landed (Sample.planOf Sample.cancelFirst)] = opening :: acts ∧
      Announced Sample.deployment Sample.first s₀ opening ∧
        inLibrary s₀ = .ok schedule ∧ acts.foldlM Books.enter ⟨schedule, []⟩ = some b ∧
          Agree Sample.split b.schedule ∧
            b.splits.map (·.toCreator) = acts.filterMap Event.refund ∧
              ∀ split ∈ b.splits, split.sum = some Sample.split.total ∧
                split.alreadyClaimed.toNat + split.toBeneficiary.toNat =
                  Sample.split.claimed.toNat + stillOwed Sample.split :=
  library_keeps_pace Sample.deployment _ _ _ Sample.fresh_start Sample.split_run Sample.first
    Sample.split (by decide +kernel) (fun milestones => absurd milestones (by decide))

end Vesting

end Antumbra
