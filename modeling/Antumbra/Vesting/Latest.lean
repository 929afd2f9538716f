/-
# What a library schedule has paid

Claims may come at any times, forwards and backwards, and between the signals of
milestones. What they paid in all is decided by the latest of them alone: the latest
time for the time-based kinds, the signals before the last claim for milestones.
This holds of every schedule whose tranches fit the bitmap.
-/

import Antumbra.Vesting.Calls

namespace Antumbra

open Antumbra.Math

namespace Schedule

/-- The latest time the claims of a sequence name. -/
def latestTime (calls : List Call) : Option ℕ :=
  ((claimTimes calls).map BitVec.toNat).max?

/-- Everything the claims of a trace returned. -/
def Trace.paidInAll (tr : Trace) : ℕ := (tr.paid.map BitVec.toNat).sum

/-- Payment depends on the latest claim only. -/
structure PaysByLatest (s : Schedule) : Prop where
  /-- No call stops the program. -/
  answers : ∀ calls, ∃ tr, s.run calls = some tr
  /-- What is claimed is the largest amount any claim saw vested. -/
  claimed : ∀ calls tr, s.run calls = some tr →
    tr.schedule.claimed.toNat = (tr.seen.map BitVec.toNat).foldl max 0
  paid : ∀ calls tr, s.run calls = some tr → tr.paidInAll = tr.schedule.claimed.toNat
  /-- A refused claim changes nothing. -/
  refused : ∀ calls tr, s.run calls = some tr →
    ∀ now e after, tr.schedule.claim now = some (.error e, after) → after = tr.schedule
  /-- Claims with the same latest time pay the same in all. -/
  same_time : s.kind ≠ .milestone → ∀ calls calls' tr tr', s.run calls = some tr →
    s.run calls' = some tr' → latestTime calls = latestTime calls' →
    tr.paidInAll = tr'.paidInAll
  /-- So do claims on milestones with the same signals before the last one. -/
  same_signals : s.kind = .milestone → ∀ calls calls' now now' rest rest' tr tr',
    s.run (calls ++ .claim now :: rest) = some tr →
    s.run (calls' ++ .claim now' :: rest') = some tr' →
    claimTimes rest = [] → claimTimes rest' = [] → signals calls = signals calls' →
    tr.paidInAll = tr'.paidInAll
  /-- Nothing is stranded once a claim came at the end or later. -/
  by_end : s.kind ≠ .milestone → ∀ calls tr, s.run calls = some tr →
    ∀ now ∈ claimTimes calls, s.end_ ≤ now → tr.paidInAll = s.total.toNat
  /-- Nothing is stranded once a claim came after every milestone was signalled. -/
  by_signals : s.kind = .milestone → ∀ calls now rest tr,
    s.run (calls ++ .claim now :: rest) = some tr →
    (∀ i < s.tranches.length, BitVec.ofNat 32 i ∈ signals calls) →
    tr.paidInAll = s.total.toNat

/-! ### Schedules within the bitmap -/

theorem Fresh.claimed {s : Schedule} (h : s.Fresh) : s.claimed = 0 := by
  obtain (⟨_, _, _, accepted⟩ | ⟨_, _, _, _, accepted⟩) | ⟨_, accepted⟩ := h
  · rw [(eq_of_linear accepted).1]
    rfl
  · rw [(eq_of_cliffLinear accepted).1]
    rfl
  · rw [(eq_of_milestone accepted).1]
    rfl

theorem follows_of_run {s : Schedule} (h : s.Sound) {calls : List Call} {tr : Trace}
    (ran : s.run calls = some tr) : Trace.Follows ⟨s, [], []⟩ calls tr := by
  obtain ⟨tr', ran', follows⟩ := exists_follows ⟨s, [], []⟩ h calls
  rw [run, ran', Option.some_inj] at ran
  exact ran ▸ follows

/-- What a fresh schedule paid is the largest amount its claims found vested. -/
theorem paidInAll_eq {s : Schedule} (h : s.Sound) (nothing : s.claimed = 0) {calls : List Call}
    {tr : Trace} (ran : s.run calls = some tr) :
    tr.paidInAll = (s.observed calls).foldl max 0 := by
  obtain ⟨-, -, claimed, paid⟩ := follows_of_run h ran
  rw [nothing, toNat_zero] at claimed paid
  rw [← claimed]
  exact paid.trans (Nat.zero_add _)

/-- A time-based schedule's claims see the rule at their times. -/
theorem observed_of_timeBased {s : Schedule} (timed : s.kind ≠ .milestone) (calls : List Call) :
    s.observed calls = ((claimTimes calls).map BitVec.toNat).map s.earned := by
  induction calls generalizing s with
  | nil => rfl
  | cons c calls ih =>
    cases c with
    | claim now => exact congrArg (s.earned now.toNat :: ·) (ih timed)
    | signalMilestone index =>
      -- the signal is refused
      have same : { s with signalled := s.signalledAfter s.signalled index } = s := by
        rw [signalledAfter, if_neg fun all => timed all.1]
      change observed { s with signalled := s.signalledAfter s.signalled index } calls = _
      rw [same]
      exact ih timed
    | makeNonCancelable => exact ih timed

theorem observed_append (s : Schedule) (calls rest : List Call) :
    s.observed (calls ++ rest) = s.observed calls ++
      { s with signalled := (signals calls).foldl s.signalledAfter s.signalled }.observed
        rest := by
  induction calls generalizing s with
  | nil => rfl
  | cons c calls ih =>
    cases c with
    | claim now => exact congrArg (s.earned now.toNat :: ·) (ih s)
    | signalMilestone index => exact ih { s with signalled := s.signalledAfter s.signalled index }
    | makeNonCancelable => exact ih s

/-- Everything observed is what one of the claims saw, after the signals before it. -/
theorem exists_of_mem_observed {s : Schedule} {calls : List Call} {v : ℕ}
    (mem : v ∈ s.observed calls) :
    ∃ earlier now later, calls = earlier ++ .claim now :: later ∧
      v = { s with signalled := (signals earlier).foldl s.signalledAfter s.signalled }.earned
        now.toNat := by
  induction calls generalizing s with
  | nil => exact absurd mem List.not_mem_nil
  | cons c calls ih =>
    cases c with
    | claim now =>
      rcases List.mem_cons.mp mem with rfl | later
      · exact ⟨[], now, calls, rfl, rfl⟩
      · obtain ⟨earlier, now', rest, rfl, value⟩ := ih later
        exact ⟨.claim now :: earlier, now', rest, rfl, value⟩
    | signalMilestone index =>
      obtain ⟨earlier, now', rest, rfl, value⟩ := ih mem
      exact ⟨.signalMilestone index :: earlier, now', rest, rfl, value⟩
    | makeNonCancelable =>
      obtain ⟨earlier, now', rest, rfl, value⟩ := ih mem
      exact ⟨.makeNonCancelable :: earlier, now', rest, rfl, value⟩

/-- No claim sees more than the total. -/
theorem Sound.observed_le {s : Schedule} (h : s.Sound) (calls : List Call) :
    ∀ v ∈ s.observed calls, v ≤ s.total.toNat := by
  intro v mem
  obtain ⟨earlier, now, -, -, rfl⟩ := exists_of_mem_observed mem
  exact (h.update s.claimed s.cancelable _ s.cancelledAt).earned_le now.toNat

theorem observed_of_no_claims {s : Schedule} {calls : List Call} (none : claimTimes calls = []) :
    s.observed calls = [] := by
  rw [List.eq_nil_iff_forall_not_mem]
  intro v mem
  obtain ⟨earlier, now, later, rfl, -⟩ := exists_of_mem_observed mem
  rw [claimTimes, List.filterMap_append] at none
  exact List.cons_ne_nil _ _ (List.append_eq_nil_iff.mp none).2

/-! ### Milestones -/

/-- Milestones earn what the bits `x` signal, at any time. -/
theorem earned_of_milestone {s : Schedule} (kind : s.kind = .milestone) (x : U64) (t : ℕ) :
    { s with signalled := x }.earned t = signalledFrom x 0 s.tranches := by
  unfold earned frozen base
  simp only [kind]
  split <;> rfl

/-- Signals only add bits. -/
theorem getLsbD_foldl_signalledAfter (s : Schedule) (indices : List U32) {x : U64} {i : ℕ}
    (set : x.getLsbD i = true) : (indices.foldl s.signalledAfter x).getLsbD i = true := by
  induction indices generalizing x with
  | nil => exact set
  | cons index indices ih =>
    refine ih ?_
    unfold signalledAfter
    split
    · rw [BitVec.getLsbD_or, set, Bool.true_or]
    · exact set

/-- Signals set the bits of the tranches they name and no others. -/
theorem getLsbD_signalled {s : Schedule} (kind : s.kind = .milestone) (live : s.cancelledAt = none)
    (count : s.tranches.length ≤ MAX_MILESTONES) (indices : List U32) (x : U64) (j : ℕ) :
    (indices.foldl s.signalledAfter x).getLsbD j = true ↔
      x.getLsbD j = true ∨ j < s.tranches.length ∧ ∃ index ∈ indices, index.toNat = j := by
  induction indices generalizing x with
  | nil => simp
  | cons index indices ih =>
    rw [List.foldl_cons, ih]
    simp only [List.mem_cons, exists_eq_or_imp]
    unfold signalledAfter
    by_cases inside : index.toNat < s.tranches.length
    · rw [if_pos ⟨kind, live, inside⟩, BitVec.getLsbD_or, getLsbD_bitAt]
      have fits : index.toNat < 64 := Nat.lt_of_lt_of_le inside count
      by_cases same : j = index.toNat
      · subst same
        simp [fits, inside]
      · have other : index.toNat ≠ j := fun h => same h.symm
        simp [same, other]
    · rw [if_neg fun all => inside all.2.2]
      have other : ¬ (j < s.tranches.length ∧ index.toNat = j) := by
        rintro ⟨below, rfl⟩
        exact inside below
      tauto

/-- No claim on milestones sees more than the signals of the whole sequence earn. -/
theorem observed_le_of_milestone {s : Schedule} (kind : s.kind = .milestone) (calls : List Call) :
    ∀ v ∈ s.observed calls,
      v ≤ signalledFrom ((signals calls).foldl s.signalledAfter s.signalled) 0 s.tranches := by
  intro v mem
  obtain ⟨earlier, now, later, rfl, rfl⟩ := exists_of_mem_observed mem
  have split : signals (earlier ++ .claim now :: later) = signals earlier ++ signals later :=
    List.filterMap_append
  rw [earned_of_milestone kind, split, List.foldl_append]
  -- the signals after the claim only add bits
  exact signalledFrom_mono (fun i => getLsbD_foldl_signalledAfter s (signals later)) 0 _

/-- With no claim after it, the last claim on milestones decides what was paid. -/
theorem paidInAll_of_milestone {s : Schedule} (h : s.Sound) (nothing : s.claimed = 0)
    (kind : s.kind = .milestone) {calls rest : List Call} {now : U64} {tr : Trace}
    (ran : s.run (calls ++ .claim now :: rest) = some tr) (last : claimTimes rest = []) :
    tr.paidInAll =
      signalledFrom ((signals calls).foldl s.signalledAfter s.signalled) 0 s.tranches := by
  rw [paidInAll_eq h nothing ran, observed_append, observed, observed_of_no_claims last,
    earned_of_milestone kind]
  refine foldl_max_eq_of_mem (Nat.zero_le _) (List.mem_append_right _ List.mem_cons_self) ?_
  intro v mem
  -- the claims before it saw the same signals or fewer
  rcases List.mem_append.mp mem with earlier | here
  · exact observed_le_of_milestone kind calls v earlier
  · exact (List.mem_singleton.mp here).le

/-! ### Lists beyond the bitmap -/

/-- Reading past the bitmap stops the program. -/
theorem foldlM_beyond {signalled : U64} {i : ℕ} {tranches : List U128} {sum : U128} (below : i ≤ 64)
    (beyond : 64 < i + tranches.length) :
    (tranches.zipIdx i).foldlM
      (fun sum (amount, i) =>
        if 64 ≤ i then none
        else if signalled &&& bitAt 64 i ≠ 0 then checkedAdd sum amount
        else some sum) sum = none := by
  induction tranches generalizing i sum with
  | nil =>
    rw [List.length_nil] at beyond
    omega
  | cons t tranches ih =>
    rw [List.length_cons] at beyond
    rw [List.zipIdx_cons, List.foldlM_cons]
    rcases Nat.eq_or_lt_of_le below with rfl | inside
    · rfl
    · simp only [if_neg (Nat.not_le.mpr inside)]
      -- whatever the sum becomes, the rest reads past the bitmap
      have rest : ∀ sum, _ := fun sum => @ih (i + 1) sum (by omega) (by omega)
      split
      · cases added : checkedAdd sum t with
        | none => rfl
        | some sum => exact rest sum
      · exact rest sum

theorem vestedAt_beyond {s : Schedule} (kind : s.kind = .milestone)
    (beyond : MAX_MILESTONES < s.tranches.length) (now : U64) : s.vestedAt now = none := by
  rw [vestedAt, kind]
  exact foldlM_beyond (by decide) (by rw [Nat.zero_add]; exact beyond)

theorem Fresh.kind_of_tranches {s : Schedule} (h : s.Fresh) (some : s.tranches ≠ []) :
    s.kind = .milestone := by
  obtain (⟨_, _, _, accepted⟩ | ⟨_, _, _, _, accepted⟩) | ⟨_, accepted⟩ := h
  · rw [(eq_of_linear accepted).1] at some
    exact absurd rfl some
  · rw [(eq_of_cliffLinear accepted).1] at some
    exact absurd rfl some
  · rw [(eq_of_milestone accepted).1]
    rfl

/-! ### The result -/

theorem claim_refused {s after : Schedule} {now : U64} {e : CurveError}
    (h : s.claim now = some (.error e, after)) : after = s := by
  cases vested : s.vestedAt now with
  | none => simp [claim, claimableAt, vested] at h
  | some v =>
    rw [claim_eq vested, Option.some_inj] at h
    split at h
    · exact (congrArg Prod.snd h).symm
    · exact absurd (congrArg Prod.fst h) (by simp)

/-- At the end a time-based schedule has earned its total. -/
theorem TimeBased.earned_end {s : Schedule} (h : s.TimeBased) {t : U64} (late : s.end_ ≤ t) :
    s.earned t.toNat = s.total.toNat := by
  obtain ⟨start_le, cliff_lt⟩ := h.order
  rw [BitVec.le_def] at late start_le
  rw [BitVec.lt_def] at cliff_lt
  rw [earned_of_live h.live, base_of_timeBased h, delayed, Math.linear, if_neg (by omega),
    if_neg (by omega), if_pos late]

/-- A claim at the end has everything paid: it sees the total, and no claim sees more. -/
theorem TimeBased.paidInAll {s : Schedule} (h : s.TimeBased) (sound : s.Sound)
    (nothing : s.claimed = 0) (timed : s.kind ≠ .milestone) {calls : List Call} {tr : Trace}
    (ran : s.run calls = some tr) {now : U64} (mem : now ∈ claimTimes calls)
    (late : s.end_ ≤ now) : tr.paidInAll = s.total.toNat := by
  rw [paidInAll_eq sound nothing ran]
  refine foldl_max_eq_of_mem (Nat.zero_le _) ?_ (sound.observed_le calls)
  rw [observed_of_timeBased timed, ← h.earned_end late]
  exact List.mem_map_of_mem (List.mem_map_of_mem mem)

/-- Once every milestone is signalled the tranches earned are all of them. -/
theorem signalledFrom_all {s : Schedule} (kind : s.kind = .milestone)
    (live : s.cancelledAt = none) (count : s.tranches.length ≤ MAX_MILESTONES)
    {indices : List U32} (all : ∀ i < s.tranches.length, BitVec.ofNat 32 i ∈ indices) :
    signalledFrom (indices.foldl s.signalledAfter s.signalled) 0 s.tranches =
      (s.tranches.map BitVec.toNat).sum := by
  refine signalledFrom_eq_sum fun i _ inside => ?_
  rw [Nat.zero_add] at inside
  have index : (BitVec.ofNat 32 i).toNat = i := by
    unfold MAX_MILESTONES at count
    rw [BitVec.toNat_ofNat, Nat.mod_eq_of_lt (by omega)]
  exact (getLsbD_signalled kind live count _ _ i).mpr (.inr ⟨inside, _, all i inside, index⟩)

theorem Fresh.paysByLatest {s : Schedule} (fresh : s.Fresh)
    (fits : s.tranches.length ≤ MAX_MILESTONES) : s.PaysByLatest := by
  have sound := fresh.sound fits
  have nothing := fresh.claimed
  have timeBased : s.kind ≠ .milestone → s.TimeBased := by
    intro timed
    obtain timeBased | ⟨_, accepted⟩ := fresh
    · exact timeBased
    · rw [(eq_of_milestone accepted).1] at timed
      exact absurd rfl timed
  refine ⟨?_, ?_, ?_, ?_, ?_, ?_, ?_, ?_⟩
  · intro calls
    obtain ⟨tr, ran, -⟩ := exists_follows ⟨s, [], []⟩ sound calls
    exact ⟨tr, ran⟩
  · intro calls tr ran
    have follows := follows_of_run sound ran
    rw [follows.claimed, follows.seen, nothing]
    rfl
  · intro calls tr ran
    have follows := follows_of_run sound ran
    rw [paidInAll_eq sound nothing ran, follows.claimed, nothing]
    rfl
  · intro calls tr ran now e after refused
    exact claim_refused refused
  · intro timed calls calls' tr tr' ran ran' same
    -- the rule is monotone, so the largest amount seen is the one at the latest time
    rw [paidInAll_eq sound nothing ran, paidInAll_eq sound nothing ran',
      observed_of_timeBased timed, observed_of_timeBased timed, greatest_at_latest s.earned_mono,
      greatest_at_latest s.earned_mono]
    exact congrArg (fun latest => (latest.map s.earned).getD 0) same
  · intro kind calls calls' now now' rest rest' tr tr' ran ran' last last' same
    rw [paidInAll_of_milestone sound nothing kind ran last,
      paidInAll_of_milestone sound nothing kind ran' last', same]
  · intro timed calls tr ran now mem late
    exact (timeBased timed).paidInAll sound nothing timed ran mem late
  · intro kind calls now rest tr ran all
    cases sound with
    | cliffLinear timed => exact absurd (timed.symm.trans kind) (by decide)
    | linear timed => exact absurd (timed.symm.trans kind) (by decide)
    | milestone _ count total =>
      -- every bit of a tranche is set by the time of the last claim
      have whole := (signalledFrom_all kind fresh.live count all).trans total
      have sound := fresh.sound fits
      rw [paidInAll_eq sound nothing ran]
      refine foldl_max_eq_of_mem (Nat.zero_le _) ?_ (sound.observed_le _)
      rw [observed_append, observed, earned_of_milestone kind, whole]
      exact List.mem_append_right _ List.mem_cons_self

/-- Payment depends on the latest claim exactly when the tranches fit the bitmap. A
longer list passes the constructor, which looks at its length modulo `2 ^ 32`, and then
every claim on it stops the program. -/
theorem paysByLatest_iff (s : Schedule) (fresh : s.Fresh) :
    s.PaysByLatest ↔ s.tranches.length ≤ MAX_MILESTONES := by
  refine ⟨fun pays => ?_, fresh.paysByLatest⟩
  by_contra beyond
  rw [Nat.not_le] at beyond
  have kind := fresh.kind_of_tranches (List.ne_nil_of_length_pos (by omega))
  -- one claim is enough to stop the program
  obtain ⟨tr, ran⟩ := pays.answers [.claim 0]
  rw [run, List.foldlM_cons, Trace.call, vestedAt_beyond kind beyond] at ran
  exact absurd ran (by simp)

theorem paysByLatest_iff_linear : (created .linear 0 0 10 100 []).PaysByLatest :=
  (paysByLatest_iff _ (.inl (.inl ⟨0, 10, 100, by decide⟩))).mpr (by decide)

theorem foldlM_replicate (n : ℕ) (sum : U128) (fits : sum.toNat + n < 2 ^ 128) :
    (List.replicate n (1 : U128)).foldlM
      (fun total t =>
        if t = 0 then Except.error CurveError.zeroAmount
        else
          match checkedAdd total t with
          | some sum => Except.ok sum
          | none => Except.error CurveError.overflow)
      sum = .ok (sum + BitVec.ofNat 128 n) := by
  induction n generalizing sum with
  | zero =>
    rw [List.replicate_zero, List.foldlM_nil, pure_eq_ok, BitVec.add_zero]
  | succ n ih =>
    have one : (sum + 1).toNat = sum.toNat + 1 := by
      rw [BitVec.toNat_add, show (1 : U128).toNat = 1 from rfl, Nat.mod_eq_of_lt (by omega)]
    have added : checkedAdd sum 1 = some (sum + 1) :=
      checkedAdd_eq_some_iff.mpr one.symm
    rw [List.replicate_succ, List.foldlM_cons, if_neg (by decide), added]
    refine (ih (sum + 1) (by omega)).trans (congrArg Except.ok ?_)
    rw [BitVec.add_assoc, BitVec.ofNat_add, BitVec.add_comm (BitVec.ofNat 128 n)]
    rfl

/-- As many units in as many tranches: accepted whenever the truncated length is. -/
theorem milestone_replicate {n : ℕ} (some : n ≠ 0) (truncated : n % 2 ^ 32 ≤ MAX_MILESTONES)
    (fits : n < 2 ^ 128) :
    milestone (List.replicate n 1) =
      .ok (created .milestone 0 0 0 (BitVec.ofNat 128 n) (List.replicate n 1)) := by
  have guard : ¬ (List.replicate n (1 : U128) = [] ∨
      MAX_MILESTONES < (List.replicate n (1 : U128)).length % 2 ^ 32) := by
    rw [List.replicate_eq_nil_iff, List.length_replicate]
    omega
  have summed := foldlM_replicate n 0 (by rw [toNat_zero]; omega)
  rw [show (0 : U128) + BitVec.ofNat 128 n = BitVec.ofNat 128 n from BitVec.zero_add _] at summed
  rw [milestone, if_neg guard]
  exact bind_eq_ok_iff.mpr ⟨_, summed, rfl⟩

/-- A list of units the truncated length lets through stops every claim. -/
theorem not_paysByLatest_of_long {n : ℕ} (truncated : n % 2 ^ 32 ≤ MAX_MILESTONES)
    (long : MAX_MILESTONES < n) (fits : n < 2 ^ 128) :
    ∃ s, milestone (List.replicate n 1) = .ok s ∧ (∀ now, s.vestedAt now = none) ∧
      ¬ s.PaysByLatest := by
  have beyond : MAX_MILESTONES < (List.replicate n (1 : U128)).length := by
    rw [List.length_replicate]
    exact long
  refine ⟨_, milestone_replicate (by omega) truncated fits, vestedAt_beyond rfl beyond, ?_⟩
  intro pays
  obtain ⟨tr, ran⟩ := pays.answers [.claim 0]
  rw [run, List.foldlM_cons, Trace.call, vestedAt_beyond rfl beyond] at ran
  exact absurd ran (by simp)

/-- `2 ^ 32 + 1` tranches of one unit are accepted, and no claim on them returns. -/
theorem long_milestone_never_pays :
    ∃ s, milestone (List.replicate (2 ^ 32 + 1) 1) = .ok s ∧ (∀ now, s.vestedAt now = none) ∧
      ¬ s.PaysByLatest :=
  not_paysByLatest_of_long (by unfold MAX_MILESTONES; omega) (by unfold MAX_MILESTONES; omega)
    (by omega)

end Schedule

end Antumbra
