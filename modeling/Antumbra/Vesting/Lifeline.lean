/-
# The life of a schedule as its events tell it

Every accepted instruction emits one event. That of a creation announces the schedules it
opens; each later one says what it changed. Read in order over the announced record they
give the stored one back, and what they say was claimed and refunded adds up, with what is
still owed, to the total.
-/

import Antumbra.Math.Flow
import Antumbra.Vesting.Batch

namespace Antumbra

open Antumbra.Math

namespace Vesting

/-! ### What an event says -/

/-- The ids an event is about. -/
def Event.scheduleIds (p : Platform) : Event → List (Bytes 32)
  | .scheduleCreated scheduleId _ _ _ _ _ => [scheduleId]
  | .batchCreated batchId _ _ count _ =>
    (List.range count.toNat).map fun i => batchScheduleId p batchId (BitVec.ofNat 32 i)
  | .claimed scheduleId _ _ _ => [scheduleId]
  | .cancelled scheduleId _ _ _ => [scheduleId]
  | .madeNonCancelable scheduleId => [scheduleId]
  | .beneficiaryTransferred scheduleId _ _ => [scheduleId]
  | .milestoneSignalled scheduleId _ => [scheduleId]

/-- The addresses of the schedules an event is about. -/
def Event.accounts (d : Deployment) (e : Event) : List AccountId :=
  (e.scheduleIds d.toPlatform).map (scheduleAccount d.toPlatform d.me)

/-- A creation's event. -/
def Event.Opening : Event → Prop
  | .scheduleCreated .. => True
  | .batchCreated .. => True
  | _ => False

/-- The record after an event about it. -/
def VestingSchedule.after (s : VestingSchedule) : Event → VestingSchedule
  | .claimed _ amount at_ _ =>
    { s with claimed := s.claimed + amount, lastSeen := max s.lastSeen at_ }
  | .cancelled _ at_ _ _ => { s with cancelledAt := max at_ 1, lastSeen := at_ }
  | .madeNonCancelable _ => { s with cancelable := 0 }
  | .beneficiaryTransferred _ _ target => { s with beneficiary := target }
  | .milestoneSignalled _ index => { s with signalled := s.signalled ||| bitAt 64 index.toNat }
  | _ => s

/-- A fresh record that a creation's event announces at an address: on the escrow, in the
asset, of the kind and the total it names, and for the beneficiary it names if it does. -/
def Announced (d : Deployment) (k : AccountId) (s : VestingSchedule) : Event → Prop
  | .scheduleCreated scheduleId beneficiary holding asset kind total =>
    k = scheduleAccount d.toPlatform d.me scheduleId ∧
      holding = holdingAccount d.toPlatform d.me scheduleId ∧
        ∃ creator terms, newState creator holding beneficiary asset terms = .ok s ∧
          terms.kind = kind ∧ terms.total = total
  | .batchCreated batchId holding asset count totalEach =>
    (∃ i < count.toNat, k = d.slot batchId i) ∧
      holding = holdingAccount d.toPlatform d.me batchId ∧
        ∃ creator who terms, newState creator holding who asset terms = .ok s ∧
          terms.total = totalEach
  | _ => False

/-- What an event says was claimed. -/
def Event.claimedAmount : Event → ℕ
  | .claimed _ amount _ _ => amount.toNat
  | _ => 0

/-- What an event says was refunded. -/
def Event.refundedAmount : Event → ℕ
  | .cancelled _ _ refund _ => refund.toNat
  | _ => 0

/-- Whether an event is a cancellation, as a number. -/
def Event.cancellations : Event → ℕ
  | .cancelled .. => 1
  | _ => 0

/-- The milestone an event signals. -/
def Event.milestone : Event → Option ℕ
  | .milestoneSignalled _ index => some index.toNat
  | _ => none

/-- An event reports an effect other than a creation. -/
inductive Reports : Event → Effect → Prop
  | claimed {scheduleId : Bytes 32} {amount : U128} {at_ : U64} {asset : Asset}
      {destination beneficiary holding : AccountId} :
      Reports (.claimed scheduleId amount at_ destination)
        (.claim beneficiary holding asset amount at_)
  | cancelled {scheduleId : Bytes 32} {at_ : U64} {refund : U128} {asset : Asset}
      {refundTo authority holding : AccountId} :
      Reports (.cancelled scheduleId at_ refund refundTo)
        (.cancel authority holding refundTo asset at_ refund)
  | madeNonCancelable {scheduleId : Bytes 32} {creator : AccountId} :
      Reports (.madeNonCancelable scheduleId) (.makeNonCancelable creator)
  | beneficiaryTransferred {scheduleId : Bytes 32} {source target : AccountId} :
      Reports (.beneficiaryTransferred scheduleId source target)
        (.transferBeneficiary source target)
  | milestoneSignalled {scheduleId : Bytes 32} {index : U32} {authority : AccountId} :
      Reports (.milestoneSignalled scheduleId index) (.signalMilestone authority index)

variable {d : Deployment} {k : AccountId} {s s' s₀ : VestingSchedule} {effect : Effect} {e : Event}
  {es : List Event} {slot : Option VestingSchedule}

theorem Reports.not_opening (h : Reports e effect) : ¬ e.Opening := by
  cases h <;> exact id

theorem Reports.after_eq (h : Reports e effect) (acts : Acts effect s s') : s' = s.after e := by
  cases h <;> cases acts <;> rfl

theorem Reports.paid_eq (h : Reports e effect) :
    effect.paid = e.claimedAmount + e.refundedAmount := by
  cases h with
  | claimed => rfl
  | cancelled => exact (Nat.zero_add _).symm
  | madeNonCancelable => rfl
  | beneficiaryTransferred => rfl
  | milestoneSignalled => rfl

theorem Reports.claimed_eq (h : Reports e effect) (acts : Acts effect s s') :
    s'.claimed.toNat = s.claimed.toNat + e.claimedAmount := by
  cases h with
  | claimed =>
    cases acts with
    | claim _ _ _ _ _ fits => exact toNat_add_of_fits fits
  | cancelled => cases acts; rfl
  | madeNonCancelable => cases acts; rfl
  | beneficiaryTransferred => cases acts; rfl
  | milestoneSignalled => cases acts; rfl

/-- A cancellation finds the record live and leaves it cancelled. -/
theorem Reports.cancelled_eq (h : Reports e effect) (acts : Acts effect s s') :
    (if s'.cancelledAt = 0 then 0 else 1) =
      (if s.cancelledAt = 0 then 0 else 1) + e.cancellations := by
  cases h with
  | cancelled =>
    cases acts with
    | cancel _ _ live =>
      rw [if_pos live, if_neg (max_one_ne_zero _)]
      rfl
  | claimed => cases acts; rfl
  | madeNonCancelable => cases acts; rfl
  | beneficiaryTransferred => cases acts; rfl
  | milestoneSignalled => cases acts; rfl

/-- A signal sets the one bit it names, which was clear. -/
theorem Reports.signalled_iff (h : Reports e effect) (acts : Acts effect s s') (i : ℕ) :
    (s'.signalled.getLsbD i = true ↔ s.signalled.getLsbD i = true ∨ i ∈ e.milestone) ∧
      (i ∈ e.milestone → s.signalled.getLsbD i = false) := by
  cases h with
  | milestoneSignalled =>
    cases acts with
    | signalMilestone _ _ _ index_lt clear =>
      have below := (index_lt_64 index_lt).1
      rw [BitVec.getLsbD_or, getLsbD_bitAt, Bool.or_eq_true, Event.milestone, Option.mem_some_iff,
        Bool.and_eq_true, decide_eq_true_eq, decide_eq_true_eq]
      refine ⟨or_congr_right ⟨fun both => both.2.symm, fun same => ⟨same ▸ below, same.symm⟩⟩, ?_⟩
      rintro rfl
      exact clear
  | claimed => cases acts; simp [Event.milestone]
  | cancelled => cases acts; simp [Event.milestone]
  | madeNonCancelable => cases acts; simp [Event.milestone]
  | beneficiaryTransferred => cases acts; simp [Event.milestone]

theorem milestones_append :
    (es ++ [e]).filterMap Event.milestone = es.filterMap Event.milestone ++ e.milestone.toList := by
  rw [List.filterMap_append]
  cases h : e.milestone <;> simp [h]

/-! ### A life -/

/-- One event in the life of the schedule at an address: it comes into being, once, or acts. -/
inductive Lifeline (d : Deployment) (k : AccountId) :
    Option VestingSchedule → Event → Option VestingSchedule → Prop
  | opened {e : Event} {s : VestingSchedule} (announced : Announced d k s e) :
      Lifeline d k none e (some s)
  | acted {e : Event} {effect : Effect} {s s' : VestingSchedule} (reports : Reports e effect)
      (acts : Acts effect s s') (timely : effect.Timely) : Lifeline d k (some s) e (some s')

/-- What the events after the announcement of `s₀` tell of the record they lead to. -/
structure Told (s₀ : VestingSchedule) (es : List Event) (s : VestingSchedule) : Prop where
  valid : Valid s
  acts : ∀ e ∈ es, ¬ e.Opening
  replayed : es.foldl VestingSchedule.after s₀ = s
  total : s.total = s₀.total
  claimed : s.claimed.toNat = flow Event.claimedAmount es
  settled :
    flow Event.claimedAmount es + flow Event.refundedAmount es + stillOwed s = s₀.total.toNat
  cancelled : flow Event.cancellations es = if s.cancelledAt = 0 then 0 else 1
  signalled : ∀ i, s.signalled.getLsbD i = true ↔ i ∈ es.filterMap Event.milestone
  once : (es.filterMap Event.milestone).Nodup

theorem Announced.built (h : Announced d k s e) :
    e.Opening ∧ ∃ creator escrow beneficiary asset terms,
      newState creator escrow beneficiary asset terms = .ok s := by
  cases e with
  | scheduleCreated =>
    obtain ⟨-, -, creator, terms, built, -⟩ := h
    exact ⟨trivial, creator, _, _, _, terms, built⟩
  | batchCreated =>
    obtain ⟨-, -, creator, who, terms, built, -⟩ := h
    exact ⟨trivial, creator, _, who, _, terms, built⟩
  | _ => exact absurd h id

/-- An announcement alone. -/
theorem told_of_announced (h : Announced d k s e) : Told s [] s := by
  obtain ⟨-, creator, escrow, beneficiary, asset, terms, built⟩ := h.built
  have valid := valid_of_newState built
  obtain ⟨rfl, -⟩ := newState_eq_ok built
  refine ⟨valid, by simp, rfl, rfl, rfl, ?_, rfl, ?_, List.nodup_nil⟩
  · rw [flow_nil, flow_nil, stillOwed_eq valid, VestingSchedule.owed, most_of_live rfl,
      show (initialState creator escrow beneficiary asset terms).claimed.toNat = 0 from rfl]
    omega
  · intro i
    rw [show (initialState creator escrow beneficiary asset terms).signalled = 0 from rfl]
    simp

/-- One more event. -/
theorem Told.next (h : Told s₀ es s) (reports : Reports e effect) (acts : Acts effect s s')
    (timely : effect.Timely) : Told s₀ (es ++ [e]) s' := by
  have valid' := acts.valid h.valid
  have owed := acts.owed_add_paid h.valid timely
  have settled := h.settled
  have signalled := reports.signalled_iff acts
  rw [stillOwed_eq h.valid] at settled
  rw [reports.paid_eq] at owed
  refine ⟨valid', ?_, ?_, ?_, ?_, ?_, ?_, ?_, ?_⟩
  · intro e' mem
    rcases List.mem_append.mp mem with old | new
    · exact h.acts e' old
    · rw [List.mem_singleton.mp new]
      exact reports.not_opening
  · rw [List.foldl_append, h.replayed]
    exact (reports.after_eq acts).symm
  · rw [← h.total]
    cases acts <;> rfl
  · rw [flow_append, flow_singleton, ← h.claimed, reports.claimed_eq acts]
  · rw [flow_append, flow_append, flow_singleton, flow_singleton, stillOwed_eq valid']
    omega
  · rw [flow_append, flow_singleton, h.cancelled, reports.cancelled_eq acts]
  · intro i
    rw [milestones_append, List.mem_append, ← h.signalled i, Option.mem_toList]
    exact (signalled i).1
  · rw [milestones_append]
    refine List.nodup_append.mpr ⟨h.once, e.milestone.toList_nodup, ?_⟩
    -- a milestone whose bit is clear was never signalled
    rintro i old j new rfl
    have clear := (signalled i).2 (Option.mem_toList.mp new)
    rw [(h.signalled i).mpr old] at clear
    exact absurd clear (by decide)

/-- A life from a record on. -/
theorem Told.run (h : Told s₀ [] s₀) (run : Trace (Lifeline d k) (some s₀) es slot) :
    ∃ s, slot = some s ∧ Told s₀ es s := by
  refine run.invariant (fun es slot => ∃ s, slot = some s ∧ Told s₀ es s) ⟨s₀, rfl, h⟩ ?_
  rintro es _ e _ ⟨s, rfl, told⟩ last
  cases last with
  | acted reports acts timely => exact ⟨_, rfl, told.next reports acts timely⟩

/-- A whole life: nothing yet, or an announcement and what the events after it tell. -/
theorem lifeline_cases (run : Trace (Lifeline d k) none es slot) :
    es = [] ∧ slot = none ∨ ∃ opening acts s₀ s, es = opening :: acts ∧
      Announced d k s₀ opening ∧ slot = some s ∧ Told s₀ acts s := by
  cases es with
  | nil => exact .inl ⟨rfl, trace_nil_iff.mp run⟩
  | cons opening acts =>
    obtain ⟨_, first, rest⟩ := run.cons
    cases first with
    | @opened _ s₀ announced =>
      obtain ⟨s, rfl, told⟩ := (told_of_announced announced).run rest
      exact .inr ⟨opening, acts, s₀, s, rfl, announced, rfl, told⟩

/-- A record is frozen no later than it was seen, or at the first instant. -/
theorem frozen_le_of_lifeline (run : Trace (Lifeline d k) none es slot) :
    ∀ s, slot = some s → s.cancelledAt.toNat ≤ max s.lastSeen.toNat 1 := by
  refine run.invariant (fun _ slot => ∀ s : VestingSchedule, slot = some s →
    s.cancelledAt.toNat ≤ max s.lastSeen.toNat 1) (fun s none => by cases none) ?_
  rintro es _ e _ before last s' rfl
  cases last with
  | opened announced =>
    obtain ⟨-, creator, escrow, beneficiary, asset, terms, built⟩ := announced.built
    obtain ⟨rfl, -⟩ := newState_eq_ok built
    exact Nat.zero_le _
  | @acted _ _ s _ reports acts timely =>
    have earlier := before s rfl
    cases acts with
    | claim =>
      rw [toNat_max]
      exact Nat.le_trans earlier (max_le_max_right 1 (Nat.le_max_left _ _))
    | cancel =>
      rw [toNat_max]
      exact Nat.le_refl _
    | makeNonCancelable => exact earlier
    | transferBeneficiary => exact earlier
    | signalMilestone => exact earlier

end Vesting

end Antumbra
