/-
# The records of a chain

What is true of every effect a transaction asks for, whatever rows it came with,
and from it the invariant of the stored records: each was written by the program at
the address of its id, is valid, and has seen no time the chain has not reached. So
no one is ever paid ahead of the chain's clock.
-/

import Antumbra.Vesting.Chain
import Antumbra.Vesting.Validity

namespace Antumbra

open Antumbra.Math

namespace Vesting

/-! ### What every planned effect is -/

/-- The account an effect is signed by. -/
def Effect.signer : Effect → AccountId
  | .create state => state.creator
  | .claim beneficiary _ _ _ _ => beneficiary
  | .cancel authority _ _ _ _ _ => authority
  | .makeNonCancelable creator => creator
  | .transferBeneficiary beneficiary _ => beneficiary
  | .signalMilestone authority _ => authority

/-- The block times at which an effect can land. -/
def Effect.InTime (now : U64) : Effect → Prop
  | .claim _ _ _ _ at_ => at_ ≤ now
  | .cancel _ _ _ _ at_ _ =>
    at_ ≤ now ∧ now.toNat < at_.toNat + CANCEL_WINDOW_MS.toNat ∧
      at_.toNat + CANCEL_WINDOW_MS.toNat < 2 ^ 64
  | _ => True

/-- The ids an instruction names. -/
def Instruction.scheduleIds (p : Platform) : Instruction → List (Bytes 32)
  | .createSchedule scheduleId _ _ _ => [scheduleId]
  | .createScheduleBatch batchId beneficiaries _ _ =>
    (List.range beneficiaries.length).map fun i => batchScheduleId p batchId (BitVec.ofNat 32 i)
  | .claim scheduleId _ _ _ _ => [scheduleId]
  | .cancel scheduleId _ _ _ _ => [scheduleId]
  | .makeNonCancelable scheduleId => [scheduleId]
  | .transferBeneficiary scheduleId _ => [scheduleId]
  | .signalMilestone scheduleId _ => [scheduleId]

/-- The accounts whose rows are authorised. -/
def signers (rowList : List AccountMeta) : List AccountId :=
  (rowList.filter (·.isAuthorized)).map (·.accountId)

theorem mem_signers {rowList : List AccountMeta} {row : AccountMeta} (mem : row ∈ rowList)
    (signed : row.isAuthorized = true) : row.accountId ∈ signers rowList :=
  List.mem_map_of_mem (List.mem_filter.mpr ⟨mem, signed⟩)

/-- A record stands at the address of its id, and its escrow is that of its id or of its
batch, in its own asset. -/
def Own (d : Deployment) (k : AccountId) (s : VestingSchedule) : Prop :=
  ∃ (scheduleId : Bytes 32) (batchId : Option (Bytes 32)) (asset : Asset),
    k = scheduleAccount d.toPlatform d.me scheduleId ∧
      s.escrow = holdingAccount d.toPlatform d.me (batchId.getD scheduleId) ∧
        asset.code = (s.asset, s.tokenDefinition)

/-- What the plan guarantees of an effect on a row. -/
structure Intended (d : Deployment) (now : U64) (rowList : List AccountMeta) (ix : Instruction)
    (row : AccountMeta) (effect : Effect) : Prop where
  mine : row.programAccountId = d.me
  named : ∃ id ∈ ix.scheduleIds d.toPlatform,
    row.accountId = scheduleAccount d.toPlatform d.me id
  signed : effect.signer ∈ signers rowList
  genuine : ∀ s, effect = .create s → Valid s ∧ s.lastSeen = 0 ∧ Own d row.accountId s
  inTime : effect.InTime now

variable {d : Deployment} {now : U64} {rowList : List AccountMeta} {ix : Instruction} {pl : Plan}
  {k : AccountId} {s s' : VestingSchedule} {effect : Effect}

theorem lastSeen_of_newState {creator escrow beneficiary : AccountId} {asset : Asset}
    {terms : Terms} (h : newState creator escrow beneficiary asset terms = .ok s) :
    s.lastSeen = 0 := by
  rw [(newState_eq_ok h).1]
  rfl

/-- A creation that is planned stands on a new record at its own address. -/
theorem intended_create {row creator : AccountMeta} {scheduleId : Bytes 32}
    (batchId : Option (Bytes 32)) {escrow beneficiary : AccountId} {asset : Asset} {terms : Terms}
    (hrow : IsSchedule d.toPlatform d.me scheduleId row)
    (hescrow : escrow = holdingAccount d.toPlatform d.me (batchId.getD scheduleId))
    (hid : scheduleId ∈ ix.scheduleIds d.toPlatform) (mem : creator ∈ rowList)
    (signed : creator.isAuthorized = true)
    (hstate : newState creator.accountId escrow beneficiary asset terms = .ok s) :
    Intended d now rowList ix row (.create s) := by
  have initial := (newState_eq_ok hstate).1
  refine ⟨hrow.program, ⟨scheduleId, hid, hrow.account⟩, ?_, ?_, trivial⟩
  · rw [Effect.signer, initial]
    exact mem_signers mem signed
  · rintro _ ⟨⟩
    refine ⟨valid_of_newState hstate, lastSeen_of_newState hstate, scheduleId, batchId, asset,
      hrow.account, ?_, ?_⟩
    · rw [initial, ← hescrow]
      rfl
    · rw [initial]
      rfl

/-- An act that is planned is on the named schedule, signed by the account it acts for. -/
theorem intended_act {row signer : AccountMeta} {scheduleId : Bytes 32}
    (hrow : IsSchedule d.toPlatform d.me scheduleId row) (handle : IsHandle d.me signer)
    (hid : ix.scheduleIds d.toPlatform = [scheduleId]) (mem : signer ∈ rowList)
    (hsigner : effect.signer = signer.accountId) (act : ∀ s, effect ≠ .create s)
    (inTime : effect.InTime now) : Intended d now rowList ix row effect := by
  refine ⟨hrow.program, ⟨scheduleId, ?_, hrow.account⟩, ?_, fun s create => ?_, inTime⟩
  · rw [hid]
    exact List.mem_singleton_self scheduleId
  · rw [hsigner]
    exact mem_signers mem handle.signed
  · exact absurd create (act s)

/-- Every planned effect inside its window is intended. -/
theorem Planned.intended (h : Planned d.toPlatform d.me rowList ix pl)
    (window : pl.window.all (·.contains now) = true) :
    ∀ planned ∈ pl.effects, Intended d now rowList ix planned.1 planned.2 := by
  intro planned mem
  cases h with
  | createSchedule hschedule hholding hcreator signed hstate =>
    obtain rfl := List.mem_singleton.mp mem
    exact intended_create none hschedule hholding.account (List.mem_singleton_self _)
      (by simp) signed hstate
  | @createScheduleBatch holding creator members batchId beneficiaries asset terms sum effects
      hlength hholding hcreator signed few hsum heffects =>
    obtain ⟨i, who, state, below, hrow, hstate, create⟩ :=
      (planMembers_eq_ok hlength.2 heffects).2 planned mem
    rw [create]
    exact intended_create (some batchId) hrow hholding.account
      (List.mem_map_of_mem (List.mem_range.mpr below)) (by simp) signed hstate
  | claim custody positive =>
    obtain rfl := List.mem_singleton.mp mem
    refine intended_act custody.schedule custody.signer rfl (by simp) rfl (by simp) ?_
    simp only [Option.all_some, TimestampWindow.contains, Bool.and_true,
      decide_eq_true_eq] at window
    exact window
  | cancel custody fits =>
    obtain rfl := List.mem_singleton.mp mem
    refine intended_act custody.schedule custody.signer rfl (by simp) rfl (by simp) ?_
    -- the end of the window does not wrap, since the plan refused a sum that does
    simp only [Option.all_some, TimestampWindow.contains, Bool.and_eq_true, decide_eq_true_eq,
      BitVec.lt_def, BitVec.toNat_add_of_lt fits] at window
    exact ⟨window.1, window.2, fits⟩
  | makeNonCancelable hschedule handle =>
    obtain rfl := List.mem_singleton.mp mem
    exact intended_act hschedule handle rfl (by simp) rfl (by simp) trivial
  | transferBeneficiary hschedule handle =>
    obtain rfl := List.mem_singleton.mp mem
    exact intended_act hschedule handle rfl (by simp) rfl (by simp) trivial
  | signalMilestone hschedule handle =>
    obtain rfl := List.mem_singleton.mp mem
    exact intended_act hschedule handle rfl (by simp) rfl (by simp) trivial

/-! ### The invariant of the records -/

/-- A shard that is empty or holds a record the program wrote. -/
def Recorded (d : Deployment) (now : U64) (k : AccountId) (bytes : List U8) : Prop :=
  bytes = [] ∨ ∃ s, bytes = store s ∧ Valid s ∧ s.lastSeen ≤ now ∧ Own d k s

theorem Recorded.record {bytes : List U8} (h : Recorded d now k bytes) (stored : bytes = store s) :
    Valid s ∧ s.lastSeen ≤ now ∧ Own d k s := by
  rcases h with empty | ⟨s₀, stored₀, facts⟩
  · exact absurd (stored.symm.trans empty) (store_ne_nil s)
  · obtain rfl := store_injective (stored.symm.trans stored₀)
    exact facts

/-- Every shard is kept, and only finitely many are in use. -/
structure Kept (d : Deployment) (w : World) : Prop where
  recorded : ∀ k, Recorded d w.now k (w.shard k)
  finite : {k | w.shard k ≠ []}.Finite

/-- The record of a shard in use. -/
theorem Kept.record {w : World} (h : Kept d w) (stored : w.shard k = store s) :
    Valid s ∧ s.lastSeen ≤ w.now ∧ Own d k s :=
  (h.recorded k).record stored

theorem Acts.own (acts : Acts effect s s') (own : Own d k s) : Own d k s' := by
  obtain ⟨scheduleId, batchId, asset, address, escrow, code⟩ := own
  cases acts <;> exact ⟨scheduleId, batchId, asset, address, escrow, code⟩

theorem Acts.lastSeen_le (acts : Acts effect s s') (inTime : effect.InTime now)
    (seen : s.lastSeen ≤ now) : s'.lastSeen ≤ now := by
  cases acts with
  | claim =>
    change _ ≤ now at inTime
    rw [BitVec.le_def] at seen inTime ⊢
    rw [toNat_max]
    omega
  | cancel => exact inTime.1
  | makeNonCancelable => exact seen
  | transferBeneficiary => exact seen
  | signalMilestone => exact seen

/-- An intended effect leaves every shard kept. -/
theorem runEffect_recorded {shard shard' : AccountId → List U8} {row : AccountMeta}
    (intended : Intended d now rowList ix row effect) (recorded : ∀ k, Recorded d now k (shard k))
    (run : d.runEffect shard (row, effect) = .ok shard') (k : AccountId) :
    Recorded d now k (shard' k) := by
  -- in both cases the one shard that changes now holds a record
  obtain ⟨s, rfl, facts⟩ : ∃ s, shard' = Function.update shard row.accountId (store s) ∧
      Valid s ∧ s.lastSeen ≤ now ∧ Own d row.accountId s := by
    obtain ⟨-, ⟨s, create, -, rfl⟩ | ⟨s, s', stored, acts, rfl⟩⟩ :=
      Deployment.runEffect_eq_ok_iff.mp run
    · obtain ⟨valid, fresh, own⟩ := intended.genuine s create
      exact ⟨s, rfl, valid, fresh ▸ BitVec.le_def.mpr (Nat.zero_le _), own⟩
    · obtain ⟨valid, seen, own⟩ := (recorded row.accountId).record stored
      exact ⟨s', rfl, acts.valid valid, acts.lastSeen_le intended.inTime seen, acts.own own⟩
  by_cases here : k = row.accountId
  · subst here
    rw [Function.update_self]
    exact .inr ⟨s, rfl, facts⟩
  · rw [Function.update_of_ne here]
    exact recorded k

theorem runEffect_finite {shard shard' : AccountId → List U8} {row : AccountMeta}
    (finite : {k | shard k ≠ []}.Finite) (run : d.runEffect shard (row, effect) = .ok shard') :
    {k | shard' k ≠ []}.Finite := by
  obtain ⟨s, rfl⟩ := Deployment.exists_update_of_runEffect run
  refine (finite.insert row.accountId).subset fun k used => ?_
  by_cases here : k = row.accountId
  · exact .inl here
  · refine .inr fun empty => used ?_
    rw [Function.update_of_ne here]
    exact empty

theorem Kept.land {w : World} (h : Kept d w) (tx : Transaction) : Kept d (d.land w tx) := by
  unfold Deployment.land
  split
  · next w' accepted =>
    obtain ⟨pl, planned, window, shard, effects, balance, -, rfl⟩ :=
      Deployment.execute_eq_ok_iff.mp accepted
    constructor
    · refine foldlM_invariant (fun shard => ∀ k, Recorded d w.now k (shard k)) ?_ effects
        h.recorded
      intro shard effect shard' mem recorded run
      exact runEffect_recorded (planned.intended window effect mem) recorded run
    · refine foldlM_invariant (fun shard => {k | shard k ≠ []}.Finite) ?_ effects h.finite
      intro shard effect shard' _ finite run
      exact runEffect_finite finite run
  · exact h

theorem Recorded.later {later : U64} {bytes : List U8} (h : Recorded d now k bytes)
    (forward : now ≤ later) : Recorded d later k bytes := by
  rcases h with empty | ⟨s, stored, valid, seen, own⟩
  · exact .inl empty
  · exact .inr ⟨s, stored, valid, BitVec.le_trans seen forward, own⟩

/-- Every reachable chain is kept. -/
theorem kept_of_reachable {since : U64} {w : World} (h : d.Reachable since w) : Kept d w := by
  refine Math.Reachable.invariant (Kept d) ?_ ?_ h
  · intro w start
    exact ⟨fun k => .inl (start.1 k), Set.finite_empty.subset fun k used => used (start.1 k)⟩
  · intro w w' _ kept step
    -- only transactions write, and time moves forward
    cases step with
    | tick later forward => exact ⟨fun k => (kept.recorded k).later forward, kept.finite⟩
    | transaction tx => exact kept.land tx
    | elsewhere balance _ => exact ⟨kept.recorded, kept.finite⟩

/-! ### No one is paid ahead of the clock -/

/-- In every reachable chain, whatever times claims and cancellations named: a schedule has
seen no later time than the block's, and what was claimed from it is at most what has vested
by then, which is at most its total. -/
theorem never_ahead_of_clock (d : Deployment) (since : U64) (w : World) (k : AccountId)
    (s : VestingSchedule) (reachable : d.Reachable since w) (stored : w.shard k = store s) :
    s.lastSeen ≤ w.now ∧
      ∃ v, vested s w.now = .ok v ∧ s.claimed ≤ v ∧ v ≤ s.total := by
  obtain ⟨valid, seen, -⟩ := (kept_of_reachable reachable).record stored
  obtain ⟨v, computed, value⟩ := exists_vested valid.wellFormed w.now
  refine ⟨seen, v, computed, ?_, ?_⟩
  · rw [BitVec.le_def] at seen ⊢
    calc s.claimed.toNat ≤ s.accrued s.lastSeen.toNat := valid.earned
      _ ≤ s.accrued w.now.toNat := s.accrued_mono seen
      _ = v.toNat := value.symm
  · rw [BitVec.le_def, value]
    exact valid.wellFormed.accrued_le w.now.toNat

/-- After a claim of all that had vested, and a cancellation beside it. -/
theorem never_ahead_of_clock_sample :
    Sample.halfClaimed.lastSeen ≤ Sample.settled.now ∧
      ∃ v, vested Sample.halfClaimed Sample.settled.now = .ok v ∧
        Sample.halfClaimed.claimed ≤ v ∧ v ≤ Sample.halfClaimed.total :=
  never_ahead_of_clock Sample.deployment CANCEL_WINDOW_MS Sample.settled Sample.first _
    Sample.reachable_settled Sample.stored_halfClaimed

end Vesting

end Antumbra
