/-
# The history of one schedule

A schedule is created, alone or in a batch, and then people send it instructions, with
rows laid out as clients lay them out and signed by whoever likes to. The program accepts
each or refuses it: that is settled by the signatures, the arguments and the stored record.
The time of the block decides only which of them are included at all.
-/

import Antumbra.Vesting.Batch
import Antumbra.Vesting.Single

namespace Antumbra

open Antumbra.Math

namespace Vesting

/-- What someone sends: an instruction, where its payout goes, the account of the signing row,
and who signed. -/
structure Sent where
  ix : Instruction
  target : AccountId
  handle : AccountId
  signers : List AccountId
  deriving DecidableEq

/-- The rows a client lays out. -/
def Sent.rows (p : Platform) (program : AccountId) (t : Sent) : List ProgramShardSelector :=
  match t.ix with
  | .createSchedule scheduleId _ asset _ => Rows.create p program scheduleId asset t.handle
  | .createScheduleBatch batchId beneficiaries asset _ =>
    Rows.batch p program batchId (BitVec.ofNat 32 beneficiaries.length) asset t.handle
  | .claim scheduleId batchId asset _ _ =>
    Rows.claim p program scheduleId batchId asset t.target t.handle
  | .cancel scheduleId batchId asset _ _ =>
    Rows.cancel p program scheduleId batchId asset t.target t.handle
  | .makeNonCancelable scheduleId => Rows.handle p program scheduleId t.handle
  | .transferBeneficiary scheduleId _ => Rows.handle p program scheduleId t.handle
  | .signalMilestone scheduleId _ => Rows.handle p program scheduleId t.handle

def Sent.transaction (d : Deployment) (t : Sent) : Transaction where
  rows := signedBy t.signers (t.rows d.toPlatform d.me)
  ix := t.ix

/-- It names the schedule at `k`. -/
def Sent.Names (d : Deployment) (k : AccountId) (t : Sent) : Prop :=
  ∃ id ∈ t.ix.scheduleIds d.toPlatform, k = scheduleAccount d.toPlatform d.me id

/-- An accepted creation of the schedule at `k`. -/
structure Creation (d : Deployment) (k : AccountId) (shard : AccountId → List U8) (t : Sent)
    (shard' : AccountId → List U8) : Prop where
  creates : ¬ t.ix.IsAct
  names : t.Names d k
  accepted : d.settle shard (t.transaction d) = .ok shard'

/-- A listed transaction and the program's verdict. -/
structure Entry where
  hash : String
  sent : Sent
  accepted : Bool

/-- An act on the schedule at `k` is included: until then its shard stays as it is, and then
the program accepts the act or refuses it. Signatures are made with keys, which no address of
a program has. -/
structure Included (d : Deployment) (k : AccountId) (shard : AccountId → List U8) (e : Entry)
    (shard' : AccountId → List U8) : Prop where
  act : e.sent.ix.IsAct
  names : e.sent.Names d k
  keys : ∀ a ∈ e.sent.signers, d.derived a = false
  outcome : ∃ meanwhile : AccountId → List U8, meanwhile k = shard k ∧
    if e.accepted then
      d.settle meanwhile (e.sent.transaction d) = .ok shard'
    else
      shard' = meanwhile ∧ ∃ why, d.settle meanwhile (e.sent.transaction d) = .error why

variable {d : Deployment} {k : AccountId} {t : Sent} {shard shard' : AccountId → List U8}
  {s s' : VestingSchedule}

/-! ### Creations -/

/-- What an accepted creation stores: a fresh record of the schedule. In a batch whose ids
meet at one address it is the record of each of them. -/
theorem Creation.stored (h : Creation d k shard t shard') :
    (∃ scheduleId who asset terms s, t.ix = .createSchedule scheduleId who asset terms ∧
      newState t.handle (holdingAccount d.toPlatform d.me scheduleId) who asset terms = .ok s ∧
        shard' k = store s) ∨
    ∃ batchId beneficiaries asset terms,
      t.ix = .createScheduleBatch batchId beneficiaries asset terms ∧
      (∃ i < beneficiaries.length, k = d.slot batchId i) ∧
      ∀ i (hi : i < beneficiaries.length), k = d.slot batchId i → ∃ s,
        newState t.handle (holdingAccount d.toPlatform d.me batchId) beneficiaries[i] asset terms =
            .ok s ∧
          shard' k = store s := by
  obtain ⟨ix, target, handle, signers⟩ := t
  obtain ⟨creates, ⟨id, mem, at_⟩, accepted⟩ := h
  cases ix with
  | createSchedule scheduleId who asset terms =>
    rw [List.mem_singleton.mp mem] at at_
    obtain ⟨pl, planned, run⟩ := Deployment.settle_eq_ok_iff.mp accepted
    change Planned _ _ [signedRow signers _, signedRow signers _, signedRow signers _]
      (.createSchedule scheduleId who asset terms) pl at planned
    cases planned with
    | @createSchedule schedule holding creator _ _ _ _ state _ hholding _ _ hstate =>
      -- the plan has this one effect
      have stored := creations_stored (fun planned hp => ⟨state, by rw [List.mem_singleton.mp hp]⟩)
        run (List.mem_singleton_self _)
      rw [at_]
      exact .inl ⟨scheduleId, who, asset, terms, state, rfl, hstate, stored⟩
  | createScheduleBatch batchId beneficiaries asset terms =>
    obtain ⟨-, -, creator, named, stored⟩ := batch_settled accepted rfl
    obtain rfl : handle = creator := Option.some.inj named
    -- the id that names the schedule is one of the batch's
    obtain ⟨i, hi, rfl⟩ := List.mem_map.mp mem
    refine .inr ⟨batchId, beneficiaries, asset, terms, rfl, ⟨i, List.mem_range.mp hi, at_⟩, ?_⟩
    intro j hj here
    obtain ⟨s, built, at_slot⟩ := stored j hj
    exact ⟨s, built, here ▸ at_slot⟩
  | _ => exact absurd trivial creates

/-! ### Acts -/

/-- What an act asks of the record. -/
def Sent.effect (d : Deployment) (t : Sent) : Option Effect :=
  match t.ix with
  | .claim scheduleId batchId asset amount at_ =>
    some (.claim t.handle (holdingAccount d.toPlatform d.me (batchId.getD scheduleId)) asset amount
      at_)
  | .cancel scheduleId batchId asset at_ refund =>
    some (.cancel t.handle (holdingAccount d.toPlatform d.me (batchId.getD scheduleId)) t.target
      asset at_ refund)
  | .makeNonCancelable _ => some (.makeNonCancelable t.handle)
  | .transferBeneficiary _ newBeneficiary => some (.transferBeneficiary t.handle newBeneficiary)
  | .signalMilestone _ index => some (.signalMilestone t.handle index)
  | _ => none

theorem Sent.exists_effect (act : t.ix.IsAct) : ∃ effect, t.effect d = some effect := by
  unfold effect
  cases hix : t.ix with
  | createSchedule => exact absurd act (by rw [hix]; exact id)
  | createScheduleBatch => exact absurd act (by rw [hix]; exact id)
  | _ => exact ⟨_, rfl⟩

/-- The arguments pass the plan: a claim is for something, and a cancellation's window ends. -/
def Sent.Plannable (t : Sent) : Prop :=
  match t.ix with
  | .claim _ _ _ amount _ => 0 < amount
  | .cancel _ _ _ at_ _ => at_.toNat + CANCEL_WINDOW_MS.toNat < 2 ^ 64
  | _ => True

variable {effect : Effect}

/-- The plan of an act, laid out like this, has its effect on the schedule. -/
theorem Sent.effects_of_planned {pl : Plan} (names : t.Names d k) (asks : t.effect d = some effect)
    (planned : Planned d.toPlatform d.me (t.transaction d).rows t.ix pl) :
    t.handle ∈ t.signers ∧ t.Plannable ∧
      pl.effects = [(signedRow t.signers ⟨k, d.me⟩, effect)] := by
  obtain ⟨ix, target, handle, signers⟩ := t
  obtain ⟨id, mem, rfl⟩ := names
  have handled : ∀ {program : AccountId} {row : AccountMeta}, IsHandle program row →
      row = signedRow signers ⟨handle, d.me⟩ → handle ∈ signers := by
    rintro program _ hrow rfl
    exact of_decide_eq_true hrow.signed
  cases ix with
  | createSchedule => cases asks
  | createScheduleBatch => cases asks
  | claim scheduleId batchId asset amount at_ =>
    obtain rfl := List.mem_singleton.mp mem
    obtain rfl := Option.some.inj asks
    change Planned _ _ [signedRow signers _, signedRow signers _, signedRow signers _,
      signedRow signers _] _ pl at planned
    cases planned with
    | claim custody positive => exact ⟨handled custody.signer rfl, positive, rfl⟩
  | cancel scheduleId batchId asset at_ refund =>
    obtain rfl := List.mem_singleton.mp mem
    obtain rfl := Option.some.inj asks
    change Planned _ _ [signedRow signers _, signedRow signers _, signedRow signers _,
      signedRow signers _] _ pl at planned
    cases planned with
    | cancel custody fits => exact ⟨handled custody.signer rfl, fits, rfl⟩
  | makeNonCancelable scheduleId =>
    obtain rfl := List.mem_singleton.mp mem
    obtain rfl := Option.some.inj asks
    change Planned _ _ [signedRow signers _, signedRow signers _] _ pl at planned
    cases planned with
    | makeNonCancelable _ handle => exact ⟨handled handle rfl, trivial, rfl⟩
  | transferBeneficiary scheduleId newBeneficiary =>
    obtain rfl := List.mem_singleton.mp mem
    obtain rfl := Option.some.inj asks
    change Planned _ _ [signedRow signers _, signedRow signers _] _ pl at planned
    cases planned with
    | transferBeneficiary _ handle => exact ⟨handled handle rfl, trivial, rfl⟩
  | signalMilestone scheduleId index =>
    obtain rfl := List.mem_singleton.mp mem
    obtain rfl := Option.some.inj asks
    change Planned _ _ [signedRow signers _, signedRow signers _] _ pl at planned
    cases planned with
    | signalMilestone _ handle => exact ⟨handled handle rfl, trivial, rfl⟩

/-- An act that is signed and passes the plan has one. -/
theorem Sent.exists_planned (asks : t.effect d = some effect) (signed : t.handle ∈ t.signers)
    (plannable : t.Plannable) :
    ∃ pl, Planned d.toPlatform d.me (t.transaction d).rows t.ix pl := by
  obtain ⟨ix, target, handle, signers⟩ := t
  have hhandle : IsHandle d.me (signedRow signers ⟨handle, d.me⟩) := ⟨decide_eq_true signed, rfl⟩
  cases ix with
  | createSchedule => cases asks
  | createScheduleBatch => cases asks
  | claim scheduleId batchId asset amount at_ =>
    exact ⟨_, .claim ⟨⟨rfl, rfl⟩, ⟨rfl, rfl⟩, rfl, hhandle⟩ plannable⟩
  | cancel scheduleId batchId asset at_ refund =>
    exact ⟨_, .cancel ⟨⟨rfl, rfl⟩, ⟨rfl, rfl⟩, rfl, hhandle⟩ plannable⟩
  | makeNonCancelable scheduleId => exact ⟨_, .makeNonCancelable ⟨rfl, rfl⟩ hhandle⟩
  | transferBeneficiary scheduleId newBeneficiary =>
    exact ⟨_, .transferBeneficiary ⟨rfl, rfl⟩ hhandle⟩
  | signalMilestone scheduleId index => exact ⟨_, .signalMilestone ⟨rfl, rfl⟩ hhandle⟩

/-- The program accepts an act that is signed, passes the plan and acts on the record, and
nothing else. -/
theorem Sent.settle_eq_ok_iff (names : t.Names d k) (asks : t.effect d = some effect)
    (stored : shard k = store s) :
    d.settle shard (t.transaction d) = .ok shard' ↔ t.handle ∈ t.signers ∧ t.Plannable ∧
      ∃ s', Acts effect s s' ∧ shard' = Function.update shard k (store s') := by
  have acted : ∀ {shard'}, d.runEffect shard (signedRow t.signers ⟨k, d.me⟩, effect) = .ok shard' ↔
      ∃ s', Acts effect s s' ∧ shard' = Function.update shard k (store s') := by
    intro shard'
    rw [Deployment.runEffect_eq_ok_iff]
    constructor
    -- the row is the schedule's, so the record it acts on is the stored one
    · rintro ⟨-, ⟨_, -, empty, -⟩ | ⟨s₀, s', stored₀, acts, rfl⟩⟩
      · exact absurd (stored.symm.trans empty) (store_ne_nil s)
      · obtain rfl := store_injective (stored.symm.trans stored₀)
        exact ⟨s', acts, rfl⟩
    · rintro ⟨s', acts, rfl⟩
      exact ⟨rfl, .inr ⟨s, s', stored, acts, rfl⟩⟩
  rw [Deployment.settle_eq_ok_iff]
  constructor
  · rintro ⟨pl, planned, run⟩
    obtain ⟨signed, plannable, effects⟩ := effects_of_planned names asks planned
    rw [effects, List.foldlM_cons, bind_eq_ok_iff] at run
    obtain ⟨_, run, last⟩ := run
    obtain rfl := Except.ok.inj last
    exact ⟨signed, plannable, acted.mp run⟩
  · rintro ⟨signed, plannable, acts⟩
    obtain ⟨pl, planned⟩ := exists_planned asks signed plannable
    obtain ⟨-, -, effects⟩ := effects_of_planned names asks planned
    refine ⟨pl, planned, ?_⟩
    rw [effects, List.foldlM_cons, acted.mpr acts]
    rfl

/-- On a chain whose escrows are good, what the program accepts in time takes effect. -/
theorem Sent.execute_iff {w : World} (sound : Sound d w) (act : t.ix.IsAct)
    (stored : ∀ k, t.Names d k → ∃ s, w.shard k = store s)
    (window : ∀ pl, Planned d.toPlatform d.me (t.transaction d).rows t.ix pl →
      pl.window.all (·.contains w.now) = true) :
    (∃ w', d.execute w (t.transaction d) = .ok w') ↔
      ∃ shard', d.settle w.shard (t.transaction d) = .ok shard' := by
  constructor
  · rintro ⟨w', accepted⟩
    exact ⟨w'.shard, Deployment.settle_of_execute accepted⟩
  · rintro ⟨shard', settled⟩
    obtain ⟨pl, planned, run⟩ := Deployment.settle_eq_ok_iff.mp settled
    obtain ⟨row, effect, source, target, asset, view, id, named, account⟩ := planned.act act
    obtain ⟨s, hs⟩ := stored row.accountId ⟨id, named, account⟩
    -- its one effect acts on a record, whose escrow holds what the act pays
    rw [view.effects, List.foldlM_cons, bind_eq_ok_iff] at run
    obtain ⟨_, run, -⟩ := run
    obtain ⟨-, ⟨s₀, create, -⟩ | ⟨s₀, s', stored₀, acts, -⟩⟩ :=
      Deployment.runEffect_eq_ok_iff.mp run
    · exact absurd create (view.act s₀)
    · obtain rfl := store_injective (hs.symm.trans stored₀)
      exact (view.accepted_iff (plan_eq_ok_of_planned planned) sound hs).mpr
        ⟨window pl planned, s', acts⟩

end Vesting

end Antumbra
