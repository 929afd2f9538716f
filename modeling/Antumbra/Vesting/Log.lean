/-
# The log of a chain

A run of the chain with what each step leaves behind: the plan of an accepted transaction,
whose one event goes into the log, or what was paid in from outside. Seen from one address
every run is a life of the schedule there, told by the events about it. So whoever reads
the log from the start knows the record of every schedule, and its books.
-/

import Antumbra.Vesting.Lifeline

namespace Antumbra

open Antumbra.Math

namespace Vesting

/-- What a step of the chain leaves behind. -/
inductive LogEntry
  | ticked
  | landed (pl : Plan)
  | refused
  /-- What others paid into each balance of the program's accounts. -/
  | credited (gift : AccountId × Asset → ℕ)

/-- The events a step puts into the log. -/
def LogEntry.events : LogEntry → List Event
  | .landed pl => pl.events
  | _ => []

/-- A step of the chain with its entry. -/
inductive Logged (d : Deployment) : World → LogEntry → World → Prop
  | ticked (w : World) (later : U64) (forward : w.now ≤ later) :
      Logged d w .ticked { w with now := later }
  | landed {w w' : World} {tx : Transaction} {pl : Plan}
      (planned : plan d.toPlatform ⟨d.me, tx.rows⟩ tx.ix = .ok pl)
      (accepted : d.execute w tx = .ok w') : Logged d w (.landed pl) w'
  | refused {w : World} {tx : Transaction} {why : Failure} (refused : d.execute w tx = .error why) :
      Logged d w .refused w
  | credited (w : World) (balance : Balances) (gift : AccountId × Asset → ℕ)
      (gained : ∀ seed asset, balance (d.forPublicPda d.me seed, asset) =
        w.balance (d.forPublicPda d.me seed, asset) + gift (d.forPublicPda d.me seed, asset)) :
      Logged d w (.credited gift) { w with balance }

/-- What the log of a run says about the schedule at an address. -/
def logAbout (d : Deployment) (k : AccountId) (es : List LogEntry) : List Event :=
  es.flatMap fun e => e.events.filter fun event => k ∈ event.accounts d

variable {d : Deployment} {k : AccountId} {w w' : World} {e : LogEntry} {es : List LogEntry}
  {rowList : List AccountMeta} {ix : Instruction} {pl : Plan} {effect : Effect} {event : Event}
  {shard shard' : AccountId → List U8} {now : U64}

/-! ### The same chain -/

/-- The steps with entries are the steps of the chain. -/
theorem step_iff_logged : d.Step w w' ↔ ∃ e, Logged d w e w' := by
  constructor
  · rintro (⟨later, forward⟩ | tx | ⟨balance, kept⟩)
    · exact ⟨_, .ticked w later forward⟩
    · unfold Deployment.land
      split
      · next accepted =>
        obtain ⟨pl, planned, -⟩ := Deployment.execute_eq_ok_iff.mp accepted
        exact ⟨_, .landed (plan_eq_ok_of_planned planned) accepted⟩
      · next refused => exact ⟨_, .refused refused⟩
    · exact ⟨_, .credited w balance (fun purse => balance purse - w.balance purse)
        fun seed asset => (Nat.add_sub_cancel' (kept seed asset)).symm⟩
  · rintro ⟨e, ⟨later, forward⟩ | ⟨planned, accepted⟩ | refused | ⟨balance, gift, gained⟩⟩
    · exact .tick w later forward
    · exact Deployment.land_of_ok accepted ▸ .transaction w _
    · have same := Deployment.Step.transaction (d := d) w (by assumption)
      rwa [Deployment.land, refused] at same
    · exact .elsewhere w balance fun seed asset => gained seed asset ▸ Nat.le_add_right _ _

theorem Logged.step (h : Logged d w e w') : d.Step w w' := step_iff_logged.mpr ⟨e, h⟩

/-- A chain that starts with no schedules and from the end of the first window on. -/
structure Fresh (w : World) : Prop where
  empty : ∀ k, w.shard k = []
  late : CANCEL_WINDOW_MS ≤ w.now

theorem Fresh.reachable (h : Fresh w) (run : Trace (Logged d) w es w') :
    d.Reachable CANCEL_WINDOW_MS w' := by
  refine run.invariant (fun _ w' => d.Reachable CANCEL_WINDOW_MS w') (.start ⟨h.empty, h.late⟩) ?_
  intro es t e u reached last
  exact reached.next last.step

/-- The reachable chains are those that a run with a log leads to. -/
theorem reachable_iff_logged : d.Reachable CANCEL_WINDOW_MS w' ↔
    ∃ w es, Fresh w ∧ Trace (Logged d) w es w' := by
  constructor
  · refine fun reached => Math.Reachable.invariant
      (fun w' => ∃ w es, Fresh w ∧ Trace (Logged d) w es w') ?_ ?_ reached
    · exact fun w start => ⟨w, [], ⟨start.1, start.2⟩, .start⟩
    · rintro t u - ⟨w, es, fresh, run⟩ step
      obtain ⟨e, last⟩ := step_iff_logged.mp step
      exact ⟨w, es ++ [e], fresh, run.next last⟩
  · rintro ⟨w, es, fresh, run⟩
    exact fresh.reachable run

/-! ### One transaction -/

/-- The bytes of a shard that holds a record or nothing. -/
def slotBytes : Option VestingSchedule → List U8
  | none => []
  | some s => store s

/-- What a landed plan says about an address and does there. -/
def Tells (d : Deployment) (k : AccountId) (event : Event) (shard shard' : AccountId → List U8) :
    Prop :=
  k ∉ event.accounts d ∧ shard' k = shard k ∨
    k ∈ event.accounts d ∧ ∀ slot, shard k = slotBytes slot →
      ∃ slot', shard' k = slotBytes slot' ∧ Lifeline d k slot event slot'

/-- A plan with one effect on the address its event is about. -/
theorem tells_act {row : AccountMeta} (accounts : event.accounts d = [row.accountId])
    (reports : Reports event effect) (timely : effect.Timely)
    (run : [(row, effect)].foldlM d.runEffect shard = .ok shard') :
    Tells d k event shard shard' := by
  simp only [List.foldlM_cons, List.foldlM_nil, bind_eq_ok_iff, pure_eq_ok, Except.ok.injEq,
    exists_eq_right] at run
  rw [Tells, accounts, List.mem_singleton]
  rcases runEffect_changes run k with ⟨other, same⟩ | ⟨here, change⟩
  · exact .inl ⟨other, same⟩
  · refine .inr ⟨here, fun slot held => ?_⟩
    rcases change with ⟨_, rfl, -, -⟩ | ⟨s, s', stored, acts, stored'⟩
    · cases reports
    · cases slot with
      | none => exact absurd (stored.symm.trans held) (store_ne_nil s)
      | some s₀ =>
        obtain rfl := store_injective (stored.symm.trans held)
        exact ⟨some s', stored', .acted reports acts timely⟩

/-- Creations on exactly the addresses their event is about, each announced by it. -/
theorem tells_creations {effects : List (AccountMeta × Effect)}
    (run : effects.foldlM d.runEffect shard = .ok shard')
    (announced : ∀ planned ∈ effects, ∃ s, planned.2 = .create s ∧
      planned.1.accountId ∈ event.accounts d ∧ Announced d planned.1.accountId s event)
    (all : k ∈ event.accounts d → ∃ planned ∈ effects, planned.1.accountId = k) :
    Tells d k event shard shard' := by
  have creations : ∀ planned ∈ effects, ∃ s, planned.2 = .create s := fun planned mem => by
    obtain ⟨s, create, -⟩ := announced planned mem
    exact ⟨s, create⟩
  by_cases about : k ∈ event.accounts d
  · obtain ⟨⟨row, effect⟩, mem, rfl⟩ := all about
    obtain ⟨s, rfl, -, here⟩ := announced _ mem
    refine .inr ⟨about, fun slot held => ?_⟩
    have empty := creations_fresh run mem
    cases slot with
    | none => exact ⟨some s, creations_stored creations run mem, .opened here⟩
    | some s₀ => exact absurd (held.symm.trans empty) (store_ne_nil s₀)
  · refine .inl ⟨about, ?_⟩
    rcases creations_change creations run k with same | ⟨planned, mem, rfl, -⟩
    · exact same
    · obtain ⟨-, -, mine, -⟩ := announced planned mem
      exact absurd mine about

/-- Every accepted plan has one event, which tells what it does at each address. -/
theorem Planned.tells (h : Planned d.toPlatform d.me rowList ix pl)
    (timely : ∀ planned ∈ pl.effects, planned.2.Timely)
    (run : pl.effects.foldlM d.runEffect shard = .ok shard') :
    ∃ event, pl.events = [event] ∧ ∀ k, Tells d k event shard shard' := by
  cases h with
  | @createSchedule schedule holding creator scheduleId beneficiary asset terms state hschedule
      hholding hcreator signed hstate =>
    refine ⟨_, rfl, fun k => tells_creations run ?_ ?_⟩
    · intro planned mem
      obtain rfl := List.mem_singleton.mp mem
      refine ⟨state, rfl, ?_, hschedule.account, hholding.account, creator.accountId, terms,
        hstate, rfl, rfl⟩
      exact List.mem_singleton.mpr hschedule.account
    · intro about
      refine ⟨_, List.mem_singleton_self _, ?_⟩
      exact hschedule.account.trans (List.mem_singleton.mp about).symm
  | @createScheduleBatch holding creator members batchId beneficiaries asset terms sum effects
      hlength hholding hcreator signed few hsum heffects =>
    have count : (BitVec.ofNat 32 beneficiaries.length).toNat = beneficiaries.length := by
      rw [BitVec.toNat_ofNat, Nat.mod_eq_of_lt few]
    have slots : ∀ {k}, k ∈ (Event.batchCreated batchId holding.accountId asset
        (BitVec.ofNat 32 beneficiaries.length) terms.total).accounts d ↔
          ∃ i < beneficiaries.length, k = d.slot batchId i := by
      intro k
      simp only [Event.accounts, Event.scheduleIds, count, List.map_map, List.mem_map,
        List.mem_range, Function.comp_apply, @eq_comm _ k]
      rfl
    refine ⟨_, rfl, fun k => tells_creations run ?_ ?_⟩
    · intro planned mem
      obtain ⟨i, who, state, below, hrow, hstate, create⟩ :=
        (planMembers_eq_ok hlength.2 heffects).2 planned mem
      refine ⟨state, create, slots.mpr ⟨i, below, hrow.account⟩, ⟨i, ?_, hrow.account⟩,
        hholding.account, creator.accountId, who, terms, hstate, rfl⟩
      rwa [count]
    · intro about
      obtain ⟨i, below, rfl⟩ := slots.mp about
      obtain ⟨row, s, mem, here, -⟩ := member_created hlength.2 heffects below
      exact ⟨_, mem, here⟩
  | claim custody positive =>
    exact ⟨_, rfl, fun k => tells_act (congrArg (fun a => [a]) custody.schedule.account.symm)
      .claimed (timely _ (List.mem_singleton_self _)) run⟩
  | cancel custody fits =>
    exact ⟨_, rfl, fun k => tells_act (congrArg (fun a => [a]) custody.schedule.account.symm)
      .cancelled (timely _ (List.mem_singleton_self _)) run⟩
  | makeNonCancelable hschedule handle =>
    exact ⟨_, rfl, fun k => tells_act (congrArg (fun a => [a]) hschedule.account.symm)
      .madeNonCancelable (timely _ (List.mem_singleton_self _)) run⟩
  | transferBeneficiary hschedule handle =>
    exact ⟨_, rfl, fun k => tells_act (congrArg (fun a => [a]) hschedule.account.symm)
      .beneficiaryTransferred (timely _ (List.mem_singleton_self _)) run⟩
  | signalMilestone hschedule handle =>
    exact ⟨_, rfl, fun k => tells_act (congrArg (fun a => [a]) hschedule.account.symm)
      .milestoneSignalled (timely _ (List.mem_singleton_self _)) run⟩

/-! ### A run -/

/-- One step of the chain is a run of the life of the schedule at each address. -/
theorem Logged.lifeline (h : Logged d w e w') (late : CANCEL_WINDOW_MS ≤ w.now)
    {slot : Option VestingSchedule} (held : w.shard k = slotBytes slot) :
    ∃ slot', Trace (Lifeline d k) slot (e.events.filter fun event => k ∈ event.accounts d) slot' ∧
      w'.shard k = slotBytes slot' := by
  cases h with
  | ticked later forward => exact ⟨slot, .start, held⟩
  | refused why => exact ⟨slot, .start, held⟩
  | credited balance gift gained => exact ⟨slot, .start, held⟩
  | @landed _ tx pl planned accepted =>
    obtain ⟨pl', planned', window, shard, run, balance, -, rfl⟩ :=
      Deployment.execute_eq_ok_iff.mp accepted
    obtain rfl : pl' = pl := Except.ok.inj ((plan_eq_ok_of_planned planned').symm.trans planned)
    have timely : ∀ planned ∈ pl'.effects, planned.2.Timely := fun planned mem =>
      (planned'.intended window planned mem).inTime.timely late
    obtain ⟨event, single, tells⟩ := planned'.tells timely run
    rw [LogEntry.events, single]
    rcases tells k with ⟨other, same⟩ | ⟨about, lives⟩
    · exact ⟨slot, by simpa [other] using Trace.start, same.trans held⟩
    · obtain ⟨slot', held', life⟩ := lives slot held
      exact ⟨slot', by simpa [about] using Trace.start.next life, held'⟩

/-- A whole run of the chain is a life of the schedule at each address. -/
theorem Fresh.lifeline (fresh : Fresh w) (run : Trace (Logged d) w es w') (k : AccountId) :
    ∃ slot, Trace (Lifeline d k) none (logAbout d k es) slot ∧ w'.shard k = slotBytes slot := by
  have forward : ∀ t e u slot, Logged d t e u →
      d.Reachable CANCEL_WINDOW_MS t ∧ t.shard k = slotBytes slot →
      ∃ slot', Trace (Lifeline d k) slot (e.events.filter fun event => k ∈ event.accounts d) slot' ∧
        d.Reachable CANCEL_WINDOW_MS u ∧ u.shard k = slotBytes slot' := by
    rintro t e u slot last ⟨reached, held⟩
    obtain ⟨slot', life, held'⟩ := last.lifeline (solvent_of_reachable reached).2 held
    exact ⟨slot', life, reached.next last.step, held'⟩
  obtain ⟨slot, life, -, held⟩ :=
    run.simulate forward ⟨.start ⟨fresh.empty, fresh.late⟩,
      show w.shard k = slotBytes none from fresh.empty k⟩
  exact ⟨slot, life, held⟩

/-- No record was frozen after the block's time. -/
theorem cancelledAt_le_now (reached : d.Reachable CANCEL_WINDOW_MS w) {s : VestingSchedule}
    (stored : w.shard k = store s) : s.cancelledAt ≤ w.now := by
  obtain ⟨w₀, es, fresh, run⟩ := reachable_iff_logged.mp reached
  obtain ⟨slot, life, held⟩ := fresh.lifeline run k
  have late := (solvent_of_reachable reached).2
  have seen := ((kept_of_reachable reached).record stored).2.1
  cases slot with
  | none => exact absurd (stored.symm.trans held) (store_ne_nil s)
  | some s₀ =>
    obtain rfl := store_injective (stored.symm.trans held)
    have early := frozen_le_of_lifeline life s rfl
    have first : 1 ≤ CANCEL_WINDOW_MS.toNat := by decide
    rw [BitVec.le_def] at late seen ⊢
    exact Nat.le_trans early (Nat.max_le.mpr ⟨seen, Nat.le_trans first late⟩)

/-- The log tells every schedule's life. In every run of a chain from no schedules, at block
times from the end of the first window on, and for each address: the log has nothing about it
and nothing is stored there; or the log has one announcement first, of a fresh record, and then
acts only, and what is stored is those events read in order over the announced record. They add
up: the amounts claimed are the record's claims, with the refund and what is still owed they
come to the total, there is a cancellation exactly if the record is cancelled, at most one, and
each milestone of the record was signalled once. -/
theorem log_tells (d : Deployment) (w w' : World) (es : List LogEntry) (fresh : Fresh w)
    (run : Trace (Logged d) w es w') (k : AccountId) :
    logAbout d k es = [] ∧ w'.shard k = [] ∨
      ∃ opening acts s₀ s, logAbout d k es = opening :: acts ∧ Announced d k s₀ opening ∧
        w'.shard k = store s ∧ Told s₀ acts s := by
  obtain ⟨slot, life, held⟩ := fresh.lifeline run k
  rcases lifeline_cases life with ⟨nothing, rfl⟩ | ⟨opening, acts, s₀, s, log, announced, rfl, told⟩
  · exact .inl ⟨nothing, held⟩
  · exact .inr ⟨opening, acts, s₀, s, log, announced, held, told⟩

namespace Sample

/-- The plan of a transaction of the sample. -/
def planOf (tx : Transaction) : Plan :=
  (plan deployment.toPlatform ⟨deployment.me, tx.rows⟩ tx.ix).toOption.getD ⟨[], [], none, []⟩

/-- A transaction that is planned and accepted is a step with its plan as the entry. -/
theorem logged {w : World} {tx : Transaction}
    (planned : (plan deployment.toPlatform ⟨deployment.me, tx.rows⟩ tx.ix).isOk = true)
    (accepted : (deployment.execute w tx).isOk = true) :
    Logged deployment w (.landed (planOf tx)) (deployment.land w tx) := by
  refine .landed ?_ (Deployment.execute_of_isOk accepted)
  unfold planOf
  cases h : plan deployment.toPlatform ⟨deployment.me, tx.rows⟩ tx.ix with
  | error why =>
    rw [h] at planned
    exact absurd planned Bool.false_ne_true
  | ok pl => rfl

/-- The creation of the sample batch and the first beneficiary's claim. -/
theorem log_run : Trace (Logged deployment) start
    [.landed (planOf creation), .landed (planOf claim)] (deployment.land chain claim) :=
  (Trace.start.next (logged (by decide +kernel) (by decide +kernel))).next
    (logged (by decide +kernel) (by decide +kernel))

theorem fresh_start : Fresh start := ⟨fun _ => rfl, by decide⟩

end Sample

/-- What the log of the sample tells of the first schedule. -/
theorem log_tells_sample :
    ∃ opening acts s₀ s, logAbout Sample.deployment Sample.first
        [.landed (Sample.planOf Sample.creation), .landed (Sample.planOf Sample.claim)] =
          opening :: acts ∧
      Announced Sample.deployment Sample.first s₀ opening ∧
        (Sample.deployment.land Sample.chain Sample.claim).shard Sample.first = store s ∧
          Told s₀ acts s := by
  rcases log_tells Sample.deployment _ _ _ Sample.fresh_start Sample.log_run Sample.first with
    ⟨nothing, -⟩ | told
  · exact absurd nothing (by decide +kernel)
  · exact told

end Vesting

end Antumbra
