/-
# What an escrow holds

Solvency says that an escrow covers what its schedules owe. Over a run from no schedules it
holds what it held before, exactly what its schedules owe, and the gifts to it: what others
paid in, and payouts of schedules that somebody had sent there. Nothing else stays in it and
nothing leaves it but what was owed.
-/

import Antumbra.Vesting.Log

namespace Antumbra

open Antumbra.Math

namespace Vesting

/-- What a transfer under a seed, a payout, pays into a balance. -/
def ChainedCall.given (purse : AccountId × Asset) (call : ChainedCall) : ℕ :=
  match call.accounts with
  | [_, target] =>
    if call.pdaSeeds ≠ [] ∧ purse = (target.account, call.instruction.asset) then
      call.instruction.amount.toNat
    else 0
  | _ => 0

/-- What a step gives to a balance beyond the funding of its schedules. -/
def LogEntry.gift (purse : AccountId × Asset) : LogEntry → ℕ
  | .landed pl => (pl.calls.map (·.given purse)).sum
  | .credited gift => gift purse
  | _ => 0

variable {d : Deployment} {w w' : World} {e : LogEntry} {es : List LogEntry} {now : U64}
  {rowList : List AccountMeta} {ix : Instruction} {pl : Plan} {effect : Effect}
  {s : VestingSchedule} {purse : AccountId × Asset} {shard shard' : AccountId → List U8}

/-! ### What the schedules owe -/

/-- A fresh record owes its total. -/
theorem owed_of_newState {creator escrow beneficiary : AccountId} {asset : Asset} {terms : Terms}
    (h : newState creator escrow beneficiary asset terms = .ok s) : s.owed = s.total.toNat := by
  obtain ⟨rfl, -⟩ := newState_eq_ok h
  rw [VestingSchedule.owed, most_of_live rfl]
  exact Nat.sub_zero _

/-- What one schedule owes follows exactly what its effect moves. -/
theorem runEffect_owed_eq (purse : AccountId × Asset) {row : AccountMeta}
    (recorded : ∀ k, Recorded d now k (shard k)) (genuine : effect.Genuine)
    (timely : effect.Timely) (run : d.runEffect shard (row, effect) = .ok shard') :
    owedTo purse (shard' row.accountId) + effect.drawn purse =
      owedTo purse (shard row.accountId) + effect.deposited purse := by
  obtain ⟨-, ⟨s, rfl, empty, rfl⟩ | ⟨s, s', stored, acts, rfl⟩⟩ :=
    Deployment.runEffect_eq_ok_iff.mp run
  · obtain ⟨creator, escrow, beneficiary, asset, terms, built⟩ := genuine s rfl
    rw [Function.update_self, empty, owedTo_nil, owedTo_store (valid_of_newState built),
      owed_of_newState built, Nat.zero_add]
    rfl
  · obtain ⟨valid, -, -⟩ := (recorded row.accountId).record stored
    have change := acts.owed_add_paid valid timely
    rw [stored, acts.drawn_eq, acts.deposited_eq, owedTo_store valid, Function.update_self,
      owedTo_store (acts.valid valid)]
    simp only [acts.drawsOn_iff]
    split
    · exact change
    · rfl

theorem owedTo_finite (finite : {k | shard k ≠ []}.Finite) :
    {k | owedTo purse (shard k) ≠ 0}.Finite :=
  finite.subset fun k owes empty => owes (by rw [empty, owedTo_nil])

/-- The effects of a plan change what all schedules owe by what they put in and take out. -/
theorem effects_totals {effects : List (AccountMeta × Effect)} {total : ℕ}
    (recorded : ∀ k, Recorded d now k (shard k)) (finite : {k | shard k ≠ []}.Finite)
    (intended : ∀ planned ∈ effects, Intended d now rowList ix planned.1 planned.2)
    (genuine : ∀ planned ∈ effects, planned.2.Genuine) (late : CANCEL_WINDOW_MS ≤ now)
    (run : effects.foldlM d.runEffect shard = .ok shard')
    (owed : Totals (fun k => owedTo purse (shard k)) total) :
    ∃ total', Totals (fun k => owedTo purse (shard' k)) total' ∧
      total' + (effects.map fun planned => planned.2.drawn purse).sum =
        total + (effects.map fun planned => planned.2.deposited purse).sum := by
  induction effects generalizing shard total with
  | nil =>
    rw [List.foldlM_nil, pure_eq_ok, Except.ok.injEq] at run
    subst run
    exact ⟨total, owed, rfl⟩
  | cons planned effects ih =>
    obtain ⟨row, effect⟩ := planned
    rw [List.foldlM_cons, bind_eq_ok_iff] at run
    obtain ⟨mid, first, rest⟩ := run
    have head : Intended d now rowList ix row effect := intended _ List.mem_cons_self
    have timely := head.inTime.timely late
    have change := runEffect_owed_eq purse recorded (genuine _ List.mem_cons_self) timely first
    obtain ⟨others, drawn, -⟩ := runEffect_owed purse recorded head timely first
    have covered := owed.le (owedTo_finite finite) row.accountId
    -- what is taken out was owed
    obtain ⟨between, sum⟩ : ∃ between,
        between + effect.drawn purse = total + effect.deposited purse :=
      ⟨total + effect.deposited purse - effect.drawn purse, by omega⟩
    have owed' : Totals (fun k => owedTo purse (mid k)) between :=
      owed.change row.accountId (fun k other => by rw [others k other]) change sum
    obtain ⟨total', owed'', sum'⟩ := ih (runEffect_recorded head recorded first)
      (runEffect_finite finite first) (fun p mem => intended p (List.mem_cons_of_mem _ mem))
      (fun p mem => genuine p (List.mem_cons_of_mem _ mem)) rest owed'
    refine ⟨total', owed'', ?_⟩
    simp only [List.map_cons, List.sum_cons]
    omega

/-! ### What the transfers move -/

theorem deposited_create (purse : AccountId × Asset) {creator escrow beneficiary : AccountId}
    {asset : Asset} {terms : Terms} (h : newState creator escrow beneficiary asset terms = .ok s) :
    (Effect.create s).deposited purse =
      if purse = (escrow, asset) then terms.total.toNat else 0 := by
  obtain ⟨rfl, -⟩ := newState_eq_ok h
  dsimp only [Effect.deposited]
  simp only [drawsOn_iff (s := initialState creator escrow beneficiary asset terms) rfl rfl]
  rfl

theorem given_transferCall {p : Platform} {asset : Asset} {source target : AccountMeta}
    {amount : U128} : (transferCall p asset source target amount).given purse = 0 := by
  cases asset <;> simp [transferCall, ChainedCall.given]

theorem given_payout {p : Platform} {asset : Asset} {seedId : Bytes 32}
    {holding target : AccountMeta} {amount : U128} :
    (payout p asset holding seedId target amount).given purse =
      if purse = (target.accountId, asset) then amount.toNat else 0 := by
  cases asset <;> simp [payout, custodyTransfer, transferCall, ChainedCall.given,
    AccountMeta.selector, TransferInstruction.asset, TransferInstruction.amount]

/-- The funding of a creation puts exactly its amount into the escrow. -/
theorem transferCall_balanced {b b' : Balances} {asset : Asset} {creator holding : AccountMeta}
    {amount : U128}
    (paid : d.runCall rowList b (transferCall d.toPlatform asset creator holding amount) = .ok b')
    (mine : d.derived purse.1 = true) :
    b' purse = b purse + (if purse = (holding.accountId, asset) then amount.toNat else 0) := by
  obtain ⟨plain, paid⟩ := Deployment.runCall_transferCall paid
  obtain ⟨enough, rfl⟩ := Deployment.pay_eq_ok_iff.mp paid
  -- whoever pays by signature is no program's account
  have other : purse ≠ (creator.accountId, asset) := by
    rintro rfl
    rw [plain] at mine
    exact absurd mine (by decide)
  have after := move_add (holding.accountId, asset) enough purse
  rwa [if_neg other] at after

theorem sum_of_forall_eq {α : Type} {f : α → ℕ} {c : ℕ} {xs : List α} (h : ∀ x ∈ xs, f x = c) :
    (xs.map f).sum = xs.length * c := by
  rw [List.sum_eq_card_nsmul (xs.map f) c (by simpa using h), List.length_map, smul_eq_mul]

/-- The transfers of a plan put into each of a program's accounts what its effects put in and
what is given, and take what its effects take out. -/
theorem Planned.balanced (h : Planned d.toPlatform d.me rowList ix pl)
    (purse : AccountId × Asset) {b b' : Balances}
    (run : pl.calls.foldlM (d.runCall rowList) b = .ok b') (mine : d.derived purse.1 = true) :
    b' purse + (pl.effects.map fun planned => planned.2.drawn purse).sum =
      b purse + (pl.effects.map fun planned => planned.2.deposited purse).sum +
        (pl.calls.map (·.given purse)).sum := by
  have payment : ∀ {asset : Asset} {seedId : Bytes 32} {holding target : AccountMeta}
      {amount : U128}, IsHolding d.toPlatform d.me seedId asset holding →
      target.programAccountId = asset.shardProgram d.toPlatform →
      [payout d.toPlatform asset holding seedId target amount].foldlM (d.runCall rowList) b =
          .ok b' →
      b' purse + (if purse = (holding.accountId, asset) then amount.toNat else 0) =
        b purse + (if purse = (target.accountId, asset) then amount.toNat else 0) := by
    intro asset seedId holding target amount hholding htarget run
    simp only [List.foldlM_cons, List.foldlM_nil, bind_eq_ok_iff, pure_eq_ok, Except.ok.injEq,
      exists_eq_right, Deployment.runCall_payout hholding htarget] at run
    obtain ⟨enough, rfl⟩ := Deployment.pay_eq_ok_iff.mp run
    exact move_add _ enough purse
  have idle : ([] : List ChainedCall).foldlM (d.runCall rowList) b = .ok b' → b' = b := by
    intro run
    exact (Except.ok.inj run).symm
  cases h with
  | createSchedule hschedule hholding hcreator signed hstate =>
    simp only [List.foldlM_cons, List.foldlM_nil, bind_eq_ok_iff, pure_eq_ok, Except.ok.injEq,
      exists_eq_right] at run
    simp only [List.map_cons, List.map_nil, List.sum_cons, List.sum_nil, Nat.add_zero,
      transferCall_balanced run mine, deposited_create purse hstate, given_transferCall]
    rfl
  | @createScheduleBatch holding creator members batchId beneficiaries asset terms sum effects
      hlength hholding hcreator signed few hsum heffects =>
    simp only [List.foldlM_cons, List.foldlM_nil, bind_eq_ok_iff, pure_eq_ok, Except.ok.injEq,
      exists_eq_right] at run
    obtain ⟨count, members⟩ := planMembers_eq_ok hlength.2 heffects
    -- each member puts in its own total and takes nothing
    have deposits := sum_of_forall_eq fun planned mem => by
      obtain ⟨_, _, state, -, -, hstate, create⟩ := members planned mem
      exact create ▸ deposited_create purse hstate
    have draws : ∀ planned ∈ effects, planned.2.drawn purse = 0 := fun planned mem => by
      obtain ⟨_, _, state, -, -, -, create⟩ := members planned mem
      rw [create]
      rfl
    simp only [List.map_cons, List.map_nil, List.sum_cons, List.sum_nil, Nat.add_zero,
      transferCall_balanced run mine, given_transferCall, sum_of_forall_eq draws, deposits, count,
      ← hsum]
    split
    · rw [Nat.mul_zero, Nat.add_zero, Nat.mul_comm]
    · rfl
  | claim custody positive =>
    simpa [Effect.deposited, Effect.drawn, given_payout] using
      payment custody.holding custody.target run
  | @cancel _ _ _ _ _ _ _ _ refund custody fits =>
    by_cases some : 0 < refund
    · simp only [if_pos some] at run ⊢
      simpa [Effect.deposited, Effect.drawn, given_payout] using
        payment custody.holding custody.target run
    · simp only [if_neg some] at run ⊢
      have nothing : refund.toNat = 0 := by
        rw [BitVec.lt_def, toNat_zero] at some
        omega
      simp [Effect.deposited, Effect.drawn, idle run, nothing]
  | makeNonCancelable => simp [Effect.deposited, Effect.drawn, idle run]
  | transferBeneficiary => simp [Effect.deposited, Effect.drawn, idle run]
  | signalMilestone => simp [Effect.deposited, Effect.drawn, idle run]

/-! ### A run -/

/-- One step moves what an escrow holds, what is owed out of it and the gifts to it together. -/
theorem Logged.balanced (h : Logged d w e w') (kept : Kept d w) (late : CANCEL_WINDOW_MS ≤ w.now)
    {seed : PdaSeed} {asset : Asset} {total : ℕ}
    (owed : Totals (fun k => owedTo (d.forPublicPda d.me seed, asset) (w.shard k)) total) :
    ∃ total', Totals (fun k => owedTo (d.forPublicPda d.me seed, asset) (w'.shard k)) total' ∧
      w'.balance (d.forPublicPda d.me seed, asset) + total =
        w.balance (d.forPublicPda d.me seed, asset) + total' +
          e.gift (d.forPublicPda d.me seed, asset) := by
  cases h with
  | ticked later forward => exact ⟨total, owed, rfl⟩
  | refused why => exact ⟨total, owed, rfl⟩
  | credited balance gift gained =>
    refine ⟨total, owed, ?_⟩
    have := gained seed asset
    change balance _ + total = _ + total + gift _
    omega
  | @landed _ tx pl planned accepted =>
    obtain ⟨pl', planned', window, shard, effects, balance, calls, rfl⟩ :=
      Deployment.execute_eq_ok_iff.mp accepted
    obtain rfl : pl' = pl := Except.ok.inj ((plan_eq_ok_of_planned planned').symm.trans planned)
    obtain ⟨total', owed', sum⟩ := effects_totals kept.recorded kept.finite
      (planned'.intended window) planned'.genuine late effects owed
    have moved := planned'.balanced (d.forPublicPda d.me seed, asset) calls
      (d.derived_forPublicPda d.me seed)
    refine ⟨total', owed', ?_⟩
    dsimp only [LogEntry.gift]
    omega

/-- An escrow holds exactly what is owed out of it. In every run of a chain from no schedules, at
block times from the end of the first window on, finitely many schedules are stored; and the
balance of every asset on every address derived from the program is what it was at the start,
the gifts to it over the run, and what all the stored schedules with that escrow and asset
still owe. -/
theorem escrow_exact (d : Deployment) (w w' : World) (es : List LogEntry) (fresh : Fresh w)
    (run : Trace (Logged d) w es w') :
    ∃ stored : Finset AccountId, (∀ k, k ∈ stored ↔ w'.shard k ≠ []) ∧
      ∀ seed asset, w'.balance (d.forPublicPda d.me seed, asset) =
        w.balance (d.forPublicPda d.me seed, asset) +
          flow (LogEntry.gift (d.forPublicPda d.me seed, asset)) es +
            ∑ k ∈ stored, owedTo (d.forPublicPda d.me seed, asset) (w'.shard k) := by
  have kept := kept_of_reachable (fresh.reachable run)
  refine ⟨kept.finite.toFinset, fun k => kept.finite.mem_toFinset, fun seed asset => ?_⟩
  have books : d.Reachable CANCEL_WINDOW_MS w' ∧ ∃ total,
      Totals (fun k => owedTo (d.forPublicPda d.me seed, asset) (w'.shard k)) total ∧
        w'.balance (d.forPublicPda d.me seed, asset) =
          w.balance (d.forPublicPda d.me seed, asset) +
            flow (LogEntry.gift (d.forPublicPda d.me seed, asset)) es + total := by
    refine run.invariant (fun es w' => d.Reachable CANCEL_WINDOW_MS w' ∧ ∃ total,
      Totals (fun k => owedTo (d.forPublicPda d.me seed, asset) (w'.shard k)) total ∧
        w'.balance (d.forPublicPda d.me seed, asset) =
          w.balance (d.forPublicPda d.me seed, asset) +
            flow (LogEntry.gift (d.forPublicPda d.me seed, asset)) es + total) ?_ ?_
    · exact ⟨.start ⟨fresh.empty, fresh.late⟩, 0,
        totals_of_zero fun k => by rw [fresh.empty k, owedTo_nil], rfl⟩
    · rintro es t e u ⟨reached, total, owed, balance⟩ last
      obtain ⟨total', owed', moved⟩ :=
        last.balanced (kept_of_reachable reached) (solvent_of_reachable reached).2 owed
      refine ⟨reached.next last.step, total', owed', ?_⟩
      rw [flow_append, flow_singleton]
      omega
  obtain ⟨-, total, owed, balance⟩ := books
  rw [balance]
  refine congrArg _ (owed _ fun k owes => kept.finite.mem_toFinset.mpr fun empty => owes ?_).symm
  exact (congrArg _ empty).trans owedTo_nil

/-- After the first beneficiary's claim the sample's escrow holds what its two schedules owe. -/
theorem escrow_exact_sample :
    ∃ stored : Finset AccountId,
      (∀ k, k ∈ stored ↔ (Sample.deployment.land Sample.chain Sample.claim).shard k ≠ []) ∧
        ∀ seed asset, (Sample.deployment.land Sample.chain Sample.claim).balance
            (Sample.deployment.forPublicPda Sample.deployment.me seed, asset) =
          Sample.start.balance (Sample.deployment.forPublicPda Sample.deployment.me seed, asset) +
            flow (LogEntry.gift (Sample.deployment.forPublicPda Sample.deployment.me seed, asset))
              [.landed (Sample.planOf Sample.creation), .landed (Sample.planOf Sample.claim)] +
              ∑ k ∈ stored,
                owedTo (Sample.deployment.forPublicPda Sample.deployment.me seed, asset)
                  ((Sample.deployment.land Sample.chain Sample.claim).shard k) :=
  escrow_exact Sample.deployment _ _ _ Sample.fresh_start Sample.log_run

end Vesting

end Antumbra
