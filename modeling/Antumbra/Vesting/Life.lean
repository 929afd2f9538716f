/-
# The life of a schedule

One shard, any sequence of effects. A record comes into being once and is never
erased; its terms never change, and what does change changes in one direction.
-/

import Antumbra.Math.Runs
import Antumbra.Vesting.Planned
import Antumbra.Vesting.Validity

namespace Antumbra

open Antumbra.Math

namespace Vesting

/-- A creation carries a state that the plan built. -/
def Effect.Genuine (effect : Effect) : Prop :=
  ∀ s, effect = .create s → ∃ creator escrow beneficiary asset terms,
    newState creator escrow beneficiary asset terms = .ok s

/-- The bytes after an effect: replaced where it is accepted, as they were where it is
refused. -/
def applied (bytes : List U8) (effect : Effect) : List U8 :=
  match apply effect bytes with
  | .ok (some post) => post
  | .ok none => bytes
  | .error _ => bytes

/-- The fields a creation fixes. -/
def VestingSchedule.fixed (s : VestingSchedule) :=
  (s.kind, s.start, s.cliff, s.end_, s.total, s.escrow, s.creator, s.transferable, s.tranches,
    s.asset, s.tokenDefinition, s.refundTo, s.cancelAuthority, s.milestoneAuthority)

/-- A later record of the same schedule. -/
structure OneWay (s s' : VestingSchedule) : Prop where
  fixed : s'.fixed = s.fixed
  cancelable : s'.cancelable = s.cancelable ∨ s.cancelable = 1 ∧ s'.cancelable = 0
  cancelledAt : s'.cancelledAt = s.cancelledAt ∨ s.cancelledAt = 0 ∧ s'.cancelledAt ≠ 0
  gains : ∀ i, s.signalled.getLsbD i = true → s'.signalled.getLsbD i = true
  gained : ∀ i, s.signalled.getLsbD i = false → s'.signalled.getLsbD i = true →
    i < s.tranches.toNat ∧ s.kind = 2 ∧ s.cancelledAt = 0
  claimed : s.claimed.toNat ≤ s'.claimed.toNat
  lastSeen : s.lastSeen.toNat ≤ s'.lastSeen.toNat

variable {s s' s'' : VestingSchedule} {effect : Effect}

/-- Where no milestone is signalled only the other fields can change. -/
theorem OneWay.of_unsignalled (same : s'.signalled = s.signalled) (fixed : s'.fixed = s.fixed)
    (cancelable : s'.cancelable = s.cancelable ∨ s.cancelable = 1 ∧ s'.cancelable = 0)
    (cancelledAt : s'.cancelledAt = s.cancelledAt ∨ s.cancelledAt = 0 ∧ s'.cancelledAt ≠ 0)
    (claimed : s.claimed.toNat ≤ s'.claimed.toNat)
    (lastSeen : s.lastSeen.toNat ≤ s'.lastSeen.toNat) : OneWay s s' where
  fixed := fixed
  cancelable := cancelable
  cancelledAt := cancelledAt
  gains i set := by rw [same]; exact set
  gained i clear set := by rw [same, clear] at set; exact absurd set (by decide)
  claimed := claimed
  lastSeen := lastSeen

theorem OneWay.refl (s : VestingSchedule) : OneWay s s :=
  .of_unsignalled rfl rfl (.inl rfl) (.inl rfl) (Nat.le_refl _) (Nat.le_refl _)

theorem OneWay.trans (h : OneWay s s') (h' : OneWay s' s'') : OneWay s s'' where
  fixed := h'.fixed.trans h.fixed
  cancelable := by
    rcases h.cancelable with same | ⟨one, zero⟩
    · rw [← same]
      exact h'.cancelable
    · rcases h'.cancelable with same' | ⟨one', -⟩
      · exact .inr ⟨one, same'.trans zero⟩
      · exact absurd (zero.symm.trans one') (by decide)
  cancelledAt := by
    rcases h.cancelledAt with same | ⟨zero, nonzero⟩
    · rw [← same]
      exact h'.cancelledAt
    · rcases h'.cancelledAt with same' | ⟨zero', -⟩
      · exact .inr ⟨zero, same'.symm ▸ nonzero⟩
      · exact absurd zero' nonzero
  gains i set := h'.gains i (h.gains i set)
  gained i clear set := by
    cases middle : s'.signalled.getLsbD i with
    | true => exact h.gained i clear middle
    | false =>
      -- gained after the middle record, which has the same terms and was not cancelled
      obtain ⟨below, kind, live⟩ := h'.gained i middle set
      have terms := h.fixed
      simp only [VestingSchedule.fixed, Prod.mk.injEq] at terms
      obtain ⟨hkind, -, -, -, -, -, -, -, htranches, -⟩ := terms
      refine ⟨htranches ▸ below, hkind ▸ kind, ?_⟩
      rcases h.cancelledAt with same | ⟨zero, -⟩
      · exact same.symm.trans live
      · exact zero
  claimed := Nat.le_trans h.claimed h'.claimed
  lastSeen := Nat.le_trans h.lastSeen h'.lastSeen

/-! ### One effect -/

theorem Acts.oneWay (acts : Acts effect s s') (h : Valid s) : OneWay s s' := by
  cases acts with
  | claim _ _ _ _ _ fits =>
    refine .of_unsignalled rfl rfl (.inl rfl) (.inl rfl) ?_ ?_
    · rw [toNat_add_of_fits fits]
      omega
    · rw [toNat_max]
      omega
  | cancel _ _ live _ _ _ forward =>
    exact .of_unsignalled rfl rfl (.inl rfl) (.inr ⟨live, max_one_ne_zero _⟩) (Nat.le_refl _)
      (BitVec.le_def.mp forward)
  | makeNonCancelable _ hcancelable =>
    exact .of_unsignalled rfl rfl (.inr ⟨h.flag.resolve_left hcancelable, rfl⟩) (.inl rfl)
      (Nat.le_refl _) (Nat.le_refl _)
  | transferBeneficiary =>
    exact .of_unsignalled rfl rfl (.inl rfl) (.inl rfl) (Nat.le_refl _) (Nat.le_refl _)
  | signalMilestone _ hkind live index_lt =>
    exact
      { fixed := rfl
        cancelable := .inl rfl
        cancelledAt := .inl rfl
        gains := fun i set => by rw [BitVec.getLsbD_or, set, Bool.true_or]
        gained := fun i clear set => by
          rw [BitVec.getLsbD_or, clear, Bool.false_or, getLsbD_bitAt] at set
          simp only [Bool.and_eq_true, decide_eq_true_eq] at set
          exact ⟨set.2 ▸ (index_lt_64 index_lt).2, hkind, live⟩
        claimed := Nat.le_refl _
        lastSeen := Nat.le_refl _ }

/-- A shard is empty or holds a valid record. -/
def ShardOk (bytes : List U8) : Prop := bytes = [] ∨ ∃ s, bytes = store s ∧ Valid s

/-- What an effect leaves: the bytes as they were, a fresh record where there was none,
or a later record of the same schedule. -/
theorem applied_cases (bytes : List U8) (effect : Effect) :
    applied bytes effect = bytes ∨
      (∃ s, effect = .create s ∧ bytes = [] ∧ applied bytes effect = store s) ∨
      ∃ s s', bytes = store s ∧ Acts effect s s' ∧ applied bytes effect = store s' := by
  unfold applied
  split
  · next post accepted =>
    rcases apply_eq_ok_iff.mp accepted with ⟨s, create, empty, same⟩ | ⟨s, s', stored, acts, same⟩
    · exact .inr (.inl ⟨s, create, empty, Option.some.inj same⟩)
    · exact .inr (.inr ⟨s, s', stored, acts, Option.some.inj same⟩)
  · exact .inl rfl
  · exact .inl rfl

theorem ShardOk.applied {bytes : List U8} (h : ShardOk bytes) (genuine : effect.Genuine) :
    ShardOk (applied bytes effect) := by
  rcases applied_cases bytes effect with
    same | ⟨s, create, -, result⟩ | ⟨s, s', stored, acts, result⟩
  · rw [same]
    exact h
  · obtain ⟨creator, escrow, beneficiary, asset, terms, built⟩ := genuine s create
    exact .inr ⟨s, result, valid_of_newState built⟩
  · rcases h with empty | ⟨s₀, stored₀, valid⟩
    · exact absurd (stored.symm.trans empty) (store_ne_nil s)
    · obtain rfl := store_injective (stored.symm.trans stored₀)
      exact .inr ⟨s', result, acts.valid valid⟩

/-! ### A run of effects -/

/-- A planned creation carries a state that the plan built. -/
theorem Planned.genuine {p : Platform} {me : AccountId} {rowList : List AccountMeta}
    {ix : Instruction} {pl : Plan} (h : Planned p me rowList ix pl) :
    ∀ planned ∈ pl.effects, planned.2.Genuine := by
  intro planned mem s create
  cases h with
  | createSchedule _ _ _ _ hstate =>
    obtain rfl := List.mem_singleton.mp mem
    obtain rfl := Effect.create.inj create
    exact ⟨_, _, _, _, _, hstate⟩
  | createScheduleBatch hlength _ _ _ _ _ heffects =>
    obtain ⟨_, _, state, -, -, hstate, here⟩ := (planMembers_eq_ok hlength.2 heffects).2 planned mem
    obtain rfl := Effect.create.inj (here.symm.trans create)
    exact ⟨_, _, _, _, _, hstate⟩
  | claim => obtain rfl := List.mem_singleton.mp mem; cases create
  | cancel => obtain rfl := List.mem_singleton.mp mem; cases create
  | makeNonCancelable => obtain rfl := List.mem_singleton.mp mem; cases create
  | transferBeneficiary => obtain rfl := List.mem_singleton.mp mem; cases create
  | signalMilestone => obtain rfl := List.mem_singleton.mp mem; cases create

/-- A built creation and then acts. -/
theorem genuine_create {creator escrow beneficiary : AccountId} {asset : Asset} {terms : Terms}
    (built : newState creator escrow beneficiary asset terms = .ok s) {later : List Effect}
    (acts : ∀ e ∈ later, ∀ s', e ≠ .create s') : ∀ e ∈ Effect.create s :: later, e.Genuine := by
  intro e mem state create
  rcases List.mem_cons.mp mem with rfl | mem
  · obtain rfl := Effect.create.inj create
    exact ⟨creator, escrow, beneficiary, asset, terms, built⟩
  · exact absurd create (acts e mem state)

theorem shardOk_run {run : List Effect} (genuine : ∀ e ∈ run, e.Genuine) {bytes : List U8}
    (h : ShardOk bytes) : ShardOk (run.foldl applied bytes) := by
  induction run generalizing bytes with
  | nil => exact h
  | cons e run ih =>
    exact ih (fun e' he' => genuine e' (List.mem_cons_of_mem e he'))
      (h.applied (genuine e List.mem_cons_self))

/-- A record that a run stored is valid. -/
theorem valid_of_run {run : List Effect} (genuine : ∀ e ∈ run, e.Genuine) {bytes : List U8}
    (h : ShardOk bytes) (stored : run.foldl applied bytes = store s) : Valid s := by
  rcases shardOk_run genuine h with empty | ⟨s₀, stored₀, valid⟩
  · exact absurd (stored.symm.trans empty) (store_ne_nil s)
  · exact store_injective (stored.symm.trans stored₀) ▸ valid

theorem oneWay_run {run : List Effect} (genuine : ∀ e ∈ run, e.Genuine) (h : Valid s) :
    ∃ s', run.foldl applied (store s) = store s' ∧ OneWay s s' := by
  induction run generalizing s with
  | nil => exact ⟨s, rfl, OneWay.refl s⟩
  | cons e run ih =>
    have rest : ∀ e' ∈ run, e'.Genuine := fun e' he' => genuine e' (List.mem_cons_of_mem e he')
    rcases applied_cases (store s) e with same | ⟨_, -, empty, -⟩ | ⟨s₀, s₁, stored, acts, result⟩
    · rw [List.foldl_cons, same]
      exact ih rest h
    · exact absurd empty (store_ne_nil s)
    · obtain rfl := store_injective stored
      obtain ⟨s', last, oneWay⟩ := ih rest (acts.valid h)
      exact ⟨s', by rw [List.foldl_cons, result, last], (acts.oneWay h).trans oneWay⟩

/-- What a run leaves in a shard, and what further effects can do to it. -/
structure OneWayLife (bytes : List U8) (more : List Effect) : Prop where
  stored : bytes = [] ∨ ∃ s, bytes = store s ∧ s.claimed ≤ s.total
  later : ∀ s, bytes = store s → ∃ s', more.foldl applied bytes = store s' ∧ OneWay s s'
  once : ∀ s, bytes = store s → ∀ s₀, ∃ why, apply (.create s₀) bytes = .error why
  refused : ∀ effect why, apply effect bytes = .error why → applied bytes effect = bytes

theorem oneWayLife_of_genuine {run more : List Effect} (genuine : ∀ e ∈ run ++ more, e.Genuine) :
    OneWayLife (run.foldl applied []) more := by
  have ok : ShardOk (run.foldl applied []) :=
    shardOk_run (fun e he => genuine e (List.mem_append_left more he)) (.inl rfl)
  generalize run.foldl applied [] = bytes at ok
  refine ⟨?_, fun s stored => ?_, fun s stored s₀ => ?_, fun effect why refused => ?_⟩
  · rcases ok with empty | ⟨s, stored, valid⟩
    · exact .inl empty
    · exact .inr ⟨s, stored, BitVec.le_def.mpr valid.claimed_le⟩
  · rcases ok with empty | ⟨s₁, stored₁, valid⟩
    · exact absurd (stored.symm.trans empty) (store_ne_nil s)
    · obtain rfl := store_injective (stored.symm.trans stored₁)
      rw [stored]
      exact oneWay_run (fun e he => genuine e (List.mem_append_right run he)) valid
  · refine exists_error_of_ne_ok fun post accepted => ?_
    rcases apply_eq_ok_iff.mp accepted with ⟨_, -, empty, -⟩ | ⟨_, _, -, acts, -⟩
    · exact absurd (stored.symm.trans empty) (store_ne_nil s)
    · cases acts
  · rw [applied, refused]

/-- The one-way life of a schedule. Whatever effects ran on an empty shard, it is still
empty or holds a record with no more claimed than its total; whatever effects run next, a
stored record is never erased or created again and its later records differ from it only
in the allowed direction; and a refused effect changes nothing. -/
theorem life_one_way (run more : List Effect) (genuine : ∀ e ∈ run ++ more, e.Genuine) :
    let bytes := run.foldl applied []
    (bytes = [] ∨ ∃ s, bytes = store s ∧ s.claimed ≤ s.total) ∧
      (∀ s, bytes = store s →
        (∃ s', more.foldl applied bytes = store s' ∧ OneWay s s') ∧
          ∀ s₀, ∃ why, apply (.create s₀) bytes = .error why) ∧
      ∀ effect why, apply effect bytes = .error why → applied bytes effect = bytes := by
  intro bytes
  have life := oneWayLife_of_genuine genuine
  exact ⟨life.stored, fun s stored => ⟨life.later s stored, life.once s stored⟩, life.refused⟩

/-- A claim and a cancellation of the sample leave a later record of it. -/
theorem life_one_way_sample :
    let s := Sample.record (Sample.account 4)
    ∃ s', [.claim (Sample.account 2) (Sample.account 4) .native 40 1700000120000,
        .cancel (Sample.account 1) (Sample.account 4) (Sample.account 0xAA) .native 1700000420000
          460].foldl applied (store s) = store s' ∧ OneWay s s' := by
  intro s
  have genuine : ∀ e ∈ [Effect.create s] ++
      [.claim (Sample.account 2) (Sample.account 4) .native 40 1700000120000,
        .cancel (Sample.account 1) (Sample.account 4) (Sample.account 0xAA) .native 1700000420000
          460], e.Genuine := genuine_create (Sample.newState_record _) (by simp)
  exact ((life_one_way [.create s] _ genuine).2.1 s rfl).1

/-- An effect of a transaction that the program plans. -/
def Effect.Emitted (p : Platform) (me : AccountId) (effect : Effect) : Prop :=
  ∃ rowList ix pl, plan p ⟨me, rowList⟩ ix = .ok pl ∧ ∃ planned ∈ pl.effects, planned.2 = effect

/-- The program emits nothing else, whatever it is sent. -/
theorem oneWayLife_of_emitted {p : Platform} {me : AccountId} {run more : List Effect}
    (emitted : ∀ e ∈ run ++ more, e.Emitted p me) : OneWayLife (run.foldl applied []) more := by
  refine oneWayLife_of_genuine fun e mem => ?_
  obtain ⟨rowList, ix, pl, ok, planned, within, rfl⟩ := emitted e mem
  exact (plan_eq_ok_iff.mp ok).genuine planned within

end Vesting

end Antumbra
