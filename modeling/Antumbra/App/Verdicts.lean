/-
# The replay's verdicts against the program's

The replay leaves out some of the checks the program makes. Wherever every act that passes
the checks it does make also passes the others, its verdicts are the program's and its
schedule is the one the chain holds, over a whole history.
-/

import Antumbra.App.Replay
import Antumbra.Vesting.History

namespace Antumbra

open Antumbra.Math

namespace App

open Vesting (Deployment VestingSchedule Valid Effect Acts Sent Entry Creation Included
  ProgramShardSelector holdingAccount store)

/-! ### The listing -/

def listedRow (row : ProgramShardSelector) : Selector where
  accountId := base58 row.account.value.toList
  programAccountId := base58 row.program.value.toList

/-- A transaction on the chain as the explorer lists it. -/
def listedTx (d : Deployment) (hash : String) (t : Sent) : Tx :=
  .isPublic hash (base58 d.me.value.toList) t.ix.encode
    ((t.rows d.toPlatform d.me).map listedRow)

/-- A schedule's creation and everything sent to it since. -/
def listing (d : Deployment) (hash : String) (creation : Sent) (entries : List Entry) : List Tx :=
  listedTx d hash creation :: entries.map fun e => listedTx d e.hash e.sent

/-- The verdict an event shows. -/
def shownOk (e : Json) : Bool :=
  match e with
  | .obj fields =>
    match fields.lookup "ok" with
    | some (.bool ok) => ok
    | _ => false
  | _ => false

/-- The verdicts the view is sent, oldest first. -/
def verdicts (out : Fields) : List Bool :=
  match out.lookup "events" with
  | some (.arr events) => events.map shownOk
  | _ => []

variable {d : Deployment} {k : AccountId} {fin : Schedule} {s s' : VestingSchedule} {t : Sent}

/-! ### Reading the rows -/

theorem toList_inj (a b : AccountId) : a.value.toList = b.value.toList ↔ a = b :=
  ⟨fun same => AccountId.ext (List.Vector.toList_injective same), fun same => same ▸ rfl⟩

/-- The account that the replay takes for the signer. -/
def signerOf (d : Deployment) (k : AccountId) (t : Sent) : Option AccountId :=
  (((t.rows d.toPlatform d.me).filter fun row => row.program = d.me ∧ row.account ≠ k).map
    (·.account)).getLast?

/-- An account's bytes, none for none. -/
def accountBytes (a : Option AccountId) : List U8 := (a.map fun a => a.value.toList).getD []

/-- The replay's step on a listed transaction. -/
theorem replayTx_listedTx (hash : String) (few : FewBeneficiaries t.ix) (r : Replay) :
    replayTx d.toPlatform d.me k fin r (listedTx d hash t) =
      replayPublic d.toPlatform d.me k fin hash (ofInstruction t.ix)
        ((t.rows d.toPlatform d.me).map fun row => row.account.value.toList)
        (accountBytes (signerOf d k t)) r := by
  have ok : (ofInstruction t.ix).ok = true := by cases t.ix <;> rfl
  -- accounts and programs are compared as texts, which read back
  have ids : ∀ row : ProgramShardSelector,
      unbase58 (listedRow row).accountId = row.account.value.toList :=
    fun row => unbase58_base58 row.account.value.toList_length
  have mine : ∀ row : ProgramShardSelector,
      ((listedRow row).programAccountId = base58 d.me.value.toList ∧
        unbase58 (listedRow row).accountId ≠ k.value.toList) ↔
          (row.program = d.me ∧ row.account ≠ k) := by
    intro row
    rw [ids]
    exact and_congr (base58_inj _ _) (not_congr (toList_inj _ _))
  have handles : (((t.rows d.toPlatform d.me).map listedRow).filter fun row =>
      row.programAccountId = base58 d.me.value.toList ∧
        unbase58 row.accountId ≠ k.value.toList).map (fun row => unbase58 row.accountId) =
      (((t.rows d.toPlatform d.me).filter fun row => row.program = d.me ∧ row.account ≠ k).map
        (·.account)).map fun a => a.value.toList := by
    rw [List.filter_map, List.map_map, List.map_map]
    have same : (fun row => decide (row.programAccountId = base58 d.me.value.toList ∧
        unbase58 row.accountId ≠ k.value.toList)) ∘ listedRow =
        fun row => decide (row.program = d.me ∧ row.account ≠ k) :=
      funext fun row => decide_eq_decide.mpr (mine row)
    rw [same]
    exact List.map_congr_left fun row _ => ids row
  have rows : ((t.rows d.toPlatform d.me).map listedRow).map (fun row => unbase58 row.accountId) =
      (t.rows d.toPlatform d.me).map fun row => row.account.value.toList := by
    rw [List.map_map]
    exact List.map_congr_left fun row _ => ids row
  rw [listedTx, replayTx]
  dsimp only
  rw [decodeIx_encode _ few, ok, if_neg (by simp), rows, handles, List.getLastD_eq_getLast?,
    List.getLast?_map]
  rfl

/-- The account of the signing row, unless that is the schedule itself. -/
theorem signerOf_eq (act : t.ix.IsAct) (other : t.handle ≠ k) :
    signerOf d k t = some t.handle := by
  -- every layout ends with the signing row
  have last : ∃ first, t.rows d.toPlatform d.me = first ++ [⟨t.handle, d.me⟩] := by
    obtain ⟨ix, target, handle, signers⟩ := t
    cases ix with
    | createSchedule => exact absurd act id
    | createScheduleBatch => exact absurd act id
    | claim => exact ⟨[_, _, _], rfl⟩
    | cancel => exact ⟨[_, _, _], rfl⟩
    | makeNonCancelable => exact ⟨[_], rfl⟩
    | transferBeneficiary => exact ⟨[_], rfl⟩
    | signalMilestone => exact ⟨[_], rfl⟩
  obtain ⟨first, rows⟩ := last
  rw [signerOf, rows, List.filter_append, List.filter_cons_of_pos (by simpa using other),
    List.map_append, List.filter_nil, List.map_singleton, List.getLast?_concat]

theorem accountBytes_eq_iff (a : Option AccountId) (b : AccountId) :
    accountBytes a = b.value.toList ↔ a = some b := by
  cases a with
  | none =>
    refine ⟨fun same => ?_, fun same => absurd same (by simp)⟩
    have lengths := congrArg List.length same
    rw [b.value.toList_length] at lengths
    exact absurd lengths (by decide)
  | some a => exact (toList_inj a b).trans ⟨congrArg some, Option.some.inj⟩

/-! ### What the replay checks, and what it leaves out -/

/-- The act passes the checks that the replay makes. -/
def PassesReplay (d : Deployment) (k : AccountId) (fin : Schedule) (s : VestingSchedule)
    (t : Sent) : Prop :=
  match t.ix with
  | .claim _ _ _ amount at_ =>
    signerOf d k t = some s.beneficiary ∧ 0 < amount ∧
      (∃ owed, Vesting.claimable s at_ = .ok owed ∧ amount ≤ owed) ∧ at_ ≤ fin.lastSeen
  | .cancel _ _ _ at_ refund =>
    signerOf d k t = some s.cancelAuthority ∧ s.cancelable ≠ 0 ∧ s.cancelledAt = 0 ∧
      Vesting.unvested s at_ = .ok refund
  | .makeNonCancelable _ => signerOf d k t = some s.creator
  | .transferBeneficiary _ _ => signerOf d k t = some s.beneficiary ∧ s.transferable ≠ 0
  | .signalMilestone _ index =>
    signerOf d k t = some s.milestoneAuthority ∧ index < s.tranches ∧ index < 64 ∧
      s.signalled.getLsbD index.toNat = false
  | _ => False

/-- The act passes the checks that only the program makes; and a cancellation is not for time
zero, which the program stores as another time. -/
def PassesRest (d : Deployment) (s : VestingSchedule) (t : Sent) : Prop :=
  t.handle ∈ t.signers ∧
    match t.ix with
    | .claim scheduleId batchId asset _ _ =>
      s.escrow = holdingAccount d.toPlatform d.me (batchId.getD scheduleId) ∧
        asset.code = (s.asset, s.tokenDefinition)
    | .cancel scheduleId batchId asset at_ _ =>
      s.escrow = holdingAccount d.toPlatform d.me (batchId.getD scheduleId) ∧
        asset.code = (s.asset, s.tokenDefinition) ∧ s.refundTo = t.target ∧ s.lastSeen ≤ at_ ∧
          at_.toNat + Vesting.CANCEL_WINDOW_MS.toNat < 2 ^ 64 ∧ at_ ≠ 0
    | .makeNonCancelable _ => s.cancelable ≠ 0
    | .signalMilestone _ _ => s.cancelledAt = 0
    | _ => True

/-- The schedule as the replay keeps it: it does not know the escrow. -/
def replayed (s : VestingSchedule) : Schedule := { ofStored s with escrow := [] }

/-! ### One act, replayed -/

/-- The outcome is to apply the act where it passes and to leave the schedule alone where it
does not. -/
def Decides (o : Outcome) (passes : Prop) (st st' : Schedule) : Prop :=
  (o.ok = true ∧ passes ∧ o.st = st') ∨ (o.ok = false ∧ ¬ passes ∧ o.st = st)

section Outcomes

variable {o : Outcome} {passes check : Prop} {st st' : Schedule} {what detail : String}

theorem Decides.applied (h : passes) : Decides ⟨st', true, what, detail⟩ passes st st' :=
  .inl ⟨rfl, h, rfl⟩

/-- A check that what passes does not fail, and then the rest. -/
theorem Decides.guard [Decidable check] (fails : passes → ¬ check)
    (rest : ¬ check → Decides o passes st st') :
    Decides (if check then ⟨st, false, what, detail⟩ else o) passes st st' := by
  by_cases failed : check
  · rw [if_pos failed]
    exact .inr ⟨rfl, fun h => fails h failed, rfl⟩
  · rw [if_neg failed]
    exact rest failed

variable {x : Ix} {rows : List (List U8)} {signer : Option AccountId}

/-- The first check is always who signed. -/
theorem Decides.signed {who : AccountId} (names : passes → signer = some who)
    (rest : signer = some who → Decides o passes st st') :
    Decides (if accountBytes signer ≠ who.value.toList then ⟨st, false, what, detail⟩ else o) passes
      st st' := by
  refine .guard (fun h => not_not.mpr ((accountBytes_eq_iff _ _).mpr (names h))) fun same => ?_
  exact rest ((accountBytes_eq_iff _ _).mp (not_not.mp same))

theorem replayClaim_decides (h : s.WellFormed) :
    Decides (replayClaim fin x rows (accountBytes signer) (replayed s))
      (signer = some s.beneficiary ∧ 0 < x.amount ∧
        (∃ owed, Vesting.claimable s x.at_ = .ok owed ∧ x.amount ≤ owed) ∧ x.at_ ≤ fin.lastSeen)
      (replayed s)
      (replayed { s with
        claimed := s.claimed + x.amount
        lastSeen := max s.lastSeen x.at_ }) := by
  have claimable := claimable_ofStored h x.at_
  refine .signed (fun passes => passes.1) fun signed => ?_
  refine .guard ?_ fun covered => ?_
  · rintro ⟨-, positive, ⟨owed, computed, le⟩, -⟩ (nothing | above)
    · exact absurd (nothing ▸ positive) (by decide)
    · obtain rfl := Except.ok.inj (claimable.symm.trans computed)
      exact absurd above (BitVec.not_lt.mpr le)
  refine .guard (fun passes => BitVec.not_lt.mpr passes.2.2.2) fun reached => ?_
  obtain ⟨something, le⟩ := not_or.mp covered
  exact .applied ⟨signed, (BitVec.pos_iff_ne_zero _).mpr something,
    ⟨_, claimable, BitVec.not_lt.mp le⟩, BitVec.not_lt.mp reached⟩

/-- The replay's cancellation is the program's, but for the time zero. -/
theorem replayCancel_decides (h : s.WellFormed) :
    Decides (replayCancel fin x (accountBytes signer) (replayed s))
      (signer = some s.cancelAuthority ∧ s.cancelable ≠ 0 ∧ s.cancelledAt = 0 ∧
        Vesting.unvested s x.at_ = .ok x.refund)
      (replayed s)
      (replayed { s with
        cancelledAt := x.at_
        lastSeen := max s.lastSeen x.at_ }) := by
  refine .signed (fun passes => passes.1) fun signed => ?_
  refine .guard (fun passes => passes.2.1) fun cancelable => ?_
  refine .guard (fun passes => not_not.mpr passes.2.2.1) fun live => ?_
  have unvested := unvested_ofStored h (not_not.mp live) x.at_
  refine .guard ?_ fun exact_ => ?_
  · rintro ⟨-, -, -, refund⟩
    exact not_not.mpr (Except.ok.inj (refund.symm.trans unvested))
  exact .applied ⟨signed, cancelable, not_not.mp live,
    (not_not.mp exact_) ▸ unvested⟩

theorem replayLock_decides (signer : Option AccountId) :
    Decides (replayLock (accountBytes signer) (replayed s)) (signer = some s.creator) (replayed s)
      (replayed { s with cancelable := 0 }) := by
  refine .signed (fun passes => passes) fun signed => ?_
  exact .applied signed

theorem replayTransfer_decides {newBeneficiary : AccountId}
    (named : x.newBeneficiary = newBeneficiary.value.toList) :
    Decides (replayTransfer x (accountBytes signer) (replayed s))
      (signer = some s.beneficiary ∧ s.transferable ≠ 0) (replayed s)
      (replayed { s with beneficiary := newBeneficiary }) := by
  unfold replayTransfer
  rw [named]
  refine .signed (fun passes => passes.1) fun signed => ?_
  refine .guard (fun passes => passes.2) fun transferable => ?_
  exact .applied ⟨signed, transferable⟩

theorem replaySignal_decides :
    Decides (replaySignal x (accountBytes signer) (replayed s))
      (signer = some s.milestoneAuthority ∧ x.index < s.tranches ∧ x.index < 64 ∧
        s.signalled.getLsbD x.index.toNat = false)
      (replayed s)
      (replayed { s with signalled := s.signalled ||| bitAt 64 x.index.toNat }) := by
  refine .signed (fun passes => passes.1) fun signed => ?_
  refine .guard ?_ fun inside => ?_
  · rintro ⟨-, below, below64, -⟩ (beyond | beyond)
    · exact absurd below (BitVec.not_lt.mpr beyond)
    · exact absurd below64 (BitVec.not_lt.mpr beyond)
  refine .guard (fun passes => ne_true_of_eq_false passes.2.2.2) fun clear => ?_
  obtain ⟨below, below64⟩ := not_or.mp inside
  exact .applied ⟨signed, BitVec.not_le.mp below,
    BitVec.not_le.mp below64, eq_false_of_ne_true clear⟩

end Outcomes

/-- One act, replayed: the outcome, and where the program's checks pass too, the schedule after
it. -/
theorem replayAct_decides (fin : Schedule) (h : s.WellFormed) (act : t.ix.IsAct)
    (rows : List (List U8)) :
    ∃ o st', replayAct fin (ofInstruction t.ix) rows (accountBytes (signerOf d k t)) (replayed s) =
        some o ∧
      Decides o (PassesReplay d k fin s t) (replayed s) st' ∧
      ∀ effect s', t.effect d = some effect → Acts effect s s' → PassesRest d s t →
        st' = replayed s' := by
  obtain ⟨ix, target, handle, signers⟩ := t
  cases ix with
  | createSchedule => exact absurd act id
  | createScheduleBatch => exact absurd act id
  | claim scheduleId batchId asset amount at_ =>
    refine ⟨_, _, rfl, replayClaim_decides h, fun effect s' asks acts rest => ?_⟩
    obtain rfl := Option.some.inj asks
    cases acts
    rfl
  | cancel scheduleId batchId asset at_ refund =>
    refine ⟨_, _, rfl, replayCancel_decides h, fun effect s' asks acts rest => ?_⟩
    obtain rfl := Option.some.inj asks
    obtain ⟨-, -, -, -, forward, -, nonzero⟩ := rest
    cases acts
    -- the program stores the time itself: it is not before the last one, and not zero
    have seen : max s.lastSeen at_ = at_ := by
      rw [BitVec.le_def] at forward
      exact word_ext (by rw [toNat_max]; omega)
    have stored : max at_ 1 = at_ := by
      have positive : at_.toNat ≠ 0 := fun zero => nonzero (word_ext zero)
      exact word_ext (by rw [toNat_max, show (1 : U64).toNat = 1 from rfl]; omega)
    rw [stored]
    exact congrArg (fun lastSeen => replayed { s with cancelledAt := at_, lastSeen }) seen
  | makeNonCancelable scheduleId =>
    refine ⟨_, _, rfl, replayLock_decides _, fun effect s' asks acts _ => ?_⟩
    obtain rfl := Option.some.inj asks
    cases acts
    rfl
  | transferBeneficiary scheduleId newBeneficiary =>
    refine ⟨_, _, rfl, replayTransfer_decides rfl, fun effect s' asks acts _ => ?_⟩
    obtain rfl := Option.some.inj asks
    cases acts
    rfl
  | signalMilestone scheduleId index =>
    refine ⟨_, _, rfl, replaySignal_decides, fun effect s' asks acts _ => ?_⟩
    obtain rfl := Option.some.inj asks
    cases acts
    rfl

/-! ### One act, on the chain -/

variable {shard shard' : AccountId → List U8}

/-- A schedule has no key, so whoever signed is not the schedule. -/
theorem handle_ne (names : t.Names d k) (keys : ∀ a ∈ t.signers, d.derived a = false)
    (signed : t.handle ∈ t.signers) : t.handle ≠ k := by
  rintro rfl
  obtain ⟨id, -, same⟩ := names
  have derived := d.derived_forPublicPda d.me (Vesting.scheduleSeed d.toPlatform id)
  rw [← Vesting.scheduleAccount, ← same, keys _ signed] at derived
  exact absurd derived (by decide)

/-- What the program accepts passes the replay's checks, once the chain's last time is known. -/
theorem passesReplay_of_accepted (fin : Schedule) (act : t.ix.IsAct) (names : t.Names d k)
    (keys : ∀ a ∈ t.signers, d.derived a = false) (stored : shard k = store s)
    (accepted : d.settle shard (t.transaction d) = .ok shard') :
    ∃ effect s', t.effect d = some effect ∧ Acts effect s s' ∧ shard' k = store s' ∧
      (s'.lastSeen ≤ fin.lastSeen → PassesReplay d k fin s t) := by
  obtain ⟨effect, asks⟩ := Sent.exists_effect (d := d) act
  obtain ⟨signed, plannable, s', acts, rfl⟩ := (Sent.settle_eq_ok_iff names asks stored).mp accepted
  have signer := signerOf_eq (d := d) act (handle_ne names keys signed)
  refine ⟨effect, s', asks, acts, Function.update_self _ _ _, fun reached => ?_⟩
  obtain ⟨ix, target, handle, signers⟩ := t
  cases ix with
  | createSchedule => exact absurd act id
  | createScheduleBatch => exact absurd act id
  | claim scheduleId batchId asset amount at_ =>
    obtain rfl := Option.some.inj asks
    cases acts with
    | claim hbeneficiary _ _ howed hamount _ =>
      -- its time is part of the last time seen
      have last : at_ ≤ fin.lastSeen := by
        change max s.lastSeen at_ ≤ fin.lastSeen at reached
        rw [BitVec.le_def, toNat_max] at reached
        exact BitVec.le_def.mpr (by omega)
      exact ⟨signer.trans (congrArg some hbeneficiary.symm), plannable, ⟨_, howed, hamount⟩, last⟩
  | cancel scheduleId batchId asset at_ refund =>
    obtain rfl := Option.some.inj asks
    cases acts with
    | cancel hauthority hcancelable live _ _ _ _ hrefund =>
      exact ⟨signer.trans (congrArg some hauthority.symm), hcancelable, live, hrefund⟩
  | makeNonCancelable scheduleId =>
    obtain rfl := Option.some.inj asks
    cases acts with
    | makeNonCancelable hcreator _ => exact signer.trans (congrArg some hcreator.symm)
  | transferBeneficiary scheduleId newBeneficiary =>
    obtain rfl := Option.some.inj asks
    cases acts with
    | transferBeneficiary htransferable hbeneficiary =>
      exact ⟨signer.trans (congrArg some hbeneficiary.symm), htransferable⟩
  | signalMilestone scheduleId index =>
    obtain rfl := Option.some.inj asks
    cases acts with
    | signalMilestone hauthority _ _ index_lt clear =>
      obtain ⟨below64, below⟩ := Vesting.index_lt_64 index_lt
      exact ⟨signer.trans (congrArg some hauthority.symm), BitVec.lt_def.mpr below,
        BitVec.lt_def.mpr below64, clear⟩

/-- What passes both kinds of checks is accepted. -/
theorem accepted_of_passes (h : Valid s) (act : t.ix.IsAct) (names : t.Names d k)
    (keys : ∀ a ∈ t.signers, d.derived a = false) (stored : shard k = store s)
    (passes : PassesReplay d k fin s t) (rest : PassesRest d s t) :
    ∃ shard', d.settle shard (t.transaction d) = .ok shard' := by
  obtain ⟨effect, asks⟩ := Sent.exists_effect (d := d) act
  have signed := rest.1
  have signer := signerOf_eq (d := d) act (handle_ne names keys signed)
  suffices acts : t.Plannable ∧ ∃ s', Acts effect s s' by
    obtain ⟨plannable, s', acts⟩ := acts
    exact ⟨_, (Sent.settle_eq_ok_iff names asks stored).mpr ⟨signed, plannable, s', acts, rfl⟩⟩
  have is : ∀ {a}, signerOf d k t = some a → a = t.handle :=
    fun same => (Option.some.inj (signer.symm.trans same)).symm
  obtain ⟨ix, target, handle, signers⟩ := t
  cases ix with
  | createSchedule => exact absurd act id
  | createScheduleBatch => exact absurd act id
  | claim scheduleId batchId asset amount at_ =>
    obtain rfl := Option.some.inj asks
    obtain ⟨beneficiary, positive, ⟨owed, howed, le⟩, -⟩ := passes
    obtain ⟨-, hescrow, hasset⟩ := rest
    -- what was claimed and what still can be is part of the total
    have fits : s.claimed.toNat + amount.toNat < 2 ^ 128 := by
      have value := (Vesting.claimable_eq_ok_iff h.wellFormed).mp howed
      have claimed_le := h.claimed_le
      have accrued_le := h.wellFormed.accrued_le at_.toNat
      have total := s.total.isLt
      rw [BitVec.le_def] at le
      omega
    exact ⟨positive, _, .claim (is beneficiary) hescrow hasset howed le fits⟩
  | cancel scheduleId batchId asset at_ refund =>
    obtain rfl := Option.some.inj asks
    obtain ⟨authority, cancelable, live, hrefund⟩ := passes
    obtain ⟨-, hescrow, hasset, hrefundTo, forward, plannable, -⟩ := rest
    exact ⟨plannable, _,
      .cancel (is authority) cancelable live hrefundTo hescrow hasset forward hrefund⟩
  | makeNonCancelable scheduleId =>
    obtain rfl := Option.some.inj asks
    exact ⟨trivial, _, .makeNonCancelable (is passes) rest.2⟩
  | transferBeneficiary scheduleId newBeneficiary =>
    obtain rfl := Option.some.inj asks
    exact ⟨trivial, _, .transferBeneficiary passes.2 (is passes.1)⟩
  | signalMilestone scheduleId index =>
    obtain rfl := Option.some.inj asks
    obtain ⟨authority, below, below64, clear⟩ := passes
    -- only milestone schedules have tranches to signal
    have kind : s.kind = 2 := by
      cases h.wellFormed with
      | cliffLinear _ _ _ _ none => exact absurd (none ▸ below) BitVec.not_lt_zero
      | linear _ _ _ none => exact absurd (none ▸ below) BitVec.not_lt_zero
      | milestones kind => exact kind
    have index_lt : index < min s.tranches Vesting.MAX_TRANCHES := by
      rw [BitVec.lt_def] at below below64 ⊢
      rw [toNat_min]
      exact lt_min below below64
    exact ⟨trivial, _, .signalMilestone (is authority) kind rest.2 index_lt clear⟩

/-! ### The creation, replayed -/

theorem orCreator_eq (a creator : AccountId) :
    orCreator a.value.toList creator.value.toList =
      (Vesting.orCreator a creator).value.toList := by
  have zero : a.value.toList = List.replicate 32 0 ↔ a = AccountId.default :=
    toList_inj a AccountId.default
  rw [orCreator, Vesting.orCreator]
  simp only [zero]
  split <;> rfl

/-- The replay starts from the record that the creation stored. -/
theorem createdSchedule_eq (x : Ix) {creator escrow beneficiary : AccountId}
    {asset : Vesting.Asset} {terms : Vesting.Terms}
    (named : x.terms = withTerms (withAsset Schedule.blank asset) terms) :
    createdSchedule x beneficiary.value.toList creator.value.toList =
      replayed (Vesting.initialState creator escrow beneficiary asset terms) := by
  simp only [createdSchedule, named, withTerms, withAsset, orCreator_eq]
  rfl

/-- The loop over a batch finds a member at the schedule's address; which one does not matter to
its beneficiary. -/
theorem findMember_eq {batchId : Bytes 32} {beneficiaries : List AccountId} (ben : AccountId)
    (found : ∃ i < beneficiaries.length, k = d.slot batchId i)
    (same : ∀ i (hi : i < beneficiaries.length), k = d.slot batchId i → beneficiaries[i] = ben) :
    (findMember d.toPlatform d.me k batchId
      (beneficiaries.map fun who => who.value.toList)).map Prod.fst = some ben.value.toList := by
  refine foldl_last (fun x : List U8 × ℕ => d.slot batchId x.2 = k) ?_ (.inr ?_)
  · rintro ⟨bytes, i⟩ mem here
    rw [List.mk_mem_zipIdx_iff_getElem?, List.getElem?_map, Option.map_eq_some_iff] at mem
    obtain ⟨who, at_, rfl⟩ := mem
    obtain ⟨hi, rfl⟩ := List.getElem?_eq_some_iff.mp at_
    exact congrArg (fun who => who.value.toList) (same i hi here.symm)
  · obtain ⟨i, hi, here⟩ := found
    refine ⟨(beneficiaries[i].value.toList, i), ?_, here.symm⟩
    rw [List.mk_mem_zipIdx_iff_getElem?, List.getElem?_map, List.getElem?_eq_getElem hi]
    rfl

/-- The verdicts of the replay so far. -/
def Replay.verdicts (r : Replay) : List Bool := r.events.map fun e => shownOk (.obj e)

/-- The replay so far is in step with a stored record. -/
structure InStep (r : Replay) (s : VestingSchedule) (accepted : List Bool) : Prop where
  created : r.created = true
  st : r.st = replayed s
  verdicts : r.verdicts = accepted

/-- An accepted creation brings the replay in step with what it stored. -/
theorem Creation.inStep (fin : Schedule) (h : Creation d k shard t shard')
    (few : FewBeneficiaries t.ix) (hash : String) :
    ∃ s, shard' k = store s ∧ Valid s ∧
      InStep (replayTx d.toPlatform d.me k fin Replay.start (listedTx d hash t)) s [true] := by
  rw [replayTx_listedTx hash few]
  obtain ⟨scheduleId, who, asset, terms, s, create, built, stored⟩ |
    ⟨batchId, beneficiaries, asset, terms, create, ⟨i, hi, here⟩, members⟩ := h.stored
  · obtain ⟨ix, target, handle, signers⟩ := t
    obtain rfl : ix = _ := create
    obtain ⟨rfl, -⟩ := Vesting.newState_eq_ok built
    refine ⟨_, stored, Vesting.valid_of_newState built, rfl, ?_, rfl⟩
    exact createdSchedule_eq _ rfl
  · obtain ⟨ix, target, handle, signers⟩ := t
    obtain rfl : ix = _ := create
    obtain ⟨s, built, stored⟩ := members i hi here
    have fresh := (Vesting.newState_eq_ok built).1
    have member := findMember_eq beneficiaries[i] ⟨i, hi, here⟩ fun j hj here' => by
      -- two members at one address are one record
      obtain ⟨s', built', stored'⟩ := members j hj here'
      obtain rfl := Vesting.store_injective (stored.symm.trans stored')
      have fresh' := (Vesting.newState_eq_ok built').1
      exact congrArg VestingSchedule.beneficiary (fresh'.symm.trans fresh)
    have id : asId batchId.toList = some batchId := dif_pos batchId.toList_length
    refine ⟨s, stored, Vesting.valid_of_newState built, rfl, ?_, rfl⟩
    have ben : (((asId batchId.toList).bind fun batch => findMember d.toPlatform d.me k batch
        (beneficiaries.map fun who => who.value.toList)).map Prod.fst).getD [] =
        beneficiaries[i].value.toList := by
      rw [id, Option.bind_some, member, Option.getD_some]
    rw [fresh, ← createdSchedule_eq
      (ofInstruction (.createScheduleBatch batchId beneficiaries asset terms)) rfl, ← ben]
    rfl

/-! ### A history, replayed -/

/-- An act is included and, if it passes the checks the replay makes, passes the others. -/
structure Replayable (d : Deployment) (k : AccountId) (fin : Schedule)
    (shard : AccountId → List U8) (e : Entry) (shard' : AccountId → List U8) : Prop where
  included : Included d k shard e shard'
  complete : ∀ s, shard k = store s → PassesReplay d k fin s e.sent → PassesRest d s e.sent

/-- An act's outcome, as the replay goes on. -/
theorem InStep.act (fin : Schedule) {r : Replay} {accepted : List Bool} {o : Outcome}
    (h : InStep r s accepted) (act : t.ix.IsAct) (hash : String)
    (outcome : replayAct fin (ofInstruction t.ix)
      ((t.rows d.toPlatform d.me).map fun row => row.account.value.toList)
      (accountBytes (signerOf d k t)) (replayed s) = some o) (after : o.st = replayed s') :
    InStep (replayTx d.toPlatform d.me k fin r (listedTx d hash t)) s' (accepted ++ [o.ok]) := by
  -- an act is none of the two creations
  have acts : FewBeneficiaries t.ix ∧ (ofInstruction t.ix).tag ≠ 0 ∧
      (ofInstruction t.ix).tag ≠ 1 := by
    cases hix : t.ix with
    | createSchedule => exact absurd act (by rw [hix]; exact id)
    | createScheduleBatch => exact absurd act (by rw [hix]; exact id)
    | _ => exact ⟨trivial, by simp [ofInstruction], by simp [ofInstruction]⟩
  obtain ⟨few, single, batch⟩ := acts
  rw [replayTx_listedTx hash few, replayPublic, if_neg single, if_neg batch]
  dsimp only
  rw [h.created, if_pos rfl, h.st, outcome]
  refine ⟨rfl, after, ?_⟩
  rw [Replay.verdicts, List.map_append, ← h.verdicts]
  rfl

/-- On a replay in step an act gets the program's verdict and leaves it in step. -/
theorem Replayable.inStep {e : Entry} {accepted : List Bool} {r : Replay}
    (h : Replayable d k fin shard e shard') (stored : shard k = store s) (valid : Valid s) :
    ∃ s', shard' k = store s' ∧ Valid s' ∧ s.lastSeen.toNat ≤ s'.lastSeen.toNat ∧
      (s'.lastSeen ≤ fin.lastSeen → InStep r s accepted →
        InStep (replayTx d.toPlatform d.me k fin r (listedTx d e.hash e.sent)) s'
          (accepted ++ [e.accepted])) := by
  obtain ⟨hash, t, verdict⟩ := e
  obtain ⟨⟨act, names, keys, meanwhile, quiet, outcome⟩, complete⟩ := h
  dsimp only at act names keys outcome complete
  obtain ⟨o, st', replay, decides, after⟩ := replayAct_decides (d := d) (k := k) fin
    valid.wellFormed act ((t.rows d.toPlatform d.me).map fun row => row.account.value.toList)
  cases verdict with
  | true =>
    obtain ⟨effect, s', asks, acts, stored', passes⟩ := passesReplay_of_accepted fin act
      names keys (quiet.trans stored) outcome
    refine ⟨s', stored', acts.valid valid, (acts.oneWay valid).lastSeen, fun reached inStep => ?_⟩
    -- the program's checks cover the replay's, so it is shown as applied
    have passes := passes reached
    obtain ⟨ok, -, same⟩ | ⟨-, fails, -⟩ := decides
    · rw [← ok]
      exact inStep.act fin act hash replay
        (same.trans (after effect s' asks acts (complete s stored passes)))
    · exact absurd passes fails
  | false =>
    obtain ⟨rfl, why, refused⟩ := outcome
    refine ⟨s, quiet.trans stored, valid, Nat.le_refl _, fun _ inStep => ?_⟩
    -- shown as applied it would pass every check, and the program would accept it
    obtain ⟨-, passes, -⟩ | ⟨ok, -, same⟩ := decides
    · obtain ⟨_, accepted⟩ := accepted_of_passes valid act names keys (quiet.trans stored) passes
        (complete s stored passes)
      exact absurd (refused.symm.trans accepted) (by simp)
    · rw [← ok]
      exact inStep.act fin act hash replay same

/-- Over a whole history the replay stays in step. -/
theorem history_inStep {created : AccountId → List U8} {creation : Sent} {entries : List Entry}
    (h : Creation d k shard creation created) (few : FewBeneficiaries creation.ix) (hash : String)
    (history : Trace (Replayable d k fin) created entries shard') :
    ∃ s, shard' k = store s ∧ Valid s ∧ (s.lastSeen ≤ fin.lastSeen →
      InStep ((listing d hash creation entries).foldl (replayTx d.toPlatform d.me k fin)
        Replay.start) s (true :: entries.map (·.accepted))) := by
  refine history.invariant (fun entries shard' => ∃ s, shard' k = store s ∧ Valid s ∧
    (s.lastSeen ≤ fin.lastSeen → InStep ((listing d hash creation entries).foldl
      (replayTx d.toPlatform d.me k fin) Replay.start) s
        (true :: entries.map (·.accepted)))) ?_ ?_
  · obtain ⟨s, stored, valid, inStep⟩ := Creation.inStep fin h few hash
    exact ⟨s, stored, valid, fun _ => inStep⟩
  · rintro es mid e last ⟨s, stored, valid, inStep⟩ step
    obtain ⟨s', stored', valid', later, next⟩ := step.inStep stored valid
    refine ⟨s', stored', valid', fun reached => ?_⟩
    -- the chain's last time is no earlier at the end than now
    have before : s.lastSeen ≤ fin.lastSeen := by
      rw [BitVec.le_def] at reached ⊢
      omega
    have so_far := next reached (inStep before)
    rw [listing, List.map_append, ← List.cons_append, List.foldl_append]
    rw [List.map_append]
    exact so_far

/-! ### A sample -/

namespace Sample

open Vesting.Sample (account first)

/-- The sample batch, as its creator sends it. -/
def sentCreation : Sent where
  ix := .createScheduleBatch Vesting.Sample.batchId [account 2, account 3] .native
    Vesting.Sample.terms
  target := account 1
  handle := account 1
  signers := [account 1]

/-- A lock of its first schedule, sent by an account. -/
def lock (sender : AccountId) : Sent where
  ix := .makeNonCancelable (Vesting.batchScheduleId deployment.toPlatform Vesting.Sample.batchId 0)
  target := sender
  handle := sender
  signers := [sender]

/-- The shards after the creation, and after its creator locked the first schedule. -/
def createdShards : AccountId → List U8 :=
  deployment.settled (fun _ => []) (sentCreation.transaction deployment)

def lockedShards : AccountId → List U8 :=
  deployment.settled createdShards ((lock (account 1)).transaction deployment)

def lockedRecord : VestingSchedule :=
  { Vesting.Sample.record Vesting.Sample.escrow with cancelable := 0 }

theorem creation_created : Creation deployment first (fun _ => []) sentCreation createdShards where
  creates := id
  names := ⟨_, List.mem_cons_self, by decide +kernel⟩
  accepted := Deployment.settle_of_isOk (by decide +kernel)

theorem lock_names (sender : AccountId) : (lock sender).Names deployment first :=
  ⟨_, List.mem_cons_self, by decide +kernel⟩

/-- The creator's lock is accepted. -/
theorem included_lock : Included deployment first createdShards ⟨"lock", lock (account 1), true⟩
    lockedShards where
  act := trivial
  names := lock_names _
  keys := by decide
  outcome := ⟨createdShards, rfl, Deployment.settle_of_isOk (by decide +kernel)⟩

/-- A lock that changes nothing is refused. -/
theorem included_refused {sender : AccountId} (key : deployment.derived sender = false)
    {shard : AccountId → List U8} (hash : String)
    (refused : (deployment.settle shard ((lock sender).transaction deployment)).isOk = false) :
    Included deployment first shard ⟨hash, lock sender, false⟩ shard where
  act := trivial
  names := lock_names sender
  keys _ mem := List.mem_singleton.mp mem ▸ key
  outcome := ⟨shard, rfl, rfl, Deployment.settle_of_not_isOk refused⟩

theorem stored_created :
    createdShards first = store (Vesting.Sample.record Vesting.Sample.escrow) := by
  decide +kernel

theorem stored_locked : lockedShards first = store lockedRecord := by
  decide +kernel

theorem decode_locked : decodeSchedule (lockedShards first) = some (ofStored lockedRecord) := by
  rw [stored_locked]
  exact decodeSchedule_store (by decide)

/-- The lock passes all checks. -/
theorem replayable_lock : Replayable deployment first (ofStored lockedRecord) createdShards
    ⟨"lock", lock (account 1), true⟩ lockedShards := by
  refine ⟨included_lock, fun s stored _ => ?_⟩
  obtain rfl := Vesting.store_injective (stored.symm.trans stored_created)
  exact ⟨by decide, show (Vesting.Sample.record Vesting.Sample.escrow).cancelable ≠ 0 by decide⟩

end Sample

/-! ### The result -/

/-- What the view is sent of a replay that ends in step with the chain. -/
theorem sent_of_inStep {txs : List Tx} {accepted : List Bool}
    (h : InStep (txs.foldl (replayTx d.toPlatform d.me k (ofStored s)) Replay.start) s accepted)
    (some_ : accepted ≠ []) :
    let out := replayActivity d.toPlatform txs d.me k (ofStored s)
    verdicts out = accepted ∧ out.lookup "consistent" = some (.bool true) := by
  intro out
  have events :
      (txs.foldl (replayTx d.toPlatform d.me k (ofStored s)) Replay.start).events ≠ [] := by
    intro none
    refine some_ ?_
    rw [← h.verdicts, Replay.verdicts, none]
    rfl
  refine ⟨?_, ?_⟩
  · rw [← h.verdicts]
    exact List.map_map
  · change some (Json.bool (Replay.agrees _ _ && !List.isEmpty _)) = _
    rw [Replay.agrees, h.created, h.st]
    simp [events, replayed]

/-- The activity shows the program's verdicts. Take any history of one schedule: its accepted
creation, alone or in a batch of at most 501, and any acts on it, each accepted or refused by
the program. If every act that passes the checks the replay makes passes the program's others
too, then each event is shown as applied exactly when the program accepted its transaction, and
the replay is found consistent with the chain. -/
theorem replay_verdicts (d : Deployment) (k : AccountId)
    (before created after : AccountId → List U8) (hash : String) (creation : Sent)
    (entries : List Entry) (fin : Schedule)
    (accepted : Creation d k before creation created) (few : FewBeneficiaries creation.ix)
    (history : Trace (Replayable d k fin) created entries after)
    (final : decodeSchedule (after k) = some fin) :
    let out := replayActivity d.toPlatform (listing d hash creation entries) d.me k fin
    verdicts out = true :: entries.map (·.accepted) ∧
      out.lookup "consistent" = some (.bool true) := by
  intro out
  obtain ⟨s, stored, valid, inStep⟩ := history_inStep accepted few hash history
  rw [stored, decodeSchedule_store (kind_le_two valid.wellFormed)] at final
  obtain rfl := Option.some.inj final
  exact sent_of_inStep (inStep (BitVec.le_refl _)) (List.cons_ne_nil _ _)

/-- The sample's first schedule: a lock that account 2 sends is refused, the creator's is
accepted, and the activity says so. -/
theorem replay_verdicts_lock :
    verdicts (replayActivity Sample.deployment.toPlatform
      (listing Sample.deployment "creation" Sample.sentCreation
        [⟨"other", Sample.lock (Vesting.Sample.account 2), false⟩,
          ⟨"lock", Sample.lock (Vesting.Sample.account 1), true⟩])
      Sample.deployment.me Vesting.Sample.first (ofStored Sample.lockedRecord)) =
        [true, false, true] := by
  have refused : Replayable Sample.deployment Vesting.Sample.first (ofStored Sample.lockedRecord)
      Sample.createdShards ⟨"other", Sample.lock (Vesting.Sample.account 2), false⟩
      Sample.createdShards := by
    refine ⟨Sample.included_refused (by decide) "other" (by decide +kernel), ?_⟩
    intro s stored passes
    obtain rfl := Vesting.store_injective (stored.symm.trans Sample.stored_created)
    have signer : signerOf Sample.deployment Vesting.Sample.first
        (Sample.lock (Vesting.Sample.account 2)) = some (Vesting.Sample.account 1) := passes
    exact absurd signer (by decide +kernel)
  exact (replay_verdicts Sample.deployment Vesting.Sample.first (fun _ => []) Sample.createdShards
    Sample.lockedShards "creation" Sample.sentCreation _ _ Sample.creation_created
    (show 2 ≤ kBatchMax + 1 by decide) ((Trace.start.next refused).next Sample.replayable_lock)
    Sample.decode_locked).1

/-- The creator locks the sample's first schedule twice. The program refuses the second lock, the
activity shows it as applied, and says that all of it matches what the chain holds. -/
theorem replay_shows_refused_lock :
    Creation Sample.deployment Vesting.Sample.first (fun _ => []) Sample.sentCreation
        Sample.createdShards ∧
      Trace (Included Sample.deployment Vesting.Sample.first) Sample.createdShards
        [⟨"lock", Sample.lock (Vesting.Sample.account 1), true⟩,
          ⟨"again", Sample.lock (Vesting.Sample.account 1), false⟩] Sample.lockedShards ∧
      decodeSchedule (Sample.lockedShards Vesting.Sample.first) =
        some (ofStored Sample.lockedRecord) ∧
      let out := replayActivity Sample.deployment.toPlatform
        (listing Sample.deployment "creation" Sample.sentCreation
          [⟨"lock", Sample.lock (Vesting.Sample.account 1), true⟩,
            ⟨"again", Sample.lock (Vesting.Sample.account 1), false⟩])
        Sample.deployment.me Vesting.Sample.first (ofStored Sample.lockedRecord)
      verdicts out = [true, true, true] ∧ out.lookup "consistent" = some (.bool true) := by
  refine ⟨Sample.creation_created, (Trace.start.next Sample.included_lock).next
    (Sample.included_refused (by decide) "again" (by decide +kernel)), Sample.decode_locked, ?_⟩
  -- in step up to the first lock
  obtain ⟨s, stored, valid, inStep⟩ := Creation.inStep (ofStored Sample.lockedRecord)
    Sample.creation_created (show 2 ≤ kBatchMax + 1 by decide) "creation"
  obtain ⟨s', stored', -, -, next⟩ := Sample.replayable_lock.inStep stored valid
  obtain rfl := Vesting.store_injective (stored'.symm.trans Sample.stored_locked)
  have locked := next (BitVec.le_refl _) inStep
  -- the replay asks only who sent the second one
  have signer : signerOf Sample.deployment Vesting.Sample.first
      (Sample.lock (Vesting.Sample.account 1)) = some (Vesting.Sample.account 1) := by
    decide +kernel
  obtain ⟨ok, -, after⟩ | ⟨-, fails, -⟩ := replayLock_decides (s := Sample.lockedRecord)
    (signerOf Sample.deployment Vesting.Sample.first (Sample.lock (Vesting.Sample.account 1)))
  · have again := locked.act (t := Sample.lock (Vesting.Sample.account 1))
      (ofStored Sample.lockedRecord) trivial "again" rfl after
    rw [ok] at again
    exact sent_of_inStep again (by simp)
  · exact absurd signer fails

end App

end Antumbra
