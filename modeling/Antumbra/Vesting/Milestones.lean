/-
# Milestone bitmaps

The library pays the tranches whose milestones were signalled, the program the signalled
fraction of the total. Both keep the signals as the bits of one word. As long as the
tranches fit the word, signals in any order leave exactly the bits of the tranches they
named, so the first is a sum over these and the second a count of them. Only the library's
constructor lets a longer list through.
-/

import Antumbra.Vesting.Latest
import Antumbra.Vesting.Life

namespace Antumbra

open Antumbra.Math

namespace Schedule

/-! ### Signals on a library schedule -/

/-- The schedule after signals of the milestones `indices`, accepted or refused; `none` once
one of them stopped the program. -/
def afterSignals (s : Schedule) (indices : List U32) : Option Schedule :=
  indices.foldlM (fun s index => (s.signalMilestone index).map Prod.snd) s

/-- The sum of the tranches whose index, counted from `i`, is among `indices`. -/
def namedTotal (indices : List U32) (i : ℕ) (tranches : List U128) : ℕ :=
  (((tranches.zipIdx i).filter fun (_, j) => indices.any (·.toNat = j)).map
    fun (amount, _) => amount.toNat).sum

/-- After any signals in any order, a schedule has vested exactly the tranches they named. -/
structure PaysSignalled (s : Schedule) : Prop where
  vested : ∀ indices, ∃ after, s.afterSignals indices = some after ∧
    ∀ t, ∃ v, after.vestedAt t = some v ∧ v.toNat = namedTotal indices 0 s.tranches ∧
      v ≤ s.total ∧ (v = s.total ↔ ∀ i < s.tranches.length, ∃ index ∈ indices, index.toNat = i)
  /-- A repeated signal and one of no tranche are refused and change nothing. -/
  refused : ∀ indices after, s.afterSignals indices = some after →
    ∀ index : U32, index ∈ indices ∨ s.tranches.length ≤ index.toNat →
      ∃ e, after.signalMilestone index = some (.error e, after)

/-- The signalled part is the named part, where the bits are the named indices. -/
theorem signalledFrom_eq_namedTotal {x : U64} {indices : List U32} {i : ℕ} {tranches : List U128}
    (bits : ∀ j, i ≤ j → j < i + tranches.length →
      (x.getLsbD j = true ↔ ∃ index ∈ indices, index.toNat = j)) :
    signalledFrom x i tranches = namedTotal indices i tranches := by
  induction tranches generalizing i with
  | nil => rfl
  | cons amount tranches ih =>
    rw [List.length_cons] at bits
    have rest := ih (i := i + 1) fun j above below => bits j (by omega) (by omega)
    have here := bits i (Nat.le_refl i) (by omega)
    have named : indices.any (fun index => index.toNat = i) = true ↔ x.getLsbD i = true := by
      rw [here, List.any_eq_true]
      simp only [decide_eq_true_eq]
    rw [signalledFrom, rest, namedTotal, namedTotal, List.zipIdx_cons, List.filter_cons]
    by_cases set : x.getLsbD i = true
    · rw [if_pos set, if_pos (named.mpr set), List.map_cons, List.sum_cons]
    · rw [if_neg set, if_neg fun all => set (named.mp all), Nat.zero_add]

/-- With no tranche zero, everything is earned only once every bit is set. -/
theorem all_set_of_signalledFrom {x : U64} {i : ℕ} {tranches : List U128}
    (nonzero : ∀ t ∈ tranches, t ≠ 0)
    (whole : signalledFrom x i tranches = (tranches.map BitVec.toNat).sum) :
    ∀ j, i ≤ j → j < i + tranches.length → x.getLsbD j = true := by
  induction tranches generalizing i with
  | nil =>
    intro j above below
    rw [List.length_nil] at below
    omega
  | cons t tranches ih =>
    have le := signalledFrom_le x (i + 1) tranches
    have pos := toNat_pos_iff.mp (nonzero t List.mem_cons_self)
    rw [signalledFrom, List.map_cons, List.sum_cons] at whole
    intro j above below
    rw [List.length_cons] at below
    -- a tranche left out is missing from the sum, since the others cannot make up for it
    by_cases set : x.getLsbD i = true
    · rw [if_pos set] at whole
      rcases Nat.eq_or_lt_of_le above with rfl | later
      · exact set
      · exact @ih (i + 1) (fun u mem => nonzero u (List.mem_cons_of_mem t mem)) (by omega) j later
          (by omega)
    · rw [if_neg set] at whole
      omega

/-- Signals on a sound schedule answer, and change only the bits. -/
theorem Sound.afterSignals_eq {s : Schedule} (h : s.Sound) (indices : List U32) :
    s.afterSignals indices =
      some { s with signalled := indices.foldl s.signalledAfter s.signalled } := by
  induction indices generalizing s with
  | nil => rfl
  | cons index indices ih =>
    obtain ⟨answer, signalled⟩ := exists_signalMilestone h index
    have next := h.update s.claimed s.cancelable (s.signalledAfter s.signalled index)
      s.cancelledAt
    rw [afterSignals, List.foldlM_cons, signalled]
    exact ih next

/-- What an accepted list of tranches is: not empty, no tranche zero. -/
theorem tranches_of_milestone {tranches : List U128} {s : Schedule}
    (accepted : milestone tranches = .ok s) : tranches ≠ [] ∧ ∀ t ∈ tranches, t ≠ 0 := by
  unfold milestone at accepted
  split_ifs at accepted with degenerate
  rw [not_or] at degenerate
  obtain ⟨total, summed, -⟩ := bind_eq_ok_iff.mp accepted
  exact ⟨degenerate.1, (sum_of_foldlM summed).2⟩

/-- A signal whose bit is set is refused and changes nothing. -/
theorem signalMilestone_repeated {s : Schedule} {index : U32} (kind : s.kind = .milestone)
    (live : s.cancelledAt = none) (inside : index.toNat < s.tranches.length)
    (count : s.tranches.length ≤ MAX_MILESTONES) (set : s.signalled.getLsbD index.toNat = true) :
    s.signalMilestone index = some (.error .slippageExceeded, s) := by
  have fits : index.toNat < 64 := Nat.lt_of_lt_of_le inside count
  rw [signalMilestone, if_neg (not_not.mpr kind), if_neg (by rw [live]; decide),
    List.getElem?_eq_getElem inside]
  simp only [if_neg (Nat.not_le.mpr fits), ne_eq, and_bitAt_eq_zero_iff fits]
  rw [if_pos (by rw [set]; decide)]

/-- An accepted list within the bitmap pays exactly what is signalled. -/
theorem paysSignalled_of_fits {tranches : List U128} {s : Schedule}
    (accepted : milestone tranches = .ok s) (fits : tranches.length ≤ MAX_MILESTONES) :
    s.PaysSignalled := by
  obtain ⟨shape, -, total⟩ := eq_of_milestone accepted
  obtain ⟨-, nonzero⟩ := tranches_of_milestone accepted
  have kind : s.kind = .milestone := by rw [shape]; rfl
  have live : s.cancelledAt = none := by rw [shape]; rfl
  have clear : s.signalled = 0 := by rw [shape]; rfl
  have same : s.tranches = tranches := by rw [shape]; rfl
  rw [← same] at fits nonzero total
  have sound : s.Sound := .milestone kind fits total
  have bits (indices : List U32) (j : ℕ) :
      (indices.foldl s.signalledAfter s.signalled).getLsbD j = true ↔
        j < s.tranches.length ∧ ∃ index ∈ indices, index.toNat = j := by
    rw [getLsbD_signalled kind live fits, clear]
    simp
  constructor
  · intro indices
    let x := indices.foldl s.signalledAfter s.signalled
    refine ⟨_, sound.afterSignals_eq indices, fun t => ?_⟩
    obtain ⟨v, computed, value⟩ := exists_vestedAt
      (sound.update s.claimed s.cancelable x s.cancelledAt) t
    have earned : _ = signalledFrom x 0 s.tranches := earned_of_milestone kind x t.toNat
    rw [earned] at value
    have named : signalledFrom x 0 s.tranches = namedTotal indices 0 s.tranches := by
      refine signalledFrom_eq_namedTotal fun j _ below => ?_
      rw [Nat.zero_add] at below
      exact (bits indices j).trans (and_iff_right below)
    have le := signalledFrom_le x 0 s.tranches
    refine ⟨v, computed, value.trans named, ?_, ?_⟩
    · rw [BitVec.le_def, value, ← total]
      exact le
    · rw [← BitVec.toNat_inj, value, ← total]
      constructor
      · intro whole i below
        have set := all_set_of_signalledFrom nonzero whole i (Nat.zero_le i) (by omega)
        exact ((bits indices i).mp set).2
      · intro all
        refine signalledFrom_eq_sum fun j _ below => ?_
        rw [Nat.zero_add] at below
        exact (bits indices j).mpr ⟨below, all j below⟩
  · intro indices after ran index repeated
    rw [sound.afterSignals_eq indices, Option.some_inj] at ran
    subst ran
    by_cases inside : index.toNat < s.tranches.length
    · have mem : index ∈ indices := repeated.resolve_right (Nat.not_le.mpr inside)
      have set := (bits indices index.toNat).mpr ⟨inside, index, mem, rfl⟩
      exact ⟨_, signalMilestone_repeated (s := { s with signalled := _ }) kind live inside fits set⟩
    · exact signalMilestone_refused fun all => inside all.2.2

/-- Of the accepted lists exactly those within the bitmap pay what is signalled: on a longer
one nothing is ever answered. -/
theorem paysSignalled_iff {tranches : List U128} {s : Schedule}
    (accepted : milestone tranches = .ok s) :
    s.PaysSignalled ↔ tranches.length ≤ MAX_MILESTONES := by
  refine ⟨fun pays => ?_, paysSignalled_of_fits accepted⟩
  by_contra beyond
  rw [Nat.not_le] at beyond
  have shape := (eq_of_milestone accepted).1
  have kind : s.kind = .milestone := by rw [shape]; rfl
  have same : s.tranches = tranches := by rw [shape]; rfl
  rw [← same] at beyond
  -- even with nothing signalled, reading the schedule stops the program
  obtain ⟨after, ran, vested⟩ := pays.vested []
  cases ran
  obtain ⟨v, computed, -⟩ := vested 0
  rw [vestedAt_beyond kind beyond 0] at computed
  cases computed

end Schedule

namespace Vesting

/-! ### Signals on a stored schedule -/

/-- The signals an effect makes. -/
def Effect.signals : Effect → ℕ
  | .signalMilestone _ _ => 1
  | _ => 0

/-- The number of accepted signals among the effects of a run. -/
def signalsAccepted (bytes : List U8) : List Effect → ℕ
  | [] => 0
  | effect :: run =>
    (match apply effect bytes with
      | .ok _ => effect.signals
      | .error _ => 0) + signalsAccepted (applied bytes effect) run

/-- The bytes hold a record with `n` milestones signalled, or none and nothing was. -/
def HoldsSignals (bytes : List U8) (n : ℕ) : Prop :=
  bytes = [] ∧ n = 0 ∨ ∃ s, bytes = store s ∧ countOnes s.signalled = n

variable {s s' : VestingSchedule}

/-- Every accepted signal sets one bit that was clear, and nothing else touches the bits. -/
theorem HoldsSignals.run {run : List Effect} (genuine : ∀ e ∈ run, e.Genuine) {bytes : List U8}
    {n : ℕ} (h : HoldsSignals bytes n) :
    HoldsSignals (run.foldl applied bytes) (n + signalsAccepted bytes run) := by
  induction run generalizing bytes n with
  | nil => exact h
  | cons effect run ih =>
    have rest : ∀ e ∈ run, e.Genuine := fun e he => genuine e (List.mem_cons_of_mem effect he)
    rw [List.foldl_cons, signalsAccepted, ← Nat.add_assoc]
    refine ih rest ?_
    cases outcome : apply effect bytes with
    | error why =>
      rw [applied, outcome]
      exact h
    | ok post =>
      rcases apply_eq_ok_iff.mp outcome with ⟨s, rfl, rfl, rfl⟩ | ⟨s, s', rfl, acts, rfl⟩
      · obtain ⟨creator, escrow, beneficiary, asset, terms, built⟩ :=
          genuine _ List.mem_cons_self s rfl
        have none : n = 0 := by
          rcases h with ⟨-, zero⟩ | ⟨s', stored, -⟩
          · exact zero
          · exact absurd stored.symm (store_ne_nil s')
        rw [applied, outcome, none]
        refine .inr ⟨s, rfl, ?_⟩
        rw [(newState_eq_ok built).1]
        exact countOnes_zero
      · have count : countOnes s.signalled = n := by
          rcases h with ⟨empty, -⟩ | ⟨s₀, stored, count⟩
          · exact absurd empty (store_ne_nil s)
          · rw [store_injective stored]
            exact count
        rw [applied, outcome]
        refine .inr ⟨s', rfl, ?_⟩
        cases acts with
        | claim => exact count
        | cancel => exact count
        | makeNonCancelable => exact count
        | transferBeneficiary => exact count
        | signalMilestone _ _ _ index_lt clear =>
          exact (countOnes_or_bitAt (index_lt_64 index_lt).1 clear).trans
            (congrArg (· + 1) count)

/-- A stored record has as many milestones signalled as signals were accepted. -/
theorem countOnes_of_run {run : List Effect} (genuine : ∀ e ∈ run, e.Genuine)
    (stored : run.foldl applied [] = store s) : countOnes s.signalled = signalsAccepted [] run := by
  have holds := HoldsSignals.run genuine (.inl ⟨rfl, rfl⟩ : HoldsSignals [] 0)
  rw [stored, Nat.zero_add] at holds
  rcases holds with ⟨empty, -⟩ | ⟨s', same, count⟩
  · exact absurd empty (store_ne_nil s)
  · rw [store_injective same]
    exact count

/-- A milestone record's arithmetic at any time: the signalled fraction of the total. -/
theorem vested_of_milestones (h : s.WellFormed) (kind : s.kind = 2) (t : U64) :
    ∃ v, vested s t = .ok v ∧
      v.toNat = s.total.toNat * countOnes s.signalled / s.tranches.toNat := by
  obtain ⟨v, computed, value⟩ := exists_vested h t
  rw [← s.base_readTime, s.base_of_milestones kind] at value
  exact ⟨v, computed, value⟩

/-- A fraction of a positive total is the total exactly when it is the whole. -/
theorem fraction_eq_iff {total k n : ℕ} (positive : 0 < total) (hn : 0 < n) (le : k ≤ n) :
    total * k / n = total ↔ k = n := by
  constructor
  · intro whole
    by_contra part
    have missing : total * k + total ≤ total * n := by
      rw [← Nat.mul_succ]
      exact Nat.mul_le_mul_left total (by omega)
    have short : total * k / n < total := by
      rw [Nat.div_lt_iff_lt_mul hn]
      omega
    omega
  · rintro rfl
    exact Nat.mul_div_cancel total hn

/-- A later record of a milestone schedule has vested no less, at whatever times the two
are read. -/
theorem OneWay.vested_le (h : OneWay s s') (valid : Valid s) (valid' : Valid s') (kind : s.kind = 2)
    {t t' : U64} {v v' : U128} (before : vested s t = .ok v) (after : vested s' t' = .ok v') :
    v ≤ v' := by
  have terms := h.fixed
  simp only [VestingSchedule.fixed, Prod.mk.injEq] at terms
  obtain ⟨kind', -, -, -, total, -, -, -, tranches, -⟩ := terms
  obtain ⟨_, computed, value⟩ := vested_of_milestones valid.wellFormed kind t
  obtain ⟨_, computed', value'⟩ := vested_of_milestones valid'.wellFormed (kind'.trans kind) t'
  cases before.symm.trans computed
  cases after.symm.trans computed'
  rw [BitVec.le_def, value, value', total, tranches]
  exact Nat.div_le_div_right (Nat.mul_le_mul_left _ (countOnes_mono h.gains))

/-- The two forms of a milestone schedule. In the library, an accepted list of tranches is
not empty, and signals pay exactly what they name if and only if it fits the bitmap. In the
program, a reachable milestone record has always vested the floored fraction of its total
that the number of accepted signals is of its tranches, whichever these were and in whatever
order; no effect lowers it, and it is the total exactly when every milestone is signalled. -/
theorem milestone_bitmaps (tranches : List U128) (position : Schedule) (run more : List Effect)
    (s : VestingSchedule) :
    (Schedule.milestone tranches = .ok position →
      1 ≤ tranches.length ∧ (position.PaysSignalled ↔ tranches.length ≤ MAX_MILESTONES)) ∧
    ((∀ e ∈ run ++ more, e.Genuine) → run.foldl applied [] = store s → s.kind = 2 →
      (∀ t, ∃ v, vested s t = .ok v ∧
        v.toNat = s.total.toNat * countOnes s.signalled / s.tranches.toNat ∧
        (v = s.total ↔ ∀ i < s.tranches.toNat, s.signalled.getLsbD i = true)) ∧
      countOnes s.signalled = signalsAccepted [] run ∧
      (∀ (run' : List Effect) (s' : VestingSchedule), (∀ e ∈ run', e.Genuine) →
        run'.foldl applied [] = store s' → s'.kind = 2 → s'.total = s.total →
        s'.tranches = s.tranches → signalsAccepted [] run' = signalsAccepted [] run →
        ∀ t t', vested s' t' = vested s t) ∧
      ∀ s', more.foldl applied (store s) = store s' →
        ∀ t t' v v', vested s t = .ok v → vested s' t' = .ok v' → v ≤ v') := by
  constructor
  · intro accepted
    exact ⟨List.length_pos_of_ne_nil (Schedule.tranches_of_milestone accepted).1,
      Schedule.paysSignalled_iff accepted⟩
  intro genuine stored kind
  have early : ∀ e ∈ run, e.Genuine := fun e he => genuine e (List.mem_append_left more he)
  have valid := valid_of_run early (.inl rfl) stored
  have count := countOnes_of_run early stored
  refine ⟨fun t => ?_, count, ?_, ?_⟩
  · obtain ⟨v, computed, value⟩ := vested_of_milestones valid.wellFormed kind t
    refine ⟨v, computed, value, ?_⟩
    cases valid.wellFormed with
    | cliffLinear timed => exact absurd (timed.symm.trans kind) (by decide)
    | linear timed => exact absurd (timed.symm.trans kind) (by decide)
    | milestones _ total some_tranches _ clear =>
      have some : 0 < s.tranches.toNat := by
        rw [Nat.pos_iff_ne_zero]
        exact fun none => some_tranches (word_ext none)
      rw [← BitVec.toNat_inj, value,
        fraction_eq_iff (toNat_pos_iff.mp total) some (countOnes_le clear)]
      exact countOnes_eq_iff clear
  · intro run' s' early' stored' kind' total tranches same t t'
    have valid' := valid_of_run early' (.inl rfl) stored'
    obtain ⟨v, computed, value⟩ := vested_of_milestones valid.wellFormed kind t
    obtain ⟨v', computed', value'⟩ := vested_of_milestones valid'.wellFormed kind' t'
    have equal : v' = v := by
      refine word_ext ?_
      rw [value, value', count, countOnes_of_run early' stored', total, tranches, same]
    rw [computed, computed', equal]
  · intro s' later t t' v v' before after
    have rest : ∀ e ∈ more, e.Genuine := fun e he => genuine e (List.mem_append_right run he)
    obtain ⟨s'', stored'', oneWay⟩ := oneWay_run rest valid
    cases store_injective (later.symm.trans stored'')
    have valid' := valid_of_run rest (.inr ⟨s, rfl, valid⟩) later
    exact oneWay.vested_le valid valid' kind before after

namespace Sample

/-- 600 units in three milestones. -/
def milestones : VestingSchedule :=
  initialState (account 1) (account 4) (account 2) .native
    { terms with kind := 2, tranches := 3 }

theorem newState_milestones :
    newState (account 1) (account 4) (account 2) .native { terms with kind := 2, tranches := 3 } =
      .ok milestones := by
  decide +kernel

end Sample

/-- Two tranches on a library schedule, and a stored one before and after a signal. -/
theorem milestone_bitmaps_sample :
    (Schedule.created .milestone 0 0 0 30 [10, 20]).PaysSignalled ∧
      countOnes Sample.milestones.signalled =
        signalsAccepted [] [.create Sample.milestones] ∧
      ∀ t t' v v', vested Sample.milestones t = .ok v →
        vested { Sample.milestones with signalled := 1 } t' = .ok v' → v ≤ v' := by
  obtain ⟨library, program⟩ := milestone_bitmaps [10, 20] _ [.create Sample.milestones]
    [.signalMilestone (Sample.account 1) 0] Sample.milestones
  have pays := (library (by rfl)).2.mpr (by decide)
  have genuine : ∀ e ∈ [Effect.create Sample.milestones] ++
      [.signalMilestone (Sample.account 1) 0], e.Genuine :=
    genuine_create Sample.newState_milestones (by simp)
  obtain ⟨-, count, -, grows⟩ := program genuine rfl rfl
  refine ⟨pays, count, grows _ ?_⟩
  have acts : Acts (.signalMilestone (Sample.account 1) 0) Sample.milestones
      { Sample.milestones with signalled := 1 } :=
    .signalMilestone rfl rfl rfl (by decide) (by decide)
  rw [List.foldl_cons, List.foldl_nil, applied, apply_eq_ok_iff.mpr (.inr ⟨_, _, rfl, acts, rfl⟩)]

end Vesting

namespace Schedule

/-- `2 ^ 32 + 1` tranches of one unit are accepted, and vest nothing that can be read. -/
theorem long_milestone_unreadable :
    ∃ s, milestone (List.replicate (2 ^ 32 + 1) 1) = .ok s ∧ (∀ now, s.vestedAt now = none) ∧
      ¬ s.PaysSignalled := by
  have accepted := @milestone_replicate (2 ^ 32 + 1) (by omega) (by unfold MAX_MILESTONES; omega)
    (by omega)
  have beyond : MAX_MILESTONES < (List.replicate (2 ^ 32 + 1) (1 : U128)).length := by
    rw [List.length_replicate]
    unfold MAX_MILESTONES
    omega
  exact ⟨_, accepted, vestedAt_beyond rfl beyond,
    fun pays => Nat.not_le.mpr beyond ((paysSignalled_iff accepted).mp pays)⟩

end Schedule

end Antumbra
