/-
# Sending and resending

A client signs an instruction with the payer's nonce as the chain has it, looks for every
attempt it has sent, and signs it again when none is found in time. Meanwhile the chain
executes what carries its current nonce. Two attempts share a nonce, and so cannot both be
executed, unless the first one was executed before the second was signed.
-/

import Antumbra.Vesting.Chain

namespace Antumbra

open Antumbra.Math

namespace Cli

open Vesting (Deployment Transaction Instruction scheduleAccount batchScheduleId)

/-- The schedule whose bytes a command reads before and after. -/
def watched (p : Vesting.Platform) : Instruction → Bytes 32
  | .createSchedule scheduleId _ _ _ => scheduleId
  | .createScheduleBatch batchId _ _ _ => batchScheduleId p batchId 0
  | .claim scheduleId _ _ _ _ => scheduleId
  | .cancel scheduleId _ _ _ _ => scheduleId
  | .makeNonCancelable scheduleId => scheduleId
  | .transferBeneficiary scheduleId _ => scheduleId
  | .signalMilestone scheduleId _ => scheduleId

/-- What a client is to send, and how often: three times, a private claim once. -/
structure Job where
  chain : Deployment
  tx : Transaction
  limit : ℕ

def Job.account (j : Job) : AccountId :=
  scheduleAccount j.chain.toPlatform j.chain.me (watched j.chain.toPlatform j.tx.ix)

inductive Verdict
  | applied
  | reverted
  | notIncluded
  | rejected
  deriving DecidableEq, Repr

/-- An attempt that was executed, and whether the program accepted it. -/
structure Execution where
  attempt : ℕ
  accepted : Bool
  deriving DecidableEq, Repr

/-- Where the client stands. -/
inductive Phase
  /-- About to sign the `n`-th attempt. -/
  | sending (n : ℕ)
  /-- After the `n`-th, waiting for the attempt with index `i`. -/
  | polling (n i : ℕ)
  /-- The last poll is over, and this is what had been executed by then. -/
  | reading (found : Bool) (polled : List Execution)
  | done (verdict : Verdict) (polled : List Execution)
  deriving DecidableEq, Repr

/-- The client and the chain as far as they meet. -/
structure Session where
  before : List U8
  phase : Phase
  /-- The nonce of every attempt sent. -/
  attempts : List ℕ
  /-- The payer's nonce as the chain has it. -/
  nonce : ℕ
  shard : AccountId → List U8
  executions : List Execution

inductive Event
  | sent
  | unsent
  | found
  | missed
  | read
  | executed (i : ℕ)
  | foreign (tx : Transaction)
  | other

/-- Where a poll that finds nothing leads: to the next attempt sent, to another attempt, or to
the end. -/
def Job.afterMiss (j : Job) (s : Session) (n i : ℕ) : Phase :=
  if i + 1 < s.attempts.length then
    .polling n (i + 1)
  else if n < j.limit then
    .sending (n + 1)
  else
    .reading false s.executions

/-- What the client says. -/
def reportFound (found : Bool) (before after : List U8) : Verdict :=
  match found with
  | false => .notIncluded
  | true => if after ≠ before then .applied else .reverted

/-- What can happen next. -/
inductive Job.Step (j : Job) : Session → Event → Session → Prop
  | sent {s : Session} {n : ℕ} (phase : s.phase = .sending n) :
      Step j s .sent { s with attempts := s.attempts ++ [s.nonce], phase := .polling n 0 }
  /-- Without an attempt to look for the client reports the failure. -/
  | rejected {s : Session} {n : ℕ} (phase : s.phase = .sending n) (first : s.attempts = []) :
      Step j s .unsent { s with phase := .done .rejected s.executions }
  | unsent {s : Session} {n : ℕ} (phase : s.phase = .sending n) (later : s.attempts ≠ []) :
      Step j s .unsent { s with phase := .polling n 0 }
  | found {s : Session} {n i : ℕ} {e : Execution} (phase : s.phase = .polling n i)
      (mem : e ∈ s.executions) (here : e.attempt = i) :
      Step j s .found { s with phase := .reading true s.executions }
  | missed {s : Session} {n i : ℕ} (phase : s.phase = .polling n i) :
      Step j s .missed { s with phase := j.afterMiss s n i }
  | read {s : Session} {found : Bool} {polled : List Execution}
      (phase : s.phase = .reading found polled) :
      Step j s .read
        { s with phase := .done (reportFound found s.before (s.shard j.account)) polled }
  /-- The chain executes any attempt with its current nonce, and counts the nonce up. -/
  | executed {s : Session} {i : ℕ} (current : s.attempts[i]? = some s.nonce) :
      Step j s (.executed i)
        { s with
          nonce := s.nonce + 1
          shard := j.chain.settled s.shard j.tx
          executions := s.executions ++ [⟨i, (j.chain.settle s.shard j.tx).isOk⟩] }
  | foreign {s : Session} (tx : Transaction) :
      Step j s (.foreign tx) { s with shard := j.chain.settled s.shard tx }
  /-- Another transaction of the payer. -/
  | other {s : Session} : Step j s .other { s with nonce := s.nonce + 1 }

/-- Nothing sent yet, and the watched bytes just read. -/
structure Job.Starts (j : Job) (s : Session) : Prop where
  phase : s.phase = .sending 1
  attempts : s.attempts = []
  executions : s.executions = []
  before : s.before = s.shard j.account

/-- A step taken under a condition. -/
def Job.Next (j : Job) (ok : Session → Event → Prop) (s t : Session) : Prop :=
  ∃ e, ok s e ∧ j.Step s e t

variable {j : Job} {s t : Session} {e : Event} {ok : Session → Event → Prop}

theorem Job.next (run : Reachable j.Starts (j.Next ok) s) (step : j.Step s e t)
    (meets : ok s e) : Reachable j.Starts (j.Next ok) t :=
  run.next ⟨e, meets, step⟩

/-! ### At most one execution -/

/-- Another attempt is signed only while none has been executed. -/
def Timely (s : Session) : Event → Prop
  | .sent => s.executions = []
  | _ => True

/-- No attempt is ahead of the chain, and once one was executed all are behind it. -/
structure Session.Sound (s : Session) : Prop where
  signed : ∀ n ∈ s.attempts, n ≤ s.nonce
  spent : s.executions ≠ [] → ∀ n ∈ s.attempts, n < s.nonce
  once : s.executions.length ≤ 1
  sent : ∀ e ∈ s.executions, e.attempt < s.attempts.length

theorem Job.Starts.sound (start : j.Starts s) : s.Sound where
  signed _ mem := absurd mem (start.attempts ▸ List.not_mem_nil)
  spent some := absurd start.executions some
  once := start.executions ▸ Nat.zero_le 1
  sent _ mem := absurd mem (start.executions ▸ List.not_mem_nil)

/-- What the chain executes is the first of the attempts. -/
theorem Session.Sound.executions_eq_nil {i : ℕ} (sound : s.Sound)
    (current : s.attempts[i]? = some s.nonce) : s.executions = [] := by
  by_contra some
  exact absurd (sound.spent some _ (List.mem_of_getElem? current)) (Nat.lt_irrefl _)

theorem Job.Step.sound (step : j.Step s e t) (timely : Timely s e) (sound : s.Sound) :
    t.Sound := by
  obtain ⟨signed, spent, once, sent⟩ := sound
  cases step with
  | sent phase =>
    -- the new attempt carries the chain's nonce, and nothing was executed yet
    refine ⟨fun n mem => ?_, fun some => absurd timely some, once, fun e mem => ?_⟩
    · rcases List.mem_append.mp mem with old | new
      · exact signed n old
      · exact Nat.le_of_eq (List.mem_singleton.mp new)
    · exact Nat.lt_of_lt_of_le (sent e mem) (by rw [List.length_append]; omega)
  | rejected phase first => exact ⟨signed, spent, once, sent⟩
  | unsent phase later => exact ⟨signed, spent, once, sent⟩
  | found phase mem here => exact ⟨signed, spent, once, sent⟩
  | missed phase => exact ⟨signed, spent, once, sent⟩
  | read phase => exact ⟨signed, spent, once, sent⟩
  | executed current =>
    have none := Session.Sound.executions_eq_nil ⟨signed, spent, once, sent⟩ current
    refine ⟨fun n mem => Nat.le_succ_of_le (signed n mem),
      fun _ n mem => Nat.lt_succ_of_le (signed n mem), ?_, fun e mem => ?_⟩
    · rw [none, List.nil_append, List.length_singleton]
    · rw [none, List.nil_append, List.mem_singleton] at mem
      rw [mem]
      exact (List.getElem?_eq_some_iff.mp current).1
  | foreign tx => exact ⟨signed, spent, once, sent⟩
  | other =>
    exact ⟨fun n mem => Nat.le_succ_of_le (signed n mem),
      fun some n mem => Nat.lt_succ_of_lt (spent some n mem), once, sent⟩

/-- Where no attempt is signed after an earlier one was executed, at most one is executed. -/
theorem Job.executed_once (j : Job)
    (run : Reachable j.Starts (j.Next Timely) s) : s.executions.length ≤ 1 := by
  have sound : s.Sound := by
    refine Reachable.invariant Session.Sound (fun s start => start.sound) ?_ run
    rintro s t - sound ⟨e, timely, step⟩
    exact step.sound timely sound
  exact sound.once

/-! ### A sample -/

namespace Sample

open Vesting.Sample (account batchId deployment)

/-- A third of what the first beneficiary can claim. -/
def partialClaim : Job where
  chain := deployment
  tx := deployment.claimTransaction (batchScheduleId deployment.toPlatform batchId 0) (some batchId)
    .native 100 1700000900000 (account 4) (account 2)
  limit := 3

/-- A job just begun on the sample chain. -/
def opened (j : Job) : Session where
  before := Vesting.Sample.chain.shard j.account
  phase := .sending 1
  attempts := []
  nonce := 0
  shard := Vesting.Sample.chain.shard
  executions := []

theorem starts_opened (j : Job) (ok : Session → Event → Prop) :
    Reachable j.Starts (j.Next ok) (opened j) :=
  .start ⟨rfl, rfl, rfl, rfl⟩

end Sample

open Sample

/-- The claim is sent, missed and sent again, and then the first attempt is executed. -/
theorem executed_once_sample : ∃ s, Reachable partialClaim.Starts (partialClaim.Next Timely) s ∧
    s.executions = [⟨0, true⟩] ∧ s.executions.length ≤ 1 := by
  have sent := Job.next (starts_opened partialClaim Timely) (.sent rfl) rfl
  have missed := Job.next sent (.missed rfl) trivial
  have again := Job.next missed (.sent rfl) rfl
  have first := Job.next again (@Job.Step.executed _ _ 0 rfl) trivial
  exact ⟨_, first, by decide +kernel, partialClaim.executed_once first⟩

/-- The first attempt is executed after the poll that missed it and before the second is signed:
the chain executes both, and the program pays the claim twice. -/
theorem claim_executed_twice : ∃ s,
    Reachable partialClaim.Starts (partialClaim.Next fun _ _ => True) s ∧
      s.executions = [⟨0, true⟩, ⟨1, true⟩] ∧ ¬ s.executions.length ≤ 1 := by
  have sent := Job.next (starts_opened partialClaim fun _ _ => True) (.sent rfl) trivial
  have missed := Job.next sent (.missed rfl) trivial
  have first := Job.next missed (@Job.Step.executed _ _ 0 rfl) trivial
  have again := Job.next first (.sent rfl) trivial
  have second := Job.next again (@Job.Step.executed _ _ 1 rfl) trivial
  exact ⟨_, second, by decide +kernel, by decide +kernel⟩

end Cli

end Antumbra
