/-
# What a history adds up to

The entries of a history move amounts into a store and out of it. When every step
balances, so does the run. A share kept of each payout, rounded up, comes over the whole
run to the share of everything paid out, up to a unit for each payout after the first.
-/

import Antumbra.Math.Rounding
import Antumbra.Math.Runs

namespace Antumbra.Math

variable {σ ε : Type*} {step : σ → ε → σ → Prop} {s t : σ} {es fs : List ε} {e : ε}

/-- The sum of an amount over a history. -/
def flow (amount : ε → ℕ) (es : List ε) : ℕ := (es.map amount).sum

@[simp] theorem flow_nil (amount : ε → ℕ) : flow amount [] = 0 := rfl

@[simp] theorem flow_append (amount : ε → ℕ) (es fs : List ε) :
    flow amount (es ++ fs) = flow amount es + flow amount fs := by
  simp [flow]

@[simp] theorem flow_singleton (amount : ε → ℕ) (e : ε) : flow amount [e] = amount e := by
  simp [flow]

theorem flow_add (amount amount' : ε → ℕ) (es : List ε) :
    flow (fun e => amount e + amount' e) es = flow amount es + flow amount' es := by
  induction es with
  | nil => rfl
  | cons e es ih =>
    simp only [flow, List.map_cons, List.sum_cons] at ih ⊢
    omega

/-- A store that every step keeps in balance is in balance over the run. -/
theorem Trace.conserved (held : σ → ℕ) (inflow outflow : ε → ℕ)
    (balanced : ∀ t e u, step t e u → held u + outflow e = held t + inflow e)
    (run : Trace step s es t) : held t + flow outflow es = held s + flow inflow es := by
  refine run.invariant (fun es t => held t + flow outflow es = held s + flow inflow es) rfl ?_
  intro es t e u before last
  have one := balanced t e u last
  rw [flow_append, flow_append, flow_singleton, flow_singleton]
  omega

/-- The step that left an entry, with the runs before and after it. -/
theorem Trace.around (run : Trace step s (es ++ e :: fs) t) :
    ∃ m m', Trace step s es m ∧ step m e m' ∧ Trace step m' fs t := by
  obtain ⟨m, before, rest⟩ := run.split
  obtain ⟨m', last, after⟩ := rest.cons
  exact ⟨m, m', before, last, after⟩

/-- Shares kept of payouts are together the share of what was paid out in all, rounded up,
and at most a unit more for each payout after the first. -/
theorem shares_of_payouts (payouts : List ℕ) (r : ℕ) {d : ℕ} (hd : 0 < d) :
    (payouts.sum * r) ⌈/⌉ d ≤ (payouts.map fun a => (a * r) ⌈/⌉ d).sum ∧
      (payouts.map fun a => (a * r) ⌈/⌉ d).sum ≤
        (payouts.sum * r) ⌈/⌉ d + (payouts.length - 1) := by
  have least := ceilDiv_sum_le payouts r hd
  refine ⟨least, ?_⟩
  rcases Nat.eq_or_lt_of_le least with same | excess
  · omega
  · have most := sum_ceilDiv_lt hd excess
    omega

end Antumbra.Math
