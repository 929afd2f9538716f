/-
# Transfers between accounts

A ledger gives every account a balance, and a transfer moves an amount from one
account to another, possibly the same one. Two transfers that can both be paid
commute, whatever they have in common.
-/

import Mathlib.Logic.Function.Basic
import Mathlib.Tactic.Common

namespace Antumbra.Math

variable {K : Type*} [DecidableEq K] {b : K → ℕ} {source source' target target' k : K}
  {amount amount' : ℕ}

/-- The ledger after `amount` moved from `source` to `target`. -/
def move (b : K → ℕ) (source target : K) (amount : ℕ) : K → ℕ :=
  let debited := Function.update b source (b source - amount)
  Function.update debited target (debited target + amount)

@[simp] theorem move_zero : move b source target 0 = b := by
  simp [move]

/-- What a transfer does to one balance: it loses what it sends and gains what it receives. -/
theorem move_add (target : K) (paid : amount ≤ b source) (k : K) :
    move b source target amount k + (if k = source then amount else 0) =
      b k + (if k = target then amount else 0) := by
  unfold move
  by_cases sends : k = source
  · by_cases receives : k = target
    · subst sends receives
      simp only [Function.update_self, if_true]
      omega
    · subst sends
      simp only [Function.update_of_ne receives, Function.update_self, if_true, receives, if_false]
      omega
  · by_cases receives : k = target
    · subst receives
      simp only [Function.update_self, Function.update_of_ne sends, sends, if_true, if_false]
      omega
    · simp only [Function.update_of_ne receives, Function.update_of_ne sends, sends, receives,
        if_false]

/-- A transfer can still be paid after another one that leaves it enough. -/
theorem le_move_source (target : K) (paid : amount ≤ b source) (paid' : amount' ≤ b source')
    (both : source = source' → amount + amount' ≤ b source) :
    amount' ≤ move b source target amount source' := by
  have after := move_add target paid source'
  by_cases same : source' = source
  · subst same
    have := both rfl
    simp only [if_true] at after
    omega
  · rw [if_neg same] at after
    omega

/-- Two transfers commute when their sources can pay both. -/
theorem move_comm (paid : amount ≤ b source) (paid' : amount' ≤ b source')
    (both : source = source' → amount + amount' ≤ b source) :
    move (move b source target amount) source' target' amount' =
      move (move b source' target' amount') source target amount := by
  funext k
  have both' : source' = source → amount' + amount ≤ b source' := by
    intro same
    rw [same, Nat.add_comm]
    exact both same.symm
  -- on each balance both orders take and give the same amounts
  have first := move_add target paid k
  have first' := move_add target' paid' k
  have second := move_add target' (le_move_source target paid paid' both) k
  have second' := move_add target (le_move_source target' paid' paid both') k
  omega

end Antumbra.Math
