/-
# Claims on a shared reserve

Many claims draw on one fund. The fund is good for them when it covers any
finitely many of them at once; then no order of draws can leave a claim unpaid.
A change of one claim keeps the fund good when the fund changes with it. What all
claims come to changes with each of them too.
-/

import Mathlib.Algebra.BigOperators.Group.Finset.Basic
import Mathlib.Algebra.Order.BigOperators.Group.Finset
import Mathlib.Data.Set.Finite.Basic

namespace Antumbra.Math

variable {K : Type*} {owed owed' : K → ℕ} {funds funds' : ℕ}

/-- The funds pay any finitely many of the claims. -/
def Covered (owed : K → ℕ) (funds : ℕ) : Prop := ∀ ks : Finset K, ∑ k ∈ ks, owed k ≤ funds

theorem Covered.le (h : Covered owed funds) (k : K) : owed k ≤ funds := by
  have single := h {k}
  rwa [Finset.sum_singleton] at single

/-- Two different claims are covered together. -/
theorem Covered.le_pair [DecidableEq K] (h : Covered owed funds) {j k : K} (different : j ≠ k) :
    owed j + owed k ≤ funds := by
  have pair := h {j, k}
  rwa [Finset.sum_pair different] at pair

theorem covered_of_zero (h : ∀ k, owed k = 0) : Covered owed funds := by
  intro ks
  rw [Finset.sum_eq_zero fun k _ => h k]
  exact Nat.zero_le funds

theorem Covered.mono (h : Covered owed funds) (more : funds ≤ funds')
    (less : ∀ k, owed' k ≤ owed k) : Covered owed' funds' := by
  intro ks
  calc ∑ k ∈ ks, owed' k ≤ ∑ k ∈ ks, owed k := Finset.sum_le_sum fun k _ => less k
    _ ≤ funds := h ks
    _ ≤ funds' := more

/-- One claim and the funds move together: what the funds lose the claim loses too. -/
theorem Covered.change [DecidableEq K] (h : Covered owed funds) (k : K)
    (others : ∀ j, j ≠ k → owed' j ≤ owed j) (here : funds + owed' k ≤ funds' + owed k) :
    Covered owed' funds' := by
  intro ks
  -- the bound for the same set with the changed claim in it, split off the sum
  have before := h (insert k (ks.erase k))
  rw [Finset.sum_insert (Finset.notMem_erase k ks)] at before
  have rest : ∑ j ∈ ks.erase k, owed' j ≤ ∑ j ∈ ks.erase k, owed j :=
    Finset.sum_le_sum fun j hj => others j (Finset.ne_of_mem_erase hj)
  have after : ∑ j ∈ ks, owed' j ≤ ∑ j ∈ insert k (ks.erase k), owed' j :=
    Finset.sum_le_sum_of_subset (Finset.insert_erase_subset k ks)
  rw [Finset.sum_insert (Finset.notMem_erase k ks)] at after
  omega

/-! ### All claims together -/

/-- The claims come to `total`, over any finite set that has all those above zero. -/
def Totals (owed : K → ℕ) (total : ℕ) : Prop :=
  ∀ ks : Finset K, (∀ k, owed k ≠ 0 → k ∈ ks) → ∑ k ∈ ks, owed k = total

theorem totals_of_zero (h : ∀ k, owed k = 0) : Totals owed 0 :=
  fun _ _ => Finset.sum_eq_zero fun k _ => h k

theorem Totals.le {total : ℕ} (h : Totals owed total) (finite : {k | owed k ≠ 0}.Finite) (k : K) :
    owed k ≤ total := by
  by_cases none : owed k = 0
  · rw [none]
    exact Nat.zero_le total
  · rw [← h finite.toFinset fun j some => finite.mem_toFinset.mpr some]
    exact Finset.single_le_sum (fun j _ => Nat.zero_le (owed j)) (finite.mem_toFinset.mpr none)

/-- When one claim changes the total changes with it. -/
theorem Totals.change [DecidableEq K] {total total' lost gained : ℕ} (h : Totals owed total) (k : K)
    (others : ∀ j, j ≠ k → owed' j = owed j) (here : owed' k + lost = owed k + gained)
    (there : total' + lost = total + gained) : Totals owed' total' := by
  intro ks all
  -- the claim that changes, split off both sums
  have before := h (insert k (ks.erase k)) fun j some => by
    by_cases same : j = k
    · rw [same]
      exact Finset.mem_insert_self k _
    · exact Finset.mem_insert_of_mem
        (Finset.mem_erase.mpr ⟨same, all j (by rwa [others j same])⟩)
  have after : ∑ j ∈ insert k (ks.erase k), owed' j = ∑ j ∈ ks, owed' j := by
    by_cases mem : k ∈ ks
    · rw [Finset.insert_erase mem]
    · rw [Finset.erase_eq_of_notMem mem, Finset.sum_insert mem,
        Classical.not_not.mp fun some => mem (all k some), Nat.zero_add]
  have rest : ∑ j ∈ ks.erase k, owed' j = ∑ j ∈ ks.erase k, owed j :=
    Finset.sum_congr rfl fun j hj => others j (Finset.ne_of_mem_erase hj)
  rw [Finset.sum_insert (Finset.notMem_erase k ks)] at before after
  omega

end Antumbra.Math
