/-
# Counting bits

The number of set bits of a word is bounded by the positions that can be set and
grows with the set of positions.
-/

import Antumbra.Math.Word
import Mathlib.Data.Finset.Card
import Mathlib.Data.Finset.Range

namespace Antumbra.Math

variable {w : ℕ}

/-- How many bits of a word are set. -/
def countOnes (x : BitVec w) : ℕ := x.cpop.toNat

/-- A word whose bits from `n` on are clear has at most `n` bits set. -/
theorem countOnes_le {x : BitVec w} {n : ℕ} (clear : ∀ i, n ≤ i → x.getLsbD i = false) :
    countOnes x ≤ n := by
  -- counting from the low end, by induction: beyond `n` nothing is added
  have upTo : ∀ k, x.cpopNatRec k 0 ≤ n := by
    intro k
    induction k with
    | zero => exact Nat.zero_le n
    | succ k ih =>
      rcases Nat.lt_or_ge k n with below | above
      · have : x.cpopNatRec (k + 1) 0 ≤ 0 + (k + 1) := BitVec.cpopNatRec_le (k + 1)
        omega
      · rw [BitVec.cpopNatRec_succ, clear k above]
        exact ih
  rw [countOnes, BitVec.toNat_cpop]
  exact upTo w

/-- Setting more bits never lowers the count. -/
theorem countOnes_mono {x y : BitVec w} (h : ∀ i, x.getLsbD i = true → y.getLsbD i = true) :
    countOnes x ≤ countOnes y := by
  have upTo : ∀ k, x.cpopNatRec k 0 ≤ y.cpopNatRec k 0 := by
    intro k
    induction k with
    | zero => exact Nat.le_refl _
    | succ k ih =>
      have here : (x.getLsbD k).toNat ≤ (y.getLsbD k).toNat := by
        cases hx : x.getLsbD k with
        | false => exact Nat.zero_le _
        | true => rw [h k hx]
      rw [BitVec.cpopNatRec_succ, BitVec.cpopNatRec_succ, BitVec.cpopNatRec_eq,
        BitVec.cpopNatRec_eq (0 + (y.getLsbD k).toNat)]
      omega
  rw [countOnes, countOnes, BitVec.toNat_cpop, BitVec.toNat_cpop]
  exact upTo w

/-- The positions of the set bits. -/
def onesOf (x : BitVec w) : Finset ℕ := (Finset.range w).filter fun i => x.getLsbD i = true

@[simp] theorem mem_onesOf {x : BitVec w} {i : ℕ} : i ∈ onesOf x ↔ x.getLsbD i = true := by
  rw [onesOf, Finset.mem_filter, Finset.mem_range, and_iff_right_iff_imp]
  exact BitVec.lt_of_getLsbD

theorem countOnes_zero : countOnes (0 : BitVec w) = 0 :=
  Nat.le_zero.mp (countOnes_le fun _ _ => BitVec.getLsbD_zero)

/-- Counting bits is counting their positions. -/
theorem countOnes_eq_card (x : BitVec w) : countOnes x = (onesOf x).card := by
  have upTo : ∀ k, x.cpopNatRec k 0 =
      ((Finset.range k).filter fun i => x.getLsbD i = true).card := by
    intro k
    induction k with
    | zero => rfl
    | succ k ih =>
      rw [BitVec.cpopNatRec_succ, BitVec.cpopNatRec_eq, Finset.range_add_one, Finset.filter_insert]
      cases hx : x.getLsbD k with
      | false => simpa using ih
      | true =>
        rw [if_pos rfl, Finset.card_insert_of_notMem (by simp), ih]
        rfl
  rw [countOnes, BitVec.toNat_cpop]
  exact upTo w

/-- A word whose bits from `n` on are clear has `n` bits set exactly when it has them all. -/
theorem countOnes_eq_iff {x : BitVec w} {n : ℕ} (clear : ∀ i, n ≤ i → x.getLsbD i = false) :
    countOnes x = n ↔ ∀ i < n, x.getLsbD i = true := by
  have subset : onesOf x ⊆ Finset.range n := by
    intro i set
    rw [mem_onesOf] at set
    rw [Finset.mem_range]
    by_contra above
    rw [clear i (by omega)] at set
    cases set
  rw [countOnes_eq_card]
  constructor
  · intro count i below
    have all := Finset.eq_of_subset_of_card_le subset (by rw [count, Finset.card_range])
    rw [← mem_onesOf, all, Finset.mem_range]
    exact below
  · intro all
    have whole : onesOf x = Finset.range n :=
      subset.antisymm fun i below => mem_onesOf.mpr (all i (Finset.mem_range.mp below))
    rw [whole, Finset.card_range]

/-- The word with one bit set. -/
def bitAt (w n : ℕ) : BitVec w := (1 : BitVec w) <<< n

theorem getLsbD_bitAt {n i : ℕ} : (bitAt w n).getLsbD i = (decide (i < w) && decide (i = n)) := by
  rw [bitAt, BitVec.getLsbD_shiftLeft]
  change (decide (i < w) && !decide (i < n) && (1#w).getLsbD (i - n)) = _
  rw [BitVec.getLsbD_one]
  grind

/-- A clear intersection with one bit means that bit is clear. -/
theorem and_bitAt_eq_zero_iff {x : BitVec w} {n : ℕ} (h : n < w) :
    x &&& bitAt w n = 0 ↔ x.getLsbD n = false := by
  constructor
  · intro clear
    have here : (x &&& bitAt w n).getLsbD n = false := by rw [clear]; exact BitVec.getLsbD_zero
    rw [BitVec.getLsbD_and, getLsbD_bitAt, decide_eq_true h, decide_eq_true rfl] at here
    rwa [Bool.and_self, Bool.and_true] at here
  · intro clear
    apply BitVec.eq_of_getLsbD_eq
    intro i _
    rw [BitVec.getLsbD_and, getLsbD_bitAt]
    by_cases same : i = n
    · subst same
      simp [clear]
    · simp [same]

/-- Setting a clear bit adds one to the count. -/
theorem countOnes_or_bitAt {x : BitVec w} {n : ℕ} (h : n < w) (clear : x.getLsbD n = false) :
    countOnes (x ||| bitAt w n) = countOnes x + 1 := by
  have ones : onesOf (x ||| bitAt w n) = insert n (onesOf x) := by
    ext i
    rw [mem_onesOf, Finset.mem_insert, mem_onesOf, BitVec.getLsbD_or, getLsbD_bitAt]
    by_cases same : i = n
    · simp [same, h]
    · simp [same]
  rw [countOnes_eq_card, countOnes_eq_card, ones, Finset.card_insert_of_notMem]
  rw [mem_onesOf, clear]
  decide

end Antumbra.Math
