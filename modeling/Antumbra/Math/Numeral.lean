/-
# Written numbers

The digits of a number, high end first. Of two strings of digits as long as one another the
first in the order of a dictionary is the smaller number, and of two numbers without leading
zeros the shorter. A difference is taken column by column from the low end, with a borrow:
what is left of the borrow at the high end tells whether there was enough to take from.
-/

import Antumbra.Math.Radix
import Mathlib.Tactic.Linarith

namespace Antumbra.Math.Radix

variable {m n k c : ℕ} {ds xs ys : List ℕ}

/-! ### Values -/

theorem value_cons (d : ℕ) (ds : List ℕ) : value m (d :: ds) = d * m ^ ds.length + value m ds := by
  rw [value, List.foldl_cons, foldl_value, Nat.zero_mul, Nat.zero_add]

theorem value_lt (base : 1 < m) (digits : ∀ d ∈ ds, d < m) : value m ds < m ^ ds.length := by
  rw [value_eq_ofDigits, ← List.length_reverse]
  exact Nat.ofDigits_lt_base_pow_length base fun d mem => digits d (List.mem_reverse.mp mem)

/-! ### Numerals -/

/-- How a number is written: without leading zeros, and zero as one digit. -/
def numeral (m n : ℕ) : List ℕ := if n = 0 then [0] else (Nat.digits m n).reverse

theorem value_numeral (m n : ℕ) : value m (numeral m n) = n := by
  unfold numeral
  split
  · next zero => rw [zero]; simp [value]
  · rw [value_eq_ofDigits, List.reverse_reverse, Nat.ofDigits_digits]

theorem numeral_lt (base : 1 < m) : ∀ d ∈ numeral m n, d < m := by
  intro d mem
  unfold numeral at mem
  split at mem
  · rw [List.mem_singleton.mp mem]
    omega
  · exact Nat.digits_lt_base base (List.mem_reverse.mp mem)

theorem length_numeral (m n : ℕ) : (numeral m n).length = max 1 (Nat.digits m n).length := by
  unfold numeral
  split
  · next zero => rw [zero, Nat.digits_zero]; rfl
  · next nonzero =>
    have some := List.length_pos_iff.mpr (Nat.digits_ne_nil_iff_ne_zero (b := m).mpr nonzero)
    rw [List.length_reverse]
    omega

theorem length_numeral_le (h : n ≤ k) : (numeral m n).length ≤ (numeral m k).length := by
  rw [length_numeral, length_numeral]
  exact max_le_max le_rfl (Nat.le_length_digits_le m n k h)

/-- Digits without their leading zeros, unless nothing would be left. -/
def strip (ds : List ℕ) : List ℕ :=
  if ds.dropWhile (· = 0) = [] then [0] else ds.dropWhile (· = 0)

/-- Without its leading zeros a string of digits is the numeral of its value. -/
theorem strip_eq (base : 1 < m) (digits : ∀ d ∈ ds, d < m) :
    strip ds = numeral m (value m ds) := by
  have rest : ds.dropWhile (· = 0) = (Nat.digits m (value m ds)).reverse := by
    rw [digits_value base digits, List.reverse_reverse]
  unfold strip numeral
  rw [rest]
  by_cases zero : value m ds = 0
  · rw [if_pos zero, zero, Nat.digits_zero, List.reverse_nil, if_pos rfl]
  · rw [if_neg zero, if_neg]
    exact fun none => zero (Nat.digits_eq_nil_iff_eq_zero.mp (List.reverse_eq_nil_iff.mp none))

/-! ### Comparing -/

/-- Strings of digits of one length are ordered as in a dictionary. -/
theorem lt_iff_value_lt (base : 1 < m) (hx : ∀ d ∈ xs, d < m) (hy : ∀ d ∈ ys, d < m)
    (len : xs.length = ys.length) : xs < ys ↔ value m xs < value m ys := by
  induction xs generalizing ys with
  | nil =>
    rw [List.length_eq_zero_iff.mp len.symm]
    exact iff_of_false (lt_irrefl _) (lt_irrefl _)
  | cons x xs ih =>
    cases ys with
    | nil => cases len
    | cons y ys =>
      rw [List.forall_mem_cons] at hx hy
      have len' : xs.length = ys.length := Nat.succ.inj len
      have low := value_lt base hx.2
      have low' := value_lt base hy.2
      rw [List.cons_lt_cons_iff, ih hx.2 hy.2 len', value_cons, value_cons]
      rw [len'] at low ⊢
      rcases lt_trichotomy x y with less | rfl | more
      · -- the first digit decides
        have step := Nat.mul_le_mul_right (m ^ ys.length) less
        rw [Nat.succ_mul] at step
        exact iff_of_true (.inl less) (by omega)
      · rw [Nat.add_lt_add_iff_left]
        exact ⟨fun h => h.elim (fun less => absurd less (lt_irrefl x)) And.right,
          fun h => .inr ⟨rfl, h⟩⟩
      · have step := Nat.mul_le_mul_right (m ^ ys.length) more
        rw [Nat.succ_mul] at step
        exact iff_of_false (by rintro (less | ⟨same, -⟩) <;> omega) (by omega)

/-- Numerals are ordered by their lengths first. -/
theorem numeral_lt_iff (base : 1 < m) :
    n < k ↔ (numeral m n).length < (numeral m k).length ∨
      (numeral m n).length = (numeral m k).length ∧ numeral m n < numeral m k := by
  rcases lt_trichotomy (numeral m n).length (numeral m k).length with less | same | more
  · refine iff_of_true ?_ (.inl less)
    by_contra other
    exact absurd (length_numeral_le (m := m) (not_lt.mp other)) (not_le.mpr less)
  · have order := lt_iff_value_lt base (numeral_lt base) (numeral_lt base) same
    rw [value_numeral, value_numeral] at order
    rw [← order]
    exact ⟨fun h => .inr ⟨same, h⟩, fun h => h.elim (fun less => absurd same less.ne) And.right⟩
  · refine iff_of_false ?_ ?_
    · exact fun h => absurd (length_numeral_le (m := m) h.le) (not_le.mpr more)
    · rintro (less | ⟨same, -⟩) <;> omega

/-! ### Subtracting -/

/-- Subtract column by column from the low end, starting with a borrow: the digits, and the
borrow that is left. -/
def borrowSub (m : ℕ) : List ℕ → List ℕ → ℕ → List ℕ × ℕ
  | [], _, c => ([], c)
  | x :: xs, ys, c =>
    let y := ys.headD 0 + c
    let (rest, out) := borrowSub m xs ys.tail (if x < y then 1 else 0)
    ((if x < y then x + m - y else x - y) :: rest, out)

theorem borrowSub_cons (x : ℕ) : borrowSub m (x :: xs) ys c =
    ((if x < ys.headD 0 + c then x + m - (ys.headD 0 + c) else x - (ys.headD 0 + c)) ::
        (borrowSub m xs ys.tail (if x < ys.headD 0 + c then 1 else 0)).1,
      (borrowSub m xs ys.tail (if x < ys.headD 0 + c then 1 else 0)).2) := rfl

theorem length_borrowSub : (borrowSub m xs ys c).1.length = xs.length := by
  induction xs generalizing ys c with
  | nil => rfl
  | cons x xs ih => rw [borrowSub_cons, List.length_cons, List.length_cons, ih]

theorem headD_lt (base : 0 < m) (hy : ∀ d ∈ ys, d < m) : ys.headD 0 < m := by
  cases ys with
  | nil => exact base
  | cons y ys => exact hy y List.mem_cons_self

theorem borrowSub_digits (hx : ∀ d ∈ xs, d < m) (hy : ∀ d ∈ ys, d < m) (hc : c ≤ 1) :
    (∀ d ∈ (borrowSub m xs ys c).1, d < m) ∧ (borrowSub m xs ys c).2 ≤ 1 := by
  induction xs generalizing ys c with
  | nil => exact ⟨fun d mem => absurd mem List.not_mem_nil, hc⟩
  | cons x xs ih =>
    rw [List.forall_mem_cons] at hx
    have borrow : (if x < ys.headD 0 + c then 1 else 0) ≤ 1 := by split <;> omega
    have later := ih hx.2 (fun d mem => hy d (List.mem_of_mem_tail mem)) borrow
    rw [borrowSub_cons]
    refine ⟨List.forall_mem_cons.mpr ⟨?_, later.1⟩, later.2⟩
    split <;> omega

/-- The columns balance: what was taken and what is left make up what there was, and a borrow
at the high end counts one unit beyond it. -/
theorem borrowSub_balance (hx : ∀ d ∈ xs, d < m) (hy : ∀ d ∈ ys, d < m) (hc : c ≤ 1)
    (short : ys.length ≤ xs.length) :
    Nat.ofDigits m (borrowSub m xs ys c).1 + Nat.ofDigits m ys + c =
      Nat.ofDigits m xs + m ^ xs.length * (borrowSub m xs ys c).2 := by
  induction xs generalizing ys c with
  | nil =>
    rw [List.length_eq_zero_iff.mp (Nat.le_zero.mp short)]
    simp [borrowSub]
  | cons x xs ih =>
    rw [List.forall_mem_cons] at hx
    have below := headD_lt (by omega) hy
    have taken : Nat.ofDigits m ys = ys.headD 0 + m * Nat.ofDigits m ys.tail := by
      cases ys with
      | nil => simp
      | cons y ys => rw [Nat.ofDigits_cons]; rfl
    rw [borrowSub_cons]
    simp only
    generalize borrow : (if x < ys.headD 0 + c then 1 else 0) = c' at *
    have small : c' ≤ 1 := by
      rw [← borrow]
      split <;> omega
    have short' : ys.tail.length ≤ xs.length := by
      rw [List.length_cons] at short
      rw [List.length_tail]
      omega
    have later := ih hx.2 (fun d mem => hy d (List.mem_of_mem_tail mem)) small short'
    have column : (if x < ys.headD 0 + c then x + m - (ys.headD 0 + c) else x - (ys.headD 0 + c)) +
        (ys.headD 0 + c) = x + m * c' := by
      rw [← borrow]
      split <;> omega
    rw [Nat.ofDigits_cons, Nat.ofDigits_cons, taken, List.length_cons, pow_succ']
    have scaled := congrArg (m * ·) later
    simp only [Nat.mul_add] at scaled
    rw [Nat.mul_assoc]
    linarith

/-- From a larger number, or the same, nothing is left to borrow, and the columns write the
difference. -/
theorem value_borrowSub (base : 1 < m) (h : k ≤ n) :
    value m (borrowSub m (numeral m n).reverse (numeral m k).reverse 0).1.reverse = n - k := by
  have digits (n : ℕ) : ∀ d ∈ (numeral m n).reverse, d < m :=
    fun d mem => numeral_lt base d (List.mem_reverse.mp mem)
  have written (n : ℕ) : Nat.ofDigits m (numeral m n).reverse = n := by
    rw [← value_eq_ofDigits, value_numeral]
  have short : (numeral m k).reverse.length ≤ (numeral m n).reverse.length := by
    rw [List.length_reverse, List.length_reverse]
    exact length_numeral_le h
  have balance := borrowSub_balance (digits n) (digits k) zero_le_one short
  obtain ⟨low, out⟩ := borrowSub_digits (digits n) (digits k) zero_le_one
  have below := Nat.ofDigits_lt_base_pow_length base low
  rw [length_borrowSub] at below
  rw [written, written] at balance
  rw [value_eq_ofDigits, List.reverse_reverse]
  -- a borrow left over would put the difference beyond the digits it is written in
  rcases Nat.le_one_iff_eq_zero_or_eq_one.mp out with none | one
  · rw [none] at balance
    omega
  · rw [one, Nat.mul_one] at balance
    omega

end Antumbra.Math.Radix
