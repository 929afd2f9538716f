/-
# Changing the base of a number digit by digit

A number written in one base is rewritten in another by taking its digits from the high
end: what was read so far, in digits of the new base, is multiplied by the old base and
the next digit added, the carry moving up. Reading all digits gives the digits of the
number itself.
-/

import Mathlib.Data.Nat.Digits.Lemmas
import Mathlib.Tactic.Ring

namespace Antumbra.Math.Radix

/-- Multiply digits of base `b`, low end first, by `m` and add a carry: the digits and what is
carried out. -/
def carry (b m c : ℕ) : List ℕ → List ℕ × ℕ
  | [] => ([], c)
  | d :: ds =>
    let c := c + d * m
    let (rest, out) := carry b m (c / b) ds
    (c % b :: rest, out)

/-- Multiply by `m`, add `c`, and write out what is carried. -/
def push (b m : ℕ) (ds : List ℕ) (c : ℕ) : List ℕ :=
  let (ds, out) := carry b m c ds
  ds ++ Nat.digits b out

variable {b m : ℕ}

theorem push_cons (d c : ℕ) (ds : List ℕ) :
    push b m (d :: ds) c = (c + d * m) % b :: push b m ds ((c + d * m) / b) := rfl

/-- On the digits of a number this is the arithmetic it looks like. -/
theorem push_digits (base : 1 < b) (scale : 0 < m) (n c : ℕ) :
    push b m (Nat.digits b n) c = Nat.digits b (n * m + c) := by
  induction n using Nat.strong_induction_on generalizing c with
  | h n ih =>
    by_cases zero : n = 0
    · rw [zero, Nat.digits_zero, Nat.zero_mul, Nat.zero_add]
      rfl
    · have positive : 0 < n := Nat.pos_of_ne_zero zero
      -- the low digit gives its digit and a carry into the number of the others
      have split : n * m + c = b * (n / b * m) + (c + n % b * m) := by
        conv_lhs => rw [← Nat.div_add_mod n b]
        rw [Nat.add_mul, Nat.mul_assoc]
        omega
      have some : 0 < n * m + c := Nat.lt_of_lt_of_le (Nat.mul_pos positive scale) (by omega)
      rw [Nat.digits_def' base positive, Nat.digits_def' base some, push_cons,
        ih (n / b) (Nat.div_lt_self positive base), split, Nat.mul_add_mod,
        Nat.mul_add_div (by omega)]

/-- The number that digits of base `m` write, high end first. -/
def value (m : ℕ) (ds : List ℕ) : ℕ := ds.foldl (fun v d => v * m + d) 0

theorem value_append_singleton (ds : List ℕ) (d : ℕ) :
    value m (ds ++ [d]) = value m ds * m + d := by
  rw [value, List.foldl_append]
  rfl

/-- Digits read on top of a value move it up. -/
theorem foldl_value (v : ℕ) (ds : List ℕ) :
    ds.foldl (fun v d => v * m + d) v = v * m ^ ds.length + value m ds := by
  induction ds using List.reverseRecOn with
  | nil => simp [value]
  | append_singleton ds d ih =>
    rw [List.foldl_append, ih, value_append_singleton, List.length_append, List.length_singleton,
      pow_succ, List.foldl_cons, List.foldl_nil]
    ring

/-- Reading digits from the high end is the value of their reverse from the low end. -/
theorem value_eq_ofDigits (ds : List ℕ) : value m ds = Nat.ofDigits m ds.reverse := by
  induction ds using List.reverseRecOn with
  | nil => rfl
  | append_singleton ds d ih =>
    rw [value_append_singleton, ih, List.reverse_append, List.reverse_singleton,
      List.singleton_append, Nat.ofDigits_cons, Nat.add_comm, Nat.mul_comm]

/-- Reading all digits in base `m` gives the digits in base `b`. -/
theorem foldl_push (base : 1 < b) (scale : 0 < m) (ds : List ℕ) :
    ds.foldl (push b m) [] = Nat.digits b (value m ds) := by
  induction ds using List.reverseRecOn with
  | nil => exact (Nat.digits_zero b).symm
  | append_singleton ds d ih =>
    rw [List.foldl_append, ih, List.foldl_cons, List.foldl_nil, push_digits base scale,
      value_append_singleton]

/-- Leading zeros do not count. -/
theorem value_replicate_zero (z : ℕ) (ds : List ℕ) :
    value m (List.replicate z 0 ++ ds) = value m ds := by
  induction z with
  | zero => rfl
  | succ z ih =>
    rw [List.replicate_succ, List.cons_append, value, List.foldl_cons, Nat.zero_mul]
    exact ih

theorem takeWhile_zero (ds : List ℕ) :
    ds.takeWhile (· = 0) = List.replicate (ds.takeWhile (· = 0)).length 0 :=
  List.eq_replicate_length.mpr fun d mem => by
    simpa using List.all_eq_true.mp List.all_takeWhile d mem

/-- The digits of a value are those it was written with, less the leading zeros. -/
theorem digits_value (base : 1 < m) {ds : List ℕ} (digits : ∀ d ∈ ds, d < m) :
    Nat.digits m (value m ds) = (ds.dropWhile (· = 0)).reverse := by
  have split : List.replicate (ds.takeWhile (· = 0)).length 0 ++ ds.dropWhile (· = 0) = ds := by
    rw [← takeWhile_zero, List.takeWhile_append_dropWhile]
  conv_lhs => rw [← split]
  rw [value_replicate_zero, value_eq_ofDigits]
  refine Nat.digits_ofDigits m base _ (fun d mem => ?_) fun some => ?_
  · exact digits d ((List.dropWhile_sublist _).subset (List.mem_reverse.mp mem))
  · -- the high digit is the first that is not zero
    rw [List.getLast_reverse]
    simpa using List.head_dropWhile_not (fun d => decide (d = 0)) (by simpa using some)

/-- Digits are their leading zeros and the digits of their value. -/
theorem eq_replicate_append (base : 1 < m) {ds : List ℕ} (digits : ∀ d ∈ ds, d < m) :
    ds = List.replicate (ds.takeWhile (· = 0)).length 0 ++ (Nat.digits m (value m ds)).reverse := by
  rw [digits_value base digits, List.reverse_reverse, ← takeWhile_zero,
    List.takeWhile_append_dropWhile]

end Antumbra.Math.Radix
