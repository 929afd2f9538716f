/-
# Scanning numbered slots

Slots are numbered from zero, and a scan reads them in order up to a limit and stops
at the first empty one. What it finds is settled by where the first empty slot is;
reading in blocks finds the same. A scan that goes to the end and keeps the last match
keeps what all matches share.
-/

import Mathlib.Data.List.Basic
import Mathlib.Tactic.Common

namespace Antumbra.Math

variable {α : Type*} {read : ℕ → Option α} {n limit start : ℕ}

/-- What stands in the slots from `start` on before the first empty one, reading at most
`limit` of them. -/
def scan (read : ℕ → Option α) : (limit start : ℕ) → List α
  | 0, _ => []
  | limit + 1, start =>
    match read start with
    | none => []
    | some a => a :: scan read limit (start + 1)

theorem scan_of_none (limit : ℕ) (empty : read start = none) : scan read limit start = [] := by
  cases limit with
  | zero => rfl
  | succ limit => rw [scan, empty]

theorem scan_of_some {a : α} (found : read start = some a) :
    scan read (limit + 1) start = a :: scan read limit (start + 1) := by
  rw [scan, found]

/-- A scan finds the slots before the first empty one. -/
theorem scan_eq {f : ℕ → α} (found : ∀ i < n, read (start + i) = some (f i))
    (empty : read (start + n) = none) (within : n ≤ limit) :
    scan read limit start = (List.range n).map f := by
  induction n generalizing start limit f with
  | zero => exact scan_of_none limit empty
  | succ n ih =>
    obtain ⟨limit, rfl⟩ : ∃ l, limit = l + 1 := ⟨limit - 1, by omega⟩
    -- the rest is the scan from the next slot on
    have rest : scan read limit (start + 1) = (List.range n).map fun i => f (i + 1) :=
      ih (fun i hi => by rw [Nat.add_assoc, Nat.add_comm 1]; exact found (i + 1) (by omega))
        (by rwa [Nat.add_assoc, Nat.add_comm 1]) (Nat.le_of_succ_le_succ within)
    have first : read start = some (f 0) := found 0 (Nat.succ_pos n)
    rw [scan_of_some first, rest, List.range_succ_eq_map, List.map_cons, List.map_map]
    rfl

/-- A scan does not stop before the first empty slot. -/
theorem le_length_scan (found : ∀ i < n, (read (start + i)).isSome) (within : n ≤ limit) :
    n ≤ (scan read limit start).length := by
  induction n generalizing start limit with
  | zero => exact Nat.zero_le _
  | succ n ih =>
    obtain ⟨limit, rfl⟩ : ∃ l, limit = l + 1 := ⟨limit - 1, by omega⟩
    obtain ⟨a, first⟩ := Option.isSome_iff_exists.mp (found 0 (Nat.succ_pos n))
    have rest : n ≤ (scan read limit (start + 1)).length :=
      ih (fun i hi => by rw [Nat.add_assoc, Nat.add_comm 1]; exact found (i + 1) (by omega))
        (Nat.le_of_succ_le_succ within)
    rw [Nat.add_zero] at first
    rw [scan_of_some first, List.length_cons]
    omega

/-- A scan goes on past a used slot. -/
theorem lt_length_scan (found : ∀ i < n, (read (start + i)).isSome)
    (used : (read (start + n)).isSome) (within : n < limit) :
    n < (scan read limit start).length := by
  refine le_length_scan (fun i hi => ?_) within
  rcases Nat.lt_succ_iff_lt_or_eq.mp hi with before | rfl
  · exact found i before
  · exact used

theorem length_scan_le (read : ℕ → Option α) (limit start : ℕ) :
    (scan read limit start).length ≤ limit := by
  induction limit generalizing start with
  | zero => exact Nat.le_refl 0
  | succ limit ih =>
    rw [scan]
    split
    · exact Nat.zero_le _
    · exact Nat.succ_le_succ (ih (start + 1))

/-- A scan of two blocks: the second is read when the first is full. -/
theorem scan_add (read : ℕ → Option α) (block limit start : ℕ) :
    scan read (block + limit) start =
      scan read block start ++
        if (scan read block start).length = block then scan read limit (start + block) else [] := by
  induction block generalizing start with
  | zero => simp [scan]
  | succ block ih =>
    rw [Nat.add_right_comm]
    cases found : read start with
    | none => rw [scan_of_none _ found, scan_of_none _ found]; simp
    | some a =>
      rw [scan_of_some found, scan_of_some found, ih, Nat.add_right_comm start 1]
      simp [Nat.add_assoc]

/-- A loop that keeps the last match keeps one with what all matches share. -/
theorem foldl_last {α β γ : Type*} (matches_ : α → Prop) [DecidablePred matches_] {f : α → β × γ}
    {b : β} {xs : List α} (same : ∀ x ∈ xs, matches_ x → (f x).1 = b) {found : Option (β × γ)}
    (some_ : found.map Prod.fst = some b ∨ ∃ x ∈ xs, matches_ x) :
    (xs.foldl (fun found x => if matches_ x then some (f x) else found) found).map Prod.fst =
      some b := by
  induction xs generalizing found with
  | nil => exact some_.resolve_right fun ⟨_, mem, _⟩ => absurd mem List.not_mem_nil
  | cons x xs ih =>
    refine ih (fun y mem => same y (List.mem_cons_of_mem x mem)) ?_
    dsimp only
    -- whatever is kept from here on has the same first part
    by_cases here : matches_ x
    · rw [if_pos here]
      exact .inl (congrArg some (same x List.mem_cons_self here))
    · rw [if_neg here]
      rcases some_ with kept | ⟨y, mem, later⟩
      · exact .inl kept
      · rcases List.mem_cons.mp mem with rfl | mem
        · exact absurd later here
        · exact .inr ⟨y, mem, later⟩

end Antumbra.Math
