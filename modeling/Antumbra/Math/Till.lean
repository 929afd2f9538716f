/-
# A till with two owners

A till takes payments and keeps back a fee of each for the house. Anyone may sweep
the house's part, the till's owner is paid the rest once no more payments are taken,
and strangers may put money in. Each part stays whole however these come: what the
house is owed and was given is the fees of the payments, and the owner is paid out of
the rest.
-/

import Antumbra.Math.Runs
import Mathlib.Algebra.GroupWithZero.Nat

namespace Antumbra.Math

/-- What is in the till, how much of it is the house's, what was taken beyond the fees
in all, and whether it still takes payments. -/
@[ext] structure Till where
  held : ℕ
  fees : ℕ
  raised : ℕ
  closed : Bool

/-- An entry of the till's history; a refusal says what was refused and why. -/
inductive Entry (ρ : Type*)
  | take (amount : ℕ)
  | sweep (amount : ℕ)
  | pay (amount : ℕ)
  | credit (amount : ℕ)
  | refuse (why : ρ)
  deriving DecidableEq

namespace Entry

variable {ρ : Type*}

@[simp] def taken : Entry ρ → ℕ
  | take amount => amount
  | _ => 0

@[simp] def swept : Entry ρ → ℕ
  | sweep amount => amount
  | _ => 0

@[simp] def paid : Entry ρ → ℕ
  | pay amount => amount
  | _ => 0

@[simp] def credited : Entry ρ → ℕ
  | credit amount => amount
  | _ => 0

/-- The fee of a payment. -/
@[simp] def charged (fee : ℕ → ℕ) : Entry ρ → ℕ
  | take amount => fee amount
  | _ => 0

/-- The sum of an amount over a history. -/
def total (amount : Entry ρ → ℕ) (es : List (Entry ρ)) : ℕ := (es.map amount).sum

@[simp] theorem total_nil (amount : Entry ρ → ℕ) : total amount [] = 0 := rfl

@[simp] theorem total_append (amount : Entry ρ → ℕ) (es fs : List (Entry ρ)) :
    total amount (es ++ fs) = total amount es + total amount fs := by
  simp [total]

@[simp] theorem total_singleton (amount : Entry ρ → ℕ) (e : Entry ρ) :
    total amount [e] = amount e := by
  simp [total]

/-- The payments of a history, in order. -/
def payments (es : List (Entry ρ)) : List ℕ :=
  es.filterMap fun
    | take amount => some amount
    | _ => none

@[simp] theorem payments_append (es fs : List (Entry ρ)) :
    payments (es ++ fs) = payments es ++ payments fs :=
  List.filterMap_append

theorem total_taken (es : List (Entry ρ)) : total taken es = (payments es).sum := by
  induction es with
  | nil => rfl
  | cons e es ih =>
    rw [← List.singleton_append, total_append, payments_append, List.sum_append, ih]
    cases e <;> rfl

theorem total_charged (fee : ℕ → ℕ) (es : List (Entry ρ)) :
    total (charged fee) es = ((payments es).map fee).sum := by
  induction es with
  | nil => rfl
  | cons e es ih =>
    rw [← List.singleton_append, total_append, payments_append, List.map_append, List.sum_append,
      ih]
    cases e <;> rfl

theorem total_paid_eq_zero {es : List (Entry ρ)} (h : ∀ n, pay n ∉ es) : total paid es = 0 := by
  induction es with
  | nil => rfl
  | cons e es ih =>
    have rest := ih fun n hn => h n (List.mem_cons_of_mem e hn)
    rw [← List.singleton_append, total_append, rest, total_singleton]
    cases e with
    | pay amount => exact absurd List.mem_cons_self (h amount)
    | take _ | sweep _ | credit _ | refuse _ => rfl

end Entry

namespace Till

open Entry (total taken swept paid credited charged)

variable {ρ : Type*} {fee : ℕ → ℕ} {t t' : Till} {es : List (Entry ρ)} {e : Entry ρ}

/-- What can happen to a till. -/
inductive Step (fee : ℕ → ℕ) : Till → Entry ρ → Till → Prop
  | take (t : Till) (amount : ℕ) (isOpen : t.closed = false) (closed : Bool) :
    Step fee t (.take amount)
      { held := t.held + amount, fees := t.fees + fee amount
        raised := t.raised + (amount - fee amount), closed }
  | sweep (t : Till) : Step fee t (.sweep t.fees) { t with held := t.held - t.fees, fees := 0 }
  | pay (t : Till) (isClosed : t.closed = true) :
    Step fee t (.pay (t.held - t.fees)) { t with held := t.fees }
  | credit (t : Till) (amount : ℕ) : Step fee t (.credit amount) { t with held := t.held + amount }
  | refuse (t : Till) (why : ρ) : Step fee t (.refuse why) t

/-- The house's part is there. -/
theorem Step.covered (fee_le : ∀ n, fee n ≤ n) (h : Step fee t e t') (covered : t.fees ≤ t.held) :
    t'.fees ≤ t'.held := by
  cases h with
  | take amount isOpen closed =>
    have := fee_le amount
    dsimp only
    omega
  | sweep => exact Nat.zero_le _
  | pay isClosed => exact Nat.le_refl _
  | credit amount => exact Nat.le_add_right_of_le covered
  | refuse why => exact covered

/-- What a till's history adds up to, from an empty till. -/
structure Books (fee : ℕ → ℕ) (es : List (Entry ρ)) (t : Till) : Prop where
  covered : t.fees ≤ t.held
  house : t.fees + total swept es = total (charged fee) es
  raised : t.raised + total (charged fee) es = total taken es
  cash : t.held + total swept es + total paid es =
    total taken es + total credited es

theorem Books.step (fee_le : ∀ n, fee n ≤ n) (books : Books fee es t) (h : Step fee t e t') :
    Books fee (es ++ [e]) t' := by
  have covered := h.covered fee_le books.covered
  obtain ⟨before, house, raised, cash⟩ := books
  -- each entry adds its amount to both sides of the equations it enters
  cases h with
  | take amount isOpen closed =>
    have := fee_le amount
    refine ⟨covered, ?_, ?_, ?_⟩ <;> simp <;> omega
  | sweep | pay _ | credit _ | refuse _ =>
    refine ⟨covered, ?_, ?_, ?_⟩ <;> simp <;> omega

theorem books (fee_le : ∀ n, fee n ≤ n) {closed : Bool}
    (run : Trace (Step fee) ⟨0, 0, 0, closed⟩ es t) : Books fee es t := by
  refine run.invariant (Books fee) ?_ fun _ _ _ _ => Books.step fee_le
  exact ⟨Nat.le_refl 0, rfl, rfl, rfl⟩

/-- What was raised grows by the payments less their fees. -/
theorem raised_of_run (fee_le : ∀ n, fee n ≤ n) (run : Trace (Step fee) t es t') :
    t'.raised + total (charged fee) es = t.raised + total taken es := by
  refine run.invariant (fun es t' => t'.raised + total (charged fee) es = t.raised + total taken es)
    rfl fun es u e u' before step => ?_
  simp only [Entry.total_append, Entry.total_singleton]
  cases step with
  | take amount isOpen closed =>
    have := fee_le amount
    simp only [charged, taken]
    omega
  | sweep | pay _ | credit _ | refuse _ => exact before

/-- While the owner was not paid, the till holds what was raised and the house's part. -/
theorem Books.raised_covered (books : Books fee es t) (unpaid : ∀ n, .pay n ∉ es) :
    t.raised + t.fees ≤ t.held := by
  obtain ⟨covered, house, raised, cash⟩ := books
  have := Entry.total_paid_eq_zero unpaid
  omega

/-- Between payments of the owner only what strangers put in can be paid. -/
theorem paid_le_credited (fee_le : ∀ n, fee n ≤ n) (closed : t.closed = true)
    (empty : t.held = t.fees) (run : Trace (Step fee) t es t') :
    (∀ n, Entry.take n ∉ es) ∧ total paid es ≤ total credited es := by
  -- once closed and down to the house's part, a till only gains what strangers put in
  have settled : t'.closed = true ∧ (∀ n, Entry.take n ∉ es) ∧ t'.fees ≤ t'.held ∧
      t'.held + total paid es = t'.fees + total credited es := by
    refine run.invariant (fun es t' => t'.closed = true ∧ (∀ n, Entry.take n ∉ es) ∧
      t'.fees ≤ t'.held ∧ t'.held + total paid es = t'.fees + total credited es) ?_ ?_
    · exact ⟨closed, by simp, Nat.le_of_eq empty.symm, by simp [empty]⟩
    · rintro es u e u' ⟨closed, untaken, covered, balanced⟩ step
      have covered' := step.covered fee_le covered
      cases step with
      | take amount isOpen _ => exact absurd (closed.symm.trans isOpen) Bool.noConfusion
      | sweep | pay _ | credit _ | refuse _ =>
        refine ⟨closed, by simp [untaken], covered', ?_⟩
        simp only [Entry.total_append, Entry.total_singleton, paid, credited]
        omega
  exact ⟨settled.2.1, by omega⟩

/-- Once the owner was paid, no payment is taken, and the owner gets only what strangers
put in since. -/
theorem after_pay (fee_le : ∀ n, fee n ≤ n) {t₀ : Till} {n : ℕ} {fs : List (Entry ρ)}
    (run : Trace (Step fee) t₀ (es ++ .pay n :: fs) t) :
    (∀ m, Entry.take m ∉ fs) ∧ total paid fs ≤ total credited fs := by
  -- the history splits at the payment, which leaves the house's part
  obtain ⟨u, -, rest⟩ := run.split
  obtain ⟨u', payment, rest⟩ := rest.cons
  cases payment with
  | pay isClosed =>
    refine paid_le_credited fee_le ?_ rfl rest
    exact isClosed

end Till

end Antumbra.Math
