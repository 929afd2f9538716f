/-
# Computations that may refuse

A fallible computation answers with a value or an error. A chain of them answers
exactly when each link does, which is the only fact needed to read a chain of
checks as a conjunction.
-/

import Mathlib.Tactic.Common

namespace Antumbra.Math

universe u v

variable {ε : Type u} {α β : Type v}

/-- A chain answers exactly when its first link does and the rest does from there. -/
@[simp] theorem bind_eq_ok_iff {x : Except ε α} {f : α → Except ε β} {b : β} :
    (x >>= f) = .ok b ↔ ∃ a, x = .ok a ∧ f a = .ok b := by
  cases x with
  | error e => simp [bind, Except.bind]
  | ok a => simp [bind, Except.bind]

@[simp] theorem ok_bind (a : α) (f : α → Except ε β) :
    ((Except.ok a : Except ε α) >>= f) = f a := rfl

@[simp] theorem pure_eq_ok (a : α) : (pure a : Except ε α) = .ok a := rfl

/-- `ok_or`: an absent value is the given error. -/
def okOr (e : ε) : Option α → Except ε α
  | some a => .ok a
  | none => .error e

@[simp] theorem okOr_eq_ok_iff {e : ε} {o : Option α} {a : α} :
    okOr e o = .ok a ↔ o = some a := by
  cases o <;> simp [okOr]

/-- Go on exactly when a condition holds. -/
def ensure (ok : Prop) [Decidable ok] (e : ε) : Except ε Unit :=
  if ok then .ok () else .error e

@[simp] theorem ensure_eq_ok_iff {ok : Prop} [Decidable ok] {e : ε} {u : Unit} :
    ensure ok e = .ok u ↔ ok := by
  simp [ensure]

theorem ensure_of {ok : Prop} [Decidable ok] {e : ε} (h : ok) : ensure ok e = .ok () := if_pos h

theorem ensure_of_not {ok : Prop} [Decidable ok] {e : ε} (h : ¬ ok) : ensure ok e = .error e :=
  if_neg h

@[simp] theorem mapError_eq_ok_iff {ε' : Type u} {f : ε → ε'} {x : Except ε α} {a : α} :
    x.mapError f = .ok a ↔ x = .ok a := by
  cases x <;> simp [Except.mapError]

/-! ### Refusals -/

/-- A chain refuses where its first link does, or where the rest does. -/
theorem bind_eq_error_iff {x : Except ε α} {f : α → Except ε β} {e : ε} :
    (x >>= f) = .error e ↔ x = .error e ∨ ∃ a, x = .ok a ∧ f a = .error e := by
  cases x with
  | error e => simp [bind, Except.bind]
  | ok a => simp [bind, Except.bind]

/-- Two chains that begin alike refuse alike if their rests do. -/
theorem bind_error_mono {γ : Type v} {x : Except ε α} {f : α → Except ε β} {g : α → Except ε γ}
    {e : ε} (h : (x >>= f) = .error e) (rest : ∀ a, f a = .error e → g a = .error e) :
    (x >>= g) = .error e := by
  rw [bind_eq_error_iff] at h ⊢
  exact h.imp_right fun ⟨a, first, last⟩ => ⟨a, first, rest a last⟩

/-- An error the rest of a chain never gives comes from its first link. -/
theorem error_of_bind {x : Except ε α} {f : α → Except ε β} {e : ε} (h : (x >>= f) = .error e)
    (rest : ∀ a, f a ≠ .error e) : x = .error e :=
  (bind_eq_error_iff.mp h).resolve_right fun ⟨a, _, last⟩ => rest a last

theorem okOr_eq_error_iff {e e' : ε} {o : Option α} :
    okOr e o = .error e' ↔ o = none ∧ e = e' := by
  cases o <;> simp [okOr]

theorem ensure_eq_error_iff {ok : Prop} [Decidable ok] {e e' : ε} :
    ensure ok e = .error e' ↔ ¬ ok ∧ e = e' := by
  unfold ensure
  split <;> simp_all

/-- A chain that begins with a check refuses there or later. -/
theorem ensure_bind_eq_error_iff {γ : Type} {ok : Prop} [Decidable ok] {f : Unit → Except ε γ}
    {e e' : ε} : (ensure ok e >>= f) = .error e' ↔ (¬ ok ∧ e = e') ∨ ok ∧ f () = .error e' := by
  by_cases h : ok
  · rw [ensure_of h, ok_bind]
    simp [h]
  · rw [ensure_of_not h]
    change Except.error e = Except.error e' ↔ _
    simp [h]

theorem mapError_eq_error_iff {ε' : Type u} {f : ε → ε'} {x : Except ε α} {e' : ε'} :
    x.mapError f = .error e' ↔ ∃ e, x = .error e ∧ f e = e' := by
  cases x <;> simp [Except.mapError]

/-- A computation that did not answer gave an error. -/
theorem exists_error_of_ne_ok {x : Except ε α} (h : ∀ a, x ≠ .ok a) : ∃ e, x = .error e := by
  cases x with
  | error e => exact ⟨e, rfl⟩
  | ok a => exact absurd rfl (h a)

/-- The error of a computation that refuses. -/
def refusal : Except ε α → Option ε
  | .ok _ => none
  | .error e => some e

theorem refusal_eq_none_iff {x : Except ε α} : refusal x = none ↔ ∃ a, x = .ok a := by
  cases x <;> simp [refusal]

theorem refusal_eq_some_iff {x : Except ε α} {e : ε} : refusal x = some e ↔ x = .error e := by
  cases x <;> simp [refusal]

/-- A chain whose first link alone may refuse refuses as that link does. -/
theorem refusal_bind {x : Except ε α} {f : α → Except ε β}
    (answers : ∀ a, x = .ok a → refusal (f a) = none) : refusal (x >>= f) = refusal x := by
  cases x with
  | error e => rfl
  | ok a => exact answers a rfl

/-! ### Computations over a list -/

/-- Every answer of a list of computations is the answer of one of them. -/
theorem exists_of_mem_mapM {f : α → Except ε β} {xs : List α} {ys : List β}
    (h : xs.mapM f = .ok ys) {y : β} (hy : y ∈ ys) : ∃ x ∈ xs, f x = .ok y := by
  induction xs generalizing ys with
  | nil =>
    rw [List.mapM_nil, pure_eq_ok, Except.ok.injEq] at h
    subst h
    exact absurd hy List.not_mem_nil
  | cons x xs ih =>
    simp only [List.mapM_cons, bind_eq_ok_iff, pure_eq_ok, Except.ok.injEq] at h
    obtain ⟨y', first, ys', rest, rfl⟩ := h
    rcases List.mem_cons.mp hy with rfl | later
    · exact ⟨x, List.mem_cons_self, first⟩
    · obtain ⟨x', mem, answer⟩ := ih rest later
      exact ⟨x', List.mem_cons_of_mem x mem, answer⟩

/-- Each of a list of computations has its answer among the answers. -/
theorem exists_mem_of_mapM {f : α → Except ε β} {xs : List α} {ys : List β}
    (h : xs.mapM f = .ok ys) {x : α} (hx : x ∈ xs) : ∃ y ∈ ys, f x = .ok y := by
  induction xs generalizing ys with
  | nil => exact absurd hx List.not_mem_nil
  | cons x' xs ih =>
    simp only [List.mapM_cons, bind_eq_ok_iff, pure_eq_ok, Except.ok.injEq] at h
    obtain ⟨y, first, ys', rest, rfl⟩ := h
    rcases List.mem_cons.mp hx with rfl | later
    · exact ⟨y, List.mem_cons_self, first⟩
    · obtain ⟨y', mem, answer⟩ := ih rest later
      exact ⟨y', List.mem_cons_of_mem y mem, answer⟩

/-- What every step of a fallible run preserves, the whole run preserves. -/
theorem foldlM_invariant {γ : Type*} {f : α → γ → Except ε α} (inv : α → Prop) {xs : List γ}
    (preserved : ∀ a x a', x ∈ xs → inv a → f a x = .ok a' → inv a') {a a' : α}
    (h : xs.foldlM f a = .ok a') (start : inv a) : inv a' := by
  induction xs generalizing a with
  | nil =>
    rw [List.foldlM_nil, pure_eq_ok, Except.ok.injEq] at h
    exact h ▸ start
  | cons x xs ih =>
    rw [List.foldlM_cons, bind_eq_ok_iff] at h
    obtain ⟨mid, first, rest⟩ := h
    exact ih (fun b y b' hy => preserved b y b' (List.mem_cons_of_mem x hy)) rest
      (preserved a x mid List.mem_cons_self start first)

/-- The answers of a list of computations are those a function predicts of each. -/
theorem eq_map_of_mapM {f : α → Except ε β} {g : α → β} {xs : List α} {ys : List β}
    (h : xs.mapM f = .ok ys) (predicted : ∀ x ∈ xs, ∀ y, f x = .ok y → y = g x) :
    ys = xs.map g := by
  induction xs generalizing ys with
  | nil =>
    rw [List.mapM_nil, pure_eq_ok, Except.ok.injEq] at h
    exact h.symm
  | cons x xs ih =>
    simp only [List.mapM_cons, bind_eq_ok_iff, pure_eq_ok, Except.ok.injEq] at h
    obtain ⟨y, first, ys', rest, rfl⟩ := h
    rw [List.map_cons, ← predicted x List.mem_cons_self y first,
      ih rest fun x' mem => predicted x' (List.mem_cons_of_mem x mem)]

/-- A list is mapped where each of its elements is. -/
theorem exists_mapM_eq_ok {f : α → Except ε β} {xs : List α} (h : ∀ x ∈ xs, ∃ y, f x = .ok y) :
    ∃ ys, xs.mapM f = .ok ys := by
  induction xs with
  | nil => exact ⟨[], rfl⟩
  | cons x xs ih =>
    obtain ⟨y, first⟩ := h x List.mem_cons_self
    obtain ⟨ys, rest⟩ := ih fun x mem => h x (List.mem_cons_of_mem _ mem)
    exact ⟨y :: ys, by rw [List.mapM_cons, first, ok_bind, rest, ok_bind]; rfl⟩

/-- A list of checks passes when each does. -/
theorem forM_eq_ok_iff {f : α → Except ε PUnit} {xs : List α} {u : PUnit} :
    forM xs f = .ok u ↔ ∀ x ∈ xs, f x = .ok u := by
  induction xs with
  | nil => simp
  | cons x xs ih =>
    rw [List.forM_cons, bind_eq_ok_iff, List.forall_mem_cons, ← ih]
    exact ⟨fun ⟨_, first, rest⟩ => ⟨first, rest⟩, fun ⟨first, rest⟩ => ⟨u, first, rest⟩⟩

/-- Checks that pass wherever computations answer stop a list where these do, if they stop
each of them there. -/
theorem forM_eq_error_of_mapM {f : α → Except ε β} {g : α → Except ε PUnit} {e : ε} {xs : List α}
    (passes : ∀ x y, f x = .ok y → g x = .ok ⟨⟩) (stops : ∀ x, f x = .error e → g x = .error e)
    (h : xs.mapM f = .error e) : forM xs g = .error e := by
  induction xs with
  | nil =>
    rw [List.mapM_nil] at h
    cases h
  | cons x xs ih =>
    rw [List.mapM_cons, bind_eq_error_iff] at h
    rw [List.forM_cons, bind_eq_error_iff]
    rcases h with first | ⟨y, first, rest⟩
    · exact .inl (stops x first)
    · rw [bind_eq_error_iff] at rest
      rcases rest with rest | ⟨ys, -, last⟩
      · exact .inr ⟨⟨⟩, passes x y first, ih rest⟩
      · cases last

theorem length_of_mapM {f : α → Except ε β} {xs : List α} {ys : List β}
    (h : xs.mapM f = .ok ys) : ys.length = xs.length := by
  induction xs generalizing ys with
  | nil =>
    rw [List.mapM_nil, pure_eq_ok, Except.ok.injEq] at h
    subst h
    rfl
  | cons x xs ih =>
    simp only [List.mapM_cons, bind_eq_ok_iff, pure_eq_ok, Except.ok.injEq] at h
    obtain ⟨y, -, ys', rest, rfl⟩ := h
    rw [List.length_cons, List.length_cons, ih rest]

end Antumbra.Math
