/-
# Runs of a transition system

A system is a step relation with a set of initial states, or a total function
that answers every request and leaves the state alone when it refuses, or a step
relation whose steps leave an entry in a history. In each form one induction turns
what a step preserves into what a run preserves.
-/

import Mathlib.Data.List.Induction
import Mathlib.Logic.Relation

namespace Antumbra.Math

section Relational

variable {σ : Type*} {init : σ → Prop} {step : σ → σ → Prop}

/-- The states some finite run leads to. -/
def Reachable (init : σ → Prop) (step : σ → σ → Prop) (s : σ) : Prop :=
  ∃ s₀, init s₀ ∧ Relation.ReflTransGen step s₀ s

theorem Reachable.start {s : σ} (h : init s) : Reachable init step s :=
  ⟨s, h, .refl⟩

theorem Reachable.next {s t : σ} (h : Reachable init step s) (hst : step s t) :
    Reachable init step t := by
  obtain ⟨s₀, h₀, run⟩ := h
  exact ⟨s₀, h₀, run.tail hst⟩

/-- What holds initially and survives every step from a reachable state holds in
every reachable state. -/
theorem Reachable.invariant (inv : σ → Prop) (start : ∀ s, init s → inv s)
    (preserved : ∀ s t, Reachable init step s → inv s → step s t → inv t)
    {s : σ} (h : Reachable init step s) : inv s := by
  obtain ⟨s₀, h₀, run⟩ := h
  induction run with
  | refl => exact start s₀ h₀
  | tail run hst ih => exact preserved _ _ ⟨s₀, h₀, run⟩ ih hst

/-- Where each step of one system is a run of another from every state related to its start,
and initial states are related to initial ones, reachable states are related to reachable ones. -/
theorem Reachable.simulate {τ : Type*} {init' : τ → Prop} {step' : τ → τ → Prop}
    {R : σ → τ → Prop} (start : ∀ s, init s → ∃ a, init' a ∧ R s a)
    (forward : ∀ s t a, step s t → R s a → ∃ b, Relation.ReflTransGen step' a b ∧ R t b)
    {s : σ} (h : Reachable init step s) : ∃ a, Reachable init' step' a ∧ R s a := by
  refine h.invariant (fun s => ∃ a, Reachable init' step' a ∧ R s a) ?_ ?_
  · intro s first
    obtain ⟨a, first', related⟩ := start s first
    exact ⟨a, .start first', related⟩
  · rintro s t - ⟨a, ⟨a₀, first, run⟩, related⟩ hst
    obtain ⟨b, more, related'⟩ := forward s t a hst related
    exact ⟨b, ⟨a₀, first, run.trans more⟩, related'⟩

end Relational

section Functional

variable {σ α : Type*} {step : σ → α → σ}

/-- An invariant of every step is an invariant of every run. -/
theorem foldl_invariant {inv : σ → Prop} (preserved : ∀ s a, inv s → inv (step s a))
    (as : List α) {s : σ} (h : inv s) : inv (as.foldl step s) := by
  induction as generalizing s with
  | nil => exact h
  | cons a as ih => exact ih (preserved s a h)

/-- A relation that every step from an invariant state respects, and that
composes, relates the two ends of a run. -/
theorem foldl_rel (inv : σ → Prop) (R : σ → σ → Prop) (refl : ∀ s, R s s)
    (trans : ∀ {s t u}, R s t → R t u → R s u) (preserved : ∀ s a, inv s → inv (step s a))
    (one : ∀ s a, inv s → R s (step s a)) (as : List α) {s : σ} (h : inv s) :
    R s (as.foldl step s) := by
  induction as generalizing s with
  | nil => exact refl s
  | cons a as ih => exact trans (one s a h) (ih (preserved s a h))

end Functional

section Labelled

variable {σ ε : Type*} {step : σ → ε → σ → Prop} {s t : σ}

/-- A run from `s`, with the history it leaves: one entry a step, oldest first. -/
inductive Trace (step : σ → ε → σ → Prop) (s : σ) : List ε → σ → Prop
  | start : Trace step s [] s
  | next {es : List ε} {t u : σ} {e : ε} (run : Trace step s es t) (last : step t e u) :
    Trace step s (es ++ [e]) u

/-- What holds of the empty history and survives every entry holds of every history. -/
theorem Trace.invariant (inv : List ε → σ → Prop) (start : inv [] s)
    (preserved : ∀ es t e u, inv es t → step t e u → inv (es ++ [e]) u) {es : List ε}
    (h : Trace step s es t) : inv es t := by
  induction h with
  | start => exact start
  | next run last ih => exact preserved _ _ _ _ ih last

theorem trace_nil_iff : Trace step s [] t ↔ t = s := by
  constructor
  · intro h
    generalize empty : [] = es at h
    cases h with
    | start => rfl
    | next run last => exact absurd empty (by simp)
  · rintro rfl
    exact .start

/-- A run is a run up to the last entry and the step that left it. -/
theorem trace_append_singleton_iff {es : List ε} {e : ε} :
    Trace step s (es ++ [e]) t ↔ ∃ m, Trace step s es m ∧ step m e t := by
  constructor
  · intro h
    generalize joined : es ++ [e] = whole at h
    cases h with
    | start => exact absurd joined (by simp)
    | next run last =>
      obtain ⟨rfl, same⟩ := List.append_inj' joined rfl
      obtain rfl := List.singleton_inj.mp same
      exact ⟨_, run, last⟩
  · rintro ⟨m, run, last⟩
    exact run.next last

/-- A history that falls in two parts comes from a run that does. -/
theorem Trace.split {es fs : List ε} (h : Trace step s (es ++ fs) t) :
    ∃ m, Trace step s es m ∧ Trace step m fs t := by
  -- from the last entry back: it belongs to the second part until that is used up
  induction fs using List.reverseRecOn generalizing t with
  | nil => exact ⟨t, by rwa [List.append_nil] at h, .start⟩
  | append_singleton fs f ih =>
    rw [← List.append_assoc] at h
    obtain ⟨u, run, last⟩ := trace_append_singleton_iff.mp h
    obtain ⟨m, first, second⟩ := ih run
    exact ⟨m, first, second.next last⟩

/-- The step behind the first entry of a history, and the run from there. -/
theorem Trace.cons {e : ε} {es : List ε} (h : Trace step s (e :: es) t) :
    ∃ m, step s e m ∧ Trace step m es t := by
  rw [← List.singleton_append] at h
  obtain ⟨m, first, rest⟩ := h.split
  rw [← List.nil_append [e], trace_append_singleton_iff] at first
  obtain ⟨_, before, last⟩ := first
  obtain rfl := trace_nil_iff.mp before
  exact ⟨m, last, rest⟩

/-- Two runs, the second from where the first ends. -/
theorem Trace.append {es fs : List ε} {u : σ} (h : Trace step s es t) (h' : Trace step t fs u) :
    Trace step s (es ++ fs) u := by
  induction h' with
  | start => rwa [List.append_nil]
  | next _ last ih =>
    rw [← List.append_assoc]
    exact ih.next last

end Labelled

section Simulation

variable {σ τ ε α : Type*} {step : σ → ε → σ → Prop} {step' : τ → α → τ → Prop}

/-- Where each step of one system is a run of another from every state related to its start,
ending in a state related to its end, a whole run is one too. -/
theorem Trace.simulate {R : σ → τ → Prop} {label : ε → List α}
    (forward : ∀ s e t a, step s e t → R s a → ∃ b, Trace step' a (label e) b ∧ R t b) {s t : σ}
    {es : List ε} (run : Trace step s es t) {a : τ} (start : R s a) :
    ∃ b, Trace step' a (es.flatMap label) b ∧ R t b := by
  induction run with
  | start => exact ⟨a, .start, start⟩
  | next _ last ih =>
    obtain ⟨b, before, related⟩ := ih
    obtain ⟨c, here, related'⟩ := forward _ _ _ _ last related
    refine ⟨c, ?_, related'⟩
    rw [List.flatMap_append, List.flatMap_singleton]
    exact before.append here

end Simulation

end Antumbra.Math
