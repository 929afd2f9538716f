/-
# Two-sided pools that never lose product

A pool holds two reserves. A move of the pool is fair when it does not lower the
product of the reserves; that is all a trader's path through the pool has to
respect for the pool to be safe. Over any fair path, returning one reserve to
where it was leaves at least as much of the other, and whoever brings back what
was taken finds the starting amount of the other reserve still there.
-/

import Antumbra.Math.Rounding

namespace Antumbra.Math

/-- The two reserves of a pool. -/
structure Pool where
  x : ℕ
  y : ℕ

namespace Pool

/-- The product the pool guards. -/
def product (p : Pool) : ℕ := p.x * p.y

/-- A move is fair when the product does not fall. -/
def Fair (p q : Pool) : Prop := p.product ≤ q.product

theorem Fair.refl (p : Pool) : p.Fair p := Nat.le_refl _

theorem Fair.trans {p q r : Pool} (h : p.Fair q) (h' : q.Fair r) : p.Fair r := Nat.le_trans h h'

/-- Paying `c` into one reserve and keeping the rounded-up rest of the other is fair. -/
theorem fair_of_ceilDiv {p q : Pool} {c : ℕ} (hc : 0 < c) (hy : q.y = p.y + c)
    (hx : q.x = (p.x * p.y) ⌈/⌉ (p.y + c)) : p.Fair q := by
  unfold Fair product
  rw [hx, hy, Nat.mul_comm _ (p.y + c)]
  exact le_mul_ceilDiv _ (by omega)

/-- The mirror image of `fair_of_ceilDiv`. -/
theorem fair_of_ceilDiv' {p q : Pool} {t : ℕ} (ht : 0 < t) (hx : q.x = p.x + t)
    (hy : q.y = (p.y * p.x) ⌈/⌉ (p.x + t)) : p.Fair q := by
  unfold Fair product
  rw [hx, hy, Nat.mul_comm p.x]
  exact le_mul_ceilDiv _ (by omega)

/-- A fair path that brings the first reserve back leaves no less of the second. -/
theorem Fair.le_of_eq {p q : Pool} (h : p.Fair q) (hx : 0 < p.x) (same : q.x = p.x) :
    p.y ≤ q.y := by
  unfold Fair product at h
  rw [same] at h
  exact Nat.le_of_mul_le_mul_left h hx

/-- While the first reserve is at most where it started, the rest kept against any
return of it is at least the second reserve's starting amount. -/
theorem Fair.le_rest {p q : Pool} (h : p.Fair q) {t : ℕ} (ht : 0 < t) (hx : q.x + t ≤ p.x) :
    p.y ≤ (q.y * q.x) ⌈/⌉ (q.x + t) := by
  by_contra short
  rw [not_le] at short
  -- if less were kept, the product would be below the one it started from
  have covered := le_mul_ceilDiv (q.y * q.x) (d := q.x + t) (by omega)
  have less : (q.x + t) * ((q.y * q.x) ⌈/⌉ (q.x + t)) < p.x * p.y :=
    Nat.lt_of_lt_of_le (Nat.mul_lt_mul_of_pos_left short (by omega))
      (Nat.mul_le_mul_right p.y hx)
  unfold Fair product at h
  rw [Nat.mul_comm q.x] at h
  omega

/-- Over a fair path that pays in at most `c`, what comes out of the other reserve is at
most the rounded-down output of one payment of `c`. -/
theorem Fair.taken_le {p q : Pool} (h : p.Fair q) {out c : ℕ} (hy : 0 < p.y)
    (taken : q.x + out = p.x) (paid : q.y ≤ p.y + c) : out ≤ p.x * c / (p.y + c) := by
  rw [Nat.le_div_iff_mul_le (by omega)]
  have kept : p.x * p.y ≤ q.x * (p.y + c) := Nat.le_trans h (Nat.mul_le_mul_left q.x paid)
  have whole : p.x * (p.y + c) = q.x * (p.y + c) + out * (p.y + c) := by
    rw [← taken, Nat.add_mul]
  rw [Nat.mul_add] at whole
  omega

/-- The same with the reserves exchanged. -/
theorem Fair.taken_le' {p q : Pool} (h : p.Fair q) {out t : ℕ} (hx : 0 < p.x)
    (taken : q.y + out = p.y) (paid : q.x ≤ p.x + t) : out ≤ p.y * t / (p.x + t) := by
  have mirrored : (⟨p.y, p.x⟩ : Pool).Fair ⟨q.y, q.x⟩ := by
    unfold Fair product at h ⊢
    rwa [Nat.mul_comm p.y, Nat.mul_comm q.y]
  exact mirrored.taken_le hx taken paid

/-! ### How far rounding takes the product -/

/-- A fair path that pays into one reserve, takes from the other, and raises the product by at
most `n` times the reserve paid into. -/
structure Tight (n : ℕ) (p q : Pool) : Prop where
  fair : p.Fair q
  drawn : q.x ≤ p.x
  paid : p.y ≤ q.y
  near : q.product ≤ p.product + n * q.y

theorem Tight.refl (p : Pool) : Tight 0 p p :=
  ⟨.refl p, Nat.le_refl _, Nat.le_refl _, Nat.le_add_right _ _⟩

theorem Tight.trans {n m : ℕ} {p q r : Pool} (h : Tight n p q) (h' : Tight m q r) :
    Tight (n + m) p r where
  fair := h.fair.trans h'.fair
  drawn := Nat.le_trans h'.drawn h.drawn
  paid := Nat.le_trans h.paid h'.paid
  near := by
    -- the earlier moves count with a reserve that is no larger than the last one
    have earlier := Nat.mul_le_mul_left n h'.paid
    have first := h.near
    have second := h'.near
    rw [Nat.add_mul]
    omega

/-- One payment that keeps the rounded-up rest raises the product by less than the reserve. -/
theorem tight_of_ceilDiv {p q : Pool} {c : ℕ} (hc : 0 < c) (hy : q.y = p.y + c)
    (hx : q.x = (p.x * p.y) ⌈/⌉ (p.y + c)) : Tight 1 p q where
  fair := fair_of_ceilDiv hc hy hx
  drawn := hx ▸ share_le p.x p.y (by omega)
  paid := by omega
  near := by
    have overshoot := mul_ceilDiv_lt (p.x * p.y) (d := p.y + c) (by omega)
    unfold product
    rw [hx, hy, Nat.mul_comm _ (p.y + c)]
    omega

/-- What comes out over such a path is what one payment of the whole would bring, up to `n`. -/
theorem Tight.taken {n : ℕ} {p q : Pool} (h : Tight n p q) {out c : ℕ} (hy : 0 < p.y)
    (taken : q.x + out = p.x) (paid : q.y = p.y + c) :
    out ≤ p.x * c / (p.y + c) ∧ p.x * c / (p.y + c) ≤ out + n := by
  refine ⟨h.fair.taken_le hy taken (Nat.le_of_eq paid), ?_⟩
  refine Nat.div_le_of_le_mul ?_
  have near := h.near
  unfold product at near
  rw [paid] at near
  have whole : p.x * (p.y + c) = q.x * (p.y + c) + out * (p.y + c) := by
    rw [← taken, Nat.add_mul]
  rw [Nat.mul_add] at whole
  rw [Nat.mul_comm (p.y + c), Nat.add_mul]
  omega

/-- At the end of such a path a payment brings no more than at its start. -/
theorem Tight.dearer {n : ℕ} {p q : Pool} (h : Tight n p q) (hy : 0 < p.y) (c : ℕ) :
    q.x * c / (q.y + c) ≤ p.x * c / (p.y + c) :=
  Nat.div_le_div (Nat.mul_le_mul_right c h.drawn) (Nat.add_le_add_right h.paid c) (by omega)

end Pool

end Antumbra.Math
